/-
  When an id of the memory store names one item, and turns come back in the order of recording.

  What `turns` should return is what a `Map` keeps by itself: the conversation of the short tier in
  the order in which its items were first set (`recorded`; `recorded_recordTurn` says that a turn is
  added at its end).

  Structure of the argument:
  1. `list` names ids once, whatever the filter, iff no two tiers share an id (`nodup_list_iff`);
  2. `turns` is `recorded` iff the entries of the short tier stand in the order of the sort
     (`turns_eq_recorded_iff`);
  3. setting an item keeps both iff its id is in no other tier and it stands where its time and its
     id belong (`sound_setTier_iff`, `ordered_put_iff`);
  4. deleting, clearing and reopening leave fewer entries, in the same order (`Fewer.sound`).
-/
import NexusCode.Memory.Store

namespace NexusCode.Memory

open Lib List Option

/-! ## The tiers apart -/

/-- No two tiers hold the same id. -/
def OneTier (s : MemoryStore) : Prop :=
  ∀ id t t' x x', (s.tiers t).get? id = some x → (s.tiers t').get? id = some x' → t = t'

theorem searched_nodup : searched.Nodup := by decide

theorem nodup_all_iff (s : MemoryStore) :
    ((searched.flatMap fun t => (s.tiers t).values).map MemoryItem.id).Nodup ↔ OneTier s := by
  rw [map_flatMap, nodup_flatMap]
  constructor
  · rintro ⟨-, hapart⟩ id t t' x x' hx hx'
    by_contra hne
    have : Std.Symm (Function.onFun List.Disjoint fun t =>
        (s.tiers t).values.map MemoryItem.id) := ⟨fun _ _ h => h.symm⟩
    exact hapart.forall (mem_searched t) (mem_searched t') hne (((s.tiers t).mem_ids_iff id).mpr ⟨x, hx⟩)
      (((s.tiers t').mem_ids_iff id).mpr ⟨x', hx'⟩)
  · intro hone
    refine ⟨fun t _ => (s.tiers t).nodup_ids, searched_nodup.imp fun {t t'} hne => ?_⟩
    intro id hid hid'
    obtain ⟨x, hx⟩ := ((s.tiers t).mem_ids_iff id).mp hid
    obtain ⟨x', hx'⟩ := ((s.tiers t').mem_ids_iff id).mp hid'
    exact hne (hone id t t' x x' hx hx')

/-- **`list` names no id twice** iff no two tiers hold the same one. -/
theorem nodup_list_iff (s : MemoryStore) :
    (∀ filter, ((s.list filter).map MemoryItem.id).Nodup) ↔ OneTier s := by
  rw [← nodup_all_iff]
  constructor
  · intro h
    have hall := (((sortBy_perm _).map MemoryItem.id).nodup_iff).mp (h {})
    have hfilter : ∀ l : List MemoryItem, l.filter (MemoryStore.passes {}) = l := fun l =>
      filter_eq_self.mpr fun _ _ => rfl
    rw [hfilter] at hall
    exact hall
  · intro h filter
    refine (((sortBy_perm _).map MemoryItem.id).nodup_iff).mpr (h.sublist ?_)
    refine (filter_sublist.trans ?_).map MemoryItem.id
    cases filter.tier with
    | none => exact List.Sublist.refl _
    | some t =>
      show (([t] : List MemoryTier).flatMap _).Sublist _
      rw [flatMap_singleton]
      exact sublist_flatten_of_mem (mem_map_of_mem (mem_searched t))

/-! ## The order of the turns -/

/-- The conversation of the short tier, in the order in which its items were first set. -/
def recorded (s : MemoryStore) : List MemoryItem :=
  (s.tiers .short).values.filter fun x => x.kind = "conversation"

/-- Entries whose conversation stands in the order of the sort. -/
def Ordered (l : List (String × MemoryItem)) : Prop :=
  l.Pairwise fun e e' => e.2.kind = "conversation" → e'.2.kind = "conversation" →
    Before e.2.createdAt e.2.id e'.2.createdAt e'.2.id

theorem turns_eq (s : MemoryStore) : s.turns = sortBy byCreatedThenId (recorded s) := by
  have hpasses : MemoryStore.passes { tier := some .short, kind := some "conversation" } =
      fun x => decide (x.kind = "conversation") := by
    funext x
    simp [MemoryStore.passes]
  show sortBy _ ((([.short] : List MemoryTier).flatMap _).filter _) = _
  rw [flatMap_singleton, hpasses]
  rfl

theorem ordered_iff (s : MemoryStore) : Ordered (s.tiers .short).map.entries ↔
    (recorded s).Pairwise fun x y => byCreatedThenId x y ≤ 0 := by
  unfold recorded Tier.values JsMap.values Ordered
  rw [pairwise_filter, pairwise_map]
  simp only [decide_eq_true_eq, byCreatedThenId_nonpos_iff]

/-- **`turns` is in the order of recording** iff that is the order of the sort. -/
theorem turns_eq_recorded_iff (s : MemoryStore) :
    s.turns = recorded s ↔ Ordered (s.tiers .short).map.entries := by
  rw [turns_eq, ordered_iff]
  constructor
  · intro h
    rw [← h]
    exact pairwise_sortBy byCreatedThenId_lawful _
  · intro h
    exact h.insertionSort_eq

/-- An item created at `created` under `id` stands, once it is set, where it belongs among the
    conversation: behind what stands before its entry, and before what stands behind. -/
def Placed (created : Rat) (id : String) : List (String × MemoryItem) → Prop
  | [] => True
  | e :: rest =>
    if e.1 = id then
      ∀ e' ∈ rest, e'.2.kind = "conversation" → Before created id e'.2.createdAt e'.2.id
    else
      (e.2.kind = "conversation" → Before e.2.createdAt e.2.id created id) ∧
        Placed created id rest

theorem mem_put_of_mem {x : MemoryItem} {l : List (String × MemoryItem)} {e : String × MemoryItem}
    (he : e ∈ JsMap.put x.id x l) : e = (x.id, x) ∨ e ∈ l := by
  induction l with
  | nil => exact .inl (mem_singleton.mp he)
  | cons d l ih =>
    rw [JsMap.put] at he
    split at he
    · exact (mem_cons.mp he).imp_right (mem_cons_of_mem d)
    · rcases mem_cons.mp he with rfl | he
      · exact .inr mem_cons_self
      · exact (ih he).imp_right (mem_cons_of_mem d)

theorem self_mem_put (x : MemoryItem) (l : List (String × MemoryItem)) :
    (x.id, x) ∈ JsMap.put x.id x l := by
  induction l with
  | nil => exact mem_singleton.mpr rfl
  | cons d l ih =>
    rw [JsMap.put]
    split
    · exact mem_cons_self
    · exact mem_cons_of_mem d ih

/-- **Setting an item** keeps the order iff it is no conversation, or stands where it belongs. -/
theorem ordered_put_iff (x : MemoryItem) {l : List (String × MemoryItem)} (h : Ordered l) :
    Ordered (JsMap.put x.id x l) ↔ (x.kind = "conversation" → Placed x.createdAt x.id l) := by
  induction l with
  | nil => exact iff_of_true (pairwise_singleton _ _) fun _ => trivial
  | cons d l ih =>
    obtain ⟨hd, hl⟩ := pairwise_cons.mp h
    rw [JsMap.put, Placed]
    by_cases hkey : d.1 = x.id
    · rw [if_pos hkey, if_pos hkey]
      unfold Ordered
      rw [pairwise_cons, and_iff_left hl]
      exact ⟨fun h hx e he => h e he hx, fun h e he hx => h hx e he⟩
    · rw [if_neg hkey, if_neg hkey]
      unfold Ordered at ih ⊢
      rw [pairwise_cons, ih hl]
      constructor
      · rintro ⟨hfirst, hrest⟩ hx
        exact ⟨fun hc => hfirst (x.id, x) (self_mem_put x l) hc hx, hrest hx⟩
      · intro hplaced
        refine ⟨fun e he hc hx => ?_, fun hx => (hplaced hx).2⟩
        rcases mem_put_of_mem he with rfl | he
        · exact (hplaced hx).1 hc
        · exact hd e he hc hx

/-! ## What the operations keep -/

/-- What is listed names each id once, and the turns come in the order of recording. -/
def Sound (s : MemoryStore) : Prop :=
  (∀ filter, ((s.list filter).map MemoryItem.id).Nodup) ∧ s.turns = recorded s

theorem sound_iff (s : MemoryStore) :
    Sound s ↔ OneTier s ∧ Ordered (s.tiers .short).map.entries :=
  and_congr (nodup_list_iff s) (turns_eq_recorded_iff s)

/-- Some entries are gone, in each tier. -/
def Fewer (s s' : MemoryStore) : Prop :=
  ∀ t, (s'.tiers t).map.entries.Sublist (s.tiers t).map.entries

theorem Fewer.get? {s s' : MemoryStore} (h : Fewer s s') {t : MemoryTier} {id : String}
    {x : MemoryItem} (hx : (s'.tiers t).get? id = some x) : (s.tiers t).get? id = some x := by
  have hmem := ((s'.tiers t).map.mem_entries id x).mpr hx
  exact ((s.tiers t).map.mem_entries id x).mp ((h t).subset hmem)

theorem Fewer.sound {s s' : MemoryStore} (h : Fewer s s') (hs : Sound s) : Sound s' := by
  rw [sound_iff] at hs ⊢
  refine ⟨fun id t t' x x' hx hx' => ?_, hs.2.sublist (h .short)⟩
  exact hs.1 id t t' x x' (h.get? hx) (h.get? hx')

theorem Fewer.trans {s s' s'' : MemoryStore} (h : Fewer s s') (h' : Fewer s' s'') : Fewer s s'' :=
  fun t => (h' t).trans (h t)

section Steps

variable {opts : MemoryStoreOptions} {s : MemoryStore}

namespace MemoryStore

@[simp] theorem tiers_persistIfDurable (t : MemoryTier) :
    (s.persistIfDurable opts t).tiers = s.tiers := by
  unfold persistIfDurable save
  split
  · split <;> rfl
  · rfl

theorem tiers_setTier (t t' : MemoryTier) (m : Tier) :
    (s.setTier t m).tiers t' = if t' = t then m else s.tiers t' := rfl

@[simp] theorem tiers_setTier_self (t : MemoryTier) (m : Tier) : (s.setTier t m).tiers t = m :=
  if_pos rfl

theorem tiers_setTier_of_ne {t t' : MemoryTier} (m : Tier) (h : t' ≠ t) :
    (s.setTier t m).tiers t' = s.tiers t' := if_neg h

theorem tierOf_eq_some {id : String} {t : MemoryTier} (h : s.tierOf id = some t) :
    ∃ x, (s.tiers t).get? id = some x := by
  have hfound := List.find?_some (p := fun t => ((s.tiers t).get? id).isSome) h
  exact isSome_iff_exists.mp hfound

theorem tierOf_eq_none {id : String} (h : s.tierOf id = none) (t : MemoryTier) :
    (s.tiers t).get? id = none := by
  have hnone := List.find?_eq_none.mp h t (mem_searched t)
  rwa [Bool.not_eq_true, isSome_eq_false_iff, isNone_iff_eq_none] at hnone

end MemoryStore

open MemoryStore

/-- What was saved is what the durable tiers hold. -/
def Filed (opts : MemoryStoreOptions) (s : MemoryStore) : Prop :=
  opts.onDisk = true → ∀ t, isDurable t = true → (openMemory opts s.file).tiers t = s.tiers t

theorem filed_setTier (h : Filed opts s) (t : MemoryTier) (m : Tier) :
    Filed opts ((s.setTier t m).persistIfDurable opts t) := by
  intro hdisk t' hdurable
  rw [tiers_persistIfDurable]
  unfold persistIfDurable
  by_cases ht : isDurable t = true
  · -- what is loaded is what has just been saved
    rw [if_pos ht, save, if_pos hdisk]
    have hread : readFile opts (some ⟨((s.setTier t m).tiers .long).values,
        ((s.setTier t m).tiers .knowledge).values⟩) t' = ((s.setTier t m).tiers t').values := by
      cases t' with
      | short => nomatch hdurable
      | long => exact if_pos hdisk
      | knowledge => exact if_pos hdisk
    show Tier.load (readFile opts (some _) t') = _
    rw [hread]
    exact Tier.load_values _
  · rw [if_neg ht]
    have hne : t' ≠ t := fun heq => ht (heq ▸ hdurable)
    rw [tiers_setTier_of_ne m hne]
    exact h hdisk t' hdurable

theorem readFile_eq_nil {file : Option MemoryFileShape} {t : MemoryTier}
    (h : ¬ (opts.onDisk = true ∧ isDurable t = true)) : readFile opts file t = [] := by
  cases t with
  | short => rfl
  | long => exact if_neg fun hdisk => h ⟨hdisk, rfl⟩
  | knowledge => exact if_neg fun hdisk => h ⟨hdisk, rfl⟩

/-- A reopened store holds what the durable tiers held, if there is a file. -/
theorem fewer_reopen (h : Filed opts s) : Fewer s (openMemory opts s.file) := by
  intro t
  by_cases hsaved : opts.onDisk = true ∧ isDurable t = true
  · rw [h hsaved.1 t hsaved.2]
  · show (Tier.load (readFile opts s.file t)).map.entries.Sublist _
    rw [readFile_eq_nil hsaved]
    exact nil_sublist _

theorem filed_open (file : Option MemoryFileShape) : Filed opts (openMemory opts file) :=
  fun _ _ _ => rfl

theorem fewer_setTier (t : MemoryTier) {m : Tier}
    (h : m.map.entries.Sublist (s.tiers t).map.entries) :
    Fewer s ((s.setTier t m).persistIfDurable opts t) := by
  intro t'
  rw [tiers_persistIfDurable, tiers_setTier]
  split
  · rename_i heq
    rw [heq]
    exact h
  · exact List.Sublist.refl _

/-- **Setting an item** keeps what is listed sound iff no other tier has its id and it stands, if it
    is a turn, where it belongs. -/
theorem sound_setTier_iff (hs : Sound s) (t : MemoryTier) (x : MemoryItem) :
    Sound ((s.setTier t ((s.tiers t).set x)).persistIfDurable opts t) ↔
      (∀ t', t' ≠ t → (s.tiers t').get? x.id = none) ∧
      (t = .short → x.kind = "conversation" →
        Placed x.createdAt x.id (s.tiers .short).map.entries) := by
  obtain ⟨hone, hordered⟩ := (sound_iff s).mp hs
  rw [sound_iff]
  refine and_congr ?_ ?_
  · simp only [OneTier, tiers_persistIfDurable]
    constructor
    · intro h t' hne
      refine eq_none_iff_forall_ne_some.mpr fun y hy => hne ?_
      refine h x.id t' t y x ?_ ?_
      · rw [tiers_setTier_of_ne _ hne, hy]
      · rw [tiers_setTier_self, Tier.get?_set, if_pos rfl]
    · -- an id is in the tier that was set, or in one that was not
      intro hother id t₁ t₂ x₁ x₂ h₁ h₂
      have hkept : ∀ t' y, ((s.setTier t ((s.tiers t).set x)).tiers t').get? id = some y →
          (t' = t ∧ id = x.id) ∨ ∃ y, (s.tiers t').get? id = some y ∧ (t' = t ∨ id ≠ x.id) := by
        intro t' y hy
        by_cases ht : t' = t
        · subst ht
          rw [tiers_setTier_self, Tier.get?_set] at hy
          by_cases hid : x.id = id
          · exact .inl ⟨rfl, hid.symm⟩
          · rw [if_neg hid] at hy
            exact .inr ⟨y, hy, .inl rfl⟩
        · rw [tiers_setTier_of_ne _ ht] at hy
          refine .inr ⟨y, hy, .inr fun hid => ?_⟩
          rw [hid, hother t' ht] at hy
          cases hy
      rcases hkept t₁ x₁ h₁ with ⟨ht₁, hid₁⟩ | ⟨y₁, hy₁, hor₁⟩
      · rcases hkept t₂ x₂ h₂ with ⟨ht₂, -⟩ | ⟨-, -, hor₂⟩
        · rw [ht₁, ht₂]
        · rw [ht₁, hor₂.resolve_right (not_not_intro hid₁)]
      · rcases hkept t₂ x₂ h₂ with ⟨ht₂, hid₂⟩ | ⟨y₂, hy₂, -⟩
        · rw [ht₂, hor₁.resolve_right (not_not_intro hid₂)]
        · exact hone id t₁ t₂ y₁ y₂ hy₁ hy₂
  · rw [tiers_persistIfDurable, tiers_setTier]
    by_cases ht : t = .short
    · subst ht
      rw [if_pos rfl, ← ordered_put_iff x hordered]
      exact ⟨fun h _ => h, fun h => h rfl⟩
    · rw [if_neg (Ne.symm ht)]
      exact iff_of_true hordered fun h => absurd h ht

theorem get_eq_some (hs : OneTier s) {t : MemoryTier} {id : String} {x : MemoryItem}
    (hx : (s.tiers t).get? id = some x) : s.get id = some x := by
  have hother : ∀ t', t' ≠ t → (s.tiers t').get? id = none := fun t' hne =>
    eq_none_iff_forall_ne_some.mpr fun y hy => hne (hs id t' t y x hy hx)
  cases t with
  | short => simp [MemoryStore.get, searched, hx]
  | long => simp [MemoryStore.get, searched, hx, hother .short]
  | knowledge => simp [MemoryStore.get, searched, hx, hother .short, hother .long]

theorem get_eq_none {id : String} (h : ∀ t, (s.tiers t).get? id = none) : s.get id = none :=
  List.findSome?_eq_none_iff.mpr fun t _ => h t

theorem get_set {t : MemoryTier} {x : MemoryItem}
    (hs : Sound ((s.setTier t ((s.tiers t).set x)).persistIfDurable opts t)) :
    ((s.setTier t ((s.tiers t).set x)).persistIfDurable opts t).get x.id = some x := by
  refine get_eq_some ((sound_iff _).mp hs).1 (t := t) ?_
  rw [tiers_persistIfDurable, tiers_setTier_self, Tier.get?_set, if_pos rfl]

theorem fewer_delete (id : String) : Fewer s (s.delete opts id).2 := by
  unfold MemoryStore.delete
  split
  · exact fun _ => List.Sublist.refl _
  · exact fewer_setTier _ filter_sublist

/-- **A deleted id** names nothing, in a sound store. -/
theorem get_delete (hs : Sound s) (id : String) : (s.delete opts id).2.get id = none := by
  refine get_eq_none fun t => ?_
  unfold MemoryStore.delete
  split
  · rename_i hnone
    exact tierOf_eq_none hnone t
  · rename_i t' hfound
    obtain ⟨x, hx⟩ := tierOf_eq_some hfound
    show (((s.setTier t' ((s.tiers t').delete id)).persistIfDurable opts t').tiers t).get? id = none
    rw [tiers_persistIfDurable, tiers_setTier]
    split
    · rw [Tier.get?_delete, if_pos rfl]
    · rename_i hne
      refine eq_none_iff_forall_ne_some.mpr fun y hy => hne ?_
      exact ((sound_iff s).mp hs).1 id t t' y x hy hx

theorem filed_put (h : Filed opts s) (input : MemoryPut) (ts : Rat) (uuid : String) :
    Filed opts (s.put opts input ts uuid).2 := filed_setTier h _ _

theorem filed_delete (h : Filed opts s) (id : String) : Filed opts (s.delete opts id).2 := by
  unfold MemoryStore.delete
  split
  · exact h
  · exact filed_setTier h _ _

theorem filed_update (h : Filed opts s) (id : String) (patch : MemoryPatch) (ts : Rat) :
    Filed opts (s.update opts id patch ts).2 := by
  unfold MemoryStore.update
  split
  · exact h
  · split
    · exact h
    · exact filed_setTier h _ _

theorem clear_keeps (tier : Option MemoryTier) (h : Filed opts s) :
    Fewer s (s.clear opts tier) ∧ Filed opts (s.clear opts tier) := by
  unfold MemoryStore.clear
  generalize tier.elim searched (fun tier => [tier]) = targets
  induction targets generalizing s with
  | nil => exact ⟨fun _ => List.Sublist.refl _, h⟩
  | cons t targets ih =>
    obtain ⟨hfewer, hfiled⟩ := ih (filed_setTier h t Tier.empty)
    exact ⟨(fewer_setTier t (nil_sublist _)).trans hfewer, hfiled⟩

end Steps

/-! ## Runs -/

section Runs

variable (opts : MemoryStoreOptions)

/-- What `randomUUID()` answers makes an id that no item has. -/
def Fresh (s : MemoryStore) : Operation → Prop
  | .put input _ uuid => input.id = none → ∀ t, (s.tiers t).get? ("mem_" ++ uuid) = none
  | .recordTurn _ _ _ uuid => ∀ t, (s.tiers t).get? ("mem_" ++ uuid) = none
  | _ => True

/-- What an operation promises about the id it is given, or makes. -/
def Answered (s : MemoryStore) : Operation → Prop
  | .put input ts uuid =>
    let (x, s') := s.put opts input ts uuid
    s'.get x.id = some x
  | .delete id => (s.delete opts id).2.get id = none
  | .recordTurn role text ts uuid =>
    let (x, s') := s.recordTurn opts role text ts uuid
    s'.get x.id = some x ∧ recorded s' = recorded s ++ [x]
  | .setScratchpad text ts uuid =>
    let (x, s') := s.setScratchpad opts text ts uuid
    s'.get x.id = some x
  | .update .. | .clear _ | .reopen => True

/-- After the operation its id names what it should, each id is listed once, and the turns come in
    the order of recording. -/
def NamesOne (s : MemoryStore) (op : Operation) : Prop :=
  Answered opts s op ∧ Sound ((machine opts).step s op).2

/-- An item put under this id is the only one with it and, if it is a turn, stands where it
    belongs. -/
def Fits (s : MemoryStore) (tier : MemoryTier) (id kind : String) (ts : Rat) : Prop :=
  (∀ t, t ≠ tier → (s.tiers t).get? id = none) ∧
  (tier = .short → kind = "conversation" →
    Placed (s.createdAt .short id ts) id (s.tiers .short).map.entries)

/-- The operation puts no id that another tier has, and no turn out of its place. -/
def Fitting (s : MemoryStore) : Operation → Prop
  | .put input ts uuid => Fits s input.tier (MemoryStore.idOf input uuid) input.kind ts
  | .update id patch _ =>
    ∀ cur, (s.tiers .short).get? id = some cur → patch.kind.getD cur.kind = "conversation" →
      Placed cur.createdAt id (s.tiers .short).map.entries
  | .recordTurn _ _ ts uuid => Fits s .short ("mem_" ++ uuid) "conversation" ts
  | .setScratchpad _ ts _ => Fits s .short scratchpadId "scratchpad" ts
  | .delete _ | .clear _ | .reopen => True

variable {opts} {s : MemoryStore}

open MemoryStore

theorem put_sound_iff (opts : MemoryStoreOptions) (hs : Sound s) (input : MemoryPut) (ts : Rat)
    (uuid : String) :
    Sound (s.put opts input ts uuid).2 ↔ Fits s input.tier (idOf input uuid) input.kind ts := by
  refine (sound_setTier_iff hs input.tier _).trans (and_congr_right fun _ => ?_)
  have hcreated : ∀ t : MemoryTier, t = .short →
      s.createdAt t (idOf input uuid) ts = s.createdAt .short (idOf input uuid) ts := by
    intro t ht
    rw [ht]
  refine forall_congr' fun htier => ?_
  rw [← hcreated input.tier htier]

/-- **Recording a turn** adds it at the end of what is recorded. -/
theorem recorded_recordTurn (role text : String) (ts : Rat) {uuid : String}
    (hfresh : (s.tiers .short).get? ("mem_" ++ uuid) = none) :
    recorded (s.recordTurn opts role text ts uuid).2 =
      recorded s ++ [(s.recordTurn opts role text ts uuid).1] := by
  have hnew : "mem_" ++ uuid ∉ (s.tiers .short).map.entries.map Prod.fst :=
    ((s.tiers .short).map.get?_eq_none _).mp hfresh
  unfold recorded recordTurn put
  dsimp only
  rw [tiers_persistIfDurable, tiers_setTier_self]
  unfold Tier.values JsMap.values
  show ((JsMap.put ("mem_" ++ uuid) _ (s.tiers .short).map.entries).map Prod.snd).filter _ = _
  rw [JsMap.put_of_fresh _ hnew, map_append, filter_append]
  rfl

theorem update_sound_iff (hs : Sound s) (id : String) (patch : MemoryPatch) (ts : Rat) :
    Sound (s.update opts id patch ts).2 ↔ Fitting s (.update id patch ts) := by
  have hone := ((sound_iff s).mp hs).1
  unfold MemoryStore.update
  split
  · -- there is no item
    rename_i hnone
    refine iff_of_true hs fun cur hcur => ?_
    rw [tierOf_eq_none hnone .short] at hcur
    cases hcur
  · rename_i t hfound
    obtain ⟨cur, hcur⟩ := tierOf_eq_some hfound
    rw [hcur]
    have hid : cur.id = id := (s.tiers t).keyed hcur
    refine (sound_setTier_iff hs t (patched cur patch ts)).trans ?_
    have hother : ∀ t', t' ≠ t → (s.tiers t').get? cur.id = none := fun t' hne =>
      eq_none_iff_forall_ne_some.mpr fun y hy => hne (hone _ t' t y cur (hid ▸ hy) hcur)
    refine (and_iff_right hother).trans ?_
    constructor
    · intro h cur' hcur' hkind
      have ht : t = .short := hone id t .short cur cur' hcur hcur'
      subst ht
      rw [hcur] at hcur'
      cases hcur'
      rw [← hid]
      exact h rfl hkind
    · intro h ht hkind
      subst ht
      have hplaced := h cur hcur hkind
      rw [← hid] at hplaced
      exact hplaced

theorem step_iff (hs : Sound s) (op : Operation) (hfiled : Filed opts s) (hfresh : Fresh s op) :
    NamesOne opts s op ↔ Fitting s op := by
  cases op with
  | put input ts uuid =>
    refine Iff.trans ?_ (put_sound_iff opts hs input ts uuid)
    exact ⟨And.right, fun h => ⟨get_set h, h⟩⟩
  | update id patch ts =>
    exact (and_iff_right trivial).trans (update_sound_iff hs id patch ts)
  | delete id =>
    exact iff_of_true ⟨get_delete hs id, (fewer_delete id).sound hs⟩ trivial
  | clear tier =>
    exact iff_of_true ⟨trivial, (clear_keeps tier hfiled).1.sound hs⟩ trivial
  | recordTurn role text ts uuid =>
    refine Iff.trans ?_ (put_sound_iff opts hs
      { tier := .short, kind := "conversation", text, tags := some ["role:" ++ role],
        source := some opts.sessionId } ts uuid)
    exact ⟨And.right, fun h => ⟨⟨get_set h, recorded_recordTurn role text ts (hfresh .short)⟩, h⟩⟩
  | setScratchpad text ts uuid =>
    refine Iff.trans ?_ (put_sound_iff opts hs
      { tier := .short, kind := "scratchpad", text, id := some scratchpadId,
        source := some opts.sessionId } ts uuid)
    exact ⟨And.right, fun h => ⟨get_set h, h⟩⟩
  | reopen =>
    exact iff_of_true ⟨trivial, (fewer_reopen hfiled).sound hs⟩ trivial

theorem filed_step (h : Filed opts s) (op : Operation) :
    Filed opts ((machine opts).step s op).2 := by
  cases op with
  | put input ts uuid => exact filed_put h input ts uuid
  | update id patch ts => exact filed_update h id patch ts
  | delete id => exact filed_delete h id
  | clear tier => exact (clear_keeps tier h).2
  | recordTurn role text ts uuid => exact filed_put h _ ts uuid
  | setScratchpad text ts uuid => exact filed_put h _ ts uuid
  | reopen => exact filed_open s.file

/-- **A restart keeps what is durable**: after every run on any file, the file holds the durable
    tiers. -/
theorem filed_run (opts : MemoryStoreOptions) (file : Option MemoryFileShape)
    (ops : List Operation) : Filed opts ((machine opts).run (openMemory opts file) ops) :=
  Machine.run_invariant (I := Filed opts) (fun _ op h => filed_step h op) ops (filed_open file)

theorem get?_open (t : MemoryTier) (id : String) :
    ((openMemory opts none).tiers t).get? id = none := by
  have hread : readFile opts none t = [] := by
    cases t with
    | short => rfl
    | long => exact ite_self _
    | knowledge => exact ite_self _
  show (Tier.load (readFile opts none t)).get? id = none
  rw [hread]
  rfl

theorem sound_open : Sound (openMemory opts none) := by
  rw [sound_iff]
  refine ⟨fun id t t' x x' hx => ?_, List.Pairwise.nil⟩
  rw [get?_open] at hx
  cases hx

/-- **An id names one item, and turns come in the order of recording**, all along a run, iff no
    operation puts an id that another tier has, or a turn out of its place. -/
theorem names_one_iff (opts : MemoryStoreOptions) (ops : List Operation)
    (hfresh : (machine opts).Always Fresh (openMemory opts none) ops) :
    (machine opts).Always (NamesOne opts) (openMemory opts none) ops ↔
      (machine opts).Always Fitting (openMemory opts none) ops := by
  have hinit : Sound (openMemory opts none) ∧ Filed opts (openMemory opts none) :=
    ⟨sound_open, filed_open none⟩
  constructor
  · intro h
    refine Machine.Always.of_invariant (I := fun s => Sound s ∧ Filed opts s)
      (fun s op hs hop => ?_) (hfresh.and h) hinit
    exact ⟨(step_iff hs.1 op hs.2 hop.1).mp hop.2, hop.2.2, filed_step hs.2 op⟩
  · intro h
    refine Machine.Always.of_invariant (I := fun s => Sound s ∧ Filed opts s)
      (fun s op hs hop => ?_) (hfresh.and h) hinit
    have hnames := (step_iff hs.1 op hs.2 hop.1).mpr hop.2
    exact ⟨hnames, hnames.2, filed_step hs.2 op⟩

/-- A note of the long tier and a turn. -/
theorem names_one_noted :
    (machine { onDisk := true }).Always (NamesOne { onDisk := true })
      (openMemory { onDisk := true } none)
      [.put { tier := .long, kind := "preference", text := "tabs", id := some "a" } 1 "",
        .recordTurn "user" "hi" 2 "0"] := by
  refine (names_one_iff { onDisk := true }
    [.put { tier := .long, kind := "preference", text := "tabs", id := some "a" } 1 "",
      .recordTurn "user" "hi" 2 "0"] ⟨nofun, fun t => ?_, trivial⟩).mpr
    ⟨⟨fun t _ => get?_open t _, nofun⟩, ⟨fun t _ => ?_, fun _ _ => trivial⟩, trivial⟩
  · cases t <;> decide +kernel
  · cases t <;> decide +kernel

/-- **The id of an item of the short tier** hides the item that is put under it in the long one. -/
theorem hidden_by_short :
    ¬ ∀ (opts : MemoryStoreOptions) (ops : List Operation),
      (machine opts).Always Fresh (openMemory opts none) ops →
      (machine opts).Always (NamesOne opts) (openMemory opts none) ops := by
  intro h
  have hnames := h { onDisk := false }
    [.put { tier := .short, kind := "note", text := "one", id := some "a" } 1 "",
      .put { tier := .long, kind := "note", text := "two", id := some "a" } 2 ""]
    ⟨nofun, nofun, trivial⟩
  have hget := hnames.2.1.1
  revert hget
  show ¬ _ = some _
  decide +kernel

end Runs

end NexusCode.Memory
