/-
  What the operations of the breaker do to its records.

  The list of records stands for a `Map`: no key occurs twice, and every record is stored under the
  key of its scope (`Kept`, with the bound on their number).  Every operation rewrites records in
  place, deletes some, or adds one, as their identities (`idents`) show.  So the records an
  operation works on are kept in every run (`run_kept`), whatever the store file held.

  The second half of the file describes `prune` on a store that holds one record too many
  (`prune_full`) and the state each operation leaves.
-/
import NexusCode.Circuit.Breaker

namespace NexusCode.Circuit

open Lib Shared List

/-! ## Identities -/

/-- The keys and scopes of the records, in order. -/
def idents (es : List Entry) : List (String × Target) := es.map fun e => (e.key, e.target)

variable {f : Entry → Entry}

theorem idents_map (hf : ∀ e, (f e).key = e.key ∧ (f e).target = e.target)
    (es : List Entry) : idents (es.map f) = idents es := by
  simp only [idents, map_map]
  exact map_congr_left fun e _ => Prod.ext (hf e).1 (hf e).2

theorem idents_shift (delta : Int) (es : List Entry) :
    idents (es.map (shiftEntry delta)) = idents es :=
  idents_map (f := shiftEntry delta) (fun _ => ⟨rfl, rfl⟩) es

variable {p : Entry → Bool}

theorem idents_updateIf
    (hf : ∀ e, (f e).key = e.key ∧ (f e).target = e.target) (es : List Entry) :
    idents (updateIf p f es) = idents es := by
  refine idents_map (fun e => ?_) es
  split
  · exact hf e
  · exact ⟨rfl, rfl⟩

theorem updateIf_of_none {es : List Entry}
    (h : ∀ e ∈ es, p e = false) : updateIf p f es = es := by
  refine (map_congr_left fun e he => ?_).trans (List.map_id es)
  rw [h e he]
  rfl

@[simp] theorem idents_length (es : List Entry) : (idents es).length = es.length := by
  simp [idents]

theorem map_key_eq (es : List Entry) : es.map (·.key) = (idents es).map (·.1) := by
  simp [idents, map_map, Function.comp_def]

/-- The records of a map: distinct keys, each the key of its scope, at most `maxEntries`. -/
structure Kept (o : Options) (es : List Entry) : Prop where
  nodup : (es.map (·.key)).Nodup
  key_eq : ∀ e ∈ es, e.key = keyOf e.target
  bounded : es.length ≤ o.maxEntries

variable {o : Options} {es es' : List Entry}

theorem Kept.nil (o : Options) : Kept o [] := 
  ⟨nodup_nil, fun _ h => absurd h not_mem_nil, Nat.zero_le _⟩

theorem Kept.of_idents (hk : Kept o es) (h : idents es' = idents es) : Kept o es' := by
  refine ⟨?_, fun e he => ?_, ?_⟩
  · rw [map_key_eq, h, ← map_key_eq]
    exact hk.nodup
  · have hm : (e.key, e.target) ∈ idents es := h ▸ mem_map_of_mem he
    obtain ⟨e₀, he₀, heq⟩ := mem_map.mp hm
    have h₁ := congrArg Prod.fst heq
    have h₂ := congrArg Prod.snd heq
    simp only at h₁ h₂
    rw [← h₁, ← h₂]
    exact hk.key_eq e₀ he₀
  · rw [← idents_length, h, idents_length]
    exact hk.bounded

theorem Kept.sublist (hk : Kept o es) (h : es'.Sublist es) : Kept o es' :=
  ⟨(h.map _).nodup hk.nodup, fun e he => hk.key_eq e (h.subset he), h.length_le.trans hk.bounded⟩

variable {l : List Entry}

theorem eq_of_key_eq (hl : (l.map (·.key)).Nodup) {a b : Entry} (ha : a ∈ l)
    (hb : b ∈ l) (h : a.key = b.key) : a = b :=
  inj_on_of_nodup_map hl ha hb h

variable {e : Entry}

theorem get_eq_some (hl : (l.map (·.key)).Nodup) {key : String} :
    get key l = some e ↔ e ∈ l ∧ e.key = key := by
  constructor
  · intro h
    exact ⟨mem_of_find?_eq_some h, by simpa using List.find?_some h⟩
  · rintro ⟨he, rfl⟩
    cases h : get e.key l with
    | none =>
      have hne := List.find?_eq_none.mp h e he
      simp at hne
    | some e' =>
      have hk : e'.key = e.key := by simpa using List.find?_some h
      rw [eq_of_key_eq hl (mem_of_find?_eq_some h) he hk]

/-! ## Adding and deleting -/

theorem ensure_of_mem {scope : Target} (he : e ∈ es) (hkey : e.key = keyOf scope) :
    ensure scope es = es := by
  rw [ensure, if_pos (any_eq_true.mpr ⟨e, he, by simpa using hkey⟩)]

theorem ensure_of_new {scope : Target} (h : ∀ e ∈ es, e.key ≠ keyOf scope) :
    ensure scope es = es ++ [freshEntry scope] := by
  rw [ensure, if_neg (by simpa using h)]

theorem append_new_spec {new : Entry} (hn : (es.map (·.key)).Nodup)
    (hk : ∀ e ∈ es, e.key = keyOf e.target) (hnew : ∀ e ∈ es, e.key ≠ new.key)
    (hkey : new.key = keyOf new.target) :
    ((es ++ [new]).map (·.key)).Nodup ∧ (∀ e ∈ es ++ [new], e.key = keyOf e.target) ∧
      (es ++ [new]).length ≤ es.length + 1 := by
  refine ⟨?_, fun e he => ?_, by simp⟩
  · rw [map_append, nodup_append]
    refine ⟨hn, by simp, fun a ha b hb => ?_⟩
    obtain ⟨e, he, rfl⟩ := mem_map.mp ha
    rw [map_singleton, mem_singleton] at hb
    rw [hb]
    exact hnew e he
  · rcases mem_append.mp he with he | he
    · exact hk e he
    · rw [mem_singleton.mp he]
      exact hkey

/-- `ensure` keeps the keys distinct and adds at most one record. -/
theorem ensure_spec (scope : Target) (hn : (es.map (·.key)).Nodup)
    (hk : ∀ e ∈ es, e.key = keyOf e.target) :
    ((ensure scope es).map (·.key)).Nodup ∧ (∀ e ∈ ensure scope es, e.key = keyOf e.target) ∧
      (ensure scope es).length ≤ es.length + 1 := by
  unfold ensure
  split
  · exact ⟨hn, hk, Nat.le_succ _⟩
  · rename_i h
    exact append_new_spec hn hk (by simpa using h) rfl

/-- The number of records afterwards depends on their identities only. -/
theorem ensure_length_congr (scope : Target) (h : idents es' = idents es) :
    (ensure scope es').length = (ensure scope es).length := by
  have hany : ∀ l : List Entry, l.any (·.key = keyOf scope) =
      (idents l).any (·.1 = keyOf scope) := by
    intro l
    rw [idents, any_map]
    rfl
  have hlen : es'.length = es.length := by rw [← idents_length, h, idents_length]
  unfold ensure
  rw [hany es', hany es, h]
  split <;> simp [hlen]

theorem exists_mem_ensure (scope : Target) (es : List Entry) :
    ∃ e ∈ ensure scope es, e.key = keyOf scope := by
  by_cases h : ∃ e ∈ es, e.key = keyOf scope
  · obtain ⟨e, he, hk⟩ := h
    exact ⟨e, by rwa [ensure_of_mem he hk], hk⟩
  · push Not at h
    rw [ensure_of_new h]
    exact ⟨freshEntry scope, by simp, rfl⟩

theorem delete_sublist (key : String) (es : List Entry) : (delete key es).Sublist es :=
  filter_sublist

theorem delete_length (he : e ∈ es) (hn : (es.map (·.key)).Nodup) :
    (delete e.key es).length + 1 = es.length := by
  have hsplit := length_eq_length_filter_add (l := es) fun e' => decide (e'.key ≠ e.key)
  have hone : es.filter (fun e' => !decide (e'.key ≠ e.key)) = [e] := by
    have hnd : es.Nodup := List.Nodup.of_map _ hn
    refine (perm_singleton.mp ?_)
    refine (perm_ext_iff_of_nodup (hnd.filter _) (nodup_singleton e)).mpr fun a => ?_
    rw [mem_filter, mem_singleton]
    constructor
    · rintro ⟨ha, hk⟩
      exact eq_of_key_eq hn ha he (by simpa using hk)
    · rintro rfl
      exact ⟨he, by simp⟩
  rw [hone] at hsplit
  exact hsplit.symm

/-! ## Pruning -/

theorem evict_of_le {bound : Nat} (l : List Entry) (h : es.length ≤ bound) :
    evict bound p l es = es := by
  cases l with
  | nil => rfl
  | cons e l => rw [evict, if_pos h]

theorem evict_sublist (bound : Nat) (p : Entry → Bool) (l es : List Entry) :
    (evict bound p l es).Sublist es := by
  induction l generalizing es with
  | nil => exact List.Sublist.refl _
  | cons e l ih =>
    unfold evict
    split
    · exact List.Sublist.refl _
    · split
      · exact (ih _).trans (delete_sublist _ _)
      · exact ih _

/-- Going through all records without exception makes the store fit. -/
theorem evict_length (bound : Nat) (l es : List Entry) (h : ∀ e ∈ es, ∃ a ∈ l, a.key = e.key) :
    (evict bound (fun _ => true) l es).length ≤ bound := by
  induction l generalizing es with
  | nil =>
    cases es with
    | nil => exact Nat.zero_le _
    | cons e es => exact absurd (h e mem_cons_self) (by simp)
  | cons a l ih =>
    unfold evict
    split
    · assumption
    · refine ih _ fun e he => ?_
      obtain ⟨he, hne⟩ := mem_filter.mp he
      obtain ⟨b, hb, hbk⟩ := h e he
      rcases mem_cons.mp hb with rfl | hb
      · exact absurd hbk.symm (by simpa using hne)
      · exact ⟨b, hb, hbk⟩

/-- One record too many: the loop deletes the first one it may, and stops. -/
theorem evict_one {bound : Nat} (hl : ∀ e ∈ l, e ∈ es)
    (hn : (es.map (·.key)).Nodup) (hlen : es.length = bound + 1) :
    evict bound p l es = match l.find? p with
      | some e => delete e.key es
      | none => es := by
  induction l with
  | nil => rfl
  | cons e l ih =>
    rw [evict, if_neg (by omega)]
    by_cases hp : p e = true
    · have hd := delete_length (hl e mem_cons_self) hn
      rw [if_pos hp, List.find?_cons_of_pos hp, evict_of_le _ (by omega)]
    · rw [if_neg hp, List.find?_cons_of_neg hp]
      exact ih fun e he => hl e (mem_cons_of_mem _ he)

theorem prune_sublist (o : Options) (es : List Entry) : (prune o es).Sublist es := by
  unfold prune
  split
  · exact List.Sublist.refl _
  · exact (evict_sublist _ _ _ _).trans (evict_sublist _ _ _ _)

theorem prune_of_le (h : es.length ≤ o.maxEntries) : prune o es = es := if_pos h

theorem prune_length (o : Options) (es : List Entry) : (prune o es).length ≤ o.maxEntries := by
  unfold prune
  split
  · assumption
  · refine evict_length _ _ _ fun e he => ⟨e, ?_, rfl⟩
    exact (mem_insertionSort _).mpr ((evict_sublist _ _ _ _).subset he)

/-- The records by the moment they were last touched. -/
def oldest (es : List Entry) : List Entry := es.insertionSort fun a b => a.stamp ≤ b.stamp

/-- **Pruning one record.**  The longest untouched closed one goes; without a closed one, the
    longest untouched of all. -/
theorem prune_full (hn : (es.map (·.key)).Nodup) (hlen : es.length = o.maxEntries + 1) :
    prune o es = match (oldest es).find? (·.state = .closed) with
      | some e => delete e.key es
      | none => match (oldest es).head? with
        | some e => delete e.key es
        | none => es := by
  have hmem : ∀ e ∈ oldest es, e ∈ es := fun e he => (mem_insertionSort _).mp he
  show (if es.length ≤ o.maxEntries then es
    else evict o.maxEntries (fun _ => true) (oldest es)
      (evict o.maxEntries (·.state = .closed) (oldest es) es)) = _
  rw [if_neg (by omega), evict_one hmem hn hlen]
  cases hf : (oldest es).find? (·.state = .closed) with
  | some e =>
    have he : e ∈ es := hmem e (mem_of_find?_eq_some hf)
    have hd := delete_length he hn
    exact evict_of_le _ (show (delete e.key es).length ≤ _ by omega)
  | none =>
    simp only
    rw [evict_one hmem hn hlen]
    cases oldest es with
    | nil => rfl
    | cons e l => rfl

/-! ## Loading -/

theorem validEntry_key {raw : Entry} (h : validEntry raw = some e) : e.key = keyOf e.target := by
  unfold validEntry at h
  split at h
  · nomatch h
  · rw [← Option.some.inj h]

theorem put_spec {entry : Entry} (hn : (es.map (·.key)).Nodup)
    (hk : ∀ e ∈ es, e.key = keyOf e.target) (hentry : entry.key = keyOf entry.target) :
    ((put entry es).map (·.key)).Nodup ∧ (∀ e ∈ put entry es, e.key = keyOf e.target) ∧
      (put entry es).length ≤ es.length + 1 := by
  unfold put
  split
  · refine ⟨?_, fun e he => ?_, by simp⟩
    · have hkeys : (es.map fun e => if e.key = entry.key then entry else e).map (·.key)
          = es.map (·.key) := by
        rw [map_map]
        refine map_congr_left fun e _ => ?_
        show (if e.key = entry.key then entry else e).key = e.key
        split
        · rename_i h
          exact h.symm
        · rfl
      rw [hkeys]
      exact hn
    · obtain ⟨e₀, he₀, rfl⟩ := mem_map.mp he
      split
      · exact hentry
      · exact hk e₀ he₀
  · rename_i h
    exact append_new_spec hn hk (by simpa using h) hentry

theorem foldl_put_spec {acc : List Entry} (hl : ∀ e ∈ l, e.key = keyOf e.target)
    (hn : (acc.map (·.key)).Nodup) (hk : ∀ e ∈ acc, e.key = keyOf e.target) :
    ((l.foldl (fun es e => put e es) acc).map (·.key)).Nodup ∧
      (∀ e ∈ l.foldl (fun es e => put e es) acc, e.key = keyOf e.target) ∧
      (l.foldl (fun es e => put e es) acc).length ≤ acc.length + l.length := by
  induction l generalizing acc with
  | nil => exact ⟨hn, hk, Nat.le_refl _⟩
  | cons e l ih =>
    obtain ⟨hn', hk', hlen⟩ := put_spec hn hk (hl e mem_cons_self)
    obtain ⟨h₁, h₂, h₃⟩ := ih (fun a ha => hl a (mem_cons_of_mem _ ha)) hn' hk'
    refine ⟨h₁, h₂, h₃.trans ?_⟩
    simp only [length_cons]
    omega

/-- Whatever a store file holds, the records read from it are kept. -/
theorem loadEntries_kept (o : Options) (h : Host) (clock : Nat) (store : PersistedStore) :
    Kept o (loadEntries o h clock store) := by
  have hvalid : ∀ e ∈ (store.entries.take o.maxEntries).filterMap validEntry,
      e.key = keyOf e.target := by
    intro e he
    obtain ⟨raw, -, hraw⟩ := mem_filterMap.mp he
    exact validEntry_key hraw
  have hnil := Kept.nil o
  obtain ⟨hn, hk, hlen⟩ := foldl_put_spec hvalid hnil.nodup hnil.key_eq
  have hbound := (length_filterMap_le validEntry (store.entries.take o.maxEntries)).trans
    (length_take_le _ _)
  have hread : Kept o _ := ⟨hn, hk, hlen.trans (by simpa using hbound)⟩
  refine hread.of_idents ?_
  unfold loadEntries
  simp only
  rw [idents_map (fun e => ⟨lapse_key .., lapse_target ..⟩)]
  split
  · exact idents_shift _ _
  · rfl

/-! ## The state an operation leaves -/

section Fields

variable (o : Options) (h : Host) (raw : Nat) (p : Entry → Bool) (b : Bool) (t : Target) (s : Breaker)

@[simp] theorem persist_entries : (s.persist o h).entries = s.entries := by
  unfold Breaker.persist; split <;> rfl
@[simp] theorem persist_clock : (s.persist o h).lastClockMs = s.lastClockMs := by
  unfold Breaker.persist; split <;> rfl
@[simp] theorem persistIf_entries : (s.persistIf o h b).entries = s.entries := by
  unfold Breaker.persistIf; split <;> simp
@[simp] theorem persistIf_clock : (s.persistIf o h b).lastClockMs = s.lastClockMs := by
  unfold Breaker.persistIf; split <;> simp
@[simp] theorem expire_entries :
    (s.expire h p).entries = updateIf p (lapse h s.lastClockMs) s.entries := rfl
@[simp] theorem expire_clock : (s.expire h p).lastClockMs = s.lastClockMs := rfl
@[simp] theorem refresh_entries :
    (s.refresh o h p).entries = updateIf p (lapse h s.lastClockMs) s.entries := by
  simp [Breaker.refresh]
@[simp] theorem refresh_clock : (s.refresh o h p).lastClockMs = s.lastClockMs := by
  simp [Breaker.refresh]
@[simp] theorem statusOf_clock :
    (s.statusOf o h raw t).2.lastClockMs = (s.now o raw).lastClockMs := by
  simp [Breaker.statusOf]
@[simp] theorem statusOf_entries : (s.statusOf o h raw t).2.entries =
    updateIf (Entry.concerns t) (lapse h (s.now o raw).lastClockMs) (s.now o raw).entries := by
  simp [Breaker.statusOf]
@[simp] theorem now_idents : idents (s.now o raw).entries = idents s.entries := by
  unfold Breaker.now
  split
  · exact idents_shift _ _
  · split <;> rfl

end Fields

theorem now_of_clock {o : Options} {raw : Nat} {s s' : Breaker}
    (h : s'.lastClockMs = (s.now o raw).lastClockMs) : s'.now o raw = s' := by
  have hle : raw ≤ s'.lastClockMs ∧ ¬ raw + o.maxClockSkewMs < s'.lastClockMs := by
    rw [h]
    unfold Breaker.now
    split
    · exact ⟨Nat.le_refl _, by simp⟩
    · split
      · exact ⟨by omega, by assumption⟩
      · exact ⟨Nat.le_refl _, by simp⟩
  unfold Breaker.now
  rw [if_neg hle.2]
  split
  · rfl
  · have heq : raw = s'.lastClockMs := by omega
    rw [heq]

/-- The records of `tryAcquire`, in each of its three outcomes. -/
theorem tryAcquire_cases (o : Options) (h : Host) (t : Target) (s : Breaker) :
    let now := (s.now o h.raw).lastClockMs
    let es := updateIf (Entry.concerns t) (lapse h now) (s.now o h.raw).entries
    let r := s.tryAcquire o h t
    (∃ b ∈ es, b.concerns t = true ∧ b.hardBlock = true ∧ r.2.entries = es ∧
      r.2.lastClockMs = now ∧
      r.1 = .refused (statusOf b) (b.blockedUntil.map (· - now))) ∨
    ((∀ e ∈ es, e.concerns t = true → e.hardBlock = false) ∧
      (∀ e ∈ es, e.isProbe t = false) ∧ ∃ s' : Breaker, s'.entries = es ∧ s'.lastClockMs = now ∧
      r.2 = (s'.statusOf o h h.rawAgain t).2 ∧
      r.1 = .allowed false (s'.statusOf o h h.rawAgain t).1 none) ∨
    ((∀ e ∈ es, e.concerns t = true → e.hardBlock = false) ∧ ∃ status keys,
      (∀ k, k ∈ keys ↔ ∃ e ∈ es, e.isProbe t = true ∧ e.key = k) ∧
      r.1 = .allowed true status (some { id := h.uuid, keys }) ∧
      r.2.entries = updateIf (Entry.isProbe t) (grant h now) es ∧ r.2.lastClockMs = now) := by
  intro now es r
  have hes : ((s.now o h.raw).expire h (Entry.concerns t)).entries = es := rfl
  have happ : ∀ e, e ∈ applicableEntries t es ↔ e ∈ es ∧ e.concerns t = true := by
    intro e
    rw [applicableEntries, mem_insertionSort, mem_filter]
    rfl
  have hr : r = s.tryAcquire o h t := rfl
  unfold Breaker.tryAcquire at hr
  simp only [hes] at hr
  cases hblock : strongestBlock ((applicableEntries t es).filter Entry.hardBlock) with
  | some b =>
    have hb : b ∈ (applicableEntries t es).filter Entry.hardBlock :=
      (mem_insertionSort _).mp (mem_of_mem_head? hblock)
    obtain ⟨hb, hhard⟩ := mem_filter.mp hb
    rw [hblock] at hr
    refine .inl ⟨b, ((happ b).mp hb).1, ((happ b).mp hb).2, hhard, ?_, ?_, ?_⟩ <;> rw [hr]
    · simp only [persistIf_entries, hes]
    · simp only [persistIf_clock, expire_clock, now]
  | none =>
    have hfree : ∀ e ∈ es, e.concerns t = true → e.hardBlock = false := by
      intro e he hc
      by_contra hb
      have hmem : e ∈ (applicableEntries t es).filter Entry.hardBlock :=
        mem_filter.mpr ⟨(happ e).mpr ⟨he, hc⟩, by simpa using hb⟩
      have hnil : ((applicableEntries t es).filter Entry.hardBlock).insertionSort
          (blockLe · ·) = [] := List.head?_eq_none_iff.mp hblock
      have := (mem_insertionSort (blockLe · ·)).mpr hmem
      rw [hnil] at this
      nomatch this
    have hprobe : ∀ e, e ∈ (applicableEntries t es).filter (fun e => e.state = .halfOpen) ↔
        e ∈ es ∧ e.isProbe t = true := by
      intro e
      rw [mem_filter, happ]
      simp [Entry.isProbe, and_assoc]
    rw [hblock] at hr
    simp only at hr
    cases hl : (applicableEntries t es).filter fun e => e.state = .halfOpen with
    | nil =>
      rw [hl] at hr
      refine .inr (.inl ⟨hfree, fun e he => ?_,
        ((s.now o h.raw).expire h (Entry.concerns t)).persistIf o h
          ((s.now o h.raw).expires h (Entry.concerns t)), ?_, ?_, ?_, ?_⟩)
      · by_contra hp
        have := (hprobe e).mpr ⟨he, by simpa using hp⟩
        rw [hl] at this
        nomatch this
      · simp only [persistIf_entries, hes]
      · simp [now]
      · rw [hr]
      · rw [hr]
    | cons first others =>
      rw [hl] at hr
      refine .inr (.inr ⟨hfree, statusOf (grant h now first), (first :: others).map (·.key),
        fun k => ?_, by rw [hr], ?_, ?_⟩)
      · rw [← hl, mem_map]
        constructor
        · rintro ⟨e, he, rfl⟩
          obtain ⟨h₁, h₂⟩ := (hprobe e).mp he
          exact ⟨e, h₁, h₂, rfl⟩
        · rintro ⟨e, h₁, h₂, rfl⟩
          exact ⟨e, (hprobe e).mpr ⟨h₁, h₂⟩, rfl⟩
      · simp [hr, now]
      · simp [hr, now]

/-! ## Records stay kept -/

variable {h : Host} {t : Target} {s : Breaker}

theorem lapse_ident (h : Host) (now : Nat) (e : Entry) :
    (lapse h now e).key = e.key ∧ (lapse h now e).target = e.target :=
  ⟨lapse_key .., lapse_target ..⟩

theorem applyFailure_ident (o : Options) (reason : Reason) (error : StoredError) (now : Nat)
    (options : FailureOptions) (wasProbe : Bool) (e : Entry) :
    (applyFailure o reason error now options wasProbe e).key = e.key ∧
      (applyFailure o reason error now options wasProbe e).target = e.target := by
  unfold applyFailure
  simp only
  split <;> exact ⟨rfl, rfl⟩

theorem annotateFailure_ident (options : FailureOptions) (e : Entry) :
    (annotateFailure options e).key = e.key ∧ (annotateFailure options e).target = e.target := by
  unfold annotateFailure
  cases options.annotations <;> cases options.resetAt.filter (0 ≤ ·) <;> exact ⟨rfl, rfl⟩

/-- A classified failure rewrites records, after giving its scope one. -/
theorem idents_failEntries (o : Options) (now : Nat) (t : Target) (reason : Reason)
    (error : StoredError) (options : FailureOptions) (es : List Entry) :
    idents (failEntries o now t reason error options es) =
      idents (ensure (failureScope t reason) (updateIf (Entry.heldBy options.lease)
        (applyFailure o reason error now options true) es)) := by
  unfold failEntries
  simp only
  rw [idents_updateIf fun e => annotateFailure_ident options e,
    idents_updateIf fun e => applyFailure_ident ..]

theorem failEntries_length (o : Options) (now : Nat) (t : Target) (reason : Reason)
    (error : StoredError) (options : FailureOptions) (es : List Entry) :
    (failEntries o now t reason error options es).length =
      (ensure (failureScope t reason) es).length := by
  rw [← idents_length, idents_failEntries, idents_length]
  exact ensure_length_congr _ (idents_updateIf (applyFailure_ident o reason error now options true) es)

/-- A record that the lease does not hold and that is not of the failing scope stays as it is. -/
theorem mem_failEntries (he : e ∈ es) {options : FailureOptions}
    (hheld : e.heldBy options.lease = false) {reason : Reason}
    (hscope : e.key ≠ keyOf (failureScope t reason)) (now : Nat) (error : StoredError) :
    e ∈ failEntries o now t reason error options es := by
  have hstay : ∀ {l : List Entry} {p : Entry → Bool} {f : Entry → Entry}, e ∈ l → p e = false →
      e ∈ updateIf p f l := fun hl hp => mem_map.mpr ⟨e, hl, by simp [hp]⟩
  have hensure : ∀ {l : List Entry}, e ∈ l → e ∈ ensure (failureScope t reason) l := by
    intro l hl
    unfold ensure
    split
    · exact hl
    · exact mem_append_left _ hl
  exact hstay (hstay (hensure (hstay he hheld)) (by simp [hscope])) (by simp [hscope])

theorem now_kept (hk : Kept o s.entries) (raw : Nat) : Kept o (s.now o raw).entries :=
  hk.of_idents (now_idents ..)

theorem statusOf_kept (hk : Kept o s.entries) (h : Host) (raw : Nat) (t : Target) :
    Kept o (s.statusOf o h raw t).2.entries := by
  rw [statusOf_entries]
  exact (now_kept hk raw).of_idents (idents_updateIf (lapse_ident h _) _)

theorem tryAcquire_kept (hk : Kept o s.entries) (h : Host) (t : Target) :
    Kept o (s.tryAcquire o h t).2.entries := by
  have hes := (now_kept hk h.raw).of_idents (idents_updateIf (p := Entry.concerns t)
    (lapse_ident h (s.now o h.raw).lastClockMs) _)
  rcases tryAcquire_cases o h t s with ⟨b, -, -, -, he, -⟩ | ⟨-, -, s', he, -, hr, -⟩ |
    ⟨-, st, keys, -, -, he, -⟩
  · rw [he]
    exact hes
  · rw [hr]
    exact statusOf_kept (he ▸ hes) ..
  · rw [he]
    exact hes.of_idents (idents_updateIf (f := grant h _) (fun _ => ⟨rfl, rfl⟩) _)

theorem prune_kept (hn : (es.map (·.key)).Nodup) (hk : ∀ e ∈ es, e.key = keyOf e.target) :
    Kept o (prune o es) :=
  ⟨((prune_sublist o es).map _).nodup hn, fun e he => hk e ((prune_sublist o es).subset he),
    prune_length o es⟩

theorem prune_failEntries_kept (hk : Kept o es) (now : Nat) (t : Target) (reason : Reason)
    (error : StoredError) (options : FailureOptions) :
    Kept o (prune o (failEntries o now t reason error options es)) := by
  have hheld := hk.of_idents (idents_updateIf (p := Entry.heldBy options.lease)
    (applyFailure_ident o reason error now options true) es)
  obtain ⟨hn, hkey, -⟩ := ensure_spec (failureScope t reason) hheld.nodup hheld.key_eq
  have hid := idents_failEntries o now t reason error options es
  refine prune_kept ?_ fun e he => ?_
  · rw [map_key_eq, hid, ← map_key_eq]
    exact hn
  · have hm : (e.key, e.target) ∈ idents _ := mem_map_of_mem he
    rw [hid] at hm
    obtain ⟨e₀, he₀, heq⟩ := mem_map.mp hm
    injection heq with h₁ h₂
    rw [← h₁, ← h₂]
    exact hkey e₀ he₀

theorem recordFailure_kept (hk : Kept o s.entries) (h : Host) (t : Target) (error : Failure)
    (options : FailureOptions) : Kept o (s.recordFailure o h t error options).2.entries := by
  have hnow := now_kept hk h.raw
  unfold Breaker.recordFailure
  simp only
  split
  · exact statusOf_kept hnow ..
  · split
    · refine statusOf_kept ?_ ..
      rw [persistIf_entries]
      exact hnow.of_idents (idents_updateIf (f := releaseEntry _) (fun _ => ⟨rfl, rfl⟩) _)
    · rw [persist_entries]
      exact prune_failEntries_kept hnow ..

theorem recordSuccess_kept (hk : Kept o s.entries) (h : Host) (t : Target) (lease : Option Lease) :
    Kept o (s.recordSuccess o h t lease).2.entries := by
  have hnow := now_kept hk h.raw
  unfold Breaker.recordSuccess
  simp only
  split
  · exact statusOf_kept hnow ..
  · refine statusOf_kept ?_ ..
    rw [persistIf_entries]
    exact hnow.of_idents (idents_updateIf (f := closeEntry _) (fun _ => ⟨rfl, rfl⟩) _)

theorem reset_kept (hk : Kept o s.entries) (h : Host) (scope : Option Target) :
    Kept o (s.reset o h scope).2.entries := by
  unfold Breaker.reset
  simp only [persistIf_entries]
  exact hk.sublist filter_sublist

theorem annotate_kept (hk : Kept o s.entries) (h : Host) (t : Target) (a : Annotations) :
    Kept o (s.annotate o h t a).2.entries := by
  obtain ⟨hn, hkey, -⟩ := ensure_spec t hk.nodup hk.key_eq
  unfold Breaker.annotate
  simp only [persist_entries]
  have hid := idents_updateIf (p := fun e => decide (e.key = keyOf t))
    (f := fun e => { e with annotations := some a }) (fun e => ⟨rfl, rfl⟩) (ensure t s.entries)
  refine prune_kept ?_ fun e he => ?_
  · rw [map_key_eq, hid, ← map_key_eq]
    exact hn
  · obtain ⟨e₀, he₀, rfl⟩ := mem_map.mp he
    split <;> exact hkey e₀ he₀

theorem listStatuses_kept (hk : Kept o s.entries) (h : Host) (all : Bool) :
    Kept o (s.listStatuses o h all).2.entries := by
  unfold Breaker.listStatuses
  simp only [refresh_entries]
  exact (now_kept hk h.raw).of_idents (idents_updateIf (lapse_ident h _) _)

theorem locked_kept (hk : Kept o s.entries) (h : Host) : Kept o (s.locked o h).entries := by
  unfold Breaker.locked
  split
  · exact hk
  · unfold Breaker.load
    simp only
    split
    · exact Kept.nil o
    · split
      · exact loadEntries_kept ..
      · exact Kept.nil o

/-- **Every operation keeps the records.** -/
theorem perform_kept (hk : Kept o s.entries) (h : Host) (call : Call) :
    Kept o (s.perform o h call).2.entries := by
  have hl := locked_kept hk h
  unfold Breaker.perform
  cases call with
  | tryAcquire input =>
    simp only
    split
    · exact hl
    · exact tryAcquire_kept hl ..
  | recordFailure input error options =>
    simp only
    split
    · exact hl
    · exact recordFailure_kept hl ..
  | recordSuccess input lease =>
    simp only
    split
    · exact hl
    · exact recordSuccess_kept hl ..
  | status input =>
    simp only
    split
    · exact hl
    · exact statusOf_kept hl ..
  | reset scope =>
    cases scope with
    | none => exact reset_kept hl ..
    | some input =>
      simp only
      split
      · exact hl
      · exact reset_kept hl ..
  | annotate input a =>
    simp only
    split
    · exact hl
    · exact annotate_kept hl ..
  | listStatuses all => exact listStatuses_kept hl h all

/-- A breaker that was started on some store file and has served some calls. -/
def Breaker.Reachable (o : Options) (s : Breaker) : Prop :=
  ∃ h file, (machine o).Reachable (Breaker.start o h file) s

/-- **The records an operation works on are kept**, in every reachable state. -/
theorem Breaker.Reachable.kept (hs : Breaker.Reachable o s) (h : Host) :
    Kept o (s.locked o h).entries := by
  obtain ⟨h₀, file, hr⟩ := hs
  have h₀kept : Kept o (Breaker.start o h₀ file).entries :=
    locked_kept (s := { lastClockMs := h₀.raw, file }) (Kept.nil o) h₀
  have hkept : Kept o s.entries :=
    hr.invariant (I := fun s => Kept o s.entries)
      (fun s a hk => perform_kept (s := s) hk a.1 a.2) h₀kept
  exact locked_kept hkept h

/-- **The records of a breaker are kept**, whatever store file it starts on and whatever calls it
    serves. -/
theorem run_kept (o : Options) (h : Host) (file : Option PersistedStore)
    (calls : List (Host × Call)) (now : Host) :
    Kept o (((machine o).run (Breaker.start o h file) calls).locked o now).entries :=
  Breaker.Reachable.kept ⟨h, file, calls, rfl⟩ now

/-! ## Properties of single records -/

/-- What every rewriting of a record preserves and every new record has. -/
structure Stable (P : Entry → Prop) : Prop where
  shift : ∀ delta e, P e → P (shiftEntry delta e)
  halfOpened : ∀ e, P e → P e.halfOpened
  grant : ∀ h now e, e.state = .halfOpen → P e → P (grant h now e)
  release : ∀ now e, P e → P (releaseEntry now e)
  fail : ∀ o reason error now options wasProbe e, P e →
    P (applyFailure o reason error now options wasProbe e)
  annotate : ∀ a e, P e → P { e with annotations := a }
  close : ∀ now e, P e → P (closeEntry now e)
  fresh : ∀ t : Target, t.Normalized → P (freshEntry t)

/-- The same for the calls of one host: of the grants, only those under its `randomUUID()` count. -/
structure StableFor (h : Host) (P : Entry → Prop) : Prop where
  shift : ∀ delta e, P e → P (shiftEntry delta e)
  halfOpened : ∀ e, P e → P e.halfOpened
  grant : ∀ now e, e.state = .halfOpen → P e → P (grant h now e)
  release : ∀ now e, P e → P (releaseEntry now e)
  fail : ∀ o reason error now options wasProbe e, P e →
    P (applyFailure o reason error now options wasProbe e)
  annotate : ∀ a e, P e → P { e with annotations := a }
  close : ∀ now e, P e → P (closeEntry now e)
  fresh : ∀ t : Target, t.Normalized → P (freshEntry t)

theorem Stable.for {P : Entry → Prop} (hP : Stable P) (h : Host) : StableFor h P where
  shift := hP.shift
  halfOpened := hP.halfOpened
  grant := hP.grant h
  release := hP.release
  fail := hP.fail
  annotate := hP.annotate
  close := hP.close
  fresh := hP.fresh

section Stable

variable {P : Entry → Prop}

theorem forall_updateIf {p : Entry → Bool} {f : Entry → Entry} (hes : ∀ e ∈ es, P e)
    (hf : ∀ e, p e = true → P e → P (f e)) : ∀ e ∈ updateIf p f es, P e := by
  intro e he
  obtain ⟨e₀, he₀, rfl⟩ := mem_map.mp he
  split
  · rename_i hp
    exact hf e₀ hp (hes e₀ he₀)
  · exact hes e₀ he₀

theorem StableFor.lapse (hP : StableFor h P) (h' : Host) (now : Nat) {e : Entry} (he : P e) :
    P (lapse h' now e) := by
  rw [lapse_eq]
  split
  · exact hP.halfOpened e he
  · exact he

theorem StableFor.now (hP : StableFor h P) (hs : ∀ e ∈ s.entries, P e) (raw : Nat) :
    ∀ e ∈ (s.now o raw).entries, P e := by
  unfold Breaker.now
  split
  · intro e he
    obtain ⟨e₀, he₀, rfl⟩ := mem_map.mp he
    exact hP.shift _ _ (hs e₀ he₀)
  · split <;> exact hs

theorem StableFor.statusOf (hP : StableFor h P) (hs : ∀ e ∈ s.entries, P e) (raw : Nat) (t : Target)
    : ∀ e ∈ (s.statusOf o h raw t).2.entries, P e := by
  rw [statusOf_entries]
  exact forall_updateIf (hP.now hs raw) fun e _ he => hP.lapse h _ he

theorem StableFor.tryAcquire (hP : StableFor h P) (hs : ∀ e ∈ s.entries, P e) (t : Target) :
    ∀ e ∈ (s.tryAcquire o h t).2.entries, P e := by
  have hes := forall_updateIf (p := Entry.concerns t) (hP.now (o := o) hs h.raw)
    fun e _ he => hP.lapse h (s.now o h.raw).lastClockMs he
  rcases tryAcquire_cases o h t s with ⟨b, -, -, -, he, -⟩ | ⟨-, -, s', he, -, hr, -⟩ |
    ⟨-, st, keys, -, -, he, -⟩
  · rw [he]
    exact hes
  · rw [hr]
    exact hP.statusOf (he ▸ hes) _ _
  · rw [he]
    refine forall_updateIf hes fun e hp he => hP.grant _ e ?_ he
    rw [Entry.isProbe, Bool.and_eq_true, beq_iff_eq] at hp
    exact hp.2

theorem forall_annotateFailure (hP : ∀ a e, P e → P { e with annotations := a })
    (options : FailureOptions) {e : Entry} (he : P e) : P (annotateFailure options e) := by
  unfold Circuit.annotateFailure
  cases options.annotations <;> cases options.resetAt.filter (0 ≤ ·)
  · exact he
  · exact hP _ _ he
  · exact hP _ _ he
  · exact hP _ _ (hP _ _ he)

theorem StableFor.ensure (hP : StableFor h P) (hes : ∀ e ∈ es, P e) {scope : Target}
    (hn : scope.Normalized) : ∀ e ∈ ensure scope es, P e := by
  unfold Circuit.ensure
  split
  · exact hes
  · intro e he
    rcases mem_append.mp he with he | he
    · exact hes e he
    · rw [mem_singleton.mp he]
      exact hP.fresh scope hn

/-- What the records have once the lease has been consumed, they have after the failure. -/
theorem StableFor.failEntries_of_consumed (hP : StableFor h P) {now : Nat} {reason : Reason}
    {error : StoredError} {options : FailureOptions}
    (hes : ∀ e ∈ updateIf (Entry.heldBy options.lease)
      (applyFailure o reason error now options true) es, P e) (hn : t.Normalized) :
    ∀ e ∈ failEntries o now t reason error options es, P e := by
  have hensured := hP.ensure hes (failureScope_normalized hn reason)
  exact forall_updateIf
    (forall_updateIf hensured fun e _ he => hP.fail o reason error now options _ e he)
    fun e _ he => forall_annotateFailure hP.annotate options he

theorem StableFor.failEntries (hP : StableFor h P) (hes : ∀ e ∈ es, P e) (hn : t.Normalized)
    (o : Options) (now : Nat) (reason : Reason) (error : StoredError) (options : FailureOptions) :
    ∀ e ∈ failEntries o now t reason error options es, P e :=
  hP.failEntries_of_consumed
    (forall_updateIf hes fun e _ he => hP.fail o reason error now options true e he) hn

theorem StableFor.recordFailure (hP : StableFor h P) (hs : ∀ e ∈ s.entries, P e) (hn : t.Normalized)
    (error : Failure) (options : FailureOptions) :
    ∀ e ∈ (s.recordFailure o h t error options).2.entries, P e := by
  have hnow := hP.now (o := o) hs h.raw
  unfold Breaker.recordFailure
  simp only
  split
  · exact hP.statusOf hnow _ _
  · split
    · refine hP.statusOf ?_ _ _
      rw [persistIf_entries]
      exact forall_updateIf hnow fun e _ he => hP.release _ e he
    · rw [persist_entries]
      intro e he
      exact hP.failEntries hnow hn o _ _ _ _ e ((prune_sublist _ _).subset he)

theorem StableFor.recordSuccess (hP : StableFor h P) (hs : ∀ e ∈ s.entries, P e) (t : Target)
    (lease : Option Lease) : ∀ e ∈ (s.recordSuccess o h t lease).2.entries, P e := by
  have hnow := hP.now (o := o) hs h.raw
  unfold Breaker.recordSuccess
  simp only
  split
  · exact hP.statusOf hnow _ _
  · refine hP.statusOf ?_ _ _
    rw [persistIf_entries]
    exact forall_updateIf hnow fun e _ he => hP.close _ e he

theorem StableFor.annotated (hP : StableFor h P) (hs : ∀ e ∈ s.entries, P e) (hn : t.Normalized)
    (a : Annotations) : ∀ e ∈ (s.annotate o h t a).2.entries, P e := by
  unfold Breaker.annotate
  simp only [persist_entries]
  intro e he
  exact forall_updateIf (hP.ensure hs hn) (fun e _ he => hP.annotate _ e he) e
    ((prune_sublist _ _).subset he)

/-- **The record rule.**  A stable property of the records an operation finds holds of the
    records it leaves. -/
theorem StableFor.perform (hP : StableFor h P) (hs : ∀ e ∈ (s.locked o h).entries, P e)
    (call : Call) : ∀ e ∈ (s.perform o h call).2.entries, P e := by
  unfold Breaker.perform
  cases call with
  | tryAcquire input =>
    simp only
    split
    · exact hs
    · exact hP.tryAcquire hs _
  | recordFailure input error options =>
    simp only
    split
    · exact hs
    · rename_i t ht
      exact hP.recordFailure hs (normalizeTarget_normalized ht) _ _
  | recordSuccess input lease =>
    simp only
    split
    · exact hs
    · exact hP.recordSuccess hs _ _
  | status input =>
    simp only
    split
    · exact hs
    · exact hP.statusOf hs _ _
  | reset scope =>
    have hreset : ∀ scope, ∀ e ∈ ((s.locked o h).reset o h scope).2.entries, P e := by
      intro scope e he
      unfold Breaker.reset at he
      simp only [persistIf_entries] at he
      exact hs e (mem_filter.mp he).1
    cases scope with
    | none => exact hreset none
    | some input =>
      simp only
      split
      · exact hs
      · exact hreset _
  | annotate input a =>
    simp only
    split
    · exact hs
    · rename_i t ht
      exact hP.annotated hs (normalizeTarget_normalized ht) _
  | listStatuses all =>
    unfold Breaker.listStatuses
    simp only [refresh_entries]
    exact forall_updateIf (hP.now hs h.raw) fun e _ he => hP.lapse h _ he

theorem Stable.lapse (hP : Stable P) (h : Host) (now : Nat) {e : Entry} (he : P e) :
    P (lapse h now e) := (hP.for h).lapse h now he

theorem Stable.perform (hP : Stable P) (hs : ∀ e ∈ (s.locked o h).entries, P e) (call : Call) :
    ∀ e ∈ (s.perform o h call).2.entries, P e := (hP.for h).perform hs call

end Stable

end NexusCode.Circuit
