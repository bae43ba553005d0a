/-
  Are capsules canonical?

  The same entries in another order should make the same capsule, byte for byte, and its text should
  read back as the capsule.  Sorting by a key leaves entries of one key in the order they came in,
  and `collectDuplicateIds` looks for such entries in every list but two: the modified files and the
  checkpoints.

  1. `swap_sorted` — where sorted lists do not tell two entries of one key apart, they are the same.
  2. `Distinguished` — entries of one key are the same in those two lists, as far as they are kept.
  3. **`canonical_iff`** — capsules are canonical, whatever the limits, iff their entries
     are distinguished, and the key is not an empty text: that one signs, but does not verify.
-/
import NexusCode.Transfer.CapsuleStages

namespace NexusCode.Transfer

open Lib Shared Json List Option

/-! ## Entries of one key -/

section Swap

variable {τ : Type} {key : τ → String}

theorem filter_sortByKey (key : τ → String) (k : String) (l : List τ) :
    (sortByKey key l).filter (fun t => key t = k) = l.filter fun t => key t = k := by
  rw [sortByKey, filter_sortBy (compare_lawful key)]
  refine List.Pairwise.insertionSort_eq (pairwise_filter.mpr (pairwise_of_forall ?_))
  intro t t' ht ht'
  show compare (key t) (key t') ≤ 0
  rw [of_decide_eq_true ht, of_decide_eq_true ht', compare_nonpos_iff]
  exact (keyLe_total k k).elim id id

/-- **Swapped entries of one key** are the same, if the sorted lists are, as far as `keep` goes. -/
theorem swap_sorted {keep : τ → τ} (hkeep : ∀ t, key (keep t) = key t) {t t' : τ} {l : List τ}
    (hkey : key t = key t') (h : (sortByKey key (t :: t' :: l)).map keep =
      (sortByKey key (t' :: t :: l)).map keep) : keep t = keep t' := by
  have hfilter : ∀ l : List τ, ((sortByKey key l).map keep).filter (fun a => key a = key t) =
      (l.filter fun a => key a = key t).map keep := by
    intro l
    have hcomp : ((fun a => decide (key a = key t)) ∘ keep) = fun a => decide (key a = key t) :=
      funext fun a => by rw [Function.comp, hkeep]
    rw [List.filter_map, hcomp, filter_sortByKey]
  have hfirst : ∀ {a b : τ}, key a = key t →
      ((a :: b :: l).filter fun a => key a = key t) = a :: (b :: l).filter fun a => key a = key t :=
    fun ha => filter_cons_of_pos (p := fun a => key a = key t) (decide_eq_true ha)
  have hsame := hfilter (t :: t' :: l)
  rw [h, hfilter, hfirst rfl, hfirst hkey.symm] at hsame
  exact (cons.inj hsame).1.symm

end Swap

/-! ## Swapping the items of an input -/

theorem exists_perm_pair {l : List Json} {x y : Json} (hx : x ∈ l) (hy : y ∈ l) (hne : x ≠ y) :
    ∃ rest, l.Perm (x :: y :: rest) := by
  obtain ⟨s, t, rfl⟩ := append_of_mem hx
  have hy' : y ∈ s ++ t := by
    rcases mem_append.mp hy with hs | ht
    · exact mem_append_left _ hs
    · exact mem_append_right _ (mem_of_ne_of_mem hne.symm ht)
  obtain ⟨s', t', hst⟩ := append_of_mem hy'
  refine ⟨s' ++ t', perm_middle.trans (.cons x ?_)⟩
  rw [hst]
  exact perm_middle

theorem exists_input {input : HandoffCapsuleInput} {k k' : String} {items zs : List Json}
    (hget : property k' (property k (some input.value)) = some (.arr items))
    (hperm : items.Perm zs) : ∃ input' : HandoffCapsuleInput,
      Rearranged input.value input'.value ∧
        property k' (property k (some input'.value)) = some (.arr zs) := by
  obtain ⟨v, hv, hinner⟩ := bind_eq_some_iff.mp hget
  cases v with
  | obj fields =>
    have hfields : IsValue (.obj fields) := isValue_of_get? input.isValue hv
    have hitems : IsValue (.arr items) := isValue_of_get? hfields hinner
    have hzs : IsValue (.arr zs) := (isValueItems_iff zs).mpr fun z hz =>
      (isValueItems_iff items).mp hitems z (hperm.mem_iff.mpr hz)
    obtain ⟨inner, hinnerValue, hrearranged, hinner'⟩ :=
      exists_rearranged hfields hinner (.arr (RearrangedItems.refl items) hperm) hzs
    obtain ⟨outer, houterValue, houter, houter'⟩ :=
      exists_rearranged input.isValue hv hrearranged hinnerValue
    refine ⟨⟨outer, houterValue⟩, houter, ?_⟩
    show (Json.field? k outer).bind (Json.get? k') = _
    rw [houter']
    exact hinner'
  | _ => nomatch hinner

theorem exists_item_of_mem {τ : Type} {a : Unknown} {g : Unknown → τ} {t : τ} (h : t ∈ array a g) :
    ∃ items, a = some (.arr items) ∧
      ∃ x ∈ items, isRecord (some x) = true ∧ g (some x) = t := by
  obtain ⟨x, hx, ht⟩ := mem_map.mp h
  obtain ⟨hitem, hrecord⟩ := mem_filter.mp hx
  unfold itemsOf at hitem
  split at hitem
  · exact ⟨_, rfl, x, hitem, hrecord, ht⟩
  · nomatch hitem

theorem array_cons {τ : Type} {g : Unknown → τ} {x : Json} {rest : List Json}
    (h : isRecord (some x) = true) :
    array (some (.arr (x :: rest))) g = g (some x) :: array (some (.arr rest)) g := by
  show ((x :: rest).filter _).map _ = _
  rw [filter_cons_of_pos (p := fun entry => isRecord (some entry)) h]
  rfl

/-- **Entries of one key are the same**, as far as `keep` goes, if the sorted lists of all
    rearranged inputs are. -/
theorem keep_eq_of_rearranged {τ : Type} {key : τ → String} {g : Unknown → τ} {keep : τ → τ}
    (hkeep : ∀ t, key (keep t) = key t) {input : HandoffCapsuleInput} {k k' : String}
    (hsame : ∀ i i' : HandoffCapsuleInput, Rearranged input.value i.value →
      Rearranged input.value i'.value →
      (sortByKey key (array (property k' (property k (some i.value))) g)).map keep =
        (sortByKey key (array (property k' (property k (some i'.value))) g)).map keep) {t t' : τ}
    (ht : t ∈ array (property k' (property k (some input.value))) g)
    (ht' : t' ∈ array (property k' (property k (some input.value))) g) (hkey : key t = key t') :
    keep t = keep t' := by
  obtain ⟨items, hget, x, hx, hrecord, rfl⟩ := exists_item_of_mem ht
  obtain ⟨items', hget', y, hy, hrecord', rfl⟩ := exists_item_of_mem ht'
  obtain rfl := Json.arr.inj (some.inj (hget.symm.trans hget'))
  by_cases heq : x = y
  · rw [heq]
  · obtain ⟨rest, hperm⟩ := exists_perm_pair hx hy heq
    obtain ⟨i, hi, hread⟩ := exists_input hget hperm
    obtain ⟨i', hi', hread'⟩ := exists_input hget (hperm.trans (.swap y x rest))
    have h := hsame i i' hi hi'
    rw [hread, hread', array_cons hrecord, array_cons hrecord', array_cons hrecord',
      array_cons hrecord] at h
    exact swap_sorted hkeep hkey h

/-! ## The two lists of a capsule -/

section Lists

variable {host : CapsuleHost} {options : HandoffCapsuleOptions} {input input' : HandoffCapsuleInput}
  {createdAt : String}

/-- The modified files of an input, as they are read. -/
def modifiedFilesOf (host : CapsuleHost) (options : HandoffCapsuleOptions)
    (input : HandoffCapsuleInput) : List CapsuleModifiedFile :=
  array (property "modifiedFiles" (property "workspace" (some input.value)))
    (modifiedFileOf (createRedactor host options))

/-- The checkpoints of an input, as they are read. -/
def checkpointsOf (host : CapsuleHost) (options : HandoffCapsuleOptions)
    (input : HandoffCapsuleInput) : List CapsuleCheckpoint :=
  array (property "checkpoints" (property "partialResponse" (some input.value)))
    (checkpointOf (createRedactor host options))

/-- What is left of a modified file at a stage. -/
def fileAt (policy : CapsuleCompressionPolicy) (s : Stage) :
    CapsuleModifiedFile → CapsuleModifiedFile := upTo (compressModifiedFile policy) s

/-- What is left of a checkpoint at a stage. -/
def checkpointAt (policy : CapsuleCompressionPolicy) (s : Stage) :
    CapsuleCheckpoint → CapsuleCheckpoint := upTo (compressCheckpoint policy) s

theorem path_fileAt (policy : CapsuleCompressionPolicy) (s : Stage) (f : CapsuleModifiedFile) :
    (fileAt policy s f).path = f.path :=
  upTo_keeps (compressModifiedFile policy) CapsuleModifiedFile.path (fun _ _ => rfl) s f

theorem id_checkpointAt (policy : CapsuleCompressionPolicy) (s : Stage) (c : CapsuleCheckpoint) :
    (checkpointAt policy s c).id = c.id :=
  upTo_keeps (compressCheckpoint policy) CapsuleCheckpoint.id (fun _ _ => rfl) s c

/-- The checkpoints of a payload. -/
def HandoffCapsulePayload.checkpoints (p : HandoffCapsulePayload) : List CapsuleCheckpoint :=
  (p.partialResponse.map CapsulePartialResponse.checkpoints).getD []

theorem modifiedFiles_stage (host : CapsuleHost) (options : HandoffCapsuleOptions)
    (input : HandoffCapsuleInput) (createdAt : String) (s : Stage) :
    (stageCapsule host options input createdAt s).payload.workspace.modifiedFiles =
      (sortByKey CapsuleModifiedFile.path (modifiedFilesOf host options input)).map
        (fileAt options.resolved.compressionPolicy s) := by
  rw [fileAt, ← upTo_map]
  cases s <;> rfl

theorem checkpoints_compress (policy : CapsuleCompressionPolicy) (level : CompressionLevel)
    (p : HandoffCapsulePayload) : (compressPayload policy level p).checkpoints =
      p.checkpoints.map (compressCheckpoint policy level) := by
  unfold HandoffCapsulePayload.checkpoints
  dsimp only [compressPayload]
  cases p.partialResponse <;> rfl

theorem checkpoints_normalize (host : CapsuleHost) (options : HandoffCapsuleOptions)
    (input : HandoffCapsuleInput) :
    (normalizePayload (createRedactor host options) (some input.value)).checkpoints =
      sortByKey CapsuleCheckpoint.id (checkpointsOf host options input) := by
  unfold HandoffCapsulePayload.checkpoints checkpointsOf
  dsimp only [normalizePayload]
  generalize property "partialResponse" (some input.value) = response
  cases response with
  | none => rfl
  | some v => cases v <;> rfl

theorem checkpoints_stage (host : CapsuleHost) (options : HandoffCapsuleOptions)
    (input : HandoffCapsuleInput) (createdAt : String) (s : Stage) :
    (stageCapsule host options input createdAt s).payload.checkpoints =
      (sortByKey CapsuleCheckpoint.id (checkpointsOf host options input)).map
        (checkpointAt options.resolved.compressionPolicy s) := by
  have hwhole := checkpoints_normalize host options input
  rw [checkpointAt, ← upTo_map, ← hwhole]
  cases s with
  | whole => rfl
  | large => exact checkpoints_compress _ _ _
  | small =>
    refine (checkpoints_compress _ _ _).trans (congrArg _ ?_)
    exact checkpoints_compress _ _ _

/-! ## What a text tells of the two lists -/

theorem FileStatus.text_inj {a b : FileStatus} (h : a.text = b.text) : a = b := by
  cases a <;> cases b <;> first | rfl | exact absurd h (by decide)

theorem optional_inj {o o' : Option String}
    (h : (o.map Json.str).map Json.sorted = (o'.map Json.str).map Json.sorted) : o = o' := by
  rw [Option.map_map, Option.map_map] at h
  exact map_injective (fun _ _ => Json.str.inj) h

theorem CapsuleModifiedFile.toJson_inj {f g : CapsuleModifiedFile}
    (h : f.toJson.sorted = g.toJson.sorted) : f = g := by
  have hnamed : Named ["path", "status", "summary", "diff"] := by decide
  have hmember := member_of_sorted_eq f.portable.isValue g.portable.isValue h hnamed.1 hnamed.1
  have hpath := hmember (.head _) (.head _)
  have hstatus := hmember (.tail _ (.head _)) (.tail _ (.head _))
  have hsummary := hmember (.tail _ (.tail _ (.head _))) (.tail _ (.tail _ (.head _)))
  have hdiff := hmember (.tail _ (.tail _ (.tail _ (.head _)))) (.tail _ (.tail _ (.tail _ (.head _))))
  obtain ⟨path, status, summary, diff⟩ := f
  obtain ⟨path', status', summary', diff'⟩ := g
  obtain rfl : path = path' := Json.str.inj (some.inj hpath)
  obtain rfl := FileStatus.text_inj (Json.str.inj (some.inj hstatus))
  obtain rfl := optional_inj hsummary
  obtain rfl := optional_inj hdiff
  rfl

theorem CapsuleCheckpoint.toJson_inj {c d : CapsuleCheckpoint} (hc : Portable c.toJson)
    (hd : Portable d.toJson) (h : c.toJson.sorted = d.toJson.sorted) : c = d := by
  have hnamed : Named ["id", "offset", "summary", "completedActionIds"] := by decide
  have hmember := member_of_sorted_eq hc.isValue hd.isValue h hnamed.1 hnamed.1
  have hid := hmember (.head _) (.head _)
  have hoffset := hmember (.tail _ (.head _)) (.tail _ (.head _))
  have hsummary := hmember (.tail _ (.tail _ (.head _))) (.tail _ (.tail _ (.head _)))
  have hids := hmember (.tail _ (.tail _ (.tail _ (.head _)))) (.tail _ (.tail _ (.tail _ (.head _))))
  rw [map_some, map_some, sorted_texts, sorted_texts] at hids
  obtain ⟨id, offset, summary, ids⟩ := c
  obtain ⟨id', offset', summary', ids'⟩ := d
  obtain rfl : id = id' := Json.str.inj (some.inj hid)
  obtain rfl : offset = offset' := Json.num.inj (some.inj hoffset)
  obtain rfl : summary = summary' := Json.str.inj (some.inj hsummary)
  obtain rfl := texts_inj (some.inj hids)
  rfl

theorem entries_inj {τ : Type} {toJson : τ → Json} {l l' : List τ}
    (hinj : ∀ t ∈ l, ∀ t' ∈ l', (toJson t).sorted = (toJson t').sorted → t = t')
    (h : (entries toJson l).sorted = (entries toJson l').sorted) : l = l' := by
  rw [sorted_entries, sorted_entries] at h
  have hlist := Json.arr.inj h
  clear h
  induction l generalizing l' with
  | nil => exact (map_eq_nil_iff.mp hlist.symm).symm
  | cons t l ih =>
    cases l' with
    | nil => nomatch hlist
    | cons t' l' =>
      obtain ⟨hhead, htail⟩ := cons.inj hlist
      rw [hinj t mem_cons_self t' mem_cons_self hhead]
      refine congrArg _ (ih (fun a ha b hb => ?_) htail)
      exact hinj a (mem_cons_of_mem _ ha) b (mem_cons_of_mem _ hb)

theorem modifiedFiles_of_text
    (hwindow : isPositiveInteger options.resolved.preventRetryWindow.1 = true) {s : Stage}
    (h : stageText host options input createdAt s = stageText host options input' createdAt s) :
    (stageCapsule host options input createdAt s).payload.workspace.modifiedFiles =
      (stageCapsule host options input' createdAt s).payload.workspace.modifiedFiles := by
  have hmem : ∀ u : UnsignedCapsule, ("workspace", some u.payload.workspace.toJson) ∈ u.members :=
    fun u => by simp [UnsignedCapsule.members, HandoffCapsulePayload.members]
  have hnamed : Named ["modifiedFiles", "commands", "tests"] := by decide
  have hworkspace := some.inj (member_of_text (portable_stage host hwindow input createdAt s)
    (portable_stage host hwindow input' createdAt s) h (hmem _) (hmem _))
  have hmember := member_of_sorted_eq
    (portable_workspace (numeric_stage host options input createdAt s)).isValue
    (portable_workspace (numeric_stage host options input' createdAt s)).isValue hworkspace
    hnamed.1 hnamed.1
  exact entries_inj (fun f _ g _ => CapsuleModifiedFile.toJson_inj)
    (some.inj (hmember (.head _) (.head _)))

theorem checkpoints_of_text
    (hwindow : isPositiveInteger options.resolved.preventRetryWindow.1 = true) {s : Stage}
    (h : stageText host options input createdAt s = stageText host options input' createdAt s) :
    (stageCapsule host options input createdAt s).payload.checkpoints =
      (stageCapsule host options input' createdAt s).payload.checkpoints := by
  have hmem : ∀ u : UnsignedCapsule, ("partialResponse",
      u.payload.partialResponse.map CapsulePartialResponse.toJson) ∈ u.members :=
    fun u => by simp [UnsignedCapsule.members, HandoffCapsulePayload.members]
  have hnamed : Named ["text", "finishReason", "continuationHint", "checkpoints"] := by decide
  have hresponse := member_of_text (portable_stage host hwindow input createdAt s)
    (portable_stage host hwindow input' createdAt s) h (hmem _) (hmem _)
  have hoffsets := (numeric_stage host options input createdAt s).offsets
  have hoffsets' := (numeric_stage host options input' createdAt s).offsets
  unfold HandoffCapsulePayload.checkpoints
  cases hr : (stageCapsule host options input createdAt s).payload.partialResponse with
  | none =>
    rw [hr] at hresponse
    cases hr' : (stageCapsule host options input' createdAt s).payload.partialResponse with
    | none => rfl
    | some r' =>
      rw [hr'] at hresponse
      cases hresponse
  | some r =>
    rw [hr] at hresponse
    cases hr' : (stageCapsule host options input' createdAt s).payload.partialResponse with
    | none =>
      rw [hr'] at hresponse
      cases hresponse
    | some r' =>
      rw [hr'] at hresponse
      have hmember := member_of_sorted_eq
        (CapsulePartialResponse.portable (hoffsets r hr)).isValue
        (CapsulePartialResponse.portable (hoffsets' r' hr')).isValue (some.inj hresponse)
        hnamed.1 hnamed.1
      have hlists := some.inj (hmember (.tail _ (.tail _ (.tail _ (.head _))))
        (.tail _ (.tail _ (.tail _ (.head _)))))
      exact entries_inj (fun c hc d hd => CapsuleCheckpoint.toJson_inj
        (CapsuleCheckpoint.portable (hoffsets r hr c hc))
        (CapsuleCheckpoint.portable (hoffsets' r' hr' d hd))) hlists

end Lists

/-! ## Canonical capsules -/

/-- The input's capsule and the capsule of every rearranged input print the same text, which reads
    back as the capsule: the same value, its members in key order. -/
def Canonical (host : CapsuleHost) (options : HandoffCapsuleOptions) (input : HandoffCapsuleInput) :
    Prop :=
  ∀ input' : HandoffCapsuleInput, Rearranged input.value input'.value → ∀ c c' : HandoffCapsule,
    createHandoffCapsule host input options = .ok c →
    createHandoffCapsule host input' options = .ok c' →
    ∃ text, serializeHandoffCapsule host c.toJson options.integrityKey = .ok text ∧
      serializeHandoffCapsule host c'.toJson options.integrityKey = .ok text ∧
      ∃ read, deserializeHandoffCapsule host.toPlatform options.reading text = .ok read ∧
        read.sorted = c.toJson.sorted

/-- The key can be verified with, and entries of one key are the same, as far as a capsule of the
    stage keeps them. -/
structure Distinguished (host : CapsuleHost) (options : HandoffCapsuleOptions)
    (input : HandoffCapsuleInput) (s : Stage) : Prop where
  key : Usable options.integrityKey
  modifiedFiles : ∀ f ∈ modifiedFilesOf host options input,
    ∀ g ∈ modifiedFilesOf host options input, f.path = g.path →
      fileAt options.resolved.compressionPolicy s f = fileAt options.resolved.compressionPolicy s g
  checkpoints : ∀ c ∈ checkpointsOf host options input,
    ∀ d ∈ checkpointsOf host options input, c.id = d.id →
      checkpointAt options.resolved.compressionPolicy s c =
        checkpointAt options.resolved.compressionPolicy s d

section Canonical

variable {host : CapsuleHost} {options : HandoffCapsuleOptions} {input input' : HandoffCapsuleInput}
  {createdAt : String}

theorem toldBy_map {τ : Type} {key : τ → String} {keep : τ → τ} {l : List τ}
    (hkeep : ∀ t, key (keep t) = key t)
    (h : ∀ t ∈ l, ∀ t' ∈ l, key t = key t' → keep t = keep t') :
    ToldBy key ((sortByKey key l).map keep) := by
  intro a ha b hb hab
  obtain ⟨t, ht, rfl⟩ := mem_map.mp ha
  obtain ⟨t', ht', rfl⟩ := mem_map.mp hb
  rw [hkeep, hkeep] at hab
  exact h t ((sortByKey_perm key l).mem_iff.mp ht) t' ((sortByKey_perm key l).mem_iff.mp ht') hab

variable {s : Stage}

theorem Distinguished.apart (h : Distinguished host options input s) :
    Apart (stageCapsule host options input createdAt s).payload :=
  { modifiedFiles := by
      rw [modifiedFiles_stage]
      exact toldBy_map (path_fileAt _ s) h.modifiedFiles
    checkpoints := by
      intro r hr
      have hlist := checkpoints_stage host options input createdAt s
      rw [HandoffCapsulePayload.checkpoints, hr] at hlist
      rw [show r.checkpoints = _ from hlist]
      exact toldBy_map (id_checkpointAt _ s) h.checkpoints }

/-- **Distinguished inputs make the same capsule**, at every stage at which it is valid. -/
theorem stageCapsule_eq_of_distinguished (hinput : Rearranged input.value input'.value)
    (hvalid : Valid host (stageCapsule host options input createdAt s) options.integrityKey)
    (h : Distinguished host options input s) :
    stageCapsule host options input' createdAt s = stageCapsule host options input createdAt s := by
  have hchecked := checked_of_errors hvalid
  rw [signCapsule_unsigned] at hchecked
  have hpayload := (reordered_stage host options createdAt hinput s).eq (ordered_stage host options input createdAt s)
    (ordered_stage host options input' createdAt s) hchecked h.apart
  rw [stageCapsule_eq host options input input', ← hpayload]

/-- A capsule is valid at a stage for all rearranged inputs or for none. -/
theorem valid_rearranged_iff (hinput : Rearranged input.value input'.value)
    (hwindow : isPositiveInteger options.resolved.preventRetryWindow.1 = true) :
    Valid host (stageCapsule host options input createdAt s) options.integrityKey ↔
      Valid host (stageCapsule host options input' createdAt s) options.integrityKey := by
  have hreordered := reordered_stage host options createdAt hinput s
  constructor
  · intro hvalid
    rw [stageCapsule_eq host options input input']
    exact valid_of_reordered hreordered (portable_stage host hwindow input createdAt s) hvalid
  · intro hvalid
    rw [stageCapsule_eq host options input' input]
    exact valid_of_reordered hreordered.symm (portable_stage host hwindow input' createdAt s) hvalid

theorem validate_stage_iff {strictness : CapsuleValidationStrictness}
    (hwindow : isPositiveInteger options.resolved.preventRetryWindow.1 = true) :
    (validateHandoffCapsule host.isDate strictness (some (signCapsule host
      (stageCapsule host options input createdAt s) options.integrityKey).toJson)).valid = true ↔
        Valid host (stageCapsule host options input createdAt s) options.integrityKey := by
  have hportable := portable_stage host hwindow input createdAt s
  rw [validate_iff rfl]
  exact ⟨capsuleErrors_printed hportable (.inl rfl), capsuleErrors_printed hportable (.inl rfl)⟩

/-- A capsule that is valid at a stage is issued under some limits. -/
theorem exists_created (hadmitted : Admitted host options input createdAt)
    (hvalid : Valid host (stageCapsule host options input createdAt s) options.integrityKey) :
    ∃ limits, createHandoffCapsule host input (options.within limits) = .ok
      (signCapsule host (stageCapsule host options input createdAt s) options.integrityKey) := by
  obtain ⟨limits, hbytes, htokens, hsettles⟩ :=
    exists_limits host hadmitted.window [input] createdAt s
  exact ⟨limits, (create_eq_ok_iff (options.within limits)).mpr ⟨⟨hbytes, htokens⟩, createdAt,
    ⟨hadmitted.window, hadmitted.issues, hadmitted.createdAt⟩, s, hsettles input (.head _),
    (validate_stage_iff hadmitted.window).mpr hvalid, rfl⟩⟩

theorem canonical_of_distinguished (h : ∀ createdAt, Admitted host options input createdAt → ∀ s,
      Valid host (stageCapsule host options input createdAt s) options.integrityKey →
        Distinguished host options input s) : Canonical host options input := by
  intro input' hinput c c' hc hc'
  obtain ⟨-, createdAt, hadmitted, s, hsettles, hvalid, rfl⟩ := (create_eq_ok_iff options).mp hc
  obtain ⟨-, createdAt', hadmitted', s', hsettles', hvalid', rfl⟩ := (create_eq_ok_iff options).mp hc'
  obtain rfl := Except.ok.inj (hadmitted.createdAt.symm.trans hadmitted'.createdAt)
  have hwindow := hadmitted.window
  rw [validate_stage_iff hwindow] at hvalid hvalid'
  rw [← valid_rearranged_iff hinput hwindow] at hvalid'
  have hsame := stageCapsule_eq_of_distinguished hinput hvalid (h createdAt hadmitted s hvalid)
  have hsame' := stageCapsule_eq_of_distinguished hinput hvalid' (h createdAt hadmitted s' hvalid')
  -- the same capsules are measured at both stages, so that the first one to fit is the same
  have hle : ¬ s'.rank < s.rank := fun hlt => by
    have hfits := hsettles'.fits
    rw [fitsAt, hsame', ← fitsAt, hsettles.first s' hlt] at hfits
    nomatch hfits
  have hge : ¬ s.rank < s'.rank := fun hlt => by
    have hfits := hsettles'.first s hlt
    rw [fitsAt, hsame, ← fitsAt, hsettles.fits] at hfits
    nomatch hfits
  have hstage : s = s' := Stage.rank_inj (le_antisymm (not_lt.mp hle) (not_lt.mp hge))
  subst hstage
  have hportable := portable_stage host hwindow input createdAt s
  have hkey := (h createdAt hadmitted s hvalid).key
  rw [hsame]
  exact ⟨_, serialize_eq hportable hvalid hkey, serialize_eq hportable hvalid hkey, _,
    deserialize_serialize hportable hvalid hkey hsettles.fits, sorted_idem _⟩

theorem text_of_serialize {v : Json} {key : Option IntegrityKey} {text : String}
    (h : serializeHandoffCapsule host v key = .ok text) : text = canonicalStringify v := by
  unfold serializeHandoffCapsule at h
  dsimp only at h
  split at h
  · nomatch h
  · split at h
    · nomatch h
    · exact (Except.ok.inj h).symm

/-- Under limits within which both capsules are issued at the stage, canonical inputs have the same
    text, and the key can be verified with. -/
theorem text_of_canonical {limits : Limits}
    (h : Canonical host (options.within limits) input)
    (hinput : Rearranged input.value input'.value)
    (hadmitted : Admitted host options input createdAt)
    (hvalid : Valid host (stageCapsule host options input createdAt s) options.integrityKey)
    (hbytes : isPositiveInteger (options.within limits).resolved.maxBytes = true)
    (htokens : isPositiveInteger (options.within limits).resolved.maxTokens = true)
    (hsettles : Settles host (options.within limits) input createdAt s)
    (hsettles' : Settles host (options.within limits) input' createdAt s) :
    Usable options.integrityKey ∧
      stageText host options input createdAt s = stageText host options input' createdAt s := by
  have hwindow := hadmitted.window
  have hvalid' := (valid_rearranged_iff hinput hwindow).mp hvalid
  have hwithin : ∀ i, Admitted host options i createdAt →
      Admitted host (options.within limits) i createdAt :=
    fun _ h => ⟨h.window, h.issues, h.createdAt⟩
  have hcreated := (create_eq_ok_iff (options.within limits)).mpr
    ⟨⟨hbytes, htokens⟩, createdAt, hwithin _ hadmitted, s, hsettles,
      (validate_stage_iff hwindow).mpr hvalid, rfl⟩
  have hcreated' := (create_eq_ok_iff (options.within limits)).mpr
    ⟨⟨hbytes, htokens⟩, createdAt, hwithin _ (hadmitted.rearranged hinput), s, hsettles',
      (validate_stage_iff hwindow).mpr hvalid', rfl⟩
  obtain ⟨text, htext, htext', -⟩ := h input' hinput _ _ hcreated hcreated'
  constructor
  · intro hkey
    have hportable := portable_stage host hwindow input createdAt s
    have hprinted : serializeHandoffCapsule host (signCapsule host
      (stageCapsule host options input createdAt s) options.integrityKey).toJson
        options.integrityKey = .ok text := htext
    rw [hkey] at hportable hprinted
    exact serialize_emptyKey hportable text hprinted
  · exact (text_of_serialize htext).symm.trans (text_of_serialize htext')

/-- **Capsules are canonical**, whatever the limits, exactly when entries of one key are the same,
    and the key is not an empty text, wherever a capsule is valid. -/
theorem canonical_iff (host : CapsuleHost) (options : HandoffCapsuleOptions)
    (input : HandoffCapsuleInput) :
    (∀ limits, Canonical host (options.within limits) input) ↔
      ∀ createdAt, Admitted host options input createdAt → ∀ s,
        Valid host (stageCapsule host options input createdAt s) options.integrityKey →
          Distinguished host options input s := by
  constructor
  · intro hcanonical createdAt hadmitted s hvalid
    have htext : ∀ i : HandoffCapsuleInput, Rearranged input.value i.value →
        Usable options.integrityKey ∧
          stageText host options input createdAt s = stageText host options i createdAt s := by
      intro i hi
      obtain ⟨limits, hbytes, htokens, hsettles⟩ :=
        exists_limits host hadmitted.window [input, i] createdAt s
      exact text_of_canonical (hcanonical limits) hi hadmitted hvalid hbytes htokens
        (hsettles input (by simp)) (hsettles i (by simp))
    have hboth : ∀ i i' : HandoffCapsuleInput, Rearranged input.value i.value →
        Rearranged input.value i'.value →
        stageText host options i createdAt s = stageText host options i' createdAt s :=
      fun i i' hi hi' => (htext i hi).2.symm.trans (htext i' hi').2
    refine ⟨(htext input (.refl _)).1, fun f hf g hg => ?_, fun c hc d hd => ?_⟩
    · refine keep_eq_of_rearranged (path_fileAt _ s) (fun i i' hi hi' => ?_) hf hg
      have hfiles := modifiedFiles_of_text hadmitted.window (hboth i i' hi hi')
      rw [modifiedFiles_stage, modifiedFiles_stage] at hfiles
      exact hfiles
    · refine keep_eq_of_rearranged (id_checkpointAt _ s) (fun i i' hi hi' => ?_) hc hd
      have hlist := checkpoints_of_text hadmitted.window (hboth i i' hi hi')
      rw [checkpoints_stage, checkpoints_stage] at hlist
      exact hlist
  · intro h limits
    refine canonical_of_distinguished fun createdAt hadmitted s hvalid => ?_
    have hdistinguished := h createdAt ⟨hadmitted.window, hadmitted.issues, hadmitted.createdAt⟩ s
      hvalid
    exact ⟨hdistinguished.key, hdistinguished.modifiedFiles, hdistinguished.checkpoints⟩

end Canonical

/-! ## Two files of one path -/

/-- A change of one file. -/
def twinFile (summary : String) : Json :=
  .obj [("path", .str "src/a.ts"), ("status", .str "modified"), ("summary", .str summary)]

/-- A workspace in which the file was changed twice. -/
def twinWorkspace (files : List Json) : Json :=
  .obj [("modifiedFiles", .arr files), ("commands", .arr []), ("tests", .arr [])]

/-- The rest of a payload. -/
def twinRest : List (String × Json) := (forgedPayload.drop 4).filter fun f => f.1 ≠ "workspace"

/-- The payload with that workspace. -/
def twinPayload (files : List Json) : List (String × Json) :=
  ("workspace", twinWorkspace files) :: twinRest

/-- The text of the capsule, less its signature. -/
def twinText (files : List Json) : String :=
  canonicalStringify (.obj (forgedPayload.take 4 ++ twinPayload files))

/-- The digests of the two capsules' texts. -/
def twinDigests : List String :=
  ["5b8f6fc1fdf8fb984ced953831268349efa59b2e7cf9bc7b3bcb79e8ec4b31a9",
    "f3745ca407dcae459d1969dbda517b74a1be9945b2b1192dca276bf2ee8c1e7d"]

/-- The digest of a text of the two. -/
@[irreducible] def twinDigest (text : String) : String :=
  if text = twinText [twinFile "first", twinFile "second"] then
    "5b8f6fc1fdf8fb984ced953831268349efa59b2e7cf9bc7b3bcb79e8ec4b31a9"
  else "f3745ca407dcae459d1969dbda517b74a1be9945b2b1192dca276bf2ee8c1e7d"

theorem twinDigest_mem (text : String) : twinDigest text ∈ twinDigests := by
  unfold twinDigest
  split
  · exact .head _
  · exact .tail _ (.head _)

/-- A platform that answers with these digests. -/
def twinHost : CapsuleHost where
  sha256 := twinDigest
  hmacSha256 := fun _ _ => "84d6f0914cc2d53ea98afe99985fffd23f6382381e71a48993cc78ae1456bc72"
  isDate := fun text => text = "2026-01-01T00:00:00.000Z"
  now := "2026-01-01T00:00:00.000Z"
  toISOString := id
  scan := id
  digest_sha256 := fun text =>
    (show ∀ digest ∈ twinDigests, isDigest ("sha256:" ++ digest) = true by decide +kernel) _
      (twinDigest_mem text)
  digest_hmac := fun _ _ => by decide +kernel

/-- An input with both changes. -/
def twinInput (first second : String) : HandoffCapsuleInput where
  fields := twinPayload [twinFile first, twinFile second]
  isValue := by
    have hzero : JsNumber.IsDouble (0 : Nat) := JsNumber.isDouble_natCast (by decide)
    refine ⟨show ("workspace" :: twinRest.map Prod.fst).Nodup by decide +kernel, ?_⟩
    simpa [twinPayload, twinRest, twinWorkspace, twinFile, forgedPayload, IsValue, IsValueFields,
      IsValueItems] using hzero

def twinOptions : HandoffCapsuleOptions where
  createdAt := some "2026-01-01T00:00:00.000Z"

theorem signCapsule_twin (u : UnsignedCapsule) : signCapsule twinHost u none =
    ⟨u, "sha256", "sha256:" ++ twinDigest (canonicalStringify u.toJson)⟩ := by
  rfl

theorem twin_valid : Valid twinHost (stageCapsule twinHost twinOptions (twinInput "first" "second")
    "2026-01-01T00:00:00.000Z" .whole) twinOptions.integrityKey := by
  have hvalid : ∀ digest ∈ twinDigests, capsuleErrors twinHost.isDate .strict
      (some (HandoffCapsule.toJson ⟨stageCapsule twinHost twinOptions (twinInput "first" "second")
        "2026-01-01T00:00:00.000Z" .whole, "sha256", "sha256:" ++ digest⟩)) = [] := by
    decide +kernel
  have hkey : twinOptions.integrityKey = none := rfl
  rw [Valid, hkey, signCapsule_twin]
  exact hvalid _ (twinDigest_mem _)

/-- **Two entries of one path make two capsules**: the order of the changes is kept. -/
theorem twins_not_canonical :
    ¬ ∀ limits, Canonical twinHost (twinOptions.within limits) (twinInput "first" "second") := by
  intro h
  have hinput : Rearranged (twinInput "first" "second").value (twinInput "second" "first").value := by
    have hfiles : Rearranged (.arr [twinFile "first", twinFile "second"])
        (.arr [twinFile "second", twinFile "first"]) :=
      .arr (RearrangedItems.refl _) (.swap _ _ _)
    have hworkspace : Rearranged (twinWorkspace [twinFile "first", twinFile "second"])
        (twinWorkspace [twinFile "second", twinFile "first"]) :=
      .obj (.cons hfiles (RearrangedFields.refl _)) (.refl _)
    have hfields : RearrangedFields (twinPayload [twinFile "first", twinFile "second"])
        (twinPayload [twinFile "second", twinFile "first"]) :=
      RearrangedFields.cons hworkspace (RearrangedFields.refl twinRest)
    exact .obj hfields (.refl _)
  have hadmitted : Admitted twinHost twinOptions (twinInput "first" "second")
      "2026-01-01T00:00:00.000Z" :=
    ⟨by decide +kernel, fun _ => by decide +kernel, rfl⟩
  obtain ⟨limits, hbytes, htokens, hsettles⟩ := exists_limits twinHost hadmitted.window
    [twinInput "first" "second", twinInput "second" "first"] "2026-01-01T00:00:00.000Z" .whole
  have htext := (text_of_canonical (h limits) hinput hadmitted twin_valid hbytes htokens
    (hsettles _ (.head _)) (hsettles _ (.tail _ (.head _)))).2
  have hfiles := modifiedFiles_of_text hadmitted.window htext
  revert hfiles
  decide +kernel

end NexusCode.Transfer
