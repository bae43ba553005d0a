/-
  What the validation says of a rearranged value, and what it says of the entries of a payload.

  1. `validateEntityArray_eq_nil_iff`, `duplicateIds_eq_nil_iff` — the checks of an array, without
     its indices.
  2. **`capsuleErrors_of_alike`** — a value without errors has none when its arrays and objects are
     rearranged, its `integrity` aside.
  3. `checked_of_errors` — entries of a capsule without errors are told by their keys, in every list
     that `collectDuplicateIds` looks into.
-/
import NexusCode.Transfer.CapsuleOrder

namespace NexusCode.Transfer

open Lib Shared Json List

/-! ## Checks of rearranged values -/

section Alike

variable {a b : Unknown}

theorem isArray_alike (h : Alike a b) : isArray a = isArray b :=
  h.read isArray (fun _ _ => rfl) fun _ _ => rfl

theorem isBoolean_alike (h : Alike a b) : isBoolean a = isBoolean b :=
  h.read isBoolean (fun _ _ => rfl) fun _ _ => rfl

theorem isIntegerFrom_alike (h : Alike a b) (least : JsNumber) :
    isIntegerFrom least a = isIntegerFrom least b :=
  h.read (isIntegerFrom least) (fun _ _ => rfl) fun _ _ => rfl

theorem isNonEmptyString_alike (h : Alike a b) : isNonEmptyString a = isNonEmptyString b :=
  h.read isNonEmptyString (fun _ _ => rfl) fun _ _ => rfl

theorem requiredString_alike {key : String} (h : Alike (property key a) (property key b))
    (path : String) : requiredString a key path = requiredString b key path := by
  rw [requiredString, requiredString, isNonEmptyString_alike h]

theorem validateEndpoint_alike (h : Alike a b) (ha : Valued a) (path : String) (source : Bool) :
    validateEndpoint a path source = validateEndpoint b path source := by
  have hmembers := property_alike h ha
  rw [validateEndpoint, validateEndpoint, isRecord_alike h,
    requiredString_alike (hmembers "providerId"), requiredString_alike (hmembers "sessionId"),
    requiredString_alike (hmembers "runId"), isIntegerFrom_alike (hmembers "turn")]

theorem validateGoal_alike (h : Alike a b) (ha : Valued a) : validateGoal a = validateGoal b := by
  have hmembers := property_alike h ha
  rw [validateGoal, validateGoal, isRecord_alike h, requiredString_alike (hmembers "objective"),
    requiredString_alike (hmembers "currentGoal"), isArray_alike (hmembers "successCriteria")]

theorem validateHandoff_alike (h : Alike a b) (ha : Valued a) :
    validateHandoff a = validateHandoff b := by
  have hmode := property_alike h ha "mode"
  have hexecute := property_alike h ha "canExecuteActions"
  simp only [validateHandoff, isRecord_alike h, isText_alike hmode, isFlag_alike hexecute,
    isBoolean_alike hexecute, isIntegerFrom_alike (property_alike h ha "preventRetryWindow")]

theorem validateCompression_alike (h : Alike a b) (ha : Valued a) :
    validateCompression a = validateCompression b := by
  have hmembers := property_alike h ha
  simp only [validateCompression, isRecord_alike h, isText_alike (hmembers "policy"),
    isBoolean_alike (hmembers "compressed"), isArray_alike (hmembers "omissions")]

theorem validateIntegrity_alike (h : Alike a b) (ha : Valued a) :
    validateIntegrity a = validateIntegrity b := by
  have hhash := property_alike h ha "hash"
  simp only [validateIntegrity, isRecord_alike h, isText_alike (property_alike h ha "algorithm")]
  generalize property "hash" a = x at hhash ⊢
  generalize property "hash" b = y at hhash ⊢
  cases hhash with
  | none => rfl
  | some hv => cases hv <;> rfl

/-! ## The checks of an array -/

theorem require_eq_nil_iff {test : Bool} {error : String} :
    require test error = [] ↔ test = true := by
  unfold require
  cases test with
  | true => exact ⟨fun _ => rfl, fun _ => rfl⟩
  | false => exact ⟨nofun, nofun⟩

/-- What is checked of every element does not depend on its index. -/
theorem forall_mem_zipIdx {P : Json → Prop} {l : List Json} :
    (∀ x ∈ l.zipIdx, P x.1) ↔ ∀ e ∈ l, P e := by
  rw [← forall_mem_map (f := Prod.fst) (P := P), zipIdx_map_fst]

/-- The entry has the texts that `validateEntityArray` asks for. -/
def HasTexts (keys : List String) (entry : Json) : Prop :=
  isRecord (some entry) = true ∧ ∀ key ∈ keys, isNonEmptyString (property key (some entry)) = true

variable {value : Unknown}

theorem itemsOf_of_not_array (h : ∀ items, value = some (arr items) → False) :
    itemsOf value = [] := by
  unfold itemsOf
  split
  · exact absurd rfl (h _)
  · rfl

variable {path : String}

theorem validateEntityArray_eq_nil_iff {idKey : String}
    {requiredFields : List String} : validateEntityArray value path idKey requiredFields = [] ↔
      ∀ entry ∈ itemsOf value, HasTexts (idKey :: requiredFields) entry := by
  have hentry : ∀ (entry : Json) (index : Nat),
      validateEntity path idKey requiredFields entry index = [] ↔
        HasTexts (idKey :: requiredFields) entry := by
    intro entry index
    rw [validateEntity, HasTexts]
    cases hrecord : isRecord (some entry) with
    | false => exact ⟨nofun, fun h => (nomatch h.1)⟩
    | true =>
      rw [Bool.not_true, if_neg Bool.false_ne_true, flatMap_eq_nil_iff]
      constructor
      · exact fun h => ⟨rfl, fun key hkey => require_eq_nil_iff.mp (h key hkey)⟩
      · exact fun h key hkey => require_eq_nil_iff.mpr (h.2 key hkey)
  unfold validateEntityArray
  split
  · rename_i items
    rw [flatMap_eq_nil_iff, ← forall_mem_zipIdx]
    exact forall_congr' fun x => forall_congr' fun _ => hentry x.1 x.2
  · rename_i hnot
    rw [itemsOf_of_not_array hnot]
    exact ⟨fun _ entry h => (nomatch h), fun _ => rfl⟩

theorem validateStringArray_eq_nil_iff :
    validateStringArray value path = [] ↔
      ∀ entry ∈ itemsOf value, ∃ s, entry = .str s ∧ 0 < JsString.length16 s := by
  unfold validateStringArray
  split
  · rename_i items
    rw [flatMap_eq_nil_iff, ← forall_mem_zipIdx]
    refine forall_congr' fun x => forall_congr' fun _ => ?_
    dsimp only
    split
    · rename_i s heq
      rw [require_eq_nil_iff, decide_eq_true_eq, heq]
      constructor
      · exact fun h => ⟨s, rfl, h⟩
      · rintro ⟨s', heq', h⟩
        rw [Json.str.inj heq']
        exact h
    · rename_i hnot
      exact iff_of_false (cons_ne_nil _ _) fun h => h.elim fun s hs => hnot s hs.1
  · rename_i hnot
    rw [itemsOf_of_not_array hnot]
    exact ⟨fun _ entry h => absurd h not_mem_nil, fun _ => rfl⟩

theorem duplicateIds_eq_nil_iff {key : String} :
    duplicateIds value path key = [] ↔ (idsOf key (itemsOf value)).Nodup := by
  unfold duplicateIds
  split
  · exact require_eq_nil_iff.trans decide_eq_true_iff
  · rename_i hnot
    rw [itemsOf_of_not_array hnot]
    exact ⟨fun _ => nodup_nil, fun _ => rfl⟩

theorem idsOf_eq (key : String) (entries : List Json) :
    idsOf key entries = entries.filterMap fun entry => stringOf (property key (some entry)) := rfl

theorem isValue_of_mem_itemsOf (ha : Valued a) {v : Json} (h : v ∈ itemsOf a) : IsValue v := by
  unfold itemsOf at h
  split at h
  · rename_i items
    exact (isValueItems_iff items).mp (ha _ rfl) v h
  · nomatch h

theorem exists_item (h : Alike a b) {w : Json} (hw : w ∈ itemsOf b) :
    ∃ v ∈ itemsOf a, Rearranged v w := by
  obtain ⟨ys, hitems, hperm⟩ := itemsOf_alike h
  exact hitems.exists_of_mem (hperm.mem_iff.mpr hw)

theorem validateEntityArray_alike (h : Alike a b) (ha : Valued a) {idKey : String}
    {requiredFields : List String} (hnil : validateEntityArray a path idKey requiredFields = []) :
    validateEntityArray b path idKey requiredFields = [] := by
  refine validateEntityArray_eq_nil_iff.mpr fun w hw => ?_
  obtain ⟨v, hv, hvw⟩ := exists_item h hw
  have hmembers := members_alike (isValue_of_mem_itemsOf ha hv) hvw
  obtain ⟨hrecord, htexts⟩ := validateEntityArray_eq_nil_iff.mp hnil v hv
  constructor
  · rw [← isRecord_alike (.some hvw), hrecord]
  · intro key hkey
    rw [← isNonEmptyString_alike (hmembers key), htexts key hkey]

theorem validateStringArray_alike (h : Alike a b)
    (hnil : validateStringArray a path = []) : validateStringArray b path = [] := by
  refine validateStringArray_eq_nil_iff.mpr fun w hw => ?_
  obtain ⟨v, hv, hvw⟩ := exists_item h hw
  obtain ⟨s, rfl, hs⟩ := validateStringArray_eq_nil_iff.mp hnil v hv
  cases hvw
  exact ⟨s, rfl, hs⟩

theorem duplicateIds_alike (h : Alike a b) (ha : Valued a) {key : String}
    (hnil : duplicateIds a path key = []) : duplicateIds b path key = [] := by
  rw [duplicateIds_eq_nil_iff] at hnil ⊢
  obtain ⟨ys, hitems, hperm⟩ := itemsOf_alike h
  have hsame : ∀ {xs ys : List Json}, RearrangedItems xs ys → (∀ v ∈ xs, IsValue v) →
      idsOf key xs = idsOf key ys := by
    intro xs
    induction xs with
    | nil =>
      intro ys h _
      cases h
      rfl
    | cons x xs ih =>
      intro ys h hvalues
      cases h with
      | @cons _ y _ ys head tail =>
        obtain ⟨hx, hxs⟩ := forall_mem_cons.mp hvalues
        have htail := ih tail hxs
        rw [idsOf_eq, idsOf_eq] at htail ⊢
        rw [filterMap_cons, filterMap_cons, stringOf_alike (members_alike hx head key),
          htail]
  rw [hsame hitems fun v hv => isValue_of_mem_itemsOf ha hv] at hnil
  exact ((hperm.filterMap _).nodup_iff).mp hnil

end Alike

/-! ## The whole value -/

section Whole

variable {isDate : String → Bool} {v w : Json}

theorem validateHead_alike
    (hschema : Alike (property "schema" (some v)) (property "schema" (some w)))
    (hcreatedAt : Alike (property "createdAt" (some v)) (property "createdAt" (some w)))
    (hnil : validateHead isDate (some v) = []) : validateHead isDate (some w) = [] := by
  simp only [validateHead, append_eq_nil_iff, require_eq_nil_iff] at hnil ⊢
  obtain ⟨⟨⟨hrequired, hsupported⟩, htext⟩, hdate⟩ := hnil
  rw [requiredString_alike hschema] at hrequired
  rw [isText_alike hschema] at hsupported
  rw [requiredString_alike hcreatedAt] at htext
  refine ⟨⟨⟨hrequired, hsupported⟩, htext⟩, ?_⟩
  generalize property "createdAt" (some v) = x at hcreatedAt hdate
  generalize property "createdAt" (some w) = y at hcreatedAt ⊢
  cases hcreatedAt with
  | none => rfl
  | some hv =>
    cases hv with
    | refl => exact hdate
    | arr => rfl
    | obj => rfl

theorem validateArrays_alike (hv : IsValue v)
    (h : ∀ k ∈ rootArrays, Alike (property k (some v)) (property k (some w)))
    (hnil : validateArrays (some v) = []) : validateArrays (some w) = [] := by
  have hvalued : Valued (some v) := fun _ heq => Option.some.inj heq ▸ hv
  have hentity : ∀ k ∈ rootArrays, ∀ {path idKey : String} {requiredFields : List String},
      validateEntityArray (property k (some v)) path idKey requiredFields = [] →
      validateEntityArray (property k (some w)) path idKey requiredFields = [] :=
    fun k hk _ _ _ => validateEntityArray_alike (h k hk) (hvalued.property k)
  simp only [validateArrays, append_eq_nil_iff, flatMap_eq_nil_iff, require_eq_nil_iff]
    at hnil ⊢
  obtain ⟨⟨⟨⟨⟨⟨⟨harrays, hplan⟩, hdecisions⟩, hassumptions⟩, hconstraints⟩, hquestions⟩, hmanifest⟩,
    hids⟩ := hnil
  refine ⟨⟨⟨⟨⟨⟨⟨fun k hk => ?_, hentity "plan" (by decide) hplan⟩,
    hentity "decisions" (by decide) hdecisions⟩, hentity "assumptions" (by decide) hassumptions⟩,
    hentity "constraints" (by decide) hconstraints⟩,
    hentity "unresolvedQuestions" (by decide) hquestions⟩,
    hentity "contextManifest" (by decide) hmanifest⟩,
    validateStringArray_alike (h "doNotRepeatActionIds" (by decide)) hids⟩
  rw [← isArray_alike (h k hk), harrays k hk]

theorem validateMember_alike {a b : Unknown} (h : Alike a b) (ha : Valued a) {k path idKey : String}
    {requiredFields : List String} :
    validateEntityArray (property k a) path idKey requiredFields = [] →
      validateEntityArray (property k b) path idKey requiredFields = [] :=
  validateEntityArray_alike (property_alike h ha k) (ha.property k)

theorem validateWorkspace_alike {a b : Unknown} (h : Alike a b) (ha : Valued a)
    (hnil : validateWorkspace a = []) : validateWorkspace b = [] := by
  have hmembers := property_alike h ha
  unfold validateWorkspace at hnil ⊢
  rw [← isRecord_alike h]
  split at hnil
  · nomatch hnil
  rename_i hrecord
  rw [if_neg hrecord]
  simp only [append_eq_nil_iff, flatMap_eq_nil_iff, require_eq_nil_iff] at hnil ⊢
  obtain ⟨⟨⟨harrays, hfiles⟩, hcommands⟩, htests⟩ := hnil
  refine ⟨⟨⟨fun k hk => ?_, validateMember_alike h ha hfiles⟩,
    validateMember_alike h ha hcommands⟩, validateMember_alike h ha htests⟩
  rw [← isArray_alike (hmembers k), harrays k hk]

theorem validateTools_alike {a b : Unknown} (h : Alike a b) (ha : Valued a)
    (hnil : validateTools a = []) : validateTools b = [] := by
  have hmembers := property_alike h ha
  unfold validateTools at hnil ⊢
  rw [← isRecord_alike h]
  split at hnil
  · nomatch hnil
  rename_i hrecord
  rw [if_neg hrecord]
  simp only [append_eq_nil_iff, require_eq_nil_iff, isArray_alike (hmembers "outcomes"),
    isArray_alike (hmembers "pendingApprovals")] at hnil ⊢
  obtain ⟨⟨harrays, houtcomes⟩, happrovals⟩ := hnil
  exact ⟨⟨harrays, validateMember_alike h ha houtcomes⟩, validateMember_alike h ha happrovals⟩

theorem validatePartialResponse_alike {a b : Unknown} (h : Alike a b) (ha : Valued a)
    (hnil : validatePartialResponse a = []) : validatePartialResponse b = [] := by
  have hmembers := property_alike h ha
  cases h with
  | none => exact hnil
  | some h =>
    cases h with
    | refl => exact hnil
    | arr => exact hnil
    | obj fields perm =>
      simp only [validatePartialResponse, append_eq_nil_iff, require_eq_nil_iff,
        isArray_alike (hmembers "checkpoints")] at hnil ⊢
      obtain ⟨⟨htext, harray⟩, hcheckpoints⟩ := hnil
      refine ⟨⟨?_, harray⟩, validateEntityArray_alike (hmembers "checkpoints")
        (ha.property "checkpoints") hcheckpoints⟩
      have halike := hmembers "text"
      generalize property "text" _ = x at halike htext
      generalize property "text" _ = y at halike ⊢
      cases halike with
      | none => exact htext
      | some hv => cases hv <;> exact htext

theorem collectDuplicateIds_alike (hv : IsValue v)
    (h : ∀ k, k ≠ "integrity" → Alike (property k (some v)) (property k (some w)))
    (hnil : collectDuplicateIds (some v) = []) : collectDuplicateIds (some w) = [] := by
  have hvalued : Valued (some v) := fun _ heq => Option.some.inj heq ▸ hv
  have hroot : ∀ k, k ≠ "integrity" → ∀ {path key : String},
      duplicateIds (property k (some v)) path key = [] →
      duplicateIds (property k (some w)) path key = [] :=
    fun k hk _ _ => duplicateIds_alike (h k hk) (hvalued.property k)
  have hinner : ∀ k, k ≠ "integrity" → ∀ (k' : String) {path key : String},
      duplicateIds (property k' (property k (some v))) path key = [] →
      duplicateIds (property k' (property k (some w))) path key = [] :=
    fun k hk k' _ _ => duplicateIds_alike (property_alike (h k hk) (hvalued.property k) k')
      ((hvalued.property k).property k')
  simp only [collectDuplicateIds, append_eq_nil_iff] at hnil ⊢
  obtain ⟨⟨⟨⟨⟨⟨⟨⟨⟨hplan, hdecisions⟩, hassumptions⟩, hconstraints⟩, hquestions⟩, hmanifest⟩,
    hcommands⟩, htests⟩, houtcomes⟩, happrovals⟩ := hnil
  exact ⟨⟨⟨⟨⟨⟨⟨⟨⟨hroot _ (by decide) hplan, hroot _ (by decide) hdecisions⟩,
    hroot _ (by decide) hassumptions⟩, hroot _ (by decide) hconstraints⟩,
    hroot _ (by decide) hquestions⟩, hroot _ (by decide) hmanifest⟩,
    hinner _ (by decide) _ hcommands⟩, hinner _ (by decide) _ htests⟩,
    hinner _ (by decide) _ houtcomes⟩, hinner _ (by decide) _ happrovals⟩

/-- **A value without errors** has none when it is rearranged, if its `integrity` has none and its
    keys are known. -/
theorem capsuleErrors_of_alike {strictness strictness' : CapsuleValidationStrictness}
    (hv : IsValue v) (h : ∀ k, k ≠ "integrity" → Alike (property k (some v)) (property k (some w)))
    (hintegrity : validateIntegrity (property "integrity" (some w)) = [])
    (hkeys : collectUnknownRootKeys (some w) = [])
    (hnil : capsuleErrors isDate strictness (some v) = []) :
    capsuleErrors isDate strictness' (some w) = [] := by
  have hvalued : Valued (some v) := fun _ heq => Option.some.inj heq ▸ hv
  simp only [capsuleErrors, append_eq_nil_iff] at hnil ⊢
  obtain ⟨⟨⟨⟨⟨⟨⟨⟨⟨⟨⟨⟨hhead, hhandoff⟩, hcompression⟩, hsource⟩, htarget⟩, hgoal⟩, harrays⟩,
    hworkspace⟩, htools⟩, hresponse⟩, -⟩, hduplicates⟩, -⟩ := hnil
  have hmember : ∀ k, k ≠ "integrity" → Valued (property k (some v)) :=
    fun k _ => hvalued.property k
  refine ⟨⟨⟨⟨⟨⟨⟨⟨⟨⟨⟨⟨validateHead_alike (h _ (by decide)) (h _ (by decide)) hhead, ?_⟩, ?_⟩, ?_⟩,
    ?_⟩, ?_⟩, validateArrays_alike hv (fun k hk => h k ?_) harrays⟩,
    validateWorkspace_alike (h _ (by decide)) (hvalued.property _) hworkspace⟩,
    validateTools_alike (h _ (by decide)) (hvalued.property _) htools⟩,
    validatePartialResponse_alike (h _ (by decide)) (hvalued.property _) hresponse⟩, hintegrity⟩,
    collectDuplicateIds_alike hv h hduplicates⟩, ?_⟩
  · rw [← validateHandoff_alike (h _ (by decide)) (hvalued.property _), hhandoff]
  · rw [← validateCompression_alike (h _ (by decide)) (hvalued.property _), hcompression]
  · rw [← validateEndpoint_alike (h _ (by decide)) (hvalued.property _), hsource]
  · rw [← validateEndpoint_alike (h _ (by decide)) (hvalued.property _), htarget]
  · rw [← validateGoal_alike (h _ (by decide)) (hvalued.property _), hgoal]
  · rintro rfl
    exact absurd hk (by decide)
  · cases strictness' with
    | strict => exact hkeys
    | relaxed => rfl

end Whole

/-! ## The entries of a capsule -/

theorem named_capsule : Named ["schema", "createdAt", "handoff", "compression", "source", "target",
    "goal", "plan", "decisions", "assumptions", "constraints", "unresolvedQuestions", "workspace",
    "tools", "contextManifest", "doNotRepeatActionIds", "partialResponse", "integrity"] := by
  decide +kernel

theorem property_capsule {c : HandoffCapsule} {k : String} {o : Option Json}
    (h : (k, o) ∈ c.unsigned.members ++ [("integrity", some c.integrity)]) :
    property k (some c.toJson) = o :=
  get?_record named_capsule.1 h

theorem idsOf_entries {τ : Type} {toJson : τ → Json} {key : String} {f : τ → String}
    (h : ∀ t, property key (some (toJson t)) = some (.str (f t))) (l : List τ) :
    idsOf key (itemsOf (some (entries toJson l))) = l.map f := by
  show idsOf key (l.map toJson) = l.map f
  rw [idsOf_eq, filterMap_map]
  refine filterMap_eq_map_iff_forall_eq_some.mpr fun t _ => ?_
  show stringOf (property key (some (toJson t))) = some (f t)
  rw [h]
  rfl

theorem toldBy_of_nodup {τ : Type} (toJson : τ → Json) {key path : String} {f : τ → String}
    (h : ∀ t, property key (some (toJson t)) = some (.str (f t))) {l : List τ}
    (hnil : duplicateIds (some (entries toJson l)) path key = []) : ToldBy f l := by
  rw [duplicateIds_eq_nil_iff, idsOf_entries h] at hnil
  exact fun a ha b hb => inj_on_of_nodup_map hnil ha hb

theorem id_of_key {e e' : CapsuleContextEntry} (h : e.key = e'.key) : e.id = e'.id := by
  have hlists := congrArg String.toList h
  unfold CapsuleContextEntry.key at hlists
  simp only [String.toList_append] at hlists
  refine String.toList_inj.mp ?_
  cases hi : e.inclusion <;> cases hi' : e'.inclusion <;> rw [hi, hi'] at hlists
  · exact append_cancel_left hlists
  · nomatch hlists
  · nomatch hlists
  · exact append_cancel_left hlists

/-- **The entries of a capsule without errors** are told by their keys, where the ids are checked. -/
theorem checked_of_errors {isDate : String → Bool} {strictness : CapsuleValidationStrictness}
    {c : HandoffCapsule} (hnil : capsuleErrors isDate strictness (some c.toJson) = []) :
    Checked c.unsigned.payload := by
  simp only [capsuleErrors, append_eq_nil_iff] at hnil
  have hduplicates := hnil.1.2
  simp only [collectDuplicateIds, append_eq_nil_iff] at hduplicates
  obtain ⟨⟨⟨⟨⟨⟨⟨⟨⟨hplan, hdecisions⟩, hassumptions⟩, hconstraints⟩, hquestions⟩, hmanifest⟩,
    hcommands⟩, htests⟩, houtcomes⟩, happrovals⟩ := hduplicates
  exact
    { plan := toldBy_of_nodup CapsuleTask.toJson (fun _ => rfl) hplan
      decisions := toldBy_of_nodup CapsuleDecision.toJson (fun _ => rfl) hdecisions
      assumptions := toldBy_of_nodup CapsuleAssumption.toJson (fun _ => rfl) hassumptions
      constraints := toldBy_of_nodup CapsuleConstraint.toJson (fun _ => rfl) hconstraints
      unresolvedQuestions := toldBy_of_nodup CapsuleQuestion.toJson (fun _ => rfl) hquestions
      commands := toldBy_of_nodup CapsuleCommand.toJson (fun _ => rfl) hcommands
      tests := toldBy_of_nodup CapsuleTestRun.toJson (fun _ => rfl) htests
      outcomes := toldBy_of_nodup CapsuleToolOutcome.toJson (fun _ => rfl) houtcomes
      pendingApprovals :=
        toldBy_of_nodup CapsulePendingApproval.toJson (fun _ => rfl) happrovals
      contextManifest := fun a ha b hb hkey =>
        toldBy_of_nodup CapsuleContextEntry.toJson (fun _ => rfl) hmanifest a ha b hb
          (id_of_key hkey) }

end NexusCode.Transfer
