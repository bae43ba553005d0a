/-
  How far a capsule is compressed.

  `createHandoffCapsule` issues the first of three capsules that fits: the whole one, and what one
  and two compressions make of it.

  1. `create_eq_ok_iff` — what is issued, and when; **`issued_survives`**.
  2. `valid_of_reordered` — payloads with the same entries are valid together, at every stage.
  3. `stage_of_text` — the text of a capsule tells its stage.
  4. **`exists_limits`** — for every stage there are limits under which the capsules of that stage
     are the ones that are issued.
-/
import NexusCode.Transfer.CapsuleText

namespace NexusCode.Transfer

open Lib Shared Json List Bool

/-! ## Stages -/

/-- How often a capsule was compressed. -/
inductive Stage where
  | whole
  | large
  | small
deriving DecidableEq

def Stage.rank : Stage → Nat
  | whole => 0
  | large => 1
  | small => 2

theorem Stage.rank_inj {s t : Stage} (h : s.rank = t.rank) : s = t := by
  cases s <;> cases t <;> first | rfl | nomatch h

/-- What the compressions up to a stage make of something. -/
def upTo {τ : Type} (compress : CompressionLevel → τ → τ) : Stage → τ → τ
  | .whole, t => t
  | .large, t => compress .large t
  | .small, t => compress .small (compress .large t)

theorem upTo_keeps {τ κ : Type} (compress : CompressionLevel → τ → τ) (key : τ → κ)
    (h : ∀ level t, key (compress level t) = key t) (s : Stage) (t : τ) :
    key (upTo compress s t) = key t := by
  cases s with
  | whole => rfl
  | large => exact h .large t
  | small => exact (h .small _).trans (h .large t)

/-- Up to a stage, the items of a list are compressed one by one. -/
theorem upTo_map {τ : Type} (compress : CompressionLevel → τ → τ) (s : Stage) (l : List τ) :
    upTo (fun level => List.map (compress level)) s l = l.map (upTo compress s) := by
  cases s with
  | whole => exact (map_id' l).symm
  | large => rfl
  | small => exact map_map

/-- What the compressions up to a stage make of a capsule. -/
def atStage (policy : CapsuleCompressionPolicy) (u : UnsignedCapsule) (s : Stage) :
    UnsignedCapsule := upTo (compressCapsule policy) s u

variable {host : CapsuleHost} {options : HandoffCapsuleOptions} {input input' : HandoffCapsuleInput}

/-- The capsule before any compression. -/
def wholeCapsule (host : CapsuleHost) (options : HandoffCapsuleOptions)
    (input : HandoffCapsuleInput) (createdAt : String) : UnsignedCapsule where
  createdAt := createdAt
  mode := options.resolved.mode
  preventRetryWindow := options.resolved.preventRetryWindow.1
  policy := options.resolved.compressionPolicy
  compressed := false
  omissions := []
  payload := normalizePayload (createRedactor host options) (some input.value)

/-- The capsule of a stage. -/
def stageCapsule (host : CapsuleHost) (options : HandoffCapsuleOptions)
    (input : HandoffCapsuleInput) (createdAt : String) (s : Stage) : UnsignedCapsule :=
  atStage options.resolved.compressionPolicy (wholeCapsule host options input createdAt) s

/-- The input and the options pass the checks that are made before a capsule is built; the limits
    are checked apart. -/
structure Admitted (host : CapsuleHost) (options : HandoffCapsuleOptions)
    (input : HandoffCapsuleInput) (createdAt : String) : Prop where
  window : isPositiveInteger options.resolved.preventRetryWindow.1 = true
  issues : options.resolved.validationStrictness = .strict → validateInput (some input.value) = []
  createdAt : normalizeCreatedAt host options.createdAt options.resolved.validationStrictness =
    .ok createdAt

/-- The capsule of the stage fits. -/
def fitsAt (host : CapsuleHost) (options : HandoffCapsuleOptions) (input : HandoffCapsuleInput)
    (createdAt : String) (s : Stage) : Bool :=
  fitsBudget (signCapsule host (stageCapsule host options input createdAt s) options.integrityKey)
    options.resolved

/-- The capsule of the stage is the first one that fits. -/
structure Settles (host : CapsuleHost) (options : HandoffCapsuleOptions)
    (input : HandoffCapsuleInput) (createdAt : String) (s : Stage) : Prop where
  fits : fitsAt host options input createdAt s = true
  first : ∀ t, t.rank < s.rank → fitsAt host options input createdAt t = false

theorem resolveOptions_eq_ok_iff {resolved : ResolvedOptions} :
    resolveOptions options = .ok resolved ↔ resolved = options.resolved ∧
      isPositiveInteger options.resolved.preventRetryWindow.1 = true ∧
      isPositiveInteger options.resolved.maxBytes = true ∧
      isPositiveInteger options.resolved.maxTokens = true := by
  have hall : ([("preventRetryWindow", options.resolved.preventRetryWindow.1),
      ("maxBytes", options.resolved.maxBytes), ("maxTokens", options.resolved.maxTokens)].find?
        fun bound => !isPositiveInteger bound.2) = none ↔
      isPositiveInteger options.resolved.preventRetryWindow.1 = true ∧
      isPositiveInteger options.resolved.maxBytes = true ∧
      isPositiveInteger options.resolved.maxTokens = true := by
    simp [List.find?_eq_none]
  rw [← hall]
  unfold resolveOptions
  dsimp only
  cases List.find? _ _ with
  | none =>
    dsimp only
    exact ⟨fun h => ⟨(Except.ok.inj h).symm, rfl⟩, fun h => congrArg Except.ok h.1.symm⟩
  | some bound => exact ⟨nofun, fun h => (nomatch h.2)⟩

/-- **The compressions end** at the first capsule that fits, or at the last one. -/
theorem compressToFit_eq (fits : UnsignedCapsule → Bool) (policy : CapsuleCompressionPolicy)
    (u : UnsignedCapsule) :
    ∃ s, compressToFit fits policy u = atStage policy u s ∧
      (fits (atStage policy u s) = true ∨ s = .small) ∧
      ∀ t, t.rank < s.rank → fits (atStage policy u t) = false := by
  unfold compressToFit
  dsimp only
  cases hwhole : fits u with
  | true =>
    rw [if_pos rfl, if_pos hwhole]
    exact ⟨.whole, rfl, .inl hwhole, fun t ht => absurd ht (Nat.not_lt_zero _)⟩
  | false =>
    rw [if_neg Bool.false_ne_true]
    cases hlarge : fits (compressCapsule policy .large u) with
    | true =>
      refine ⟨.large, if_pos rfl, .inl hlarge, fun t ht => ?_⟩
      cases t with
      | whole => exact hwhole
      | large => exact absurd ht (lt_irrefl _)
      | small => exact absurd ht (by decide)
    | false =>
      refine ⟨.small, if_neg Bool.false_ne_true, .inr rfl, fun t ht => ?_⟩
      cases t with
      | whole => exact hwhole
      | large => exact hlarge
      | small => exact absurd ht (lt_irrefl _)

theorem issue_eq_ok_iff {resolved : ResolvedOptions} {u : UnsignedCapsule} {c : HandoffCapsule} :
    issueCapsule host options resolved u = .ok c ↔
      ∃ s, (fitsBudget (signCapsule host (atStage resolved.compressionPolicy u s)
          options.integrityKey) resolved = true ∧
        (∀ t, t.rank < s.rank → fitsBudget (signCapsule host
          (atStage resolved.compressionPolicy u t) options.integrityKey) resolved = false)) ∧
        (validateHandoffCapsule host.isDate resolved.validationStrictness (some (signCapsule host
          (atStage resolved.compressionPolicy u s) options.integrityKey).toJson)).valid = true ∧
        c = signCapsule host (atStage resolved.compressionPolicy u s) options.integrityKey := by
  obtain ⟨s, hs, hlast, hfirst⟩ := compressToFit_eq
    (fun u => fitsBudget (signCapsule host u options.integrityKey) resolved)
    resolved.compressionPolicy u
  unfold issueCapsule
  dsimp only
  rw [hs]
  constructor
  · intro h
    split at h
    · nomatch h
    rename_i hfits
    split at h
    · nomatch h
    rename_i hvalid
    rw [not_eq_true', not_eq_false] at hfits hvalid
    exact ⟨s, ⟨hfits, hfirst⟩, hvalid, (Except.ok.inj h).symm⟩
  · rintro ⟨s', ⟨hfits', hfirst'⟩, hvalid, rfl⟩
    -- both stages are the first one that fits
    have hle : ¬ s'.rank < s.rank := fun hlt => by
      have hnot := hfirst s' hlt
      rw [hfits'] at hnot
      nomatch hnot
    have hge : ¬ s.rank < s'.rank := fun hlt => by
      rcases hlast with hfits | rfl
      · have hnot := hfirst' s hlt
        rw [hfits] at hnot
        nomatch hnot
      · cases s' <;> exact absurd hlt (by decide)
    obtain rfl := Stage.rank_inj (le_antisymm (not_lt.mp hge) (not_lt.mp hle))
    rw [hfits', hvalid]
    rfl

/-- **What is issued**: the capsule of the stage that settles, if it is valid. -/
theorem create_eq_ok_iff (options : HandoffCapsuleOptions) {c : HandoffCapsule} :
    createHandoffCapsule host input options = .ok c ↔
      (isPositiveInteger options.resolved.maxBytes = true ∧
        isPositiveInteger options.resolved.maxTokens = true) ∧
      ∃ createdAt, Admitted host options input createdAt ∧
        ∃ s, Settles host options input createdAt s ∧
          (validateHandoffCapsule host.isDate options.resolved.validationStrictness (some
            (signCapsule host (stageCapsule host options input createdAt s)
              options.integrityKey).toJson)).valid = true ∧
          c = signCapsule host (stageCapsule host options input createdAt s)
            options.integrityKey := by
  unfold createHandoffCapsule
  cases hresolve : resolveOptions options with
  | error e =>
    constructor
    · exact nofun
    · rintro ⟨⟨hbytes, htokens⟩, createdAt, hadmitted, -⟩
      rw [resolveOptions_eq_ok_iff.mpr ⟨rfl, hadmitted.window, hbytes, htokens⟩] at hresolve
      nomatch hresolve
  | ok resolved =>
    obtain ⟨rfl, hwindow, hbytes, htokens⟩ := resolveOptions_eq_ok_iff.mp hresolve
    show (if _ then _ else _) = _ ↔ _
    split
    · rename_i hrefused
      constructor
      · exact nofun
      · rintro ⟨-, createdAt, hadmitted, -⟩
        exact absurd (hadmitted.issues hrefused.1) hrefused.2
    · rename_i hpassed
      show (do
        let createdAt ←
          normalizeCreatedAt host options.createdAt options.resolved.validationStrictness
        issueCapsule host options options.resolved
          (wholeCapsule host options input createdAt)) = .ok c ↔ _
      have hissues : options.resolved.validationStrictness = .strict →
          validateInput (some input.value) = [] :=
        fun hstrict => not_not.mp fun hne => hpassed ⟨hstrict, hne⟩
      cases hdate : normalizeCreatedAt host options.createdAt
          options.resolved.validationStrictness with
      | error e =>
        constructor
        · exact nofun
        · rintro ⟨-, createdAt, hadmitted, -⟩
          rw [hadmitted.createdAt] at hdate
          nomatch hdate
      | ok createdAt =>
        show issueCapsule host options options.resolved
          (wholeCapsule host options input createdAt) = .ok c ↔ _
        rw [issue_eq_ok_iff]
        constructor
        · rintro ⟨s, ⟨hfits, hfirst⟩, hvalid, hc⟩
          exact ⟨⟨hbytes, htokens⟩, createdAt, ⟨hwindow, hissues, hdate⟩, s, ⟨hfits, hfirst⟩,
            hvalid, hc⟩
        · rintro ⟨-, createdAt', hadmitted, s, hsettles, hvalid, hc⟩
          obtain rfl := Except.ok.inj (hdate.symm.trans hadmitted.createdAt)
          exact ⟨s, ⟨hsettles.fits, hsettles.first⟩, hvalid, hc⟩

/-! ## Capsules of a stage -/

section Stages

variable {createdAt : String}

theorem signCapsule_unsigned (host : CapsuleHost) (u : UnsignedCapsule)
    (key : Option IntegrityKey) : (signCapsule host u key).unsigned = u := by
  cases key <;> rfl

theorem Numeric.atStage {u : UnsignedCapsule} (h : Numeric u.payload)
    (policy : CapsuleCompressionPolicy) (s : Stage) : Numeric (atStage policy u s).payload := by
  cases s with
  | whole => exact h
  | large => exact h.compress policy .large
  | small => exact (h.compress policy .large).compress policy .small

theorem Ordered.atStage {u : UnsignedCapsule} (h : Ordered u.payload)
    (policy : CapsuleCompressionPolicy) (s : Stage) : Ordered (atStage policy u s).payload := by
  cases s with
  | whole => exact h
  | large => exact h.compress policy .large
  | small => exact (h.compress policy .large).compress policy .small

theorem Reordered.atStage {u u' : UnsignedCapsule} (h : Reordered u.payload u'.payload)
    (policy : CapsuleCompressionPolicy) (s : Stage) :
    Reordered (atStage policy u s).payload (atStage policy u' s).payload := by
  cases s with
  | whole => exact h
  | large => exact h.compress policy .large
  | small => exact (h.compress policy .large).compress policy .small

theorem ordered_stage (host : CapsuleHost) (options : HandoffCapsuleOptions)
    (input : HandoffCapsuleInput) (createdAt : String) (s : Stage) :
    Ordered (stageCapsule host options input createdAt s).payload :=
  Ordered.atStage (u := wholeCapsule host options input createdAt) (ordered_normalize _ _) _ s

/-- Rearranged inputs make capsules of the same entries, at every stage. -/
theorem reordered_stage (host : CapsuleHost) (options : HandoffCapsuleOptions) (createdAt : String)
    (h : Rearranged input.value input'.value) (s : Stage) :
    Reordered (stageCapsule host options input createdAt s).payload
      (stageCapsule host options input' createdAt s).payload := by
  have hwhole : Reordered (wholeCapsule host options input createdAt).payload
      (wholeCapsule host options input' createdAt).payload :=
    normalize_reordered _ input.isValue h
  exact hwhole.atStage _ s

theorem stageCapsule_eq (host : CapsuleHost) (options : HandoffCapsuleOptions)
    (input input' : HandoffCapsuleInput) (createdAt : String) (s : Stage) :
    stageCapsule host options input' createdAt s =
      { stageCapsule host options input createdAt s with
        payload := (stageCapsule host options input' createdAt s).payload } := by
  cases s <;> rfl

theorem numeric_stage (host : CapsuleHost) (options : HandoffCapsuleOptions)
    (input : HandoffCapsuleInput) (createdAt : String) (s : Stage) :
    Numeric (stageCapsule host options input createdAt s).payload :=
  Numeric.atStage (u := wholeCapsule host options input createdAt)
    (numeric_normalize _ fun _ heq => Option.some.inj heq ▸ input.isValue) _ s

theorem portable_stage (host : CapsuleHost)
    (hwindow : isPositiveInteger options.resolved.preventRetryWindow.1 = true)
    (input : HandoffCapsuleInput) (createdAt : String) (s : Stage) :
    Portable (signCapsule host (stageCapsule host options input createdAt s)
      options.integrityKey).toJson := by
  have hnumeric := numeric_stage host options input createdAt s
  have hnumber : (stageCapsule host options input createdAt s).preventRetryWindow =
      options.resolved.preventRetryWindow.1 := by
    cases s <;> rfl
  have hportable : Portable (.num (stageCapsule host options input createdAt s).preventRetryWindow) := by
    rw [hnumber]
    exact portable_of_isInteger options.resolved.preventRetryWindow.2
      (and_eq_true_iff.mp hwindow).1
  cases options.integrityKey with
  | none => exact portable_capsule hnumeric hportable
  | some key => exact portable_capsule hnumeric hportable

open Classical in
/-- **Every capsule that is issued survives its text**, its members in key order; only under an
    empty key it does not serialize. -/
theorem issued_survives (host : CapsuleHost) (input : HandoffCapsuleInput)
    (options : HandoffCapsuleOptions) :
    ((createHandoffCapsule host input options).bind fun c =>
        (serializeHandoffCapsule host c.toJson options.integrityKey).bind
          (deserializeHandoffCapsule host.toPlatform options.reading)) =
      (createHandoffCapsule host input options).bind fun c =>
        if options.integrityKey = some (.text "") then .error .integrity
        else .ok c.toJson.sorted := by
  cases hcreate : createHandoffCapsule host input options with
  | error e => rw [Except.bind, Except.bind]
  | ok c =>
    obtain ⟨-, createdAt, hadmitted, s, hsettles, hvalid, rfl⟩ :=
      (create_eq_ok_iff options).mp hcreate
    have hc := portable_stage host hadmitted.window input createdAt s
    have hprinted : Valid host (stageCapsule host options input createdAt s) options.integrityKey :=
      capsuleErrors_printed hc (.inl rfl) ((validate_iff rfl).mp hvalid)
    rw [Except.bind, Except.bind]
    split
    · rename_i hempty
      rw [hempty] at hc hprinted ⊢
      rw [serializeHandoffCapsule, (validate_iff rfl).mpr hprinted, verify_emptyKey hc]
      rfl
    · rename_i hkey
      rw [serialize_eq hc hprinted hkey, Except.bind,
        deserialize_serialize hc hprinted hkey hsettles.fits]

end Stages

/-! ## Valid capsules -/

section Valid

theorem alike_entries {τ : Type} {l l' : List τ} (toJson : τ → Json) (h : l.Perm l') :
    Alike (some (entries toJson l)) (some (entries toJson l')) :=
  .some (.arr (RearrangedItems.refl _) (h.map toJson))

theorem rearranged_workspace {w w' : CapsuleWorkspace} (hf : w.modifiedFiles.Perm w'.modifiedFiles)
    (hc : w.commands.Perm w'.commands) (ht : w.tests.Perm w'.tests) :
    Rearranged w.toJson w'.toJson :=
  rearranged_record (.cons ⟨rfl, alike_entries _ hf⟩ (.cons ⟨rfl, alike_entries _ hc⟩
    (.cons ⟨rfl, alike_entries _ ht⟩ .nil)))

theorem rearranged_tools {t t' : CapsuleTools} (ho : t.outcomes.Perm t'.outcomes)
    (hp : t.pendingApprovals.Perm t'.pendingApprovals) : Rearranged t.toJson t'.toJson :=
  rearranged_record (.cons ⟨rfl, alike_entries _ ho⟩ (.cons ⟨rfl, alike_entries _ hp⟩ .nil))

theorem rearranged_response {r r' : CapsulePartialResponse} (h : ReorderedResponse r r') :
    Rearranged r.toJson r'.toJson := by
  rw [CapsulePartialResponse.toJson, CapsulePartialResponse.toJson, h.text, h.finishReason,
    h.continuationHint]
  exact rearranged_record (.cons ⟨rfl, Alike.refl _⟩ (.cons ⟨rfl, Alike.refl _⟩
    (.cons ⟨rfl, Alike.refl _⟩ (.cons ⟨rfl, alike_entries _ h.checkpoints⟩ .nil))))

theorem rearranged_unsigned {u : UnsignedCapsule} {p : HandoffCapsulePayload}
    (h : Reordered u.payload p) :
    Rearranged u.toJson { u with payload := p : UnsignedCapsule }.toJson := by
  have hresponse : Alike (u.payload.partialResponse.map CapsulePartialResponse.toJson)
      (p.partialResponse.map CapsulePartialResponse.toJson) := by
    have hrel := h.partialResponse
    generalize u.payload.partialResponse = a at hrel ⊢
    generalize p.partialResponse = b at hrel ⊢
    cases hrel with
    | none => exact .none
    | some hr => exact .some (rearranged_response hr)
  have hsource : Alike (some u.payload.source.toJson) (some p.source.toJson) :=
    h.source ▸ Alike.refl _
  have htarget : Alike (some u.payload.target.toJson) (some p.target.toJson) :=
    h.target ▸ Alike.refl _
  have hgoal : Alike (some u.payload.goal.toJson) (some p.goal.toJson) := h.goal ▸ Alike.refl _
  have hids : Alike (some (texts u.payload.doNotRepeatActionIds))
      (some (texts p.doNotRepeatActionIds)) := h.doNotRepeatActionIds ▸ Alike.refl _
  have hsame : ∀ m : String × Option Json, m.1 = m.1 ∧ Alike m.2 m.2 := fun m => ⟨rfl, Alike.refl _⟩
  exact rearranged_record (.cons (hsame _) (.cons (hsame _) (.cons (hsame _) (.cons (hsame _)
    (.cons ⟨rfl, hsource⟩ (.cons ⟨rfl, htarget⟩ (.cons ⟨rfl, hgoal⟩
    (.cons ⟨rfl, alike_entries _ h.plan⟩ (.cons ⟨rfl, alike_entries _ h.decisions⟩
    (.cons ⟨rfl, alike_entries _ h.assumptions⟩ (.cons ⟨rfl, alike_entries _ h.constraints⟩
    (.cons ⟨rfl, alike_entries _ h.unresolvedQuestions⟩
    (.cons ⟨rfl, .some (rearranged_workspace h.modifiedFiles h.commands h.tests)⟩
    (.cons ⟨rfl, .some (rearranged_tools h.outcomes h.pendingApprovals)⟩
    (.cons ⟨rfl, alike_entries _ h.contextManifest⟩ (.cons ⟨rfl, hids⟩
    (.cons ⟨rfl, hresponse⟩ .nil)))))))))))))))))

theorem property_unsigned (c : HandoffCapsule) {k : String} (hk : k ≠ "integrity") :
    property k (some c.toJson) = property k (some c.unsigned.toJson) := by
  rw [← unsignedPart_capsule, property_some, property_some]
  exact (field?_filter (p := fun k => k ≠ "integrity") (decide_eq_true hk) _).symm

/-- **Capsules of the same entries are valid together.** -/
theorem valid_of_reordered {host : CapsuleHost} {u : UnsignedCapsule} {p : HandoffCapsulePayload}
    {key : Option IntegrityKey} {strictness strictness' : CapsuleValidationStrictness}
    (h : Reordered u.payload p) (hc : Portable (signCapsule host u key).toJson)
    (hvalid : capsuleErrors host.isDate strictness (some (signCapsule host u key).toJson) = []) :
    capsuleErrors host.isDate strictness' (some (signCapsule host
      { u with payload := p } key).toJson) = [] := by
  have hunsigned : IsValue u.toJson := by
    rw [← signCapsule_unsigned host u key, ← unsignedPart_capsule]
    exact (portable_unsignedPart hc).isValue
  refine capsuleErrors_of_alike hc.isValue (fun k hk => ?_) ?_
    (collectUnknownRootKeys_printed (.inl rfl)) hvalid
  · rw [property_unsigned _ hk, property_unsigned _ hk, signCapsule_unsigned, signCapsule_unsigned]
    exact (rearranged_unsigned h).get? hunsigned k
  · rw [property_integrity, validateIntegrity_signed]

theorem validateInput_alike {v w : Json} (hv : IsValue v) (h : Rearranged v w) :
    validateInput (some v) = validateInput (some w) := by
  have hvalued : Valued (some v) := fun _ heq => Option.some.inj heq ▸ hv
  have hmembers := members_alike hv h
  rw [validateInput, validateInput, isRecord_alike (.some h),
    validateEndpoint_alike (hmembers "source") (hvalued.property _),
    validateEndpoint_alike (hmembers "target") (hvalued.property _),
    validateGoal_alike (hmembers "goal") (hvalued.property _)]

theorem Admitted.rearranged {createdAt : String} (h : Admitted host options input createdAt)
    (hinput : Rearranged input.value input'.value) : Admitted host options input' createdAt :=
  { window := h.window
    issues := fun hstrict =>
      (validateInput_alike input.isValue hinput).symm.trans (h.issues hstrict)
    createdAt := h.createdAt }

end Valid

/-! ## Texts of capsules -/

section Texts

theorem sorted_texts (l : List String) : (texts l).sorted = texts l := by
  show arr (sortedItems (l.map .str)) = arr (l.map .str)
  rw [sortedItems_eq, map_map]
  exact congrArg arr (map_congr_left fun _ _ => rfl)

theorem texts_inj {l l' : List String} (h : texts l = texts l') : l = l' :=
  map_injective_iff.mpr (fun _ _ => Json.str.inj) (Json.arr.inj h)

theorem sorted_entries {τ : Type} (toJson : τ → Json) (l : List τ) :
    (entries toJson l).sorted = .arr (l.map fun t => (toJson t).sorted) := by
  show arr (sortedItems (l.map toJson)) = _
  rw [sortedItems_eq, map_map]
  rfl

variable {host : CapsuleHost} {u u' : UnsignedCapsule} {key : Option IntegrityKey}

/-- Capsules of the same text have the same members, each in key order. -/
theorem member_of_text (hc : Portable (signCapsule host u key).toJson)
    (hc' : Portable (signCapsule host u' key).toJson)
    (h : canonicalStringify (signCapsule host u key).toJson =
      canonicalStringify (signCapsule host u' key).toJson) ⦃k : String⦄ ⦃o o' : Option Json⦄
    (hk : (k, o) ∈ u.members) (hk' : (k, o') ∈ u'.members) :
    o.map Json.sorted = o'.map Json.sorted := by
  rw [canonicalStringify_eq hc, canonicalStringify_eq hc'] at h
  have hmem : ∀ {u : UnsignedCapsule} {o : Option Json}, (k, o) ∈ u.members →
      (k, o) ∈ (signCapsule host u key).unsigned.members ++
        [("integrity", some (signCapsule host u key).integrity)] := by
    intro u o hk
    rw [signCapsule_unsigned]
    exact mem_append_left _ hk
  exact member_of_sorted_eq hc.isValue hc'.isValue (sorted_of_stringify_eq hc hc' h)
    named_capsule.1 named_capsule.1 (hmem hk) (hmem hk')

theorem compression_of_text (hc : Portable (signCapsule host u key).toJson)
    (hc' : Portable (signCapsule host u' key).toJson)
    (h : canonicalStringify (signCapsule host u key).toJson =
      canonicalStringify (signCapsule host u' key).toJson) :
    (u.compressed, u.omissions) = (u'.compressed, u'.omissions) := by
  have hmem : ∀ u : UnsignedCapsule, ("compression", some u.compression) ∈ u.members :=
    fun u => mem_append_left _ (.tail _ (.tail _ (.tail _ (.head _))))
  have hnamed : Named ["policy", "compressed", "omissions"] := by decide
  have hcompression := Option.some.inj (member_of_text hc hc' h (hmem u) (hmem u'))
  have hmember := member_of_sorted_eq (portable_compression u).isValue
    (portable_compression u').isValue hcompression hnamed.1 hnamed.1
  have hcompressed := hmember (.tail _ (.head _)) (.tail _ (.head _))
  have homissions := hmember (.tail _ (.tail _ (.head _))) (.tail _ (.tail _ (.head _)))
  rw [Option.map_some, Option.map_some, sorted_texts, sorted_texts] at homissions
  exact Prod.ext (Json.bool.inj (Option.some.inj hcompressed))
    (texts_inj (Option.some.inj homissions))

end Texts

/-! ## Limits -/

/-- What a capsule of the stage says of its compression. -/
def compressionOf (policy : CapsuleCompressionPolicy) : Stage → Bool × List String
  | .whole => (false, [])
  | .large => (true, uniqueSorted (noted policy .large))
  | .small => (true, uniqueSorted (uniqueSorted (noted policy .large) ++ noted policy .small))

theorem compressionOf_inj : ∀ (policy : CapsuleCompressionPolicy) (s t : Stage),
    compressionOf policy s = compressionOf policy t → s = t := by
  intro policy s t
  cases policy <;> cases s <;> cases t <;> decide +kernel

theorem compression_stage (host : CapsuleHost) (options : HandoffCapsuleOptions)
    (input : HandoffCapsuleInput) (createdAt : String) (s : Stage) :
    ((stageCapsule host options input createdAt s).compressed,
      (stageCapsule host options input createdAt s).omissions) =
        compressionOf options.resolved.compressionPolicy s := by
  cases s <;> rfl

/-- The text that is measured. -/
def stageText (host : CapsuleHost) (options : HandoffCapsuleOptions) (input : HandoffCapsuleInput)
    (createdAt : String) (s : Stage) : String :=
  canonicalStringify (signCapsule host (stageCapsule host options input createdAt s)
    options.integrityKey).toJson

/-- **The text of a capsule tells its stage.** -/
theorem stage_of_text {createdAt : String}
    (hwindow : isPositiveInteger options.resolved.preventRetryWindow.1 = true) {s t : Stage}
    (h : stageText host options input createdAt s = stageText host options input' createdAt t) :
    s = t := by
  have hsame := compression_of_text (portable_stage host hwindow input createdAt s)
    (portable_stage host hwindow input' createdAt t) h
  rw [compression_stage, compression_stage] at hsame
  exact compressionOf_inj _ s t hsame

/-- The limits among the options. -/
structure Limits where
  maxBytes : Option JsNumber
  maxTokens : Option JsNumber
  estimateTokens : Option (String → JsNumber)

/-- The options with these limits. -/
def HandoffCapsuleOptions.within (options : HandoffCapsuleOptions) (limits : Limits) :
    HandoffCapsuleOptions :=
  { options with
    maxBytes := limits.maxBytes
    maxTokens := limits.maxTokens
    estimateTokens := limits.estimateTokens }

/-- Limits within which these texts fit and no others. -/
def limitsOf (texts : List String) : Limits where
  maxBytes := some (.fin ((texts.map byteLength).sum + 1 : Nat))
  maxTokens := some 1
  estimateTokens := some fun text => if text ∈ texts then 1 else 2

theorem isPositiveInteger_succ (n : Nat) : isPositiveInteger (.fin (n + 1 : Nat)) = true := by
  refine and_eq_true_iff.mpr ⟨beq_iff_eq.mpr (Rat.den_natCast _), decide_eq_true ?_⟩
  show (0 : ℚ) < ((n + 1 : Nat) : ℚ)
  exact_mod_cast Nat.succ_pos n

theorem fits_limitsOf {texts : List String} {createdAt : String} {s : Stage} :
    fitsAt host (options.within (limitsOf texts)) input createdAt s =
      decide (stageText host options input createdAt s ∈ texts) := by
  show (JsNumber.le (.fin (byteLength (stageText host options input createdAt s) : Nat))
      (.fin ((texts.map byteLength).sum + 1 : Nat)) &&
    JsNumber.le (if stageText host options input createdAt s ∈ texts then 1 else 2) 1) = _
  by_cases hmem : stageText host options input createdAt s ∈ texts
  · have hle : byteLength (stageText host options input createdAt s) ≤
        (texts.map byteLength).sum + 1 :=
      Nat.le_succ_of_le (single_le_sum (fun _ _ => Nat.zero_le _) _
        (mem_map_of_mem hmem))
    rw [if_pos hmem, decide_eq_true hmem]
    refine and_eq_true_iff.mpr ⟨?_, rfl⟩
    show (!decide (((texts.map byteLength).sum + 1 : Nat) < (byteLength _ : ℚ))) = true
    rw [not_eq_true', decide_eq_false_iff_not, not_lt]
    exact_mod_cast hle
  · rw [if_neg hmem, decide_eq_false hmem]
    exact Bool.and_false _

/-- **There are limits for every stage**: the capsules of these inputs are issued at it. -/
theorem exists_limits (host : CapsuleHost)
    (hwindow : isPositiveInteger options.resolved.preventRetryWindow.1 = true)
    (inputs : List HandoffCapsuleInput) (createdAt : String) (s : Stage) :
    ∃ limits, isPositiveInteger (options.within limits).resolved.maxBytes = true ∧
      isPositiveInteger (options.within limits).resolved.maxTokens = true ∧
      ∀ input ∈ inputs, Settles host (options.within limits) input createdAt s := by
  refine ⟨limitsOf (inputs.map fun input => stageText host options input createdAt s),
    isPositiveInteger_succ _, isPositiveInteger_succ 0, fun input hinput => ⟨?_, fun t ht => ?_⟩⟩
  · rw [fits_limitsOf]
    exact decide_eq_true (mem_map_of_mem (f := fun input =>
      stageText host options input createdAt s) hinput)
  · rw [fits_limitsOf]
    refine decide_eq_false fun hmem => ?_
    obtain ⟨input', -, htext⟩ := mem_map.mp hmem
    obtain rfl := stage_of_text hwindow htext
    exact absurd ht (lt_irrefl _)

end NexusCode.Transfer
