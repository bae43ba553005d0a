/-
  The text of a capsule: what is signed, printed and read back.

  1. `canonicalValue_eq_sorted` — on portable values, `canonicalValue` sorts the members.
  2. `Numeric` — the numbers of a payload are doubles, from the input on; `portable_capsule`.
  3. `capsuleErrors_printed` — a capsule and its text have the same errors, strictly checked or not.
  4. **`deserialize_serialize`** — a capsule that was issued prints, and its text reads back as the
     capsule, under the options it was issued with; with an empty key it does not print
     (`serialize_emptyKey`).
-/
import NexusCode.Transfer.CapsuleCheck

namespace NexusCode.Transfer

open Lib Shared Json List Option

/-! ## Canonical values -/

theorem canonicalItems_eq : ∀ items : List Json, canonicalItems items = items.map canonicalValue
  | [] => rfl
  | v :: rest => congrArg (canonicalValue v :: ·) (canonicalItems_eq rest)

theorem canonicalFields_eq : ∀ fields : List (String × Json),
    canonicalFields fields = fields.map fun f => (f.1, canonicalValue f.2)
  | [] => rfl
  | (k, v) :: rest => congrArg ((k, canonicalValue v) :: ·) (canonicalFields_eq rest)

/-- Of a portable value no member is lost, and its members come in key order. -/
theorem canonicalValue_eq_sorted {v : Json} (h : Portable v) : canonicalValue v = v.sorted := by
  induction v using ind with
  | hnull => rfl
  | hbool => rfl
  | hnum => rfl
  | hstr => rfl
  | harr items ih =>
    have hitems := portable_arr.mp h
    show arr (canonicalItems items) = arr (sortedItems items)
    rw [canonicalItems_eq, sortedItems_eq]
    exact congrArg arr (map_congr_left fun v hv => ih v hv (hitems v hv))
  | hobj fields ih =>
    have hfields := (portableFields_iff fields).mp h.2
    have hsame : canonicalFields fields = fields.map fun f => (f.1, f.2.sorted) := by
      rw [canonicalFields_eq]
      exact map_congr_left fun f hf => Prod.ext rfl (ih f hf (hfields f hf).2)
    rw [sorted_obj, ← hsame]
    show obj ((sortMembers (canonicalFields fields)).filter fun f => f.1 ≠ "__proto__") =
      obj (sortMembers (canonicalFields fields))
    refine congrArg obj (filter_eq_self.mpr fun f hf => decide_eq_true ?_)
    rw [hsame] at hf
    obtain ⟨g, hg, rfl⟩ := mem_map.mp ((sortMembers_perm _).mem_iff.mp hf)
    exact (hfields g hg).1.1

theorem canonicalStringify_eq {v : Json} (h : Portable v) :
    canonicalStringify v = stringify v.sorted := by
  rw [canonicalStringify, canonicalValue_eq_sorted h]

theorem portable_unsignedPart {v : Json} (h : Portable v) : Portable (unsignedPart v) := by
  cases v with
  | obj fields =>
    refine ⟨h.1.sublist (List.filter_sublist.map Prod.fst), (portableFields_iff _).mpr fun f hf => ?_⟩
    exact (portableFields_iff fields).mp h.2 f (mem_of_mem_filter hf)
  | _ => exact h

/-- What is signed does not depend on the order of the members. -/
theorem sorted_unsignedPart {v : Json} (h : IsValue v) :
    (unsignedPart v.sorted).sorted = (unsignedPart v).sorted := by
  cases v with
  | obj fields =>
    have hkeep : ∀ l : List (String × Json),
        ((l.map fun f => (f.1, f.2.sorted)).filter fun f => f.1 ≠ "integrity") =
          (l.filter fun f => f.1 ≠ "integrity").map fun f => (f.1, f.2.sorted) := by
      intro l
      rw [List.filter_map]
      rfl
    have hperm : ((sortMembers (fields.map fun f => (f.1, f.2.sorted))).filter
        fun f => f.1 ≠ "integrity").Perm
          ((fields.filter fun f => f.1 ≠ "integrity").map fun f => (f.1, f.2.sorted)) := by
      rw [← hkeep]
      exact (sortMembers_perm _).filter _
    have hnodup : (((sortMembers (fields.map fun f => (f.1, f.2.sorted))).filter
        fun f => f.1 ≠ "integrity").map Prod.fst).Nodup := by
      rw [(hperm.map Prod.fst).nodup_iff, keys_map (fun f => f.2.sorted)]
      exact h.1.sublist (List.filter_sublist.map Prod.fst)
    rw [sorted_obj, unsignedPart, unsignedPart, sorted_obj, sorted_obj,
      sortMembers_congr hnodup hperm fun f _ => rfl, List.map_map]
    refine congrArg (fun l => obj (sortMembers l)) (map_congr_left fun f _ => ?_)
    exact Prod.ext rfl (sorted_idem f.2)
  | arr items => exact sorted_idem (.arr items)
  | _ => rfl

/-! ## Numbers -/

variable {x : JsNumber}

theorem portable_of_isInteger (hx : IsValue (.num x)) (h : x.isInteger = true) :
    Portable (.num x) := by
  cases x with
  | fin q => exact hx
  | inf => nomatch h
  | nan => nomatch h

variable {a : Unknown}

theorem portable_safeInteger (ha : Valued a) : Portable (.num (safeInteger a)) := by
  unfold safeInteger
  split
  · rename_i h
    unfold isIntegerFrom at h
    split at h
    · exact portable_of_isInteger (ha _ rfl) (Bool.and_eq_true_iff.mp h).1
    · nomatch h
  · exact JsNumber.isDouble_natCast (n := 0) (by decide)

theorem valued_of_numberOf (ha : Valued a)
    (h : numberOf a = some x) : IsValue (.num x) := by
  unfold numberOf at h
  split at h
  · obtain rfl := some.inj h
    exact ha _ rfl
  · nomatch h

theorem portable_exitCodeOf (ha : Valued a)
    (h : exitCodeOf a = some x) : Portable (.num x) := by
  obtain ⟨hx, hinteger⟩ := filter_eq_some_iff.mp h
  exact portable_of_isInteger (valued_of_numberOf ha hx) hinteger

theorem portable_tokensOf (ha : Valued a) (h : tokensOf a = some x) :
    Portable (.num x) := by
  unfold tokensOf at h
  split at h
  · rename_i q hq
    obtain rfl := some.inj h
    exact JsNumber.isDouble_ceil (valued_of_numberOf ha hq)
  · nomatch h

/-- The numbers of a payload are finite doubles. -/
structure Numeric (p : HandoffCapsulePayload) : Prop where
  turn : Portable (.num p.source.turn)
  exitCodes : ∀ c ∈ p.workspace.commands, ∀ x, c.exitCode = some x → Portable (.num x)
  turns : ∀ o ∈ p.tools.outcomes, Portable (.num o.turn)
  tokens : ∀ e ∈ p.contextManifest, ∀ x, e.tokens = some x → Portable (.num x)
  offsets : ∀ r, p.partialResponse = some r → ∀ c ∈ r.checkpoints, Portable (.num c.offset)

theorem exists_entry {τ : Type} {key : τ → String} {f : Unknown → τ} (ha : Valued a)
    {t : τ} (h : t ∈ sortByKey key (array a f)) : ∃ entry, IsValue entry ∧ f (some entry) = t := by
  obtain ⟨entry, hentry, ht⟩ := mem_map.mp ((sortByKey_perm key _).mem_iff.mp h)
  exact ⟨entry, isValue_of_mem_itemsOf ha (mem_of_mem_filter hentry), ht⟩

theorem numeric_normalize (redact : String → String) (ha : Valued a) :
    Numeric (normalizePayload redact a) :=
  { turn := portable_safeInteger ((ha.property "source").property "turn")
    exitCodes := by
      intro c hc x hx
      obtain ⟨entry, hentry, rfl⟩ := exists_entry ((ha.property "workspace").property "commands") hc
      exact portable_exitCodeOf (Valued.property (fun _ h => some.inj h ▸ hentry) _) hx
    turns := by
      intro o ho
      obtain ⟨entry, hentry, rfl⟩ := exists_entry ((ha.property "tools").property "outcomes") ho
      exact portable_safeInteger (Valued.property (fun _ h => some.inj h ▸ hentry) _)
    tokens := by
      intro e he x hx
      obtain ⟨entry, hentry, rfl⟩ := exists_entry (ha.property "contextManifest") he
      exact portable_tokensOf (Valued.property (fun _ h => some.inj h ▸ hentry) _) hx
    offsets := by
      intro r hr c hc
      dsimp only [normalizePayload] at hr
      split at hr
      · obtain rfl := some.inj hr
        obtain ⟨entry, hentry, rfl⟩ :=
          exists_entry ((ha.property "partialResponse").property "checkpoints") hc
        exact portable_safeInteger (Valued.property (fun _ h => some.inj h ▸ hentry) _)
      · nomatch hr }

theorem Numeric.compress {p : HandoffCapsulePayload} (h : Numeric p)
    (policy : CapsuleCompressionPolicy) (level : CompressionLevel) :
    Numeric (compressPayload policy level p) :=
  { turn := h.turn
    exitCodes := forall_mem_map.mpr fun c hc => h.exitCodes c hc
    turns := forall_mem_map.mpr fun o ho => h.turns o ho
    tokens := forall_mem_map.mpr fun e he => h.tokens e he
    offsets := by
      intro r hr
      obtain ⟨r', hr', rfl⟩ := map_eq_some_iff.mp hr
      exact forall_mem_map.mpr fun c hc => h.offsets r' hr' c hc }

/-! ## Portable capsules -/

@[simp] theorem portable_texts (values : List String) : Portable (texts values) :=
  portable_arr.mpr (forall_mem_map.mpr fun s _ => portable_str s)

theorem portable_entries {τ : Type} {toJson : τ → Json} {l : List τ}
    (h : ∀ t ∈ l, Portable (toJson t)) : Portable (entries toJson l) :=
  portable_arr.mpr (forall_mem_map.mpr h)

theorem CapsuleTask.portable (t : CapsuleTask) : Portable t.toJson := by
  have h : Named ["id", "title", "status", "details", "blockers", "relatedFiles"] := by decide
  exact portable_record h (by simp)

theorem CapsuleDecision.portable (d : CapsuleDecision) : Portable d.toJson := by
  have h : Named ["id", "decision", "rationale", "alternatives"] := by decide
  exact portable_record h (by simp)

theorem CapsuleAssumption.portable (a : CapsuleAssumption) : Portable a.toJson := by
  have h : Named ["id", "statement", "riskIfWrong"] := by decide
  exact portable_record h (by simp)

theorem CapsuleConstraint.portable (c : CapsuleConstraint) : Portable c.toJson := by
  have h : Named ["id", "kind", "statement", "source"] := by decide
  exact portable_record h (by simp)

theorem CapsuleQuestion.portable (q : CapsuleQuestion) : Portable q.toJson := by
  have h : Named ["id", "question", "blocker"] := by decide
  exact portable_record h (by simp)

theorem CapsuleModifiedFile.portable (f : CapsuleModifiedFile) : Portable f.toJson := by
  have h : Named ["path", "status", "summary", "diff"] := by decide
  exact portable_record h (by simp)

theorem CapsuleCommand.portable {c : CapsuleCommand}
    (hx : ∀ x, c.exitCode = some x → Portable (.num x)) : Portable c.toJson := by
  have h : Named ["id", "command", "status", "cwd", "exitCode", "summary", "output"] := by decide
  exact portable_record h (by simpa using hx)

theorem CapsuleTestRun.portable (t : CapsuleTestRun) : Portable t.toJson := by
  have h : Named ["id", "command", "status", "summary", "output"] := by decide
  exact portable_record h (by simp)

theorem CapsuleToolOutcome.portable {o : CapsuleToolOutcome} (hx : Portable (.num o.turn)) :
    Portable o.toJson := by
  have h : Named ["actionId", "tool", "status", "summary", "output", "partialEffect", "idempotent",
      "turn"] := by decide
  exact portable_record h (by simpa using hx)

theorem CapsulePendingApproval.portable (p : CapsulePendingApproval) : Portable p.toJson := by
  have h : Named ["actionId", "description", "requestedBy"] := by decide
  exact portable_record h (by simp)

theorem CapsuleContextEntry.portable {e : CapsuleContextEntry}
    (hx : ∀ x, e.tokens = some x → Portable (.num x)) : Portable e.toJson := by
  have h : Named ["id", "kind", "source", "inclusion", "reason", "tokens", "content"] := by decide
  exact portable_record h (by simpa using hx)

theorem CapsuleCheckpoint.portable {c : CapsuleCheckpoint} (hx : Portable (.num c.offset)) :
    Portable c.toJson := by
  have h : Named ["id", "offset", "summary", "completedActionIds"] := by decide
  exact portable_record h (by simpa using hx)

theorem CapsulePartialResponse.portable {r : CapsulePartialResponse}
    (hx : ∀ c ∈ r.checkpoints, Portable (.num c.offset)) : Portable r.toJson := by
  have h : Named ["text", "finishReason", "continuationHint", "checkpoints"] := by decide
  have hcheckpoints : Portable (entries CapsuleCheckpoint.toJson r.checkpoints) :=
    portable_entries fun c hc => CapsuleCheckpoint.portable (hx c hc)
  exact portable_record h (by simpa using hcheckpoints)

theorem CapsuleSource.portable {s : CapsuleSource} (hx : Portable (.num s.turn)) :
    Portable s.toJson := by
  have h : Named ["sessionId", "runId", "turn", "providerId", "modelId"] := by decide
  exact portable_record h (by simpa using hx)

theorem CapsuleTarget.portable (t : CapsuleTarget) : Portable t.toJson := by
  have h : Named ["providerId", "modelId"] := by decide
  exact portable_record h (by simp)

theorem CapsuleGoal.portable (g : CapsuleGoal) : Portable g.toJson := by
  have h : Named ["objective", "currentGoal", "successCriteria"] := by decide
  exact portable_record h (by simp)

section Capsules

variable {u : UnsignedCapsule}

theorem portable_workspace (h : Numeric u.payload) : Portable u.payload.workspace.toJson := by
  have hnamed : Named ["modifiedFiles", "commands", "tests"] := by decide
  have hfiles : Portable (entries CapsuleModifiedFile.toJson u.payload.workspace.modifiedFiles) :=
    portable_entries fun f _ => f.portable
  have hcommands : Portable (entries CapsuleCommand.toJson u.payload.workspace.commands) :=
    portable_entries fun c hc => CapsuleCommand.portable (h.exitCodes c hc)
  have htests : Portable (entries CapsuleTestRun.toJson u.payload.workspace.tests) :=
    portable_entries fun t _ => t.portable
  exact portable_record hnamed (by simp [hfiles, hcommands, htests])

theorem portable_tools (h : Numeric u.payload) : Portable u.payload.tools.toJson := by
  have hnamed : Named ["outcomes", "pendingApprovals"] := by decide
  have houtcomes : Portable (entries CapsuleToolOutcome.toJson u.payload.tools.outcomes) :=
    portable_entries fun o ho => CapsuleToolOutcome.portable (h.turns o ho)
  have happrovals :
      Portable (entries CapsulePendingApproval.toJson u.payload.tools.pendingApprovals) :=
    portable_entries fun p _ => p.portable
  exact portable_record hnamed (by simp [houtcomes, happrovals])

theorem portable_compression (u : UnsignedCapsule) : Portable u.compression := by
  have hnamed : Named ["policy", "compressed", "omissions"] := by decide
  exact portable_record hnamed (by simp)

/-- **A capsule with finite numbers is portable.** -/
theorem portable_capsule {algorithm hash : String} (h : Numeric u.payload)
    (hwindow : Portable (.num u.preventRetryWindow)) :
    Portable (HandoffCapsule.toJson ⟨u, algorithm, hash⟩) := by
  have hhandoff : Portable u.handoff := by
    have hnamed : Named ["mode", "preventRetryWindow", "canExecuteActions"] := by decide
    exact portable_record hnamed (by simpa using hwindow)
  have hintegrity : Portable (HandoffCapsule.integrity ⟨u, algorithm, hash⟩) := by
    have hnamed : Named ["algorithm", "hash"] := by decide
    exact portable_record hnamed (by simp)
  have hplan := portable_entries fun t (_ : t ∈ u.payload.plan) => t.portable
  have hdecisions := portable_entries fun d (_ : d ∈ u.payload.decisions) => d.portable
  have hassumptions := portable_entries fun a (_ : a ∈ u.payload.assumptions) => a.portable
  have hconstraints := portable_entries fun c (_ : c ∈ u.payload.constraints) => c.portable
  have hquestions := portable_entries fun q (_ : q ∈ u.payload.unresolvedQuestions) => q.portable
  have hmanifest := portable_entries fun e (he : e ∈ u.payload.contextManifest) =>
    CapsuleContextEntry.portable (h.tokens e he)
  have hresponse : ∀ r, u.payload.partialResponse = some r → Portable r.toJson :=
    fun r hr => CapsulePartialResponse.portable (h.offsets r hr)
  refine portable_record named_capsule ?_
  simpa [UnsignedCapsule.members, HandoffCapsulePayload.members, hhandoff, portable_compression u,
    hintegrity,
    CapsuleSource.portable h.turn, CapsuleTarget.portable, CapsuleGoal.portable, hplan, hdecisions,
    hassumptions, hconstraints, hquestions, portable_workspace h, portable_tools h, hmanifest]
    using hresponse

end Capsules

/-! ## Signed capsules -/

section Signed

variable {host : CapsuleHost} {u : UnsignedCapsule} {key : Option IntegrityKey}

theorem unsignedPart_capsule (c : HandoffCapsule) : unsignedPart c.toJson = c.unsigned.toJson := by
  have hnot : "integrity" ∉ c.unsigned.members.map Prod.fst := by
    show "integrity" ∉ ["schema", "createdAt", "handoff", "compression", "source", "target", "goal",
      "plan", "decisions", "assumptions", "constraints", "unresolvedQuestions", "workspace", "tools",
      "contextManifest", "doNotRepeatActionIds", "partialResponse"]
    decide
  show obj (((c.unsigned.members ++ [("integrity", some c.integrity)]).filterMap
    fun m => m.2.map fun v => (m.1, v)).filter fun f => f.1 ≠ "integrity") = _
  rw [filterMap_append, filter_append]
  have hown : ((c.unsigned.members.filterMap fun m => m.2.map fun v => (m.1, v)).filter
      fun f => f.1 ≠ "integrity") = c.unsigned.members.filterMap fun m => m.2.map fun v => (m.1, v) := by
    refine filter_eq_self.mpr fun f hf => decide_eq_true ?_
    rintro heq
    exact hnot (heq ▸ (keys_record_sublist _).subset (mem_map_of_mem hf))
  rw [hown]
  exact congrArg obj (append_nil _)

theorem property_integrity (c : HandoffCapsule) :
    property "integrity" (some c.toJson) = some c.integrity :=
  property_capsule (mem_append_right _ mem_cons_self)

/-- A key that `requireIntegrityKey` lets through, if there is one. -/
def Usable (key : Option IntegrityKey) : Prop := key ≠ some (.text "")

theorem length16_eq_zero {s : String} : JsString.length16 s = 0 ↔ s = "" := by
  constructor
  · intro h
    exact JsString.units_inj (eq_nil_of_length_eq_zero h)
  · rintro rfl
    rfl

theorem requireIntegrityKey_usable {key : IntegrityKey} (h : Usable (some key)) :
    requireIntegrityKey (some key) = .ok key := by
  cases key with
  | bytes key => rfl
  | text key =>
    have hne : ¬ JsString.length16 key = 0 := fun h0 => h (by rw [length16_eq_zero.mp h0])
    exact if_neg hne

theorem property_some (k : String) (v : Json) : property k (some v) = v.get? k := rfl

theorem isValue_integrity {c : HandoffCapsule} (hc : IsValue c.toJson) : IsValue c.integrity := by
  have hget := property_integrity c
  rw [property_some] at hget
  exact isValue_of_get? hc hget

/-- A capsule, or what its text reads back as. -/
def Printed (c : HandoffCapsule) (v : Json) : Prop := v = c.toJson ∨ v = c.toJson.sorted

section Printed

variable {c : HandoffCapsule} {v : Json}

theorem Printed.alike (h : Printed c v) (hc : Portable c.toJson) (k : String) :
    Alike (property k (some c.toJson)) (property k (some v)) := by
  rcases h with h | h
  · rw [h]
    exact Alike.refl _
  · rw [h, property_some, property_some]
    exact (rearranged_sorted c.toJson).get? hc.isValue k

theorem Printed.portable (h : Printed c v) (hc : Portable c.toJson) : Portable v := by
  rcases h with rfl | rfl
  · exact hc
  · exact hc.sorted

theorem Printed.integrity_member (h : Printed c v) (hc : Portable c.toJson) {k text : String}
    (hk : property k (some c.integrity) = some (.str text)) :
    property k (property "integrity" (some v)) = some (.str text) := by
  rcases h with h | h
  · rw [h, property_integrity, hk]
  · have hget := property_integrity c
    rw [property_some] at hget hk
    rw [h, property_some, get?_sorted hc.isValue, hget, map_some, property_some,
      get?_sorted (isValue_integrity hc.isValue), hk]
    rfl

theorem Printed.algorithm (h : Printed c v) (hc : Portable c.toJson) :
    algorithmOf v = some (.str c.algorithm) := h.integrity_member hc rfl

theorem Printed.hash (h : Printed c v) (hc : Portable c.toJson) : hashOf v = c.hash := by
  have hmember : property "hash" (property "integrity" (some v)) = some (.str c.hash) :=
    h.integrity_member hc rfl
  rw [hashOf, hmember]

theorem Printed.unsigned (h : Printed c v) (hc : Portable c.toJson) :
    canonicalStringify (unsignedPart v) = canonicalStringify c.unsigned.toJson := by
  have hunsigned : Portable c.unsigned.toJson := by
    rw [← unsignedPart_capsule]
    exact portable_unsignedPart hc
  rw [canonicalStringify_eq (portable_unsignedPart (h.portable hc)), canonicalStringify_eq hunsigned,
    ← unsignedPart_capsule]
  rcases h with rfl | rfl
  · rfl
  · rw [sorted_unsignedPart hc.isValue]

theorem Printed.isRecord (h : Printed c v) : isRecord (some v) = true := by
  rcases h with rfl | rfl
  · rfl
  · exact (isRecord_alike (.some (rearranged_sorted c.toJson))).symm

end Printed

/-- **The digest of a capsule is the one it should carry**, its members in whatever order. -/
theorem expectedHash_signed (hc : Portable (signCapsule host u key).toJson) {v : Json}
    (hv : Printed (signCapsule host u key) v) (hkey : Usable key) :
    expectedHash host.toPlatform v key = .ok (hashOf v) := by
  have hsame := hv.unsigned hc
  rw [expectedHash, hv.algorithm hc, hv.hash hc]
  cases key with
  | none =>
    have hplain : ¬ isText "hmac-sha256" (some (.str (signCapsule host u none).algorithm)) = true :=
      fun h => absurd (show isText "hmac-sha256" (some (.str "sha256")) = true from h) (by decide)
    rw [if_neg hplain, integrityHash, hsame]
    rfl
  | some key =>
    have hkeyed : isText "hmac-sha256" (some (.str (signCapsule host u (some key)).algorithm)) = true :=
      rfl
    rw [if_pos hkeyed, requireIntegrityKey_usable hkey, Except.map, authenticatedIntegrityHash,
      hsame]
    rfl

theorem verify_emptyKey (hc : Portable (signCapsule host u (some (.text ""))).toJson) :
    verifyHandoffCapsuleIntegrity host.toPlatform (signCapsule host u (some (.text ""))).toJson
      (some (.text "")) = .error .integrity := by
  have hv : Printed (signCapsule host u (some (.text ""))) (signCapsule host u (some (.text ""))).toJson :=
    .inl rfl
  have hkeyed : isText "hmac-sha256"
      (some (.str (signCapsule host u (some (.text ""))).algorithm)) = true := rfl
  rw [verifyHandoffCapsuleIntegrity, expectedHash, hv.algorithm hc, if_pos hkeyed]
  rfl

/-! ## Printing and reading back -/

/-- The capsule passes `validateHandoffCapsule`. -/
def Valid (host : CapsuleHost) (u : UnsignedCapsule) (key : Option IntegrityKey) : Prop :=
  capsuleErrors host.isDate .strict (some (signCapsule host u key).toJson) = []

theorem validate_iff {isDate : String → Bool} {strictness : CapsuleValidationStrictness} {v : Json}
    (h : isRecord (some v) = true) :
    (validateHandoffCapsule isDate strictness (some v)).valid = true ↔
      capsuleErrors isDate strictness (some v) = [] := by
  unfold validateHandoffCapsule
  split
  · rename_i hnot
    rw [h] at hnot
    nomatch hnot
  · dsimp only
    rw [List.isEmpty_iff]

theorem collectUnknownRootKeys_printed {c : HandoffCapsule} {v : Json} (hv : Printed c v) :
    collectUnknownRootKeys (some v) = [] := by
  have hkeys : ∀ k ∈ (c.unsigned.members ++ [("integrity", some c.integrity)]).map Prod.fst,
      k ∈ rootKeys := by
    show ∀ k ∈ ["schema", "createdAt", "handoff", "compression", "source", "target",
      "goal", "plan", "decisions", "assumptions", "constraints", "unresolvedQuestions", "workspace",
      "tools", "contextManifest", "doNotRepeatActionIds", "partialResponse", "integrity"],
      k ∈ rootKeys
    decide
  have hfields : ∀ {fields : List (String × Json)}, v = .obj fields →
      ∀ f ∈ fields, f.1 ∈ rootKeys := by
    intro fields heq f hf
    rcases hv with rfl | rfl
    · obtain rfl := Json.obj.inj heq
      exact hkeys _ ((keys_record_sublist _).subset (mem_map_of_mem hf))
    · rw [HandoffCapsule.toJson, record, sorted_obj] at heq
      obtain rfl := Json.obj.inj heq
      obtain ⟨g, hg, rfl⟩ := mem_map.mp ((sortMembers_perm _).mem_iff.mp hf)
      exact hkeys g.1 ((keys_record_sublist _).subset (mem_map_of_mem hg))
  rw [collectUnknownRootKeys, map_eq_nil_iff]
  refine filter_eq_nil_iff.mpr fun k hk => ?_
  rw [decide_eq_true_eq, not_not]
  cases v with
  | obj fields =>
    obtain ⟨f, hf, rfl⟩ := mem_map.mp hk
    exact hfields rfl f ((enumerated_perm fields).mem_iff.mp hf)
  | _ => nomatch hk

theorem validateIntegrity_signed (host : CapsuleHost) (u : UnsignedCapsule)
    (key : Option IntegrityKey) :
    validateIntegrity (some (signCapsule host u key).integrity) = [] := by
  cases key with
  | none =>
    have hdigest := host.digest_sha256 (canonicalStringify u.toJson)
    show require (isText "sha256" _ || isText "hmac-sha256" _) _ ++ require (isDigest _) _ = []
    rw [append_eq_nil_iff, require_eq_nil_iff, require_eq_nil_iff]
    exact ⟨rfl, hdigest⟩
  | some key =>
    have hdigest := host.digest_hmac key (canonicalStringify u.toJson)
    show require (isText "sha256" _ || isText "hmac-sha256" _) _ ++ require (isDigest _) _ = []
    rw [append_eq_nil_iff, require_eq_nil_iff, require_eq_nil_iff]
    exact ⟨rfl, hdigest⟩

/-- **A capsule and its text have the same errors**, strictly checked or not: none. -/
theorem capsuleErrors_printed {strictness strictness' : CapsuleValidationStrictness}
    (hc : Portable (signCapsule host u key).toJson) {v : Json}
    (hv : Printed (signCapsule host u key) v)
    (h : capsuleErrors host.isDate strictness (some (signCapsule host u key).toJson) = []) :
    capsuleErrors host.isDate strictness' (some v) = [] := by
  refine capsuleErrors_of_alike hc.isValue (fun k _ => hv.alike hc k) ?_
    (collectUnknownRootKeys_printed hv) h
  have halike := hv.alike hc "integrity"
  rw [property_integrity] at halike
  have hvalue : Valued (some (signCapsule host u key).integrity) := fun _ heq =>
    some.inj heq ▸ isValue_integrity hc.isValue
  rw [← validateIntegrity_alike halike hvalue, validateIntegrity_signed]

theorem serialize_eq (hc : Portable (signCapsule host u key).toJson) (hvalid : Valid host u key)
    (hkey : Usable key) : serializeHandoffCapsule host (signCapsule host u key).toJson key =
      .ok (stringify (signCapsule host u key).toJson.sorted) := by
  have hv : Printed (signCapsule host u key) (signCapsule host u key).toJson := .inl rfl
  rw [serializeHandoffCapsule]
  rw [(validate_iff rfl).mpr hvalid, Bool.not_true, if_neg Bool.false_ne_true,
    verify_eq_ok_iff.mpr (expectedHash_signed hc hv hkey), canonicalStringify_eq hc]

theorem serialize_emptyKey (hc : Portable (signCapsule host u (some (.text ""))).toJson)
    (text : String) : serializeHandoffCapsule host (signCapsule host u (some (.text ""))).toJson
      (some (.text "")) ≠ .ok text := by
  rw [serializeHandoffCapsule]
  split
  · exact nofun
  · rw [verify_emptyKey hc]
    exact nofun

/-- **The text of a capsule that fits reads back as the capsule**, its members in key order. -/
theorem deserialize_serialize {options : HandoffCapsuleOptions}
    (hc : Portable (signCapsule host u options.integrityKey).toJson)
    (hvalid : Valid host u options.integrityKey) (hkey : Usable options.integrityKey)
    (hfits : fitsBudget (signCapsule host u options.integrityKey) options.resolved = true) :
    deserializeHandoffCapsule host.toPlatform options.reading
      (stringify (signCapsule host u options.integrityKey).toJson.sorted) =
        .ok (signCapsule host u options.integrityKey).toJson.sorted := by
  have hv : Printed (signCapsule host u options.integrityKey)
      (signCapsule host u options.integrityKey).toJson.sorted := .inr rfl
  have hle : ∀ {x y : JsNumber}, JsNumber.le x y = true → JsNumber.lt y x = false := by
    intro x y h
    unfold JsNumber.le at h
    split at h
    · nomatch h
    · nomatch h
    · exact Bool.not_eq_true' _ ▸ h
  refine deserialize_eq_ok_iff.mpr ⟨?_, parse_stringify_sorted hc, ?_, expectedHash_signed hc hv hkey⟩
  · rw [fitsBudget] at hfits
    rw [canonicalStringify_eq hc] at hfits
    obtain ⟨hbytes, htokens⟩ := Bool.and_eq_true_iff.mp hfits
    exact Bool.or_eq_false_iff.mpr ⟨hle hbytes, hle htokens⟩
  · exact (validate_iff hv.isRecord).mpr (capsuleErrors_printed hc hv hvalid)

end Signed

end NexusCode.Transfer
