/-
  The order of an input's arrays, and what is left of it in a payload.

  1. `safe_alike`, `stringList_alike`, `perm_array` — what is read of a rearranged value.
  2. `Reordered` — payloads whose lists have the same entries; `normalize_reordered` and
     `Reordered.compress`.
  3. `Ordered` — every list is sorted by its key; `ordered_normalize` and `Ordered.compress`.
  4. **`Reordered.eq`** — ordered payloads with the same entries are the same, if entries with the
     same key are.
-/
import NexusCode.Lib.JsonRearranged
import NexusCode.Transfer.Capsule

namespace NexusCode.Transfer

open Lib Shared Json JsString List Option

/-! ## Sorting by a key -/

section Keys

variable {τ : Type} {key : τ → String} {l l' : List τ}

theorem compare_nonpos_iff {a b : String} : compare a b ≤ 0 ↔ keyLe a b = true :=
  compareKeys_nonpos_iff a b

theorem compare_lawful (key : τ → String) : Lawful fun a b => compare (key a) (key b) :=
  compareKeys_lawful key

/-- The entries stand in the order of their keys. -/
def SortedBy (key : τ → String) (l : List τ) : Prop :=
  l.Pairwise fun a b => keyLe (key a) (key b) = true

/-- An entry is told by its key. -/
def ToldBy (key : τ → String) (l : List τ) : Prop :=
  ∀ a ∈ l, ∀ b ∈ l, key a = key b → a = b

theorem sortByKey_perm (key : τ → String) (l : List τ) : (sortByKey key l).Perm l := sortBy_perm l

theorem sortedBy_sortByKey (key : τ → String) (l : List τ) : SortedBy key (sortByKey key l) :=
  (pairwise_sortBy (compare_lawful key) l).imp compare_nonpos_iff.mp

theorem SortedBy.map (h : SortedBy key l) {f : τ → τ} (hf : ∀ a, key (f a) = key a) :
    SortedBy key (l.map f) := by
  refine pairwise_map.mpr (List.Pairwise.imp (fun {a b} hab => ?_) h)
  rw [hf, hf]
  exact hab

/-- **Sorted lists of the same entries** are the same, if an entry is told by its key. -/
theorem SortedBy.eq_of_perm (h : SortedBy key l) (h' : SortedBy key l') (hperm : l.Perm l')
    (htold : ToldBy key l) : l = l' := by
  refine List.Perm.eq_of_pairwise ?_ h h' hperm
  intro a b ha hb hab hba
  exact htold a ha b (hperm.mem_iff.mpr hb) (keyLe_antisymm hab hba)

end Keys

theorem mem_setOf (values : List String) (s : String) : s ∈ setOf values ↔ s ∈ values := by
  have key : ∀ (values acc : List String),
      s ∈ values.foldl (fun set value => JsSet.add value set) acc ↔ s ∈ acc ∨ s ∈ values := by
    intro values
    induction values with
    | nil => exact fun acc => (or_iff_left not_mem_nil).symm
    | cons v values ih =>
      intro acc
      rw [foldl_cons, ih, JsSet.mem_add, mem_cons]
      tauto
  exact (key values []).trans (or_iff_right not_mem_nil)

theorem nodup_setOf (values : List String) : (setOf values).Nodup := by
  have key : ∀ (values acc : List String), acc.Nodup →
      (values.foldl (fun set value => JsSet.add value set) acc).Nodup := by
    intro values
    induction values with
    | nil => exact fun acc h => h
    | cons v values ih => exact fun acc h => ih _ (JsSet.nodup_add h)
  exact key values [] nodup_nil

/-- A set of strings is sorted to the same list, whatever order it comes in. -/
theorem uniqueSorted_congr {l l' : List String} (h : ∀ s, s ∈ l ↔ s ∈ l') :
    uniqueSorted l = uniqueSorted l' := by
  refine SortedBy.eq_of_perm (sortedBy_sortByKey id _) (sortedBy_sortByKey id _) ?_
    (fun a _ b _ hab => hab)
  refine (sortByKey_perm id _).trans (List.Perm.trans ?_ (sortByKey_perm id _).symm)
  refine (perm_ext_iff_of_nodup (nodup_setOf l) (nodup_setOf l')).mpr fun s => ?_
  rw [mem_setOf, mem_setOf, h s]

/-! ## Reading rearranged values -/

section Alike

variable {a b : Unknown} {redact : String → String}

theorem stringOf_alike (h : Alike a b) : stringOf a = stringOf b :=
  h.read stringOf (fun _ _ => rfl) fun _ _ => rfl

theorem numberOf_alike (h : Alike a b) : numberOf a = numberOf b :=
  h.read numberOf (fun _ _ => rfl) fun _ _ => rfl

theorem isRecord_alike (h : Alike a b) : isRecord a = isRecord b :=
  h.read isRecord (fun _ _ => rfl) fun _ _ => rfl

theorem isFlag_alike (h : Alike a b) (flag : Bool) : isFlag flag a = isFlag flag b :=
  h.read (isFlag flag) (fun _ _ => rfl) fun _ _ => rfl

theorem isText_alike (h : Alike a b) (text : String) : isText text a = isText text b :=
  h.read (isText text) (fun _ _ => rfl) fun _ _ => rfl

theorem safeInteger_alike (h : Alike a b) : safeInteger a = safeInteger b :=
  h.read safeInteger (fun _ _ => rfl) fun _ _ => rfl

theorem safe_alike (h : Alike a b) : safe redact a = safe redact b := by
  rw [safe, safe, stringOf_alike h]

theorem opt_alike (h : Alike a b) : opt redact a = opt redact b := by
  rw [opt, opt, safe_alike h]

/-- The value, where it is one, is a value of the language. -/
def Valued (a : Unknown) : Prop := ∀ v, a = some v → IsValue v

theorem Valued.property (h : Valued a) (k : String) : Valued (property k a) := by
  intro w hw
  obtain ⟨v, rfl, hget⟩ := bind_eq_some_iff.mp hw
  exact isValue_of_get? (h v rfl) hget

theorem property_alike (h : Alike a b) (ha : Valued a) (k : String) :
    Alike (property k a) (property k b) := by
  cases h with
  | none => exact .none
  | some hv => exact hv.get? (ha _ rfl) k

theorem itemsOf_alike (h : Alike a b) :
    ∃ ys, RearrangedItems (itemsOf a) ys ∧ ys.Perm (itemsOf b) := by
  cases h with
  | none => exact ⟨[], .nil, .refl _⟩
  | some h =>
    cases h with
    | refl v => exact ⟨_, RearrangedItems.refl _, .refl _⟩
    | arr items perm => exact ⟨_, items, perm⟩
    | obj => exact ⟨[], .nil, .refl _⟩

theorem stringList_alike (h : Alike a b) : stringList redact a = stringList redact b := by
  obtain ⟨ys, hitems, hperm⟩ := itemsOf_alike h
  have hsame : ∀ {xs ys : List Json}, RearrangedItems xs ys →
      xs.filterMap (fun v => stringOf (some v)) =
        ys.filterMap fun v => stringOf (some v) := by
    intro xs
    induction xs with
    | nil =>
      intro ys h
      cases h
      rfl
    | cons x xs ih =>
      intro ys h
      cases h with
      | cons head tail =>
        rw [filterMap_cons, filterMap_cons, stringOf_alike (.some head), ih tail]
  rw [stringList, hsame hitems]
  exact uniqueSorted_congr fun s => ((hperm.filterMap _).map redact).mem_iff

/-- **Entries are read the same**, in some order: `f` reads the same off a rearranged entry. -/
theorem perm_array {τ : Type} {f : Unknown → τ} (h : Alike a b) (ha : Valued a)
    (hf : ∀ {v w : Json}, IsValue v → Rearranged v w → f (some v) = f (some w)) :
    (array a f).Perm (array b f) := by
  obtain ⟨ys, hitems, hperm⟩ := itemsOf_alike h
  have hvalues : ∀ v ∈ itemsOf a, IsValue v := by
    cases a with
    | none => exact fun _ => nofun
    | some v =>
      cases v with
      | arr items => exact (isValueItems_iff items).mp (ha _ rfl)
      | _ => exact fun _ => nofun
  have hsame : ∀ {xs ys : List Json}, RearrangedItems xs ys → (∀ v ∈ xs, IsValue v) →
      (xs.filter fun entry => isRecord (some entry)).map (fun entry => f (some entry)) =
        (ys.filter fun entry => isRecord (some entry)).map fun entry => f (some entry) := by
    intro xs
    induction xs with
    | nil =>
      intro ys h _
      cases h
      rfl
    | cons x xs ih =>
      intro ys h hvalues
      cases h with
      | @cons _ y _ ys head tail =>
        obtain ⟨hx, hxs⟩ := forall_mem_cons.mp hvalues
        rw [filter_cons, filter_cons, isRecord_alike (.some head)]
        split
        · rw [map_cons, map_cons, hf hx head, ih tail hxs]
        · exact ih tail hxs
  rw [array, hsame hitems hvalues]
  exact (hperm.filter _).map _

end Alike

/-! ## Entries -/

section Entries

variable {v w : Json} {redact : String → String}

theorem exitCodeOf_alike {a b : Unknown} (h : Alike a b) : exitCodeOf a = exitCodeOf b := by
  rw [exitCodeOf, exitCodeOf, numberOf_alike h]

theorem tokensOf_alike {a b : Unknown} (h : Alike a b) : tokensOf a = tokensOf b := by
  rw [tokensOf, tokensOf, numberOf_alike h]

theorem members_alike (hv : IsValue v) (h : Rearranged v w) (k : String) :
    Alike (property k (some v)) (property k (some w)) :=
  property_alike (.some h) (fun _ heq => some.inj heq ▸ hv) k

theorem taskOf_alike (hv : IsValue v) (h : Rearranged v w) :
    taskOf redact (some v) = taskOf redact (some w) := by
  have hmembers := members_alike hv h
  rw [taskOf, taskOf, safe_alike (hmembers "id"), safe_alike (hmembers "title"), workStatus,
    workStatus, stringOf_alike (hmembers "status"), opt_alike (hmembers "details"),
    stringList_alike (hmembers "blockers"), stringList_alike (hmembers "relatedFiles")]

theorem decisionOf_alike (hv : IsValue v) (h : Rearranged v w) :
    decisionOf redact (some v) = decisionOf redact (some w) := by
  have hmembers := members_alike hv h
  rw [decisionOf, decisionOf, safe_alike (hmembers "id"), safe_alike (hmembers "decision"),
    safe_alike (hmembers "rationale"), stringList_alike (hmembers "alternatives")]

theorem assumptionOf_alike (hv : IsValue v) (h : Rearranged v w) :
    assumptionOf redact (some v) = assumptionOf redact (some w) := by
  have hmembers := members_alike hv h
  rw [assumptionOf, assumptionOf, safe_alike (hmembers "id"), safe_alike (hmembers "statement"),
    opt_alike (hmembers "riskIfWrong")]

theorem constraintOf_alike (hv : IsValue v) (h : Rearranged v w) :
    constraintOf redact (some v) = constraintOf redact (some w) := by
  have hmembers := members_alike hv h
  rw [constraintOf, constraintOf, safe_alike (hmembers "id"), constraintKind, constraintKind,
    stringOf_alike (hmembers "kind"), safe_alike (hmembers "statement"), constraintSource,
    constraintSource, stringOf_alike (hmembers "source")]

theorem questionOf_alike (hv : IsValue v) (h : Rearranged v w) :
    questionOf redact (some v) = questionOf redact (some w) := by
  have hmembers := members_alike hv h
  rw [questionOf, questionOf, safe_alike (hmembers "id"), safe_alike (hmembers "question"),
    isFlag_alike (hmembers "blocker")]

theorem modifiedFileOf_alike (hv : IsValue v) (h : Rearranged v w) :
    modifiedFileOf redact (some v) = modifiedFileOf redact (some w) := by
  have hmembers := members_alike hv h
  rw [modifiedFileOf, modifiedFileOf, safe_alike (hmembers "path"), fileStatus, fileStatus,
    stringOf_alike (hmembers "status"), opt_alike (hmembers "summary"),
    opt_alike (hmembers "diff")]

theorem commandOf_alike (hv : IsValue v) (h : Rearranged v w) :
    commandOf redact (some v) = commandOf redact (some w) := by
  have hmembers := members_alike hv h
  rw [commandOf, commandOf, safe_alike (hmembers "id"), safe_alike (hmembers "command"),
    outcomeStatus, outcomeStatus, stringOf_alike (hmembers "status"),
    opt_alike (hmembers "cwd"), exitCodeOf_alike (hmembers "exitCode"),
    opt_alike (hmembers "summary"), opt_alike (hmembers "output")]

theorem testRunOf_alike (hv : IsValue v) (h : Rearranged v w) :
    testRunOf redact (some v) = testRunOf redact (some w) := by
  have hmembers := members_alike hv h
  rw [testRunOf, testRunOf, safe_alike (hmembers "id"), safe_alike (hmembers "command"),
    testStatus, testStatus, stringOf_alike (hmembers "status"),
    safe_alike (hmembers "summary"), opt_alike (hmembers "output")]

theorem toolOutcomeOf_alike (hv : IsValue v) (h : Rearranged v w) :
    toolOutcomeOf redact (some v) = toolOutcomeOf redact (some w) := by
  have hmembers := members_alike hv h
  rw [toolOutcomeOf, toolOutcomeOf, safe_alike (hmembers "actionId"), safe_alike (hmembers "tool"),
    outcomeStatus, outcomeStatus, stringOf_alike (hmembers "status"),
    safe_alike (hmembers "summary"), opt_alike (hmembers "output"),
    opt_alike (hmembers "partialEffect"), isFlag_alike (hmembers "idempotent"),
    safeInteger_alike (hmembers "turn")]

theorem pendingApprovalOf_alike (hv : IsValue v) (h : Rearranged v w) :
    pendingApprovalOf redact (some v) = pendingApprovalOf redact (some w) := by
  have hmembers := members_alike hv h
  rw [pendingApprovalOf, pendingApprovalOf, safe_alike (hmembers "actionId"),
    safe_alike (hmembers "description"), safe_alike (hmembers "requestedBy")]

theorem contextEntryOf_alike (hv : IsValue v) (h : Rearranged v w) :
    contextEntryOf redact (some v) = contextEntryOf redact (some w) := by
  have hmembers := members_alike hv h
  rw [contextEntryOf, contextEntryOf, safe_alike (hmembers "id"), safe_alike (hmembers "kind"),
    safe_alike (hmembers "source"), isText_alike (hmembers "inclusion"),
    safe_alike (hmembers "reason"), tokensOf_alike (hmembers "tokens"),
    opt_alike (hmembers "content")]

theorem checkpointOf_alike (hv : IsValue v) (h : Rearranged v w) :
    checkpointOf redact (some v) = checkpointOf redact (some w) := by
  have hmembers := members_alike hv h
  rw [checkpointOf, checkpointOf, safe_alike (hmembers "id"), safeInteger_alike (hmembers "offset"),
    safe_alike (hmembers "summary"), stringList_alike (hmembers "completedActionIds")]

end Entries

/-! ## Payloads with the same entries -/

/-- The responses have the same checkpoints, in some order. -/
structure ReorderedResponse (r r' : CapsulePartialResponse) : Prop where
  text : r.text = r'.text
  finishReason : r.finishReason = r'.finishReason
  continuationHint : r.continuationHint = r'.continuationHint
  checkpoints : r.checkpoints.Perm r'.checkpoints

/-- The payloads have the same entries, in some order. -/
structure Reordered (p p' : HandoffCapsulePayload) : Prop where
  source : p.source = p'.source
  target : p.target = p'.target
  goal : p.goal = p'.goal
  plan : p.plan.Perm p'.plan
  decisions : p.decisions.Perm p'.decisions
  assumptions : p.assumptions.Perm p'.assumptions
  constraints : p.constraints.Perm p'.constraints
  unresolvedQuestions : p.unresolvedQuestions.Perm p'.unresolvedQuestions
  modifiedFiles : p.workspace.modifiedFiles.Perm p'.workspace.modifiedFiles
  commands : p.workspace.commands.Perm p'.workspace.commands
  tests : p.workspace.tests.Perm p'.workspace.tests
  outcomes : p.tools.outcomes.Perm p'.tools.outcomes
  pendingApprovals : p.tools.pendingApprovals.Perm p'.tools.pendingApprovals
  contextManifest : p.contextManifest.Perm p'.contextManifest
  doNotRepeatActionIds : p.doNotRepeatActionIds = p'.doNotRepeatActionIds
  partialResponse : Option.Rel ReorderedResponse p.partialResponse p'.partialResponse

theorem perm_sortByKey {τ : Type} (key : τ → String) {l l' : List τ} (h : l.Perm l') :
    (sortByKey key l).Perm (sortByKey key l') :=
  (sortByKey_perm key l).trans (h.trans (sortByKey_perm key l').symm)

/-- **A rearranged input has the same entries.** -/
theorem normalize_reordered (redact : String → String) {v w : Json} (hv : IsValue v)
    (h : Rearranged v w) :
    Reordered (normalizePayload redact (some v)) (normalizePayload redact (some w)) := by
  have hvalued : Valued (some v) := fun _ heq => some.inj heq ▸ hv
  have hmembers := members_alike hv h
  have hinner : ∀ k k', Alike (property k' (property k (some v))) (property k' (property k (some w))) :=
    fun k k' => property_alike (hmembers k) (hvalued.property k) k'
  have hentries : ∀ {τ : Type} {f : Unknown → τ} (key : τ → String) (k : String),
      (∀ {v w : Json}, IsValue v → Rearranged v w → f (some v) = f (some w)) →
      (sortByKey key (array (property k (some v)) f)).Perm
        (sortByKey key (array (property k (some w)) f)) :=
    fun key k hf => perm_sortByKey key (perm_array (hmembers k) (hvalued.property k) hf)
  have hnested : ∀ {τ : Type} {f : Unknown → τ} (key : τ → String) (k k' : String),
      (∀ {v w : Json}, IsValue v → Rearranged v w → f (some v) = f (some w)) →
      (sortByKey key (array (property k' (property k (some v))) f)).Perm
        (sortByKey key (array (property k' (property k (some w))) f)) :=
    fun key k k' hf =>
      perm_sortByKey key (perm_array (hinner k k') ((hvalued.property k).property k') hf)
  exact
    { source := by
        dsimp only [normalizePayload]
        rw [safe_alike (hinner "source" "sessionId"), safe_alike (hinner "source" "runId"),
          safeInteger_alike (hinner "source" "turn"), safe_alike (hinner "source" "providerId"),
          opt_alike (hinner "source" "modelId")]
      target := by
        dsimp only [normalizePayload]
        rw [safe_alike (hinner "target" "providerId"), opt_alike (hinner "target" "modelId")]
      goal := by
        dsimp only [normalizePayload]
        rw [safe_alike (hinner "goal" "objective"), safe_alike (hinner "goal" "currentGoal"),
          stringList_alike (hinner "goal" "successCriteria")]
      plan := hentries _ "plan" taskOf_alike
      decisions := hentries _ "decisions" decisionOf_alike
      assumptions := hentries _ "assumptions" assumptionOf_alike
      constraints := hentries _ "constraints" constraintOf_alike
      unresolvedQuestions := hentries _ "unresolvedQuestions" questionOf_alike
      modifiedFiles := hnested _ "workspace" "modifiedFiles" modifiedFileOf_alike
      commands := hnested _ "workspace" "commands" commandOf_alike
      tests := hnested _ "workspace" "tests" testRunOf_alike
      outcomes := hnested _ "tools" "outcomes" toolOutcomeOf_alike
      pendingApprovals := hnested _ "tools" "pendingApprovals" pendingApprovalOf_alike
      contextManifest := hentries _ "contextManifest" contextEntryOf_alike
      doNotRepeatActionIds := stringList_alike (hmembers "doNotRepeatActionIds")
      partialResponse := by
        dsimp only [normalizePayload]
        rw [isRecord_alike (hmembers "partialResponse")]
        split
        · exact .some ⟨safe_alike (hinner "partialResponse" "text"),
            opt_alike (hinner "partialResponse" "finishReason"),
            opt_alike (hinner "partialResponse" "continuationHint"),
            hnested _ "partialResponse" "checkpoints" checkpointOf_alike⟩
        · exact .none }

section Payloads

variable {p p' : HandoffCapsulePayload}

theorem Reordered.symm (h : Reordered p p') : Reordered p' p :=
  { source := h.source.symm
    target := h.target.symm
    goal := h.goal.symm
    plan := h.plan.symm
    decisions := h.decisions.symm
    assumptions := h.assumptions.symm
    constraints := h.constraints.symm
    unresolvedQuestions := h.unresolvedQuestions.symm
    modifiedFiles := h.modifiedFiles.symm
    commands := h.commands.symm
    tests := h.tests.symm
    outcomes := h.outcomes.symm
    pendingApprovals := h.pendingApprovals.symm
    contextManifest := h.contextManifest.symm
    doNotRepeatActionIds := h.doNotRepeatActionIds.symm
    partialResponse := by
      have hrel := h.partialResponse
      generalize p.partialResponse = a at hrel ⊢
      generalize p'.partialResponse = b at hrel ⊢
      cases hrel with
      | none => exact .none
      | some hr => exact .some ⟨hr.text.symm, hr.finishReason.symm, hr.continuationHint.symm,
          hr.checkpoints.symm⟩ }

theorem Reordered.compress (h : Reordered p p') (policy : CapsuleCompressionPolicy)
    (level : CompressionLevel) :
    Reordered (compressPayload policy level p) (compressPayload policy level p') :=
  { source := h.source
    target := h.target
    goal := h.goal
    plan := h.plan.map _
    decisions := h.decisions.map _
    assumptions := h.assumptions.map _
    constraints := h.constraints
    unresolvedQuestions := h.unresolvedQuestions
    modifiedFiles := h.modifiedFiles.map _
    commands := h.commands.map _
    tests := h.tests.map _
    outcomes := h.outcomes.map _
    pendingApprovals := h.pendingApprovals.map _
    contextManifest := h.contextManifest.map _
    doNotRepeatActionIds := h.doNotRepeatActionIds
    partialResponse := by
      have hrel := h.partialResponse
      dsimp only [compressPayload]
      generalize p.partialResponse = a at hrel ⊢
      generalize p'.partialResponse = b at hrel ⊢
      cases hrel with
      | none => exact .none
      | some hr => exact .some ⟨congrArg (truncate · level.responseLimit policy) hr.text,
          hr.finishReason, hr.continuationHint, hr.checkpoints.map _⟩ }

/-! ## Ordered payloads -/

/-- Every list is sorted by its key. -/
structure Ordered (p : HandoffCapsulePayload) : Prop where
  plan : SortedBy CapsuleTask.id p.plan
  decisions : SortedBy CapsuleDecision.id p.decisions
  assumptions : SortedBy CapsuleAssumption.id p.assumptions
  constraints : SortedBy CapsuleConstraint.id p.constraints
  unresolvedQuestions : SortedBy CapsuleQuestion.id p.unresolvedQuestions
  modifiedFiles : SortedBy CapsuleModifiedFile.path p.workspace.modifiedFiles
  commands : SortedBy CapsuleCommand.id p.workspace.commands
  tests : SortedBy CapsuleTestRun.id p.workspace.tests
  outcomes : SortedBy CapsuleToolOutcome.actionId p.tools.outcomes
  pendingApprovals : SortedBy CapsulePendingApproval.actionId p.tools.pendingApprovals
  contextManifest : SortedBy CapsuleContextEntry.key p.contextManifest
  checkpoints : ∀ r, p.partialResponse = some r → SortedBy CapsuleCheckpoint.id r.checkpoints

theorem ordered_normalize (redact : String → String) (input : Unknown) :
    Ordered (normalizePayload redact input) :=
  { plan := sortedBy_sortByKey _ _
    decisions := sortedBy_sortByKey _ _
    assumptions := sortedBy_sortByKey _ _
    constraints := sortedBy_sortByKey _ _
    unresolvedQuestions := sortedBy_sortByKey _ _
    modifiedFiles := sortedBy_sortByKey _ _
    commands := sortedBy_sortByKey _ _
    tests := sortedBy_sortByKey _ _
    outcomes := sortedBy_sortByKey _ _
    pendingApprovals := sortedBy_sortByKey _ _
    contextManifest := sortedBy_sortByKey _ _
    checkpoints := by
      intro r hr
      dsimp only [normalizePayload] at hr
      split at hr
      · obtain rfl := some.inj hr
        exact sortedBy_sortByKey _ _
      · nomatch hr }

theorem Ordered.compress (h : Ordered p) (policy : CapsuleCompressionPolicy)
    (level : CompressionLevel) : Ordered (compressPayload policy level p) :=
  { plan := h.plan.map fun _ => rfl
    decisions := h.decisions.map fun _ => rfl
    assumptions := h.assumptions.map fun _ => rfl
    constraints := h.constraints
    unresolvedQuestions := h.unresolvedQuestions
    modifiedFiles := h.modifiedFiles.map fun _ => rfl
    commands := h.commands.map fun _ => rfl
    tests := h.tests.map fun _ => rfl
    outcomes := h.outcomes.map fun _ => rfl
    pendingApprovals := h.pendingApprovals.map fun _ => rfl
    contextManifest := h.contextManifest.map fun _ => rfl
    checkpoints := by
      intro r hr
      obtain ⟨r', hr', rfl⟩ := map_eq_some_iff.mp hr
      exact (h.checkpoints r' hr').map fun _ => rfl }

/-- The entries of every list that `collectDuplicateIds` looks into are told by their keys. -/
structure Checked (p : HandoffCapsulePayload) : Prop where
  plan : ToldBy CapsuleTask.id p.plan
  decisions : ToldBy CapsuleDecision.id p.decisions
  assumptions : ToldBy CapsuleAssumption.id p.assumptions
  constraints : ToldBy CapsuleConstraint.id p.constraints
  unresolvedQuestions : ToldBy CapsuleQuestion.id p.unresolvedQuestions
  commands : ToldBy CapsuleCommand.id p.workspace.commands
  tests : ToldBy CapsuleTestRun.id p.workspace.tests
  outcomes : ToldBy CapsuleToolOutcome.actionId p.tools.outcomes
  pendingApprovals : ToldBy CapsulePendingApproval.actionId p.tools.pendingApprovals
  contextManifest : ToldBy CapsuleContextEntry.key p.contextManifest

/-- The entries of the two lists it does not look into are told by their keys. -/
structure Apart (p : HandoffCapsulePayload) : Prop where
  modifiedFiles : ToldBy CapsuleModifiedFile.path p.workspace.modifiedFiles
  checkpoints : ∀ r, p.partialResponse = some r → ToldBy CapsuleCheckpoint.id r.checkpoints

/-- **Ordered payloads with the same entries** are the same, if their entries are told by their
    keys. -/
theorem Reordered.eq (h : Reordered p p') (ho : Ordered p) (ho' : Ordered p') (hc : Checked p)
    (ha : Apart p) : p = p' := by
  have hworkspace : p.workspace = p'.workspace :=
    CapsuleWorkspace.ext (ho.modifiedFiles.eq_of_perm ho'.modifiedFiles h.modifiedFiles ha.modifiedFiles)
      (ho.commands.eq_of_perm ho'.commands h.commands hc.commands)
      (ho.tests.eq_of_perm ho'.tests h.tests hc.tests)
  have htools : p.tools = p'.tools :=
    CapsuleTools.ext (ho.outcomes.eq_of_perm ho'.outcomes h.outcomes hc.outcomes)
      (ho.pendingApprovals.eq_of_perm ho'.pendingApprovals h.pendingApprovals hc.pendingApprovals)
  have hresponse : p.partialResponse = p'.partialResponse := by
    have hrel := h.partialResponse
    cases hr : p.partialResponse with
    | none =>
      rw [hr] at hrel
      cases hr' : p'.partialResponse with
      | none => rfl
      | some r' =>
        rw [hr'] at hrel
        nomatch hrel
    | some r =>
      rw [hr] at hrel
      cases hr' : p'.partialResponse with
      | none =>
        rw [hr'] at hrel
        nomatch hrel
      | some r' =>
        rw [hr'] at hrel
        cases hrel with
        | some hrel =>
          exact congrArg some (CapsulePartialResponse.ext hrel.text hrel.finishReason
            hrel.continuationHint ((ho.checkpoints r hr).eq_of_perm (ho'.checkpoints r' hr')
              hrel.checkpoints (ha.checkpoints r hr)))
  exact HandoffCapsulePayload.ext h.source h.target h.goal
    (ho.plan.eq_of_perm ho'.plan h.plan hc.plan)
    (ho.decisions.eq_of_perm ho'.decisions h.decisions hc.decisions)
    (ho.assumptions.eq_of_perm ho'.assumptions h.assumptions hc.assumptions)
    (ho.constraints.eq_of_perm ho'.constraints h.constraints hc.constraints)
    (ho.unresolvedQuestions.eq_of_perm ho'.unresolvedQuestions h.unresolvedQuestions
      hc.unresolvedQuestions) hworkspace htools
    (ho.contextManifest.eq_of_perm ho'.contextManifest h.contextManifest hc.contextManifest)
    h.doNotRepeatActionIds hresponse

end Payloads

end NexusCode.Transfer
