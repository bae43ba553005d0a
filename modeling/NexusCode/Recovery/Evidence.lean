/-
  Recovery evidence and the two events that throw it away.

  What the tracker knows about an action speaks against a silent continuation at two strengths:
  an ambiguous action rules it out (evidence 2), a completed action that is not known to be
  read-only makes it depend on an approval (evidence 1).

  1. **`downgrades_iff`** — no call lowers the evidence of an action but two (`Downgrades`): a
     `cancelled` file edit resets the record it is about, whatever that record says; and a repeated
     end of the input of a completed action of unknown risk may still declare it read-only.
  2. **`evidence_never_downgraded`** — in a run without those calls, an action that was once
     ambiguous keeps every later plan from being safe, and a completed mutation makes every later
     safe plan name it among the approved ids.
  3. `cancelled_edit_downgrades` — with them it does not: a file edit that is applied and then
     reported as cancelled leaves a tracker whose plan is safe without any approval.
-/
import NexusCode.Recovery.Plan

namespace NexusCode.Recovery

open Lib Shared

/-! ## Evidence -/

/-- How strongly a record speaks against a continuation. -/
def TrackedAction.evidence (a : TrackedAction) : Nat :=
  if a.status = .ambiguous then 2
  else if a.status = .completed ∧ a.risk ≠ .readOnly then 1
  else 0

/-- The evidence a tracker holds on an action. -/
def Tracker.evidence (t : Tracker) (id : String) : Nat :=
  (t.actions.get? id).elim 0 TrackedAction.evidence

theorem TrackedAction.evidence_le_two (a : TrackedAction) : a.evidence ≤ 2 := by
  unfold TrackedAction.evidence
  split
  · omega
  · split <;> omega

variable {a : TrackedAction}

theorem TrackedAction.evidence_of_ambiguous (h : a.status = .ambiguous) :
    a.evidence = 2 := if_pos h

theorem TrackedAction.evidence_of_unsettled (h : a.status ≠ .ambiguous)
    (h' : a.status ≠ .completed) : a.evidence = 0 := by
  rw [TrackedAction.evidence, if_neg h, if_neg fun hc => h' hc.1]

theorem TrackedAction.two_le_evidence (h : 2 ≤ a.evidence) :
    a.status = .ambiguous := by
  by_contra hs
  rw [TrackedAction.evidence, if_neg hs] at h
  split at h <;> omega

theorem TrackedAction.one_le_evidence_iff :
    1 ≤ a.evidence ↔ a.status = .ambiguous ∨ (a.status = .completed ∧ a.risk ≠ .readOnly) := by
  unfold TrackedAction.evidence
  split
  · rename_i h
    exact ⟨fun _ => .inl h, fun _ => by omega⟩
  · rename_i h
    split
    · rename_i hc
      exact ⟨fun _ => .inr hc, fun _ => Nat.le_refl 1⟩
    · rename_i hc
      exact ⟨fun h0 => absurd h0 (by omega), fun h0 => absurd h0 (not_or.mpr ⟨h, hc⟩)⟩

/-! ## One record -/

section Record

variable (current : TrackedAction)

/-- A second start leaves the record in flight, as it was, or makes it ambiguous. -/
theorem evidence_restart (name : String) (risk : RecoveryActionRisk) :
    current.evidence ≤ (current.restart name risk).evidence := by
  by_cases h : current.name ≠ name ∨ current.ended = true ∨ current.status ≠ .inFlight
  · have hs : (current.restart name risk).status = .ambiguous := if_pos h
    rw [TrackedAction.evidence_of_ambiguous hs]
    exact current.evidence_le_two
  · have hs : current.status = .inFlight := by
      by_contra hs
      exact h (Or.inr (Or.inr hs))
    rw [current.evidence_of_unsettled (by rw [hs]; decide) (by rw [hs]; decide)]
    omega

theorem evidence_complete : current.evidence ≤ current.complete.evidence := by
  unfold TrackedAction.complete
  split
  · omega
  · rename_i hc
    split
    · exact current.evidence_le_two
    · rename_i h
      have hs : current.status = .inFlight := by
        by_contra hs
        exact h (Or.inl hs)
      rw [current.evidence_of_unsettled (by rw [hs]; decide) hc]
      omega

theorem evidence_record (action : RecoveryAction) :
    current.evidence ≤ (current.record action).evidence := by
  unfold TrackedAction.record
  split
  · exact current.evidence_le_two
  · omega

theorem evidence_edit (applied : Bool) (name : String) :
    current.evidence ≤ (current.edit applied name).evidence := by
  unfold TrackedAction.edit
  split
  · exact current.evidence_le_two
  · rename_i h
    have hs : current.status = .inFlight := by
      by_contra hs
      exact h (by simp [TrackedAction.conflictsWith, hs])
    rw [current.evidence_of_unsettled (by rw [hs]; decide) (by rw [hs]; decide)]
    omega

theorem evidence_approve : current.evidence ≤ current.approve.evidence := by
  unfold TrackedAction.approve
  split
  · rename_i hs
    rw [current.evidence_of_unsettled (by rw [hs]; decide) (by rw [hs]; decide)]
    omega
  · omega

theorem evidence_abort : current.abort.evidence = current.evidence := by
  unfold TrackedAction.abort
  split
  · rename_i hs
    rw [current.evidence_of_unsettled (by rw [hs]; decide) (by rw [hs]; decide)]
    rfl
  · rfl

/-- The end of an input lowers the evidence exactly when it turns a completed action of unknown
    risk into a read-only one, which a first end or a repeated end with the same signature can. -/
theorem evidence_finishInput (signature : String) (refined : RecoveryActionRisk) :
    (current.finishInput signature refined).evidence < current.evidence ↔
      current.status = .completed ∧ current.risk = .unknown ∧ refined = .readOnly ∧
        (current.ended = true → current.inputSignature = some signature) := by
  obtain ⟨name, risk, status, ended, inputSignature⟩ := current
  by_cases hsig : ended = true ∧ inputSignature ≠ some signature
  · have hs : (TrackedAction.finishInput signature refined
        ⟨name, risk, status, ended, inputSignature⟩).status = .ambiguous := by
      simp [TrackedAction.finishInput, hsig.1, hsig.2]
    rw [TrackedAction.evidence_of_ambiguous hs]
    have hle := TrackedAction.evidence_le_two ⟨name, risk, status, ended, inputSignature⟩
    constructor
    · intro h
      omega
    · rintro ⟨-, -, -, h⟩
      exact absurd (h hsig.1) hsig.2
  · -- otherwise only the risk can matter, and it is refined
    have he : (TrackedAction.finishInput signature refined
        ⟨name, risk, status, ended, inputSignature⟩).evidence
        = TrackedAction.evidence ⟨name, refineRisk risk refined, status, ended, inputSignature⟩ := by
      cases ended with
      | false => rfl
      | true =>
        have : inputSignature = some signature := by
          by_contra hne
          exact hsig ⟨rfl, hne⟩
        simp [TrackedAction.finishInput, this, TrackedAction.evidence]
    rw [he]
    have himp : ended = true → inputSignature = some signature := by
      intro hend
      by_contra hne
      exact hsig ⟨hend, hne⟩
    cases status <;> cases risk <;> cases refined <;>
      (simp [TrackedAction.evidence, refineRisk]; try exact himp)

end Record

/-! ## One call -/

section Call

variable {rt : Runtime} {options : TrackerOptions} {t : Tracker}

variable {id : String}

theorem evidence_of_get {a : TrackedAction} (h : t.actions.get? id = some a) :
    t.evidence id = a.evidence := by
  rw [Tracker.evidence, h]
  rfl

theorem evidence_of_none (h : t.actions.get? id = none) : t.evidence id = 0 := by
  rw [Tracker.evidence, h]
  rfl

theorem exists_of_evidence {n : Nat} (hn : 0 < n) (h : n ≤ t.evidence id) :
    ∃ a, t.actions.get? id = some a ∧ n ≤ a.evidence := by
  cases hget : t.actions.get? id with
  | none =>
    rw [evidence_of_none hget] at h
    omega
  | some a => exact ⟨a, rfl, evidence_of_get hget ▸ h⟩

theorem evidence_congr {t t' : Tracker} (h : t.actions = t'.actions) (id : String) :
    t.evidence id = t'.evidence id := by
  rw [Tracker.evidence, Tracker.evidence, h]

theorem evidence_setAction (id : String) (a : TrackedAction) (k : String) :
    (t.setAction id a).evidence k = if id = k then a.evidence else t.evidence k := by
  show ((t.actions.set id a).get? k).elim 0 _ = _
  rw [JsMap.get?_set]
  split <;> rfl

/-- Setting a record that speaks at least as strongly lowers nothing. -/
theorem evidence_le_setAction {a : TrackedAction} (h : t.evidence id ≤ a.evidence)
    (k : String) : t.evidence k ≤ (t.setAction id a).evidence k := by
  rw [evidence_setAction]
  split
  · rename_i hk
    exact hk ▸ h
  · omega

@[simp] theorem evidence_addDuplicate (id k : String) :
    (t.addDuplicate id).evidence k = t.evidence k := rfl

@[simp] theorem evidence_openEdit (runId : String) (edit : FileEdit) (k : String) :
    (t.openEdit runId edit).evidence k = t.evidence k := by
  unfold Tracker.openEdit
  split <;> rfl

@[simp] theorem get?_openEdit (runId : String) (edit : FileEdit) (k : String) :
    (t.openEdit runId edit).actions.get? k = t.actions.get? k := by
  unfold Tracker.openEdit
  split <;> rfl

@[simp] theorem evidence_closeEdit (runId : String) (edit : FileEdit) (k : String) :
    (t.closeEdit runId edit).evidence k = t.evidence k := rfl

theorem evidence_startAction (id name : String) (risk : RecoveryActionRisk) (k : String) :
    t.evidence k ≤ (t.startAction id name risk).evidence k := by
  unfold Tracker.startAction
  split
  · rename_i h
    refine evidence_le_setAction ?_ k
    rw [evidence_of_none h]
    omega
  · rename_i current h
    refine evidence_le_setAction (t := t.addDuplicate id) ?_ k
    rw [evidence_addDuplicate, evidence_of_get h]
    exact evidence_restart current name risk

theorem evidence_completeAction (id k : String) :
    t.evidence k ≤ (t.completeAction id).evidence k := by
  unfold Tracker.completeAction
  split
  · rename_i h
    refine evidence_le_setAction ?_ k
    rw [evidence_of_none h]
    omega
  · rename_i current h
    have hset : ∀ t' : Tracker, t'.actions = t.actions →
        t.evidence k ≤ (t'.setAction id current.complete).evidence k := by
      intro t' ht'
      rw [evidence_congr ht'.symm k]
      refine evidence_le_setAction ?_ k
      rw [evidence_congr ht', evidence_of_get h]
      exact evidence_complete current
    split
    · exact hset _ rfl
    · exact hset _ rfl

theorem evidence_recordAction (action : RecoveryAction) (k : String) :
    t.evidence k ≤ (t.recordAction action).evidence k := by
  unfold Tracker.recordAction
  split
  · rename_i h
    refine evidence_le_setAction ?_ k
    rw [evidence_of_none h]
    omega
  · rename_i current h
    refine evidence_le_setAction (t := t.addDuplicate action.id) ?_ k
    rw [evidence_addDuplicate, evidence_of_get h]
    exact evidence_record current action

theorem evidence_abortOpenActions (k : String) : t.abortOpenActions.evidence k = t.evidence k := by
  show ((t.actions.mapValues TrackedAction.abort).get? k).elim 0 _ = _
  rw [JsMap.get?_mapValues, Tracker.evidence]
  cases t.actions.get? k with
  | none => rfl
  | some a => exact evidence_abort a

theorem evidence_resolveApproval (edit : FileEdit) (k : String) :
    t.evidence k ≤ (t.resolveApproval edit).evidence k := by
  unfold Tracker.resolveApproval
  split
  · omega
  · split
    · rename_i approval h
      split
      · refine evidence_le_setAction ?_ k
        rw [evidence_of_get h]
        exact evidence_approve approval
      · omega
    · omega

theorem evidence_observeFileEdit {runId : String} {edit : FileEdit}
    (hedit : edit.status ≠ .cancelled) (k : String) :
    t.evidence k ≤ (t.observeFileEdit runId edit).evidence k := by
  have hresolve : ∀ t' : Tracker, ∀ b : Bool, t'.evidence k
      ≤ ((if b then t'.closeEdit runId edit else t').resolveApproval edit).evidence k := by
    intro t' b
    cases b with
    | false => exact evidence_resolveApproval edit k
    | true => exact evidence_resolveApproval (t := t'.closeEdit runId edit) edit k
  unfold Tracker.observeFileEdit
  simp only [if_neg hedit, get?_openEdit]
  have hopen : t.evidence k = (t.openEdit runId edit).evidence k := (evidence_openEdit _ _ _).symm
  split
  · rename_i current h
    have hset : t.evidence k ≤ ((t.openEdit runId edit).setAction (t.editId runId edit)
        (current.edit (decide (edit.status = .applied)) ("file-edit:" ++ edit.path))).evidence k := by
      rw [hopen]
      refine evidence_le_setAction ?_ k
      rw [evidence_openEdit, evidence_of_get h]
      exact evidence_edit current _ _
    split
    · exact hset
    · exact Nat.le_trans hset (hresolve _ _)
  · rename_i h
    refine Nat.le_trans ?_ (hresolve _ _)
    rw [hopen]
    refine evidence_le_setAction ?_ k
    rw [evidence_openEdit, evidence_of_none h]
    omega

/-- A cancelled edit wipes out the evidence on its action, and touches nothing else. -/
theorem evidence_cancelled {runId : String} {edit : FileEdit} (hedit : edit.status = .cancelled)
    (k : String) : (t.observeFileEdit runId edit).evidence k
      = if t.editId runId edit = k then 0 else t.evidence k := by
  unfold Tracker.observeFileEdit
  simp only [if_pos hedit, get?_openEdit]
  split <;> rw [evidence_closeEdit, evidence_setAction, evidence_openEdit] <;> rfl

theorem evidence_endAction (id : String) (input : Unknown) (k : String) :
    (t.endAction rt options id input).evidence k < t.evidence k ↔
      k = id ∧ ∃ a, t.actions.get? id = some a ∧ a.status = .completed ∧ a.risk = .unknown ∧
        classifySafely options.classifyAction a.name input = .readOnly ∧
        (a.ended = true → a.inputSignature = some (inputSignature rt input)) := by
  unfold Tracker.endAction
  simp only
  split
  · rename_i h
    rw [evidence_setAction]
    constructor
    · intro hlt
      by_cases hk : id = k
      · rw [if_pos hk, ← hk, evidence_of_none h] at hlt
        exact absurd hlt (by omega)
      · rw [if_neg hk] at hlt
        exact absurd hlt (by omega)
    · rintro ⟨-, a, ha, -⟩
      rw [h] at ha
      cases ha
  · rename_i current h
    have hdup : ∀ k, (if current.ended = true then t.addDuplicate id else t).evidence k
        = t.evidence k := by
      intro k
      split <;> rfl
    rw [evidence_setAction, hdup]
    by_cases hk : id = k
    · subst hk
      rw [if_pos rfl, evidence_of_get h, evidence_finishInput]
      constructor
      · intro hd
        exact ⟨rfl, current, h, hd⟩
      · rintro ⟨-, a, ha, hd⟩
        rw [h] at ha
        exact Option.some.inj ha ▸ hd
    · rw [if_neg hk]
      exact ⟨fun hlt => absurd hlt (by omega), fun hd => absurd hd.1.symm hk⟩

end Call

/-! ## The calls that lower evidence -/

/-- The calls that throw away what is known about the action `k`. -/
def Downgrades (rt : Runtime) (options : TrackerOptions) (t : Tracker) (k : String) : Op → Prop
  | .observe ⟨runId, .fileEdit edit, _⟩ =>
    edit.status = .cancelled ∧ k = t.editId runId edit ∧ ∃ a, t.actions.get? k = some a ∧
      (a.status = .ambiguous ∨ (a.status = .completed ∧ a.risk ≠ .readOnly))
  | .observe ⟨_, .toolCallEnd id input, _⟩ =>
    k = id ∧ ∃ a, t.actions.get? id = some a ∧ a.status = .completed ∧ a.risk = .unknown ∧
      classifySafely options.classifyAction a.name input = .readOnly ∧
      (a.ended = true → a.inputSignature = some (inputSignature rt input))
  | _ => False

/-- **The calls that lower the evidence on an action are exactly the two kinds of `Downgrades`.** -/
theorem downgrades_iff (rt : Runtime) (options : TrackerOptions) (t : Tracker) (op : Op)
    (k : String) : (t.perform rt options op).evidence k < t.evidence k ↔
      Downgrades rt options t k op := by
  have never : ∀ t' : Tracker, t.evidence k ≤ t'.evidence k →
      (t'.evidence k < t.evidence k ↔ False) := by
    intro t' h
    exact ⟨fun hlt => absurd hlt (by omega), False.elim⟩
  cases op with
  | recordAction action => exact never _ (evidence_recordAction action k)
  | abortOpenActions => exact never _ (Nat.le_of_eq (evidence_abortOpenActions k).symm)
  | observe chunk =>
    obtain ⟨runId, body, raw⟩ := chunk
    cases body with
    | textDelta text channel =>
      refine never _ (Nat.le_of_eq ?_)
      show t.evidence k = Tracker.evidence (if channel = some .reasoning then _ else _) k
      split <;> rfl
    | toolCallStart id name => exact never _ (evidence_startAction id name _ k)
    | toolCallEnd id input => exact evidence_endAction id input k
    | toolResult id content isError => exact never _ (evidence_completeAction id k)
    | approvalRequest approvalId kind detail =>
      exact never _ (evidence_startAction _ _ .mutating k)
    | error e retryable => exact never _ (Nat.le_of_eq (evidence_abortOpenActions k).symm)
    | fileEdit edit =>
      show (t.observeFileEdit runId edit).evidence k < t.evidence k ↔ edit.status = .cancelled ∧ _
      by_cases hedit : edit.status = .cancelled
      · rw [evidence_cancelled hedit]
        constructor
        · intro hlt
          by_cases hk : t.editId runId edit = k
          · refine ⟨hedit, hk.symm, ?_⟩
            rw [if_pos hk] at hlt
            cases hget : t.actions.get? k with
            | none =>
              rw [evidence_of_none hget] at hlt
              exact absurd hlt (by omega)
            | some a =>
              rw [evidence_of_get hget] at hlt
              exact ⟨a, rfl, TrackedAction.one_le_evidence_iff.mp hlt⟩
          · rw [if_neg hk] at hlt
            exact absurd hlt (by omega)
        · rintro ⟨-, hk, a, hget, ha⟩
          rw [if_pos hk.symm, evidence_of_get hget]
          exact TrackedAction.one_le_evidence_iff.mpr ha
      · rw [never _ (evidence_observeFileEdit hedit k)]
        exact ⟨False.elim, fun h => absurd h.1 hedit⟩
    | runStart _ _ _ => exact never _ (Nat.le_refl _)
    | sessionInit _ _ _ _ => exact never _ (Nat.le_refl _)
    | reasoningDelta _ => exact never _ (Nat.le_refl _)
    | toolCallDelta _ _ => exact never _ (Nat.le_refl _)
    | usage _ => exact never _ (Nat.le_refl _)
    | runEnd _ => exact never _ (Nat.le_refl _)

/-! ## Runs -/

/-- The calls by which a mutating action is seen to be completed: the result of a tool the tracker
    holds to be mutating, and an applied file edit. -/
inductive CompletesMutation (t : Tracker) : Op → String → Prop where
  | toolResult {runId id : String} {content : List ContentBlock} {isError : Option Bool}
      {raw : Unknown} {a : TrackedAction} (held : t.actions.get? id = some a)
      (mutating : a.risk = .mutating) :
      CompletesMutation t (.observe ⟨runId, .toolResult id content isError, raw⟩) id
  | fileEdit {runId : String} {edit : FileEdit} {raw : Unknown}
      (applied : edit.status = .applied) :
      CompletesMutation t (.observe ⟨runId, .fileEdit edit, raw⟩) (t.editId runId edit)

/-- What a run must not lose: an action that was ambiguous at some point rules out a safe plan
    after the run, and a completed mutation makes every safe plan after it name the action. -/
def NeverDowngraded (rt : Runtime) (options : TrackerOptions) (ops : List Op) : Prop :=
  let M := machine rt options
  let plan := fun input => (M.run {} ops).createPlan rt options input
  (∀ before after, ops = before ++ after → ∀ id a,
    (M.run {} before).actions.get? id = some a → a.status = .ambiguous →
      ∀ input, (plan input).decision ≠ .safe) ∧
  (∀ before op after, ops = before ++ op :: after → ∀ id,
    CompletesMutation (M.run {} before) op id →
      ∀ input, (plan input).decision = .safe → id ∈ input.approvedIds)

section Run

variable {rt : Runtime} {options : TrackerOptions} {t : Tracker} {ops : List Op}

/-- A run whose calls throw nothing away keeps the evidence on every action. -/
theorem evidence_run
    (hok : (machine rt options).Always (fun t op => ∀ k, ¬ Downgrades rt options t k op) t ops)
    (k : String) : t.evidence k ≤ ((machine rt options).run t ops).evidence k := by
  refine Machine.Always.invariant (I := fun t' => t.evidence k ≤ t'.evidence k) ?_ hok
    (Nat.le_refl _)
  intro t' op hle hop
  have hstep := mt (downgrades_iff rt options t' op k).mp (hop k)
  exact Nat.le_trans hle (Nat.not_lt.mp hstep)

/-- An event that completes a mutation leaves evidence behind. -/
theorem one_le_evidence_of_completes {op : Op} {id : String} (h : CompletesMutation t op id) :
    1 ≤ (t.perform rt options op).evidence id := by
  cases h with
  | @toolResult runId id content isError raw a held mutating =>
    show 1 ≤ (t.completeAction id).evidence id
    rw [Tracker.completeAction, held]
    show 1 ≤ (Tracker.setAction id a.complete _).evidence id
    rw [evidence_setAction, if_pos rfl, TrackedAction.one_le_evidence_iff]
    have hrisk : a.complete.risk ≠ .readOnly := by
      unfold TrackedAction.complete
      split
      · rw [mutating]; decide
      · split <;> (show a.risk ≠ _; rw [mutating]; decide)
    -- a result completes the action, finds it completed, or makes it ambiguous
    unfold TrackedAction.complete at hrisk ⊢
    split
    · rename_i hc
      exact .inr ⟨hc, by rw [mutating]; decide⟩
    · split
      · exact .inl rfl
      · exact .inr ⟨rfl, by show a.risk ≠ _; rw [mutating]; decide⟩
  | @fileEdit runId edit raw applied =>
    show 1 ≤ (t.observeFileEdit runId edit).evidence (t.editId runId edit)
    have hc : edit.status ≠ .cancelled := by rw [applied]; decide
    have hresolve : ∀ t' : Tracker, t'.evidence (t.editId runId edit)
        ≤ ((if decide (edit.status = .applied) = true then t'.closeEdit runId edit
          else t').resolveApproval edit).evidence (t.editId runId edit) := by
      intro t'
      rw [if_pos (decide_eq_true applied)]
      exact evidence_resolveApproval (t := t'.closeEdit runId edit) edit _
    unfold Tracker.observeFileEdit
    simp only [if_neg hc, get?_openEdit]
    split
    · rename_i current hget
      have hset : 1 ≤ (Tracker.setAction (t.editId runId edit) (current.edit
          (decide (edit.status = .applied)) ("file-edit:" ++ edit.path))
            (t.openEdit runId edit)).evidence (t.editId runId edit) := by
        rw [evidence_setAction, if_pos rfl, TrackedAction.one_le_evidence_iff]
        unfold TrackedAction.edit
        split
        · exact .inl rfl
        · rename_i hconf
          rw [if_pos (decide_eq_true applied)]
          refine .inr ⟨rfl, fun hr => hconf ?_⟩
          rw [TrackedAction.conflictsWith, show current.risk = .readOnly from hr]
          simp
      split
      · exact hset
      · exact Nat.le_trans hset (hresolve _)
    · refine Nat.le_trans ?_ (hresolve _)
      rw [evidence_setAction, if_pos rfl, TrackedAction.one_le_evidence_iff]
      exact .inr ⟨if_pos (decide_eq_true applied), fun h => by cases h⟩

/-- **Recovery evidence is kept by every run without the two downgrading calls.** -/
theorem evidence_never_downgraded (rt : Runtime) (options : TrackerOptions) (ops : List Op)
    (hok : (machine rt options).Always (fun t op => ∀ k, ¬ Downgrades rt options t k op) {} ops) :
    NeverDowngraded rt options ops := by
  constructor
  · rintro before after rfl id a hget hamb input hsafe
    have hrun := evidence_run ((Machine.always_append _).mp hok).2 id
    rw [← Machine.run_append, evidence_of_get hget, TrackedAction.evidence_of_ambiguous hamb] at hrun
    obtain ⟨b, hfin, hb⟩ := exists_of_evidence (by omega) hrun
    exact ((createPlan_safe_iff.mp hsafe).2.2 id b hfin).1 (TrackedAction.two_le_evidence hb)
  · rintro before op after rfl id hcomp input hsafe
    obtain ⟨-, hafter⟩ := (Machine.always_append _).mp hok
    have hone := @one_le_evidence_of_completes rt options _ op id hcomp
    have hrun := Nat.le_trans hone (evidence_run hafter.2 id)
    rw [← Machine.run_cons, ← Machine.run_append] at hrun
    obtain ⟨b, hfin, hb⟩ := exists_of_evidence (by omega) hrun
    obtain ⟨hnot, hknown, hmut⟩ := (createPlan_safe_iff.mp hsafe).2.2 id b hfin
    rcases TrackedAction.one_le_evidence_iff.mp hb with hs | ⟨-, hr⟩
    · exact absurd hs hnot
    · cases hrisk : b.risk with
      | readOnly => exact absurd hrisk hr
      | mutating => exact (hmut hrisk).2
      | unknown => exact absurd hrisk hknown

end Run

/-! ## The defect -/

/-- A runtime for examples: the digest is the text itself. -/
def plainRuntime : Runtime := ⟨id, fun a b => decide (a ≤ b)⟩

/-- Recovery switched on, without a classifier. -/
def enabledOptions : TrackerOptions := { enabled := true }

/-- The chunk of one file edit. -/
def editChunk (status : FileEditStatus) : StreamChunk :=
  { runId := "r", body := .fileEdit { path := "a.txt", diff := "", status, approvalId := some "1" } }

/-- Some text, an applied edit, and the same edit reported as cancelled. -/
def appliedThenCancelled : List Op :=
  [.observe { runId := "r", body := .textDelta "Working" none }, .observe (editChunk .applied),
    .observe (editChunk .cancelled)]

/-- **A cancelled file edit throws away that the edit was applied.** -/
theorem cancelled_edit_downgrades :
    ¬ NeverDowngraded plainRuntime enabledOptions appliedThenCancelled := by
  intro h
  have hsafe : (((machine plainRuntime enabledOptions).run {} appliedThenCancelled).createPlan
      plainRuntime enabledOptions { originalGoal := "goal" }).decision = .safe := by
    decide +kernel
  have hmem := h.2 [.observe { runId := "r", body := .textDelta "Working" none }]
    (.observe (editChunk .applied)) [.observe (editChunk .cancelled)] rfl _ (.fileEdit rfl)
    { originalGoal := "goal" } hsafe
  exact absurd hmem List.not_mem_nil

/-- A run of a mutating edit that throws nothing away. -/
def appliedEdit : List Op :=
  [.observe { runId := "r", body := .textDelta "Working" none }, .observe (editChunk .applied)]

theorem evidence_never_downgraded_appliedEdit :
    NeverDowngraded plainRuntime enabledOptions appliedEdit := by
  refine evidence_never_downgraded plainRuntime enabledOptions appliedEdit ⟨?_, ?_, trivial⟩
  · rintro k ⟨⟩
  · rintro k ⟨hc, -⟩
    nomatch hc

end NexusCode.Recovery
