/-
  The OODA loop of the agent, and what its result may claim.

  A boolean and a verdict travel together: the evaluation gives both, a verification overrides
  both, and a policy may stop the loop with a reason of its own.

    1. `judge`, `decision`      — the verdict of a step, and whether the loop ends with it.
    2. `oodaStep`, `oodaLoop`   — one step, given what the world does; the loop; its result.
    3. `oodaLoop_final`         — a loop that ends as met ends with a step that says so, and no
                                  step before did.
    4. **`goal_met_backed_iff`** — the result claims no more than its last step established exactly
                                  if no reflection of the policy contradicts itself.
-/
import NexusCode.Agent.Policies
import NexusCode.Lib.Outcome

namespace NexusCode.Agent

open Lib Shared List Option

/-- What decides about a run of an agent: its definition, its options and its policies. -/
structure AgentRun where
  role : String
  agentRunId : String
  goal : AgentGoal
  maxSteps : Nat
  maxRetries : Nat := 2
  maxUnverifiedSteps : Option Nat := none
  evaluate : EvaluateFn
  /-- `none` if verification is switched off. -/
  verify : Option VerifyFn

/-- What happens in a step besides the policies. -/
structure StepWorld where
  /-- The scope is aborted at the top of the loop. -/
  abortedBefore : Bool := false
  /-- The plan policy and its edits of the store. -/
  planned : Except String Unit := .ok ()
  /-- The run of the model with its tools. -/
  dispatched : Except String (Outcome × List StepToolResult)
  /-- The scope is aborted when that run has ended. -/
  aborted : Bool := false
  /-- The scope is aborted when the evaluation has answered. -/
  abortedAfter : Bool := false
  /-- How the turns of the verification end. -/
  turns : Nat → Turn := fun _ => .ok none
  /-- The edits of the store the reflection asks for. -/
  edited : Except String Unit := .ok ()
  /-- The final text of a sub-agent. -/
  delegated : Except String String := .ok ""

/-! ## One step -/

/-- `reflection.verdict ?? (reflection.goalMet ? "met" : "unmet")`. -/
def Reflection.own (given : Reflection) : GoalVerdict :=
  given.verdict.getD (if given.goalMet then .met else .unmet)

/-- A step: what the evaluation was given and what it answered, and the assessment of the
    verification with the turns it took, if there was one. -/
structure StepRecord where
  input : EvaluateInput
  given : Reflection
  assessment : Option (GoalAssessment × List Turn)

namespace StepRecord

/-- The verdict that counts: that of the verification, else that of the evaluation. -/
def verdict (rec : StepRecord) : GoalVerdict :=
  match rec.assessment with
  | some a => a.1.verdict
  | none => rec.given.own

/-- The critique after a verification. -/
def critiqueOf (step : Nat) (assessment : GoalAssessment) : String :=
  match assessment.verdict with
  | .met => "Goal verified on step " ++ toString step ++ " by explicit evaluation: " ++
      assessment.reason
  | .unmet => "Evaluation on step " ++ toString step ++ " found the objective not yet achieved: " ++
      assessment.reason
  | .indeterminate => "Step " ++ toString step ++ " could NOT be verified (" ++ assessment.reason ++
      "); the outcome is unknown, not successful."

/-- The reflection the runner records. -/
def reflection (rec : StepRecord) : Reflection :=
  match rec.assessment with
  | none => { rec.given with verdict := some rec.given.own }
  | some (assessment, _) =>
    { rec.given with
      verdict := some assessment.verdict
      goalMet := assessment.verdict = .met
      critique := critiqueOf rec.input.step assessment
      correction := if assessment.verdict = .unmet then
          some ("The objective is not yet achieved: " ++ assessment.reason ++
            ". Do the remaining work — do not restate it.")
        else rec.given.correction }

/-- The loop's decision after the step. -/
def decision (rec : StepRecord) (unverifiedStreak maxUnverified : Nat) : Option StopReason :=
  match rec.reflection.stop with
  | some reason => some reason
  | none =>
    if rec.input.cancelled then some .cancelled
    else if rec.reflection.goalMet then some .goalMet
    else if rec.verdict = .indeterminate ∧ unverifiedStreak ≥ maxUnverified then
      some .indeterminate
    else none

/-- The loop ends as met with this step. -/
def EndsMet (rec : StepRecord) : Prop :=
  rec.given.stop = some .goalMet ∨
    rec.given.stop = none ∧ rec.input.cancelled = false ∧ rec.reflection.goalMet = true

/-- The reflection of the policy does not claim more than its own verdict: it stops the run as met
    only if the verdict is `met`, and where its flag decides it gives no other verdict beside it. -/
def Honest (rec : StepRecord) : Prop :=
  (rec.given.stop = some .goalMet → rec.verdict = .met) ∧
  (rec.given.stop = none → rec.input.cancelled = false → rec.assessment = none →
    rec.given.goalMet = true → rec.given.verdict = none ∨ rec.given.verdict = some .met)

instance (rec : StepRecord) : Decidable rec.Honest :=
  inferInstanceAs (Decidable (_ ∧ _))

@[simp] theorem reflection_stop (rec : StepRecord) : rec.reflection.stop = rec.given.stop := by
  unfold reflection
  split <;> rfl

theorem decision_goalMet {rec : StepRecord} {unverifiedStreak maxUnverified : Nat} :
    rec.decision unverifiedStreak maxUnverified = some .goalMet ↔ rec.EndsMet := by
  unfold decision EndsMet
  rw [reflection_stop]
  cases rec.given.stop with
  | some reason => simp
  | none =>
    cases rec.input.cancelled with
    | true => simp
    | false =>
      cases rec.reflection.goalMet with
      | true => simp
      | false =>
        simp only [Bool.false_eq_true, if_false, and_false, or_false, reduceCtorEq, iff_false]
        split <;> exact nofun

theorem honest_of_not_endsMet {rec : StepRecord} (h : ¬ rec.EndsMet) : rec.Honest := by
  refine ⟨fun hstop => absurd (.inl hstop) h, fun hstop hcancelled hnone hmet => ?_⟩
  refine absurd (.inr ⟨hstop, hcancelled, ?_⟩) h
  unfold reflection
  rw [hnone]
  exact hmet

/-- A step that ends the loop as met is honest exactly if its verdict is `met`. -/
theorem honest_iff {rec : StepRecord} (h : rec.EndsMet) : rec.Honest ↔ rec.verdict = .met := by
  constructor
  · rintro ⟨hstopped, hflag⟩
    rcases h with hstop | ⟨hstop, hcancelled, hmet⟩
    · exact hstopped hstop
    · unfold verdict
      cases ha : rec.assessment with
      | some a =>
        unfold reflection at hmet
        rw [ha] at hmet
        exact of_decide_eq_true hmet
      | none =>
        unfold reflection at hmet
        rw [ha] at hmet
        have hgiven : rec.given.goalMet = true := hmet
        show rec.given.own = .met
        unfold Reflection.own
        rcases hflag hstop hcancelled ha hgiven with hv | hv <;> rw [hv]
        · rw [getD_none, if_pos hgiven]
        · rfl
  · intro hverdict
    refine ⟨fun _ => hverdict, fun _ _ hnone hmet => ?_⟩
    unfold verdict at hverdict
    rw [hnone] at hverdict
    have hown : rec.given.verdict.getD (if rec.given.goalMet then .met else .unmet) = .met := hverdict
    cases hv : rec.given.verdict with
    | none => exact .inl rfl
    | some v =>
      rw [hv] at hown
      exact .inr (congrArg some hown)

end StepRecord

namespace AgentRun

/-- The input of the verification. -/
def verifyInput (input : EvaluateInput) : VerifyInput :=
  { role := input.role, goal := input.goal, step := input.step, stepText := input.stepText,
    toolResults := input.toolResults, evidence := input.evidence }

/-- The evaluation has answered: the verification runs if the verdict is open and nothing is
    cancelled. -/
def judge (run : AgentRun) (input : EvaluateInput) (given : Reflection) (world : StepWorld) :
    StepRecord :=
  { input, given
    assessment :=
      if given.own = .indeterminate ∧ input.cancelled = false ∧ world.abortedAfter = false then
        run.verify.map fun verify => verifyGoal verify (verifyInput input) world.turns
      else none }

end AgentRun

/-! ## The loop -/

/-- The variables of the loop. -/
structure LoopState where
  evidence : String := ""
  finalText : String := ""
  retriesUsed : Nat := 0
  verdict : GoalVerdict := .indeterminate
  unverifiedStreak : Nat := 0
  steps : List StepRecord := []

/-- `AgentRunResult`, the part of it that tells how the run went. -/
structure AgentRunResult where
  stopReason : StopReason
  goalMet : Bool
  verdict : GoalVerdict
  finalText : String
  steps : List StepRecord

/-- `buildResult(reason)`. -/
def LoopState.buildResult (s : LoopState) (reason : StopReason) : AgentRunResult :=
  { stopReason := reason
    goalMet := reason = .goalMet
    verdict := if reason = .goalMet then .met
      else if s.verdict = .met then .indeterminate else s.verdict
    finalText := s.finalText
    steps := s.steps }

namespace AgentRun

/-- The ids of the tasks of the criteria. -/
def criterionTaskIds (run : AgentRun) : List String :=
  (List.range run.goal.criteria.length).map fun i => run.agentRunId ++ "-c" ++ toString i

/-- The text of the step, and the evidence with it. -/
def observe (run : AgentRun) (step : Nat) (s : LoopState) (world : StepWorld) (outcome : Outcome)
    (toolResults : List StepToolResult) : EvaluateInput :=
  let stepText := (outcome.winner.map (·.text)).getD ""
  { role := run.role, goal := run.goal, step, maxSteps := run.maxSteps
    retriesUsed := s.retriesUsed, maxRetries := run.maxRetries
    outcome, stepText, toolResults
    evidence := toolResults.foldl (fun evidence result => evidence ++ "\n" ++ result.text)
      (s.evidence ++ "\n" ++ stepText)
    criterionTaskIds := run.criterionTaskIds
    rootTaskId := run.agentRunId ++ "-root"
    cancelled := (outcome.winner.map (·.status)) = some .cancelled || world.aborted }

/-- `maxUnverified`. -/
def maxUnverified (run : AgentRun) : Nat := max 1 (run.maxUnverifiedSteps.getD 1)

/-- The variables once the step is recorded. -/
def recorded (s : LoopState) (rec : StepRecord) : LoopState :=
  { s with
    evidence := rec.input.evidence
    finalText := if JsString.isBlank rec.input.stepText then s.finalText else rec.input.stepText
    verdict := rec.verdict
    unverifiedStreak := if rec.verdict = .indeterminate then s.unverifiedStreak + 1 else 0
    steps := s.steps ++ [rec] }

/-- The evidence after the delegation the reflection asks for, if any. -/
def delegation (rec : StepRecord) (world : StepWorld) : Except String String :=
  if rec.reflection.delegate.isSome then
    world.delegated.map fun finalText => rec.input.evidence ++ "\n" ++ finalText
  else .ok rec.input.evidence

/-- The end of a step: delegation, then the decision. -/
def settle (run : AgentRun) (s : LoopState) (rec : StepRecord) (world : StepWorld) :
    Except String (LoopState × Option StopReason) :=
  let s := recorded s rec
  (delegation rec world).map fun evidence =>
    let stop := rec.decision s.unverifiedStreak run.maxUnverified
    let replans := stop = none ∧ rec.reflection.needsReplan = true
    ({ s with evidence, retriesUsed := if replans then s.retriesUsed + 1 else s.retriesUsed }, stop)

/-- One step of the loop; it is over with a reason, or goes on. -/
def oodaStep (run : AgentRun) (step : Nat) (s : LoopState) (world : StepWorld) :
    Except String (LoopState × Option StopReason) :=
  if world.abortedBefore then .ok (s, some .cancelled)
  else
    world.planned.bind fun _ =>
    world.dispatched.bind fun (outcome, toolResults) =>
    let input := run.observe step s world outcome toolResults
    (run.evaluate input).bind fun given =>
    world.edited.bind fun _ =>
    run.settle s (run.judge input given world) world

/-- The loop from a step on, with the steps that are left. -/
def oodaLoop (run : AgentRun) (world : Nat → StepWorld) :
    Nat → Nat → LoopState → Except String (LoopState × StopReason)
  | 0, _, s => .ok (s, .maxSteps)
  | left + 1, step, s =>
    (run.oodaStep step s (world step)).bind fun
      | (s, some reason) => .ok (s, reason)
      | (s, none) => oodaLoop run world left (step + 1) s

/-- A run of the agent; it has no result if something throws. -/
def result (run : AgentRun) (world : Nat → StepWorld) : Except String AgentRunResult :=
  (run.oodaLoop world run.maxSteps 0 {}).map fun (s, reason) => s.buildResult reason

/-! ## What a step does -/

/-- A record the runner makes: what the policies of the run answer. -/
structure Judged (run : AgentRun) (rec : StepRecord) : Prop where
  given : run.evaluate rec.input = .ok rec.given
  verified : ∀ a, rec.assessment = some a → rec.given.own = .indeterminate ∧
    rec.input.cancelled = false ∧
    ∃ verify turns, run.verify = some verify ∧ a = verifyGoal verify (verifyInput rec.input) turns

variable {run : AgentRun} {world : StepWorld} {s s' : LoopState} {stop : Option StopReason}

theorem judge_judged {input : EvaluateInput} {given : Reflection}
    (h : run.evaluate input = .ok given) : run.Judged (run.judge input given world) := by
  refine ⟨h, fun a ha => ?_⟩
  unfold judge at ha
  dsimp only at ha
  split at ha
  · rename_i hopen
    obtain ⟨verify, hverify, rfl⟩ := map_eq_some_iff.mp ha
    exact ⟨hopen.1, hopen.2.1, verify, world.turns, hverify, rfl⟩
  · nomatch ha

/-- The end of a step appends its record, takes over the verdict and decides. -/
theorem settle_spec {rec : StepRecord} (h : run.settle s rec world = .ok (s', stop)) :
    s'.steps = s.steps ++ [rec] ∧ s'.verdict = rec.verdict ∧
      (stop = some .goalMet ↔ rec.EndsMet) := by
  unfold settle at h
  cases hevidence : delegation rec world with
  | error e =>
    rw [hevidence] at h
    nomatch h
  | ok evidence =>
    rw [hevidence] at h
    obtain ⟨rfl, rfl⟩ := Prod.mk.inj (Except.ok.inj h)
    exact ⟨rfl, rfl, StepRecord.decision_goalMet⟩

/-- **What a step does**: it finds the scope aborted, or appends one record, takes over its verdict
    and ends as met exactly if the record says so. -/
theorem oodaStep_cases {step : Nat} (h : run.oodaStep step s world = .ok (s', stop)) :
    (s' = s ∧ stop = some .cancelled) ∨
    ∃ rec, run.Judged rec ∧ s'.steps = s.steps ++ [rec] ∧ s'.verdict = rec.verdict ∧
      (stop = some .goalMet ↔ rec.EndsMet) := by
  unfold oodaStep at h
  split at h
  · obtain ⟨rfl, rfl⟩ := Prod.mk.inj (Except.ok.inj h)
    exact .inl ⟨rfl, rfl⟩
  · obtain ⟨_, -, h⟩ := bind_ok h
    obtain ⟨⟨outcome, toolResults⟩, -, h⟩ := bind_ok h
    obtain ⟨given, hgiven, h⟩ := bind_ok h
    obtain ⟨_, -, h⟩ := bind_ok h
    exact .inr ⟨_, judge_judged hgiven, settle_spec h⟩

/-- How a loop ends: no step ended it as met, or the last one did and none before. -/
def Final (run : AgentRun) (s : LoopState) (reason : StopReason) : Prop :=
  (∀ rec ∈ s.steps, run.Judged rec) ∧
  ((reason ≠ .goalMet ∧ ∀ rec ∈ s.steps, ¬ rec.EndsMet) ∨
   (reason = .goalMet ∧ ∃ before last, s.steps = before ++ [last] ∧ last.EndsMet ∧
      ∀ rec ∈ before, ¬ rec.EndsMet))

/-- **The whole loop**, by induction on the steps that are left. -/
theorem oodaLoop_final {world : Nat → StepWorld} {reason : StopReason} :
    ∀ {left step : Nat} {s s' : LoopState}, (∀ rec ∈ s.steps, run.Judged rec ∧ ¬ rec.EndsMet) →
      run.oodaLoop world left step s = .ok (s', reason) → run.Final s' reason := by
  intro left
  induction left with
  | zero =>
    intro step s s' hs h
    obtain ⟨rfl, rfl⟩ := Prod.mk.inj (Except.ok.inj h)
    exact ⟨fun rec hrec => (hs rec hrec).1, .inl ⟨nofun, fun rec hrec => (hs rec hrec).2⟩⟩
  | succ left ih =>
    intro step s s' hs h
    obtain ⟨⟨s₁, stop⟩, hstep, hrest⟩ := bind_ok h
    rcases oodaStep_cases hstep with ⟨rfl, rfl⟩ | ⟨rec, hjudged, hsteps, -, hstop⟩
    · obtain ⟨rfl, rfl⟩ := Prod.mk.inj (Except.ok.inj hrest)
      exact ⟨fun rec hrec => (hs rec hrec).1, .inl ⟨nofun, fun rec hrec => (hs rec hrec).2⟩⟩
    have hall : ∀ r ∈ s₁.steps, run.Judged r := by
      intro r hr
      rw [hsteps, mem_append, mem_singleton] at hr
      rcases hr with hr | rfl
      · exact (hs r hr).1
      · exact hjudged
    have hnone : ¬ rec.EndsMet → ∀ r ∈ s₁.steps, ¬ r.EndsMet := by
      intro hrec r hr
      rw [hsteps, mem_append, mem_singleton] at hr
      rcases hr with hr | rfl
      · exact (hs r hr).2
      · exact hrec
    cases stop with
    | none =>
      have hgoes : ¬ rec.EndsMet := fun hends => nomatch hstop.mpr hends
      exact ih (fun r hr => ⟨hall r hr, hnone hgoes r hr⟩) hrest
    | some reason' =>
      obtain ⟨rfl, rfl⟩ := Prod.mk.inj (Except.ok.inj hrest)
      refine ⟨hall, ?_⟩
      by_cases hmet : reason' = .goalMet
      · exact .inr ⟨hmet, s.steps, rec, hsteps, hstop.mp (congrArg some hmet),
          fun r hr => (hs r hr).2⟩
      · exact .inl ⟨hmet, hnone fun hends => hmet (some.inj (hstop.mpr hends))⟩

theorem result_final {world : Nat → StepWorld} {r : AgentRunResult}
    (h : run.result world = .ok r) : ∃ s reason, run.Final s reason ∧ r = s.buildResult reason := by
  unfold result at h
  cases hloop : run.oodaLoop world run.maxSteps 0 {} with
  | error e =>
    rw [hloop] at h
    nomatch h
  | ok found =>
    rw [hloop] at h
    obtain ⟨s, reason⟩ := found
    exact ⟨s, reason, oodaLoop_final (forall_mem_nil _) hloop,
      (Except.ok.inj h).symm⟩

/-! ## What the default policies establish -/

/-- The run uses the default policies. -/
def IsDefault (run : AgentRun) (toLowerCase : String → String) : Prop :=
  (run.evaluate = fun input => .ok (defaultEvaluate toLowerCase input)) ∧
    run.verify = some defaultVerify

/-- What the default policies rest a met goal on: a clean step, and either every one of the
    criteria in the evidence, or no criteria and an evaluation turn that named `MET` alone. -/
structure Established (toLowerCase : String → String) (rec : StepRecord) : Prop where
  clean : rec.input.Clean
  judged : (rec.input.goal.criteria ≠ [] ∧
      ∀ c ∈ rec.input.goal.criteria, satisfied toLowerCase rec.input.evidence c = true) ∨
    (rec.input.goal.criteria = [] ∧ ∃ a, rec.assessment = some a ∧ NamedMet a.2)

/-- With the default policies a step whose verdict is `met` has established it. -/
theorem Judged.established {toLowerCase : String → String} {rec : StepRecord}
    (hdefault : run.IsDefault toLowerCase) (h : run.Judged rec) (hmet : rec.verdict = .met) :
    Established toLowerCase rec := by
  have hgiven : rec.given = defaultEvaluate toLowerCase rec.input := by
    have := h.given
    rw [hdefault.1] at this
    exact (Except.ok.inj this).symm
  obtain ⟨verdict, hverdict, -, -, hcriteria, hopen⟩ := defaultEvaluate_spec toLowerCase rec.input
  rw [← hgiven] at hverdict
  have hown : rec.given.own = verdict := by rw [Reflection.own, hverdict, getD_some]
  unfold StepRecord.verdict at hmet
  cases ha : rec.assessment with
  | none =>
    rw [ha] at hmet
    obtain ⟨hclean, hsome, hall⟩ := hcriteria (hown.symm.trans hmet)
    exact ⟨hclean, .inl ⟨hsome, hall⟩⟩
  | some a =>
    rw [ha] at hmet
    obtain ⟨hindeterminate, hcancelled, verify, turns, hverify, rfl⟩ := h.verified a ha
    rw [hdefault.2, some.injEq] at hverify
    subst hverify
    obtain ⟨hclean, hnone⟩ := hopen (hown.symm.trans hindeterminate) hcancelled
    exact ⟨hclean, .inr ⟨hnone, _, ha, defaultVerify_met hmet⟩⟩

theorem Judged.honest {toLowerCase : String → String} {rec : StepRecord}
    (hdefault : run.IsDefault toLowerCase) (h : run.Judged rec) : rec.Honest := by
  have hgiven : rec.given = defaultEvaluate toLowerCase rec.input := by
    have := h.given
    rw [hdefault.1] at this
    exact (Except.ok.inj this).symm
  obtain ⟨verdict, hverdict, hflag, hstop, -, -⟩ := defaultEvaluate_spec toLowerCase rec.input
  rw [← hgiven] at hverdict hflag hstop
  refine ⟨fun h => absurd h hstop, fun _ _ _ hmet => .inr ?_⟩
  rw [hverdict, hflag.mp hmet]

end AgentRun

/-! ## The result -/

namespace AgentRunResult

/-- The three ways to say that the goal is met agree. -/
def Consistent (r : AgentRunResult) : Prop :=
  (r.goalMet = true ↔ r.verdict = .met) ∧ (r.goalMet = true ↔ r.stopReason = .goalMet)

/-- The goal is met only if the verdict of the last step was `met`, and with the default policies
    only on what they require. -/
def Backed (run : AgentRun) (toLowerCase : String → String) (r : AgentRunResult) : Prop :=
  r.goalMet = true → ∃ last, r.steps.getLast? = some last ∧ last.verdict = .met ∧
    (run.IsDefault toLowerCase → AgentRun.Established toLowerCase last)

end AgentRunResult

theorem LoopState.buildResult_consistent (s : LoopState) (reason : StopReason) :
    (s.buildResult reason).Consistent := by
  unfold buildResult AgentRunResult.Consistent
  dsimp only
  by_cases hreason : reason = .goalMet
  · rw [if_pos hreason]
    exact ⟨iff_of_true (decide_eq_true hreason) rfl, iff_of_true (decide_eq_true hreason) hreason⟩
  · rw [if_neg hreason]
    have hflag : ¬ decide (reason = .goalMet) = true := fun h => hreason (of_decide_eq_true h)
    refine ⟨iff_of_false hflag ?_, iff_of_false hflag hreason⟩
    split
    · exact nofun
    · assumption

/-- A final state backs its result exactly if every step of it is honest. -/
theorem AgentRun.Final.backed_iff {run : AgentRun} {toLowerCase : String → String} {s : LoopState}
    {reason : StopReason} (h : run.Final s reason) :
    (s.buildResult reason).Backed run toLowerCase ↔ ∀ rec ∈ s.steps, rec.Honest := by
  obtain ⟨hjudged, ⟨hreason, hnone⟩ | ⟨hreason, before, last, hsteps, hends, hbefore⟩⟩ := h
  · refine iff_of_true (fun hmet => absurd (of_decide_eq_true hmet) hreason) fun rec hrec => ?_
    exact StepRecord.honest_of_not_endsMet (hnone rec hrec)
  · have hlast : s.steps.getLast? = some last := by rw [hsteps, List.getLast?_concat]
    have hmem : last ∈ s.steps := by rw [hsteps]; exact mem_concat_self
    constructor
    · intro hbacked rec hrec
      obtain ⟨last', hlast', hmet, -⟩ := hbacked (decide_eq_true hreason)
      obtain rfl : last = last' := some.inj (hlast.symm.trans hlast')
      rw [hsteps, mem_append, mem_singleton] at hrec
      rcases hrec with hrec | rfl
      · exact StepRecord.honest_of_not_endsMet (hbefore rec hrec)
      · exact (StepRecord.honest_iff hends).mpr hmet
    · intro hhonest _
      have hmet := (StepRecord.honest_iff hends).mp (hhonest last hmem)
      exact ⟨last, hlast, hmet, fun hdefault => (hjudged last hmem).established hdefault hmet⟩

/-- **An agent reports no more than it established** exactly if no reflection of its policy claims
    more than its verdict. -/
theorem goal_met_backed_iff (toLowerCase : String → String) (run : AgentRun)
    (world : Nat → StepWorld) (r : AgentRunResult) (h : run.result world = .ok r) :
    (r.Consistent ∧ r.Backed run toLowerCase) ↔ ∀ rec ∈ r.steps, rec.Honest := by
  obtain ⟨s, reason, hfinal, rfl⟩ := AgentRun.result_final h
  rw [and_iff_right (s.buildResult_consistent reason)]
  exact hfinal.backed_iff

/-- **Under the default policies** it never does. -/
theorem default_result_backed (toLowerCase : String → String) (run : AgentRun)
    (world : Nat → StepWorld) (r : AgentRunResult) (hdefault : run.IsDefault toLowerCase)
    (h : run.result world = .ok r) : r.Consistent ∧ r.Backed run toLowerCase := by
  obtain ⟨s, reason, hfinal, rfl⟩ := AgentRun.result_final h
  refine ⟨s.buildResult_consistent reason, hfinal.backed_iff.mpr fun rec hrec => ?_⟩
  exact (hfinal.1 rec hrec).honest hdefault

/-- A step in which the model answers with a text. -/
def answering (text : String) : StepWorld :=
  { dispatched := .ok ({ winner := some { status := .ok, text } }, []) }

/-- The default policies, and one criterion. -/
def deployRun : AgentRun :=
  { role := "coder", agentRunId := "agent", maxSteps := 3
    goal := { objective := "deploy", successCriteria := some ["deployed"] }
    evaluate := fun input => .ok (defaultEvaluate JsString.toLowerAscii input)
    verify := some defaultVerify }

/-- What a run comes to; the result of one that ends. -/
def AgentRun.resultOr (run : AgentRun) (world : Nat → StepWorld) : AgentRunResult :=
  match run.result world with
  | .ok r => r
  | .error _ => LoopState.buildResult {} .error

/-- Its result when the first answer of the model satisfies the criterion. -/
def deployed : AgentRunResult := deployRun.resultOr fun _ => answering "v2 is Deployed"

theorem deployed_backed : (deployed.Consistent ∧ deployed.Backed deployRun JsString.toLowerAscii) ↔
    ∀ rec ∈ deployed.steps, rec.Honest :=
  goal_met_backed_iff JsString.toLowerAscii deployRun (fun _ => answering "v2 is Deployed")
    deployed rfl

theorem deployed_default : deployed.Consistent ∧ deployed.Backed deployRun JsString.toLowerAscii :=
  default_result_backed JsString.toLowerAscii deployRun (fun _ => answering "v2 is Deployed")
    deployed ⟨rfl, rfl⟩ rfl

/-- A policy that gives the verdict `unmet` beside the flag `goalMet`. -/
def contradicting : Reflection :=
  { critique := "almost there", goalMet := true, verdict := some .unmet, failure := false
    needsReplan := false, retry := false }

/-- A run with that policy ends as met, though its verdict is `unmet`. -/
theorem contradicting_claimed : ¬ ∀ (toLowerCase : String → String) (run : AgentRun)
    (world : Nat → StepWorld) (r : AgentRunResult), run.result world = .ok r →
      r.Consistent ∧ r.Backed run toLowerCase := by
  intro h
  let run : AgentRun :=
    { role := "coder", agentRunId := "agent", maxSteps := 1, goal := { objective := "deploy" }
      evaluate := fun _ => .ok contradicting, verify := none }
  obtain ⟨last, hlast, hmet, -⟩ :=
    (h id run (fun _ => answering "") _ rfl).2 rfl
  obtain rfl := some.inj hlast
  nomatch hmet

end NexusCode.Agent
