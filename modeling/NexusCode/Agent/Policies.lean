/-
  The default Evaluate and Verify policies of the agent.

  What a step came to is judged twice: `defaultEvaluate` compares the evidence with the success
  criteria, and where there are none the runner lets `defaultVerify` ask the model.

    1. `Outcome`, `Reflection`     — what a step came to, and what a policy makes of it.
    2. `defaultEvaluate`           — failure, criteria, and what to do next.
    3. `Evaluation`, `defaultVerify` — a verification that may ask the model.
    4. `defaultEvaluate_spec`, `defaultVerify_met` — when the policies answer `met`.

  `String.prototype.toLowerCase` is a parameter: nothing depends on the table of letters.
-/
import NexusCode.Agent.Verdict
import NexusCode.Shared.Stream
import NexusCode.Tasks.Store

namespace NexusCode.Agent

open Lib Shared Tasks List

/-! ## Steps and reflections -/

/-- `RunStatus`. -/
inductive RunStatus where
  | ok
  | error
  | cancelled
  | timeout
deriving DecidableEq

/-- The parts of a `RunResult` the agent reads. -/
structure RunResult where
  status : RunStatus
  text : String
  finishReason : Option FinishReason := none
  /-- The message of its error. -/
  error : Option String := none

/-- `OrchestrationOutcome`, with its `partial` flag. -/
structure Outcome where
  winner : Option RunResult
  isPartial : Bool := false

/-- `StepToolResult`. -/
structure StepToolResult where
  id : String
  isError : Bool
  text : String

/-- `AgentGoal`. -/
structure AgentGoal where
  objective : String
  successCriteria : Option (List String) := none

/-- `goal.successCriteria ?? []`. -/
def AgentGoal.criteria (goal : AgentGoal) : List String := goal.successCriteria.getD []

/-- `AgentStopReason`. -/
inductive StopReason where
  | goalMet
  | maxSteps
  | blocked
  | cancelled
  | indeterminate
  | error
deriving DecidableEq

/-- `PlanDirective`. -/
inductive PlanDirective where
  | add (title : String) (id : Option String) (parentId : Option String) (notes : Option String)
      (status : Option TaskStatus)
  | update (id : String) (status : Option TaskStatus) (notes : Option String)

/-- `DelegateDirective`, with the role by its name. -/
structure DelegateDirective where
  role : String
  goal : AgentGoal

/-- `Reflection`, without the progress, which the runner fills in. -/
structure Reflection where
  critique : String
  goalMet : Bool
  verdict : Option GoalVerdict := none
  failure : Bool
  needsReplan : Bool
  retry : Bool
  correction : Option String := none
  planEdits : List PlanDirective := []
  delegate : Option DelegateDirective := none
  stop : Option StopReason := none

/-- `EvaluateInput`. -/
structure EvaluateInput where
  role : String
  goal : AgentGoal
  step : Nat
  maxSteps : Nat
  retriesUsed : Nat
  maxRetries : Nat
  outcome : Outcome
  stepText : String
  toolResults : List StepToolResult
  evidence : String
  criterionTaskIds : List String
  rootTaskId : String
  cancelled : Bool

/-- `EvaluateFn`; a policy may throw. -/
abbrev EvaluateFn := EvaluateInput → Except String Reflection

/-! ## The default evaluation -/

/-- `s.includes(part)`. -/
def includes (s part : String) : Bool := part.toList <:+: s.toList

/-- The criterion occurs in the evidence, whatever the case. -/
def satisfied (toLowerCase : String → String) (evidence criterion : String) : Bool :=
  includes (toLowerCase evidence) (toLowerCase criterion)

/-- The indices of the criteria that are not satisfied. -/
def unmetOf (toLowerCase : String → String) (evidence : String) (criteria : List String) :
    List Nat :=
  (criteria.zipIdx.filter fun c => !satisfied toLowerCase evidence c.1).map Prod.snd

namespace EvaluateInput

/-- The id of the task of a criterion; the empty id counts as none. -/
def taskId (input : EvaluateInput) (i : Nat) : Option String :=
  input.criterionTaskIds[i]?.filter (· ≠ "")

/-- `toolErrored`. -/
def toolErrored (input : EvaluateInput) : Bool := input.toolResults.any (·.isError)

/-- `budgetExhausted`. -/
def budgetExhausted (input : EvaluateInput) : Bool :=
  (input.outcome.winner.bind (·.finishReason)) = some .length

/-- `runFailed`. -/
def runFailed (input : EvaluateInput) : Bool :=
  input.outcome.isPartial ||
    match input.outcome.winner with
    | some winner => winner.status ≠ .ok
    | none => true

/-- `failure`. -/
def failure (input : EvaluateInput) : Bool :=
  input.toolErrored || input.runFailed || input.budgetExhausted

/-- `detail`. -/
def detail (input : EvaluateInput) : String :=
  if input.toolErrored then
    ((input.toolResults.find? (·.isError)).map (·.text)).getD "a tool call failed"
  else if input.budgetExhausted then "the step exhausted its turn/output budget before finishing"
  else (input.outcome.winner.bind (·.error)).getD "the run did not complete cleanly"

/-- The edits that close the satisfied criteria. -/
def doneEdits (toLowerCase : String → String) (input : EvaluateInput) : List PlanDirective :=
  (input.goal.criteria.zipIdx.filter fun c => satisfied toLowerCase input.evidence c.1).filterMap
    fun c => (input.taskId c.2).map fun id => .update id (some .done) (some "satisfied")

/-- The reflection on a step that was cancelled. -/
def onCancelled : Reflection :=
  { critique := "The step was cancelled; stopping."
    goalMet := false
    verdict := some .indeterminate
    failure := true
    needsReplan := false
    retry := false
    stop := some .cancelled }

/-- The reflection on a step that satisfies the goal. -/
def onMet (input : EvaluateInput) (planEdits : List PlanDirective) : Reflection :=
  { critique := "Goal satisfied on step " ++ toString input.step ++
      ": every success criterion is met."
    goalMet := true
    verdict := some .met
    failure := false
    needsReplan := false
    retry := false
    planEdits }

/-- The reflection on a step that failed. -/
def onFailure (input : EvaluateInput) (planEdits : List PlanDirective) (unmet : List Nat) :
    Reflection :=
  let canRetry := decide (input.retriesUsed < input.maxRetries)
  let blocked := (unmet.head?.bind input.taskId).toList.map fun id =>
    PlanDirective.update id (some .blocked) (some ("failed: " ++ input.detail))
  let recovery := if canRetry then
      [.add ("Recover from failure on step " ++ toString input.step)
        (some (input.role ++ "-recover-" ++ toString input.step)) (some input.rootTaskId)
        (some input.detail) none]
    else []
  { critique := "Step " ++ toString input.step ++ " failed (" ++ input.detail ++ "). " ++
      (if canRetry then "Replanning and retrying." else "Retry budget exhausted; blocked.")
    goalMet := false
    verdict := some .unmet
    failure := true
    needsReplan := canRetry
    retry := canRetry
    planEdits := planEdits ++ blocked ++ recovery
    correction := if canRetry then
        some ("The previous attempt failed: " ++ input.detail ++
          ". Adjust your approach and try again to satisfy: " ++ input.goal.objective ++ ".")
      else none
    stop := if canRetry then none else some .blocked }

/-- The reflection on a clean step of a goal without criteria. -/
def onUnjudged (input : EvaluateInput) (planEdits : List PlanDirective) : Reflection :=
  { critique := "Step " ++ toString input.step ++
      " completed cleanly, but this goal declares no success criteria, " ++
      "so the step's output alone does not establish that the objective was achieved."
    goalMet := false
    verdict := some .indeterminate
    failure := false
    needsReplan := false
    retry := false
    planEdits }

/-- The reflection on a clean step that leaves criteria open. -/
def onOpen (input : EvaluateInput) (planEdits : List PlanDirective) (unmet : List Nat) :
    Reflection :=
  { critique := "Step " ++ toString input.step ++ " made progress but the goal is not yet met (" ++
      toString unmet.length ++ " of " ++ toString input.goal.criteria.length ++
      " criteria remaining)."
    goalMet := false
    verdict := some .unmet
    failure := false
    needsReplan := false
    retry := false
    correction := some ("The objective \"" ++ input.goal.objective ++
      "\" is not yet fully satisfied; refine your approach and continue.")
    planEdits }

end EvaluateInput

/-- `defaultEvaluate(input)`. -/
def defaultEvaluate (toLowerCase : String → String) (input : EvaluateInput) : Reflection :=
  if input.cancelled then EvaluateInput.onCancelled
  else
    let planEdits := input.doneEdits toLowerCase
    let unmet := unmetOf toLowerCase input.evidence input.goal.criteria
    if !input.failure && (!input.goal.criteria.isEmpty && unmet.isEmpty) then input.onMet planEdits
    else if input.failure then input.onFailure planEdits unmet
    else if input.goal.criteria.isEmpty then input.onUnjudged planEdits
    else input.onOpen planEdits unmet

/-- No criterion is left exactly when every one is satisfied. -/
theorem unmetOf_eq_nil {toLowerCase : String → String} {evidence : String}
    {criteria : List String} :
    unmetOf toLowerCase evidence criteria = [] ↔
      ∀ c ∈ criteria, satisfied toLowerCase evidence c = true := by
  unfold unmetOf
  rw [map_eq_nil_iff, filter_eq_nil_iff]
  constructor
  · intro h c hc
    obtain ⟨i, hi, rfl⟩ := getElem_of_mem hc
    have hopen := h (criteria[i], i) (mk_mem_zipIdx_iff_getElem?.mpr (List.getElem?_eq_getElem hi))
    simpa using hopen
  · intro h c hc
    rw [h c.1 (fst_mem_of_mem_zipIdx hc)]
    exact Bool.false_ne_true

/-- What a step must be like to count as clean. -/
structure EvaluateInput.Clean (input : EvaluateInput) : Prop where
  no_tool_error : ∀ result ∈ input.toolResults, result.isError = false
  not_partial : input.outcome.isPartial = false
  ended : ∃ winner, input.outcome.winner = some winner ∧ winner.status = .ok ∧
    winner.finishReason ≠ some .length

theorem EvaluateInput.clean_iff {input : EvaluateInput} :
    input.failure = false ↔ input.Clean := by
  unfold failure toolErrored runFailed budgetExhausted
  rw [Bool.or_eq_false_iff, Bool.or_eq_false_iff, Bool.or_eq_false_iff, any_eq_false]
  constructor
  · rintro ⟨⟨htool, hpartial, hstatus⟩, hlength⟩
    refine ⟨fun r hr => Bool.eq_false_iff.mpr (htool r hr), hpartial, ?_⟩
    cases hwinner : input.outcome.winner with
    | none =>
      rw [hwinner] at hstatus
      nomatch hstatus
    | some winner =>
      rw [hwinner] at hstatus hlength
      exact ⟨winner, rfl, by simpa using hstatus, by simpa using hlength⟩
  · rintro ⟨htool, hpartial, winner, hwinner, hstatus, hlength⟩
    rw [hwinner]
    refine ⟨⟨fun r hr => ?_, hpartial, by simpa using hstatus⟩, by simpa using hlength⟩
    rw [htool r hr]
    exact Bool.false_ne_true

theorem defaultEvaluate_cases (toLowerCase : String → String) (input : EvaluateInput) :
    (input.cancelled = true ∧ defaultEvaluate toLowerCase input = EvaluateInput.onCancelled) ∨
    (input.Clean ∧ input.goal.criteria ≠ [] ∧
      (∀ c ∈ input.goal.criteria, satisfied toLowerCase input.evidence c = true) ∧
      ∃ edits, defaultEvaluate toLowerCase input = input.onMet edits) ∨
    (∃ edits unmet, defaultEvaluate toLowerCase input = input.onFailure edits unmet) ∨
    (input.Clean ∧ input.goal.criteria = [] ∧
      ∃ edits, defaultEvaluate toLowerCase input = input.onUnjudged edits) ∨
    (∃ edits unmet, defaultEvaluate toLowerCase input = input.onOpen edits unmet) := by
  unfold defaultEvaluate
  by_cases hcancelled : input.cancelled = true
  · rw [if_pos hcancelled]
    exact .inl ⟨hcancelled, rfl⟩
  rw [if_neg hcancelled]
  dsimp only
  cases hfailure : input.failure with
  | true => exact .inr (.inr (.inl ⟨_, _, rfl⟩))
  | false =>
    have hclean := EvaluateInput.clean_iff.mp hfailure
    cases hempty : input.goal.criteria.isEmpty with
    | true => exact .inr (.inr (.inr (.inl ⟨hclean, List.isEmpty_iff.mp hempty, _, rfl⟩)))
    | false =>
      cases hunmet : (unmetOf toLowerCase input.evidence input.goal.criteria).isEmpty with
      | true =>
        exact .inr (.inl ⟨hclean, isEmpty_eq_false_iff.mp hempty,
          unmetOf_eq_nil.mp (List.isEmpty_iff.mp hunmet), _, rfl⟩)
      | false => exact .inr (.inr (.inr (.inr ⟨_, _, rfl⟩)))

/-- **What the default evaluation answers with a verdict**, and that the flag agrees with it: a goal
    is met by a clean step that satisfies every criterion, of which there is one at least, and left
    to the verification by a clean step of a goal without criteria. -/
theorem defaultEvaluate_spec (toLowerCase : String → String) (input : EvaluateInput) :
    ∃ verdict, (defaultEvaluate toLowerCase input).verdict = some verdict ∧
      ((defaultEvaluate toLowerCase input).goalMet = true ↔ verdict = .met) ∧
      (defaultEvaluate toLowerCase input).stop ≠ some .goalMet ∧
      (verdict = .met → input.Clean ∧ input.goal.criteria ≠ [] ∧
        ∀ c ∈ input.goal.criteria, satisfied toLowerCase input.evidence c = true) ∧
      (verdict = .indeterminate → input.cancelled = false →
        input.Clean ∧ input.goal.criteria = []) := by
  have hnever : ∀ {v : GoalVerdict}, v ≠ .met → (false = true ↔ v = .met) :=
    fun hv => iff_of_false Bool.false_ne_true hv
  rcases defaultEvaluate_cases toLowerCase input with ⟨hcancelled, h⟩ | ⟨hclean, hne, hall, _, h⟩ |
    ⟨_, _, h⟩ | ⟨hclean, hempty, _, h⟩ | ⟨_, _, h⟩ <;> rw [h]
  · refine ⟨.indeterminate, rfl, hnever nofun, nofun, nofun, fun _ hnot => ?_⟩
    rw [hcancelled] at hnot
    nomatch hnot
  · exact ⟨.met, rfl, iff_of_true rfl rfl, nofun, fun _ => ⟨hclean, hne, hall⟩, nofun⟩
  · refine ⟨.unmet, rfl, hnever nofun, ?_, nofun, nofun⟩
    unfold EvaluateInput.onFailure
    dsimp only
    split <;> exact nofun
  · exact ⟨.indeterminate, rfl, hnever nofun, nofun, nofun,
      fun _ _ => ⟨hclean, hempty⟩⟩
  · exact ⟨.unmet, rfl, hnever nofun, nofun, nofun, nofun⟩

/-! ## Verification -/

/-- How an evaluation turn ends: with an exception, without a winner, or with one. -/
abbrev Turn := Except String (Option RunResult)

/-- What `evaluationTurn` makes of it. -/
def evaluationTurn (turn : Turn) : Except String (Option String) :=
  turn.map fun winner => winner.bind fun winner =>
    if winner.status ≠ .ok ∨ winner.finishReason = some .length then none else some winner.text

/-- A verification policy at work: it ends with an assessment or an exception, or asks first. -/
inductive Evaluation where
  | done (assessment : GoalAssessment)
  | throw (error : String)
  | ask (prompt : String) (system : Option String)
      (next : Except String (Option String) → Evaluation)

/-- A verification, given how its turns end; with the turns it took. -/
def Evaluation.run (turns : Nat → Turn) : Nat → Evaluation → Except String GoalAssessment × List Turn
  | _, .done assessment => (.ok assessment, [])
  | _, .throw error => (.error error, [])
  | n, .ask _ _ next =>
    let rest := (next (evaluationTurn (turns n))).run turns (n + 1)
    (rest.1, turns n :: rest.2)

/-- `VerifyInput`, without `ask`. -/
structure VerifyInput where
  role : String
  goal : AgentGoal
  step : Nat
  stepText : String
  toolResults : List StepToolResult
  evidence : String

/-- `VerifyFn`. -/
abbrev VerifyFn := VerifyInput → Evaluation

/-- `verifyGoal(verify, input)`, with the turns it takes. -/
def verifyGoal (verify : VerifyFn) (input : VerifyInput) (turns : Nat → Turn) :
    GoalAssessment × List Turn :=
  match (verify input).run turns 0 with
  | (.ok assessment, taken) => (assessment, taken)
  | (.error error, taken) => (⟨.indeterminate, "the evaluation step failed: " ++ error⟩, taken)

/-- `VERIFY_SYSTEM`. -/
def verifySystem : String :=
  "You are a strict, sceptical evaluator. You judge ONLY from the evidence you are shown. " ++
    "You never assume that unstated work happened, and you never reward intent, restatement, or plans."

/-- `MAX_EVIDENCE_CHARS`. -/
def maxEvidenceChars : Nat := 4000

/-- The end of the evidence, as much of it as the evaluator is shown. -/
def shownOf (trimmed : String) : String :=
  if JsString.length16 trimmed > maxEvidenceChars then
    "…" ++ String.ofList (JsString.takeUnits maxEvidenceChars trimmed.toList.reverse).reverse
  else trimmed

/-- The prompt of the evaluation turn. -/
def verifyPrompt (goal : AgentGoal) (shown : String) : String :=
  let criteria := if goal.criteria.isEmpty then [] else
    ["", "REQUIRED CRITERIA:\n" ++ "\n".intercalate (goal.criteria.map ("- " ++ ·))]
  "\n".intercalate
    (["Decide whether the OBJECTIVE below has been FULLY achieved, judging ONLY from the EVIDENCE.",
      "Describing, restating, planning, or promising the work is NOT achieving it.",
      "If the evidence does not show the work actually done, the answer is NOT_MET.",
      "",
      "OBJECTIVE:\n" ++ goal.objective] ++ criteria ++
    ["",
      "EVIDENCE:\n" ++ shown,
      "",
      "Reply with EXACTLY one line and nothing else, in one of these two forms:",
      verdictToken ++ " MET - <one sentence of justification>",
      verdictToken ++ " NOT_MET - <one sentence naming what is missing>"])

/-- `defaultVerify(input)`. -/
def defaultVerify : VerifyFn := fun input =>
  let trimmed := JsString.trim input.evidence
  if trimmed = "" then .done ⟨.indeterminate, "the step produced no evidence to evaluate"⟩
  else
    .ask (verifyPrompt input.goal (shownOf trimmed)) (some verifySystem) fun
      | .error error => .throw error
      | .ok none => .done ⟨.indeterminate, "the evaluation run did not complete"⟩
      | .ok (some answer) => .done (parseVerdict answer)

/-- A single turn that ended cleanly and named `MET` and not `NOT_MET`. -/
def NamedMet (taken : List Turn) : Prop :=
  ∃ winner, taken = [.ok (some winner)] ∧ winner.status = .ok ∧
    winner.finishReason ≠ some .length ∧ Names winner.text .met ∧ ¬ Names winner.text .notMet

/-- What the default verification does with the end of its turn. -/
def answered : Except String (Option String) → Except String GoalAssessment
  | .error error => .error error
  | .ok none => .ok ⟨.indeterminate, "the evaluation run did not complete"⟩
  | .ok (some answer) => .ok (parseVerdict answer)

theorem defaultVerify_run (input : VerifyInput) (turns : Nat → Turn) :
    (∃ assessment, assessment.verdict = .indeterminate ∧
      (defaultVerify input).run turns 0 = (.ok assessment, [])) ∨
    (defaultVerify input).run turns 0 = (answered (evaluationTurn (turns 0)), [turns 0]) := by
  unfold defaultVerify
  dsimp only
  split
  · exact .inl ⟨_, rfl, rfl⟩
  · refine .inr ?_
    rw [Evaluation.run]
    rcases evaluationTurn (turns 0) with error | answer
    · rfl
    · cases answer <;> rfl

theorem evaluationTurn_eq_some {turn : Turn} {answer : String}
    (h : evaluationTurn turn = .ok (some answer)) :
    ∃ winner, turn = .ok (some winner) ∧ winner.status = .ok ∧
      winner.finishReason ≠ some .length ∧ winner.text = answer := by
  unfold evaluationTurn at h
  rcases turn with error | winner
  · nomatch h
  cases winner with
  | none => nomatch h
  | some winner =>
    have hread := Except.ok.inj h
    dsimp only [Option.bind_some] at hread
    split at hread
    · nomatch hread
    · rename_i hended
      rw [not_or, not_not] at hended
      exact ⟨winner, rfl, hended.1, hended.2, Option.some.inj hread⟩

/-- **What a verdict `met` of the default verification rests on.** -/
theorem defaultVerify_met {input : VerifyInput} {turns : Nat → Turn}
    (h : (verifyGoal defaultVerify input turns).1.verdict = .met) :
    NamedMet (verifyGoal defaultVerify input turns).2 := by
  unfold verifyGoal at h ⊢
  rcases defaultVerify_run input turns with ⟨assessment, hverdict, hrun⟩ | hrun
  · rw [hrun] at h
    rw [hverdict] at h
    nomatch h
  rw [hrun] at h ⊢
  rcases hturn : evaluationTurn (turns 0) with error | answer <;> rw [hturn] at h
  · nomatch h
  cases answer with
  | none => nomatch h
  | some answer =>
    obtain ⟨winner, hwinner, hstatus, hlength, rfl⟩ := evaluationTurn_eq_some hturn
    obtain ⟨hmet, hnot⟩ := (parseVerdict_met winner.text).mp h
    exact ⟨winner, congrArg (fun turn => [turn]) hwinner, hstatus, hlength, hmet, hnot⟩

end NexusCode.Agent
