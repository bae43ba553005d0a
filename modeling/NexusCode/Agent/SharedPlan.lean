/-
  Agent runs that share a task store.

  Between two of its turns a run gives way to the others, so the state is the store and the runs as
  they stand; a delegated run is a run that another one starts.  A run finds its own tasks again by
  their names, and the name of a recovery task does not tell the runs of a role apart.

    1. `LiveRun`, `advance`, `machine` — the loop of one run, cut where it gives way; the machine.
    2. `planIds`, `Apart`              — the tasks that are a run's own, and that no run touches
       those of another.
    3. `Unshadowed`                    — no recovery task finds its name taken, and no run ends
       unplanned on a store with tasks.
-/
import NexusCode.Agent.Loop
import NexusCode.Agent.PlanEdits

namespace NexusCode.Agent

open Lib Tasks

/-! ## A run and its turns -/

/-- Where a run stands between two turns. -/
inductive Phase where
  /-- At the head of the loop. -/
  | top
  /-- The start of the step is reported, and the plan is next. -/
  | observed
  /-- The model is at work. -/
  | acting
  /-- The step is recorded and its edits are made; delegation and decision are next. -/
  | reflected (rec : StepRecord)
  /-- It has its result, with the plan. -/
  | done (result : AgentRunResult) (plan : List Task)
  /-- The model, or saving, threw. -/
  | failed
  /-- The store threw an error of its own. -/
  | thrown (message : String)

/-- A run as it stands. -/
structure LiveRun where
  run : AgentRun
  loop : LoopState := {}
  step : Nat := 0
  rootCreated : Bool := false
  /-- `scope.signal.aborted`. -/
  aborted : Bool := false
  phase : Phase := .top
  /-- The tasks that came to be in its turns; the source keeps no such list. -/
  created : List String := []

/-- What happens to a run: its scope is aborted, or its next turn comes. -/
inductive Event where
  | abort
  | observe
  | plan (hosts : Nat → Host)
  | reflect (dispatched : Except String (Outcome × List StepToolResult)) (turns : Nat → Turn)
      (hosts : Nat → Host)
  | decide

/-- How a run stands after the store threw. -/
def raised : Failure → Phase
  | .error message => .thrown message
  | .io => .failed

/-- The tasks of the second map that are not in the first. -/
def newIds (before after : TaskMap) : List String := after.keys.filter (· ∉ before.keys)

namespace LiveRun

/-- The tasks that are new in the store count as created by the run. -/
def edited (p : LiveRun) (before after : TaskMap) : LiveRun :=
  { p with created := p.created ++ newIds before after }

/-- `rootCreated ? store.subtree(rootTaskId) : store.all()`. -/
def planOf (p : LiveRun) (tasks : TaskMap) : Except String (List Task) :=
  if p.rootCreated then subtree tasks (rootTaskId p.run.agentRunId) else .ok (all tasks)

/-- `buildResult(reason)` and the end of the run. -/
def finish (p : LiveRun) (tasks : TaskMap) (reason : StopReason) : LiveRun :=
  match p.planOf tasks with
  | .ok plan => { p with phase := .done (p.loop.buildResult reason) plan }
  | .error message => { p with phase := .thrown message }

/-- The head of the loop. -/
def observe (p : LiveRun) (tasks : TaskMap) : LiveRun :=
  if p.step < p.run.maxSteps then
    if p.aborted then p.finish tasks .cancelled else { p with phase := .observed }
  else p.finish tasks .maxSteps

/-- Edits reach the store; unless it throws, the run goes on as `next` says. -/
def edit (p : LiveRun) (store : TaskStore) (hosts : Nat → Host) (directives : List PlanDirective)
    (next : TaskMap → LiveRun → LiveRun) : LiveRun × TaskStore :=
  match applyDirectives hosts 0 directives store with
  | (some f, store') => ({ p.edited store.tasks store'.tasks with phase := raised f }, store')
  | (none, store') => (next store'.tasks (p.edited store.tasks store'.tasks), store')

/-- The plan of the step. -/
def plan (p : LiveRun) (store : TaskStore) (hosts : Nat → Host) : LiveRun × TaskStore :=
  let directives := defaultPlan p.run.goal p.step p.run.agentRunId
  p.edit store hosts directives fun tasks p =>
    { p with
      phase := .acting
      rootCreated := p.rootCreated ||
        !directives.isEmpty && (tasks.get? (rootTaskId p.run.agentRunId)).isSome }

/-- What the world does in the step. -/
def worldOf (p : LiveRun) (dispatched : Except String (Outcome × List StepToolResult))
    (turns : Nat → Turn) : StepWorld :=
  { dispatched, turns, aborted := p.aborted, abortedAfter := p.aborted }

/-- What the evaluation of the step is given. -/
def inputOf (p : LiveRun) (world : StepWorld) (outcome : Outcome)
    (toolResults : List StepToolResult) : EvaluateInput :=
  p.run.observe p.step p.loop world outcome toolResults

/-- The edits the reflection asks for, and the root closed where the goal is met. -/
def editsOf (p : LiveRun) (rec : StepRecord) : List PlanDirective :=
  rec.given.planEdits ++
    if rec.reflection.goalMet && p.rootCreated then
      [.update (rootTaskId p.run.agentRunId) (some .done) none]
    else []

/-- The evaluation of the step and its edits.  The policies read nothing of the store. -/
def reflect (p : LiveRun) (store : TaskStore)
    (dispatched : Except String (Outcome × List StepToolResult)) (turns : Nat → Turn)
    (hosts : Nat → Host) : LiveRun × TaskStore :=
  match dispatched with
  | .error _ => ({ p with phase := .failed }, store)
  | .ok (outcome, toolResults) =>
    let world := p.worldOf dispatched turns
    let input := p.inputOf world outcome toolResults
    match p.run.evaluate input with
    | .error _ => ({ p with phase := .failed }, store)
    | .ok given =>
      let record := p.run.judge input given world
      p.edit store hosts (p.editsOf record) fun _ p =>
        { p with phase := .reflected record, loop := AgentRun.recorded p.loop record }

/-- The decision after the step; the default evaluation never delegates. -/
def decide (p : LiveRun) (tasks : TaskMap) (rec : StepRecord) : LiveRun :=
  match rec.decision p.loop.unverifiedStreak p.run.maxUnverified with
  | some reason => p.finish tasks reason
  | none =>
    { p with
      phase := .top
      step := p.step + 1
      loop := { p.loop with
        retriesUsed := p.loop.retriesUsed + if rec.reflection.needsReplan then 1 else 0 } }

/-- One event of a run; what does not come where the run stands does nothing. -/
def advance (p : LiveRun) (store : TaskStore) (event : Event) : LiveRun × TaskStore :=
  match event, p.phase with
  | .abort, _ => ({ p with aborted := true }, store)
  | .observe, .top => (p.observe store.tasks, store)
  | .plan hosts, .observed => p.plan store hosts
  | .reflect dispatched turns hosts, .acting => p.reflect store dispatched turns hosts
  | .decide, .reflected rec => (p.decide store.tasks rec, store)
  | _, _ => (p, store)

end LiveRun

/-! ## The machine -/

/-- The store and the runs on it. -/
structure Shared where
  store : TaskStore
  runs : List LiveRun

/-- A run starts, with its id drawn, or something happens to one. -/
inductive Act where
  | start (run : AgentRun)
  | event (i : Nat) (event : Event)

/-- The run with the default evaluation. -/
def AgentRun.underDefaults (toLowerCase : String → String) (run : AgentRun) : AgentRun :=
  { run with evaluate := fun input => .ok (defaultEvaluate toLowerCase input) }

/-- Runs that take turns on one store. -/
def machine (toLowerCase : String → String) : Machine Shared Act Unit where
  step s
    | .start run => ((), { s with runs := s.runs ++ [{ run := run.underDefaults toLowerCase }] })
    | .event i event =>
      match s.runs[i]? with
      | none => ((), s)
      | some p =>
        let after := p.advance s.store event
        ((), { store := after.2, runs := s.runs.set i after.1 })

/-- No run yet, on a store that was worked on before. -/
def Shared.opened (durable : Bool) (ops : List (Op × Host)) : Shared :=
  { store := Tasks.machine.run (.opened durable) ops, runs := [] }

/-- No task is named after the run. -/
def Unnamed (agentRunId : String) (tasks : TaskMap) : Prop :=
  rootTaskId agentRunId ∉ tasks.keys ∧ ∀ i, criterionTaskId agentRunId i ∉ tasks.keys

/-- The id of a run that starts is new: no run has it, and no task is named after it. -/
def Drawn (s : Shared) : Act → Prop
  | .start run => (∀ p ∈ s.runs, p.run.agentRunId ≠ run.agentRunId) ∧
      Unnamed run.agentRunId s.store.tasks
  | .event .. => True

/-! ## The tasks of a run -/

namespace LiveRun

/-- The run has planned: it acts, or has taken a step. -/
def planned (p : LiveRun) : Bool :=
  (match p.phase with | .acting => true | _ => false) || !p.loop.steps.isEmpty

/-- The run ended with an exception of the model or of saving. -/
def hasFailed (p : LiveRun) : Bool := match p.phase with | .failed => true | _ => false

/-- The tasks below the root: one for each criterion, and one for each failed step that was
    retried. -/
def subtaskIds (p : LiveRun) : List String :=
  (List.range p.run.goal.criteria.length).map (criterionTaskId p.run.agentRunId) ++
    (p.loop.steps.filter (·.reflection.retry)).map fun rec =>
      recoveryTaskId p.run.role rec.input.step

/-- The tasks that are the run's own; none before it has planned. -/
def planIds (p : LiveRun) : List String :=
  if p.planned then rootTaskId p.run.agentRunId :: p.subtaskIds else []

end LiveRun

/-- What holds of the runs in a state: each has created its own tasks, no more and no fewer; a
    result lists just these; and the store stops none of them. -/
structure Separate (s : Shared) : Prop where
  created : ∀ p ∈ s.runs, p.hasFailed = false → p.created.Perm p.planIds
  reported : ∀ p ∈ s.runs, ∀ result plan, p.phase = .done result plan →
    (plan.map Task.id).Perm p.planIds
  unhindered : ∀ p ∈ s.runs, ∀ message, p.phase ≠ .thrown message

/-- What is written from one state to the next was created by the run whose turn it is, and by no
    other. -/
def OnlyOwn (s s' : Shared) (a : Act) : Prop :=
  ∀ id, s'.store.tasks.get? id ≠ s.store.tasks.get? id →
    ∃ i event p, a = .event i event ∧ s'.runs[i]? = some p ∧ id ∈ p.created ∧
      ∀ j q, j ≠ i → s'.runs[j]? = some q → id ∉ q.created

/-- The step leaves the runs apart. -/
def Apart (toLowerCase : String → String) (s : Shared) (a : Act) : Prop :=
  Separate ((machine toLowerCase).step s a).2 ∧ OnlyOwn s ((machine toLowerCase).step s a).2 a

/-! ## When the runs stay apart -/

/-- The event finds the store as it needs it: the name of the recovery task is free where a failed
    step is retried, and the store is empty where the run ends before it has planned. -/
def LiveRun.Free (p : LiveRun) (tasks : TaskMap) (event : Event) : Prop :=
  match event, p.phase with
  | .observe, .top =>
    p.loop.steps = [] → (p.aborted = true ∨ p.run.maxSteps = 0) → tasks.keys = []
  | .reflect (.ok (outcome, toolResults)) turns _, .acting =>
    (p.inputOf (p.worldOf (.ok (outcome, toolResults)) turns) outcome toolResults).cancelled =
        false →
      (p.inputOf (p.worldOf (.ok (outcome, toolResults)) turns) outcome toolResults).failure =
        true →
      p.loop.retriesUsed < p.run.maxRetries → recoveryTaskId p.run.role p.step ∉ tasks.keys
  | _, _ => True

instance (p : LiveRun) (tasks : TaskMap) (event : Event) : Decidable (p.Free tasks event) := by
  unfold LiveRun.Free
  split <;> infer_instance

/-- The step meets the condition. -/
def Unshadowed (s : Shared) : Act → Prop
  | .start _ => True
  | .event i event => ∀ p ∈ s.runs[i]?, p.Free s.store.tasks event

instance (s : Shared) (a : Act) : Decidable (Unshadowed s a) := by
  unfold Unshadowed
  split <;> infer_instance

end NexusCode.Agent
