/-
  Cancelling an agent.

  The handle of a run has a scope of its own, a child of the scope of the context.  The loop tests
  the scope of the handle; the runs of the model, the evaluation turns and the sub-agents are all
  dispatched with the context, and hear of its scope only.

    1. `Frame`, `State`          — the runs of an agent and its sub-agents, the innermost first.
    2. `Frame.advance`, `State.step` — what goes on, and which work a step starts.
    3. `Heard`                   — when an abort reaches everything that is under way.
    4. `Inv`, `step_inv`         — what an abort leaves, over one step.
    5. **`cancel_stops_agent`**  — after aborts that are heard no work is started, the run ends, and
                                   it ends as cancelled.
-/
import NexusCode.Agent.Loop

namespace NexusCode.Agent.Cancellation

open Lib List Option

/-! ## The runs -/

/-- The inner run of a step (`agentStream`): a turn of the model, then its tool calls, and again. -/
inductive Inner where
  /-- The turn is about to begin. -/
  | starting (turn : Nat)
  /-- An attempt of the provider is under way. -/
  | answering (turn : Nat)
  /-- So many tool calls of the turn are left. -/
  | calling (turn left : Nat)
  /-- A call waits for the hooks, the guard and the gate. -/
  | clearing (turn left : Nat)
  /-- A tool is at work. -/
  | running (turn left : Nat)
  /-- The inner run is over; its status may be `cancelled`. -/
  | over_ (cancelled : Bool)

/-- Where a run of the loop stands. -/
inductive Phase where
  | top
  | planning
  | acting (inner : Inner)
  | verifying (input : EvaluateInput) (given : Reflection)
  | reporting (rec : StepRecord)
  /-- A sub-agent runs, or is over, or none was asked for. -/
  | delegating (rec : StepRecord)
  | continuing

/-- A run of the loop. -/
structure Frame where
  maxSteps : Nat
  maxTurns : Nat := 8
  maxUnverified : Nat := 1
  verifies : Bool := true
  step : Nat := 0
  unverifiedStreak : Nat := 0
  phase : Phase := .top

/-- A run of an agent with the sub-agents it waits for. -/
structure State where
  /-- The scope of the context is aborted. -/
  ctxAborted : Bool := false
  /-- The scope of the handle is aborted. -/
  ownAborted : Bool := false
  /-- The innermost run comes first, that of the handle last. -/
  frames : List Frame
  /-- Why the run ended. -/
  reason : Option StopReason := none

/-- What happens. -/
inductive Event where
  /-- `handle.scope.cancel()`. -/
  | abort
  /-- `ctx.scope.cancel()`. -/
  | abortContext
  /-- What runs goes on to its next point. -/
  | resume
  /-- The attempt has failed, and another one is due. -/
  | retry
  /-- The turn has ended, with so many tool calls or with this status. -/
  | answer (calls : Nat) (cancelled : Bool)
  /-- The call is allowed or refused. -/
  | clear (allowed : Bool)
  /-- The evaluation answers. -/
  | evaluate (input : EvaluateInput) (given : Reflection)
  /-- The verification asks the model. -/
  | ask
  /-- The verification answers. -/
  | assess (assessment : GoalAssessment) (turns : List Turn)
  /-- The sub-agent that is asked for begins. -/
  | delegate (maxSteps : Nat) (verifies : Bool)
  /-- Something throws. -/
  | fail

/-- Work that a step starts. -/
inductive Work where
  | turn
  | tool
  | evaluation
deriving DecidableEq

/-- What becomes of a run of the loop. -/
inductive Next where
  | frame (f : Frame)
  | ended (reason : StopReason)

/-- It goes on as such a run, or ends for such a reason. -/
def Next.Is (P : Frame → Prop) (Q : StopReason → Prop) : Next → Prop
  | .frame f => P f
  | .ended reason => Q reason

/-! ## Steps -/

namespace Frame

/-- The inner run goes on. -/
def act (f : Frame) (inner : Inner) : Next := .frame { f with phase := .acting inner }

/-- The head of the loop. -/
def loopHead (f : Frame) (own : Bool) : Next :=
  if f.step ≥ f.maxSteps then .ended .maxSteps
  else if own then .ended .cancelled
  else .frame { f with phase := .planning }

/-- An attempt of the provider, unless its scope is aborted. -/
def attempt (f : Frame) (ctx : Bool) (turn : Nat) : Option Work × Next :=
  if ctx then (none, f.act (.over_ true)) else (some .turn, f.act (.answering turn))

/-- The evaluation has answered: the verification begins if the verdict is open. -/
def evaluated (f : Frame) (input : EvaluateInput) (given : Reflection) : Next :=
  if given.own = .indeterminate ∧ input.cancelled = false ∧ f.verifies = true then
    .frame { f with phase := .verifying input given }
  else .frame { f with phase := .reporting ⟨input, given, none⟩ }

/-- The streak of steps whose outcome is unknown, with this step. -/
def streakAfter (f : Frame) (rec : StepRecord) : Nat :=
  if rec.verdict = .indeterminate then f.unverifiedStreak + 1 else 0

/-- The decision at the end of a step. -/
def decided (f : Frame) (rec : StepRecord) : Option StopReason :=
  rec.decision (f.streakAfter rec) f.maxUnverified

/-- The end of a step. -/
def settled (f : Frame) (rec : StepRecord) : Next :=
  match f.decided rec with
  | some reason => .ended reason
  | none => .frame { f with unverifiedStreak := f.streakAfter rec, phase := .continuing }

/-- A step of one run, with the scopes it and its inner run listen to. -/
def advance (f : Frame) (own ctx : Bool) (event : Event) : Option Work × Next :=
  match f.phase, event with
  | .top, .resume => (none, f.loopHead own)
  | .planning, .resume => (none, f.act (.starting 0))
  | .acting (.starting turn), .resume =>
    if turn ≥ f.maxTurns then (none, f.act (.over_ false)) else f.attempt ctx turn
  | .acting (.answering turn), .retry => f.attempt ctx turn
  | .acting (.answering turn), .answer calls cancelled =>
    (none, if calls = 0 then f.act (.over_ cancelled) else f.act (.calling turn calls))
  | .acting (.calling turn 0), .resume => (none, f.act (.starting (turn + 1)))
  | .acting (.calling turn (left + 1)), .resume =>
    (none, if ctx then f.act (.over_ true) else f.act (.clearing turn left))
  | .acting (.clearing turn left), .clear allowed =>
    if allowed then (some .tool, f.act (.running turn left))
    else (none, f.act (.calling turn left))
  | .acting (.running turn left), .resume => (none, f.act (.calling turn left))
  | .acting (.over_ cancelled), .evaluate input given =>
    (none, f.evaluated { input with cancelled := cancelled || own } given)
  | .verifying _ _, .ask => (if ctx then none else some .evaluation, .frame f)
  | .verifying input given, .assess assessment turns =>
    (none, .frame { f with phase := .reporting ⟨input, given, some (assessment, turns)⟩ })
  | .reporting rec, .resume =>
    (none, if rec.reflection.delegate.isSome then .frame f
      else .frame { f with phase := .delegating rec })
  | .delegating rec, .resume => (none, f.settled rec)
  | .continuing, .resume => (none, .frame { f with step := f.step + 1, phase := .top })
  | _, _ => (none, .frame f)

end Frame

namespace State

/-- A run of an agent that begins. -/
def start (root : Frame) : State := { frames := [{ root with phase := .top }] }

/-- The scope the innermost run listens to. -/
def heard (s : State) : Bool :=
  match s.frames with
  | [_] => s.ownAborted
  | _ => s.ctxAborted

/-- What becomes of the innermost run. -/
def goesOn (s : State) (rest : List Frame) : Next → State
  | .frame f => { s with frames := f :: rest }
  | .ended reason =>
    match rest with
    | [] => { s with frames := [], reason := some reason }
    | _ :: _ => { s with frames := rest }

/-- One step. -/
def step (s : State) (event : Event) : Option Work × State :=
  match s.frames with
  | [] => (none, s)
  | f :: rest =>
    match event with
    | .abort => (none, { s with ownAborted := true })
    | .abortContext => (none, { s with ctxAborted := true, ownAborted := true })
    | .fail => (none, { s with frames := [] })
    | .delegate maxSteps verifies =>
      match f.phase with
      | .reporting rec =>
        if rec.reflection.delegate.isSome then
          (none, { s with frames := { maxSteps, verifies, maxTurns := f.maxTurns } ::
            { f with phase := .delegating rec } :: rest })
        else (none, s)
      | _ => (none, s)
    | event =>
      let (work, next) := f.advance s.heard s.ctxAborted event
      (work, s.goesOn rest next)

end State

/-- The agent as a machine. -/
def machine : Machine State Event (Option Work) := ⟨State.step⟩

/-! ## When an abort is heard -/

namespace Phase

/-- A tool call waits for its permission. -/
def isClearing : Phase → Bool
  | .acting (.clearing _ _) => true
  | _ => false

/-- No work is started before the loop reads its own scope again. -/
def isQuiet : Phase → Bool
  | .top | .continuing | .delegating _ => true
  | .acting (.over_ _) => true
  | .reporting rec => rec.reflection.delegate.isNone
  | _ => false

/-- How far a run that is aborted is from its end, at most. -/
def rank : Phase → Nat
  | .top => 1
  | .continuing => 2
  | .delegating _ => 3
  | .reporting _ => 5
  | .verifying _ _ => 6
  | .acting (.over_ _) => 7
  | .acting (.starting _) => 8
  | .acting (.calling _ _) => 9
  | .acting (.answering _) | .acting (.running _ _) => 10
  | .acting (.clearing _ _) => 11
  | .planning => 9

theorem rank_pos (phase : Phase) : 0 < phase.rank := by
  unfold rank
  split <;> decide

end Phase

namespace Frame

/-- The run is not about to end for another reason than that it is cancelled: at the head of the
    loop a step is left, and at its end the step decides to go on or to be cancelled. -/
def EndsCancelled (f : Frame) : Prop :=
  match f.phase with
  | .top => f.step < f.maxSteps
  | .delegating rec => f.decided rec = none ∨ f.decided rec = some .cancelled
  | _ => True

instance (f : Frame) : Decidable f.EndsCancelled := by
  unfold EndsCancelled
  split <;> infer_instance

end Frame

namespace State

/-- The scope of the handle is aborted, and that of the context is not. -/
def isDeaf (s : State) : Bool := s.ownAborted && !s.ctxAborted

/-- The condition on the steps.

    * The handle's scope is aborted alone only while no work is under way or due; the context's
      scope not while a call waits for its permission.
    * A policy that is told of an abort of the handle alone does not delegate.
    * Once aborted, the run of the handle is not about to end for another reason. -/
def Heard (s : State) : Event → Prop
  | .abort => s.ctxAborted = true ∨ s.frames.tail = [] ∧ ∀ f ∈ s.frames, f.phase.isQuiet = true
  | .abortContext => ∀ f ∈ s.frames.head?, f.phase.isClearing = false
  | .evaluate _ given => s.isDeaf = true → given.delegate = none
  | .resume => s.ownAborted = true → s.frames.tail = [] → ∀ f ∈ s.frames, f.EndsCancelled
  | _ => True

instance : ∀ (s : State) (event : Event), Decidable (s.Heard event)
  | s, .abort => inferInstanceAs (Decidable (_ ∨ s.frames.tail = [] ∧ _))
  | s, .abortContext => inferInstanceAs (Decidable (∀ f ∈ s.frames.head?, _))
  | s, .evaluate _ given => inferInstanceAs (Decidable (s.isDeaf = true → given.delegate = none))
  | s, .resume => inferInstanceAs (Decidable (_ → s.frames.tail = [] → ∀ f ∈ s.frames, _))
  | _, .retry | _, .answer .. | _, .clear _ | _, .ask | _, .assess .. | _, .delegate .. | _, .fail =>
    inferInstanceAs (Decidable True)

end State

/-! ## What one run does -/

/-- Where a run can go from a phase, given the scopes it listens to and what happens. -/
inductive Follows (own ctx : Bool) (event : Event) : Phase → Phase → Prop where
  | plan : own = false → Follows own ctx event .top .planning
  | act : Follows own ctx event .planning (.acting (.starting 0))
  | exhaust {turn : Nat} :
    Follows own ctx event (.acting (.starting turn)) (.acting (.over_ false))
  | hear {inner : Inner} : ctx = true → (∀ c, inner ≠ .over_ c) →
    Follows own ctx event (.acting inner) (.acting (.over_ true))
  | attempt {turn : Nat} : ctx = false →
    Follows own ctx event (.acting (.starting turn)) (.acting (.answering turn))
  | conclude {turn : Nat} {cancelled : Bool} :
    Follows own ctx event (.acting (.answering turn)) (.acting (.over_ cancelled))
  | call {turn calls : Nat} :
    Follows own ctx event (.acting (.answering turn)) (.acting (.calling turn calls))
  | next {turn : Nat} :
    Follows own ctx event (.acting (.calling turn 0)) (.acting (.starting (turn + 1)))
  | clear {turn left : Nat} : ctx = false →
    Follows own ctx event (.acting (.calling turn (left + 1))) (.acting (.clearing turn left))
  | run {turn left : Nat} :
    Follows own ctx event (.acting (.clearing turn left)) (.acting (.running turn left))
  | refuse {turn left : Nat} :
    Follows own ctx event (.acting (.clearing turn left)) (.acting (.calling turn left))
  | ran {turn left : Nat} :
    Follows own ctx event (.acting (.running turn left)) (.acting (.calling turn left))
  | verify {cancelled : Bool} {input : EvaluateInput} {given : Reflection} : own = false →
    Follows own ctx event (.acting (.over_ cancelled)) (.verifying input given)
  | judge {cancelled : Bool} {input input' : EvaluateInput} {given : Reflection} :
    event = .evaluate input given →
    Follows own ctx event (.acting (.over_ cancelled)) (.reporting ⟨input', given, none⟩)
  | assess {input : EvaluateInput} {given : Reflection} {a : GoalAssessment × List Turn} :
    Follows own ctx event (.verifying input given) (.reporting ⟨input, given, some a⟩)
  | report {rec : StepRecord} : Follows own ctx event (.reporting rec) (.delegating rec)
  | settle {rec : StepRecord} : Follows own ctx event (.delegating rec) .continuing
  | again : Follows own ctx event .continuing .top

namespace Follows

variable {own ctx : Bool} {event : Event} {phase phase' : Phase}

/-- A quiet run that is aborted stays quiet, unless its policy delegates. -/
theorem quiet (h : Follows true ctx event phase phase') (hquiet : phase.isQuiet = true)
    (hdelegate : ∀ input given, event = .evaluate input given → given.delegate = none) :
    phase'.isQuiet = true := by
  cases h with
  | @judge _ _ _ given hevent =>
    show given.delegate.isNone = true
    rw [hdelegate _ _ hevent, isNone_none]
  | @hear inner _ hinner =>
    cases inner with
    | over_ c => exact absurd rfl (hinner c)
    | _ => nomatch hquiet
  | plan hown => nomatch hown
  | verify hown => nomatch hown
  | report => rfl
  | settle => rfl
  | again => rfl
  | _ => nomatch hquiet

/-- No call asks for its permission once the context is aborted. -/
theorem not_clearing (h : Follows own true event phase phase') : phase'.isClearing = false := by
  cases h with
  | clear hctx => nomatch hctx
  | _ => rfl

theorem rank_lt (h : Follows true ctx event phase phase')
    (hheard : ctx = true ∨ phase.isQuiet = true) : phase'.rank < phase.rank := by
  cases h with
  | plan hown => nomatch hown
  | verify hown => nomatch hown
  | @hear inner _ hinner =>
    cases inner with
    | over_ c => exact absurd rfl (hinner c)
    | _ => simp [Phase.rank]
  | attempt hctx =>
    subst hctx
    rcases hheard with h | h <;> nomatch h
  | clear hctx =>
    subst hctx
    rcases hheard with h | h <;> nomatch h
  | _ => simp [Phase.rank]

end Follows

namespace Frame

variable {f : Frame} {own ctx : Bool} {event : Event}

/-- Work is started only while the context is not aborted, or by a call that was waiting for its
    permission. -/
theorem advance_work (h : (f.advance own ctx event).1 ≠ none) :
    (ctx = false ∨ f.phase.isClearing = true) ∧ f.phase.isQuiet = false := by
  obtain ⟨_, _, _, _, _, _, phase⟩ := f
  unfold advance at h
  dsimp only at h ⊢
  split at h
  case h_3 =>
    split at h
    · exact absurd rfl h
    · unfold attempt at h
      split at h
      · exact absurd rfl h
      · rename_i hctx
        exact ⟨.inl (Bool.eq_false_iff.mpr hctx), rfl⟩
  case h_4 =>
    unfold attempt at h
    split at h
    · exact absurd rfl h
    · rename_i hctx
      exact ⟨.inl (Bool.eq_false_iff.mpr hctx), rfl⟩
  case h_8 => exact ⟨.inr rfl, rfl⟩
  case h_11 =>
    dsimp only at h
    split at h
    · exact absurd rfl h
    · rename_i hctx
      exact ⟨.inl (Bool.eq_false_iff.mpr hctx), rfl⟩
  all_goals exact absurd rfl h

/-- **What a step makes of a run**: nothing, the next phase, or its end, at the head of the loop or
    at the end of a step. -/
theorem advance_next (f : Frame) (own ctx : Bool) (event : Event) :
    (f.advance own ctx event).2.Is
    (fun f' => f' = f ∨ Follows own ctx event f.phase f'.phase)
    (fun reason => event = .resume ∧ (own = true → f.EndsCancelled → reason = .cancelled)) := by
  obtain ⟨maxSteps, maxTurns, maxUnverified, verifies, step, streak, phase⟩ := f
  unfold advance
  dsimp only
  split
  · unfold loopHead
    dsimp only
    split
    · rename_i hover
      exact ⟨rfl, fun _ hleft => absurd hleft (Nat.not_lt.mpr hover)⟩
    · split
      · exact ⟨rfl, fun _ _ => rfl⟩
      · rename_i hown
        exact .inr (.plan (Bool.eq_false_iff.mpr hown))
  · exact .inr .act
  · split
    · exact .inr .exhaust
    · unfold attempt
      split
      · rename_i hctx
        exact .inr (.hear hctx (fun _ => nofun))
      · rename_i hctx
        exact .inr (.attempt (Bool.eq_false_iff.mpr hctx))
  · unfold attempt
    split
    · rename_i hctx
      exact .inr (.hear hctx (fun _ => nofun))
    · exact .inl rfl
  · dsimp only
    split
    · exact .inr .conclude
    · exact .inr .call
  · exact .inr .next
  · dsimp only
    split
    · rename_i hctx
      exact .inr (.hear hctx (fun _ => nofun))
    · rename_i hctx
      exact .inr (.clear (Bool.eq_false_iff.mpr hctx))
  · split
    · exact .inr .run
    · exact .inr .refuse
  · exact .inr .ran
  · unfold evaluated
    dsimp only
    split
    · rename_i hopen
      exact .inr (.verify (Bool.or_eq_false_iff.mp hopen.2.1).2)
    · exact .inr (.judge rfl)
  · exact .inl rfl
  · exact .inr .assess
  · dsimp only
    split
    · exact .inl rfl
    · exact .inr .report
  · rename_i rec
    unfold settled
    dsimp only
    split
    · rename_i reason hdecided
      refine ⟨rfl, fun _ hends => ?_⟩
      rcases hends with hnone | hcancelled
      · nomatch hdecided.symm.trans hnone
      · exact some.inj (hdecided.symm.trans hcancelled)
    · exact .inr .settle
  · exact .inr .again
  · exact .inl rfl

end Frame

/-! ## What an abort leaves -/

/-- What holds along a run in which every abort is heard. -/
structure Inv (s : State) : Prop where
  own : s.ctxAborted = true → s.ownAborted = true
  waiting : ∀ f ∈ s.frames.tail, ∃ rec, f.phase = .delegating rec
  quiet : s.isDeaf = true → s.frames.tail = [] ∧ ∀ f ∈ s.frames, f.phase.isQuiet = true
  clear : s.ctxAborted = true → ∀ f ∈ s.frames, f.phase.isClearing = false
  ended : ∀ reason, s.reason = some reason →
    s.frames = [] ∧ (s.ownAborted = true → reason = .cancelled)

namespace State

/-- How far an aborted agent is from its end, at most. -/
def rank (s : State) : Nat := (s.frames.map fun f => f.phase.rank).sum

/-- No work is started once the scope of the handle is aborted. -/
def Silent (s : State) (event : Event) : Prop :=
  s.ownAborted = true → (s.step event).1 = none

instance (s : State) (event : Event) : Decidable (s.Silent event) :=
  inferInstanceAs (Decidable (_ → _))

/-- Once the scope of the handle is aborted, a step changes nothing about what runs, or brings the
    end nearer. -/
def Nears (s : State) (event : Event) : Prop :=
  s.ownAborted = true → (s.step event).2.frames = s.frames ∨ (s.step event).2.rank < s.rank

variable {s : State} {f : Frame} {rest : List Frame} {event : Event}

/-- **What a step does**, of the whole agent: nothing, an abort, a failure, a sub-agent that begins,
    or a step of the innermost run. -/
theorem step_cases (s : State) (event : Event) :
    s.step event = (none, s) ∨
    ∃ f rest, s.frames = f :: rest ∧
      ((event = .abort ∧ s.step event = (none, { s with ownAborted := true })) ∨
       (event = .abortContext ∧
        s.step event = (none, { s with ctxAborted := true, ownAborted := true })) ∨
       (event = .fail ∧ s.step event = (none, { s with frames := [] })) ∨
       (∃ rec maxSteps verifies, f.phase = .reporting rec ∧
        rec.reflection.delegate.isSome = true ∧
        s.step event = (none, { s with frames := { maxSteps, verifies, maxTurns := f.maxTurns } ::
          { f with phase := .delegating rec } :: rest })) ∨
       s.step event = ((f.advance s.heard s.ctxAborted event).1,
        s.goesOn rest (f.advance s.heard s.ctxAborted event).2)) := by
  obtain ⟨ctx, own, frames, reason⟩ := s
  cases frames with
  | nil => exact .inl rfl
  | cons f rest =>
    cases event with
    | abort => exact .inr ⟨f, rest, rfl, .inl ⟨rfl, rfl⟩⟩
    | abortContext => exact .inr ⟨f, rest, rfl, .inr (.inl ⟨rfl, rfl⟩)⟩
    | fail => exact .inr ⟨f, rest, rfl, .inr (.inr (.inl ⟨rfl, rfl⟩))⟩
    | delegate maxSteps verifies =>
      unfold step
      dsimp only
      split
      · rename_i rec hphase
        split
        · rename_i hasked
          exact .inr ⟨f, rest, rfl, .inr (.inr (.inr (.inl
            ⟨rec, maxSteps, verifies, hphase, hasked, rfl⟩)))⟩
        · exact .inl rfl
      · exact .inl rfl
    | resume => exact .inr ⟨f, rest, rfl, .inr (.inr (.inr (.inr rfl)))⟩
    | retry => exact .inr ⟨f, rest, rfl, .inr (.inr (.inr (.inr rfl)))⟩
    | answer calls cancelled => exact .inr ⟨f, rest, rfl, .inr (.inr (.inr (.inr rfl)))⟩
    | clear allowed => exact .inr ⟨f, rest, rfl, .inr (.inr (.inr (.inr rfl)))⟩
    | evaluate input given => exact .inr ⟨f, rest, rfl, .inr (.inr (.inr (.inr rfl)))⟩
    | ask => exact .inr ⟨f, rest, rfl, .inr (.inr (.inr (.inr rfl)))⟩
    | assess assessment turns => exact .inr ⟨f, rest, rfl, .inr (.inr (.inr (.inr rfl)))⟩

/-- An aborted run hears of it, and so does its inner run unless it is quiet. -/
theorem heard_of_aborted (h : Inv s) (hf : s.frames = f :: rest) (hown : s.ownAborted = true) :
    s.heard = true ∧ (s.ctxAborted = true ∨ rest = [] ∧ f.phase.isQuiet = true) := by
  cases hctx : s.ctxAborted with
  | true =>
    refine ⟨?_, .inl rfl⟩
    unfold heard
    rw [hctx, hown]
    split <;> rfl
  | false =>
    have hdeaf : s.isDeaf = true := by rw [isDeaf, hown, hctx]; rfl
    obtain ⟨htail, hquiet⟩ := h.quiet hdeaf
    rw [hf] at htail hquiet
    obtain rfl : rest = [] := htail
    refine ⟨?_, .inr ⟨rfl, hquiet f mem_cons_self⟩⟩
    unfold heard
    rw [hf]
    exact hown

theorem advance_silent (h : Inv s) (hf : s.frames = f :: rest) (hown : s.ownAborted = true) :
    (f.advance s.heard s.ctxAborted event).1 = none := by
  by_contra hwork
  obtain ⟨hstarts, hloud⟩ := Frame.advance_work hwork
  rcases (heard_of_aborted h hf hown).2 with hctx | ⟨-, hquiet⟩
  · rcases hstarts with hnot | hclearing
    · nomatch hnot.symm.trans hctx
    · have := h.clear hctx f (hf ▸ mem_cons_self)
      nomatch this.symm.trans hclearing
  · nomatch hloud.symm.trans hquiet

/-- **What becomes of the innermost run** keeps the invariant. -/
theorem goesOn_inv (h : Inv s) (hf : s.frames = f :: rest) (hheard : s.Heard event) :
    Inv (s.goesOn rest (f.advance s.heard s.ctxAborted event).2) := by
  have hnext := f.advance_next s.heard s.ctxAborted event
  have hrunning : ∀ reason, s.reason ≠ some reason := fun reason hreason =>
    cons_ne_nil f rest (hf.symm.trans (h.ended reason hreason).1)
  cases hresult : (f.advance s.heard s.ctxAborted event).2 with
  | frame f' =>
    rw [hresult] at hnext
    refine ⟨h.own, fun g hg => h.waiting g (hf ▸ hg), fun hdeaf => ?_, fun hctx g hg => ?_,
      fun reason hreason => absurd hreason (hrunning reason)⟩
    · have hown : s.ownAborted = true := (Bool.and_eq_true_iff.mp hdeaf).1
      obtain ⟨htail, hquiet⟩ := h.quiet hdeaf
      rw [hf] at htail hquiet
      refine ⟨htail, forall_mem_cons.mpr ⟨?_, fun g hg => ?_⟩⟩
      · rcases hnext with rfl | hfollows
        · exact hquiet f' mem_cons_self
        · rw [(heard_of_aborted h hf hown).1] at hfollows
          refine hfollows.quiet (hquiet f mem_cons_self) ?_
          rintro input given rfl
          exact hheard hdeaf
      · exact hquiet g (mem_cons_of_mem f hg)
    · rcases mem_cons.mp hg with rfl | hg
      · rcases hnext with rfl | hfollows
        · exact h.clear hctx g (hf ▸ mem_cons_self)
        · rw [show s.ctxAborted = true from hctx] at hfollows
          exact hfollows.not_clearing
      · exact h.clear hctx g (hf ▸ mem_cons_of_mem f hg)
  | ended reason =>
    rw [hresult] at hnext
    obtain ⟨rfl, hcancelled⟩ := hnext
    cases rest with
    | nil =>
      refine ⟨h.own, forall_mem_nil _, fun _ => ⟨rfl, forall_mem_nil _⟩,
        fun _ => forall_mem_nil _, fun reason' hreason => ⟨rfl, fun hown => ?_⟩⟩
      obtain rfl := some.inj hreason
      refine hcancelled (heard_of_aborted h hf hown).1 ?_
      exact hheard hown (by rw [hf]; rfl) f (hf ▸ mem_cons_self)
    | cons g rest =>
      refine ⟨h.own, fun g' hg' => h.waiting g' ?_, fun hdeaf => ?_,
        fun hctx g' hg' => h.clear hctx g' (hf ▸ mem_cons_of_mem f hg'),
        fun reason' hreason => absurd hreason (hrunning reason')⟩
      · rw [hf]
        exact mem_cons_of_mem g hg'
      · have htail := (h.quiet hdeaf).1
        rw [hf] at htail
        nomatch htail

theorem delegate_inv (h : Inv s) (hf : s.frames = f :: rest) {rec : StepRecord} (maxSteps : Nat)
    (verifies : Bool) (hphase : f.phase = .reporting rec)
    (hasked : rec.reflection.delegate.isSome = true) :
    Inv { s with frames := { maxSteps, verifies, maxTurns := f.maxTurns } ::
      { f with phase := .delegating rec } :: rest } := by
  refine ⟨h.own, ?_, fun hdeaf => ?_, fun hctx => ?_, fun reason hreason => ?_⟩
  · exact forall_mem_cons.mpr ⟨⟨rec, rfl⟩, fun g hg => h.waiting g (by rw [hf]; exact hg)⟩
  · -- a quiet run asks for no sub-agent
    have hquiet := (h.quiet hdeaf).2 f (hf ▸ mem_cons_self)
    rw [hphase] at hquiet
    have hnone : rec.reflection.delegate.isNone = true := hquiet
    rw [isNone_iff_eq_none.mp hnone] at hasked
    nomatch hasked
  · refine forall_mem_cons.mpr ⟨rfl, forall_mem_cons.mpr ⟨rfl, fun g hg => ?_⟩⟩
    exact h.clear hctx g (hf ▸ mem_cons_of_mem f hg)
  · exact absurd (hf.symm.trans (h.ended reason hreason).1) (cons_ne_nil f rest)

theorem waiting_not_clearing (h : Inv s) : ∀ f ∈ s.frames.tail, f.phase.isClearing = false := by
  intro f hf
  obtain ⟨rec, hrec⟩ := h.waiting f hf
  rw [hrec]
  rfl

theorem abort_inv (h : Inv s) (hf : s.frames = f :: rest) (hheard : s.Heard .abort) :
    Inv { s with ownAborted := true } := by
  refine ⟨fun _ => rfl, h.waiting, fun hdeaf => ?_, h.clear, fun reason hreason => ?_⟩
  · rcases hheard with hctx | hquiet
    · have hnot : s.ctxAborted = false := by simpa [isDeaf] using hdeaf
      nomatch hnot.symm.trans hctx
    · exact hquiet
  · exact absurd (hf.symm.trans (h.ended reason hreason).1) (cons_ne_nil f rest)

theorem abortContext_inv (h : Inv s) (hf : s.frames = f :: rest)
    (hheard : s.Heard .abortContext) : Inv { s with ctxAborted := true, ownAborted := true } := by
  refine ⟨fun _ => rfl, h.waiting, nofun, fun _ => ?_, fun reason hreason => ?_⟩
  · have hrest := waiting_not_clearing h
    unfold Heard at hheard
    show ∀ g ∈ s.frames, g.phase.isClearing = false
    rw [hf] at hrest hheard ⊢
    exact forall_mem_cons.mpr ⟨hheard f rfl, hrest⟩
  · exact absurd (hf.symm.trans (h.ended reason hreason).1) (cons_ne_nil f rest)

theorem fail_inv (h : Inv s) (hf : s.frames = f :: rest) : Inv { s with frames := [] } := by
  refine ⟨h.own, forall_mem_nil _, fun _ => ⟨rfl, forall_mem_nil _⟩,
    fun _ => forall_mem_nil _, fun reason hreason => ?_⟩
  exact absurd (hf.symm.trans (h.ended reason hreason).1) (cons_ne_nil f rest)

/-- **One step** in which an abort is heard keeps the invariant. -/
theorem step_inv (h : Inv s) (hheard : s.Heard event) : Inv (s.step event).2 := by
  rcases step_cases s event with hstep | ⟨f, rest, hf, ⟨rfl, hstep⟩ | ⟨rfl, hstep⟩ | ⟨-, hstep⟩ |
    ⟨rec, maxSteps, verifies, hphase, hasked, hstep⟩ | hstep⟩ <;> rw [hstep]
  · exact h
  · exact abort_inv h hf hheard
  · exact abortContext_inv h hf hheard
  · exact fail_inv h hf
  · exact delegate_inv h hf maxSteps verifies hphase hasked
  · exact goesOn_inv h hf hheard

/-- No step starts work once the scope of the handle is aborted. -/
theorem step_silent (h : Inv s) : s.Silent event := by
  intro hown
  rcases step_cases s event with hstep | ⟨f, rest, hf, ⟨-, hstep⟩ | ⟨-, hstep⟩ | ⟨-, hstep⟩ |
    ⟨_, _, _, _, _, hstep⟩ | hstep⟩ <;> rw [hstep]
  exact advance_silent h hf hown

/-- Every step of an aborted agent that changes what runs brings its end nearer. -/
theorem step_nears (h : Inv s) : s.Nears event := by
  intro hown
  unfold rank
  rcases step_cases s event with hstep | ⟨f, rest, hf, ⟨-, hstep⟩ | ⟨-, hstep⟩ | ⟨-, hstep⟩ |
    ⟨rec, maxSteps, verifies, hphase, hasked, hstep⟩ | hstep⟩ <;> rw [hstep]
  · exact .inl rfl
  · exact .inl rfl
  · exact .inl rfl
  · refine .inr ?_
    rw [hf, map_cons, sum_cons, map_nil, sum_nil]
    exact Nat.lt_of_lt_of_le f.phase.rank_pos (Nat.le_add_right _ _)
  · refine .inr ?_
    simp only [hf, map_cons, sum_cons, hphase, Phase.rank]
    omega
  · obtain ⟨hhears, hquiet⟩ := heard_of_aborted h hf hown
    have hnext := f.advance_next s.heard s.ctxAborted event
    rw [hf, map_cons, sum_cons]
    cases hresult : (f.advance s.heard s.ctxAborted event).2 with
    | frame f' =>
      rw [hresult] at hnext
      rcases hnext with rfl | hfollows
      · exact .inl rfl
      · rw [hhears] at hfollows
        have hlt := hfollows.rank_lt (hquiet.imp_right And.right)
        refine .inr ?_
        show ((f' :: rest).map fun g => g.phase.rank).sum < _
        rw [map_cons, sum_cons]
        omega
    | ended reason =>
      have hpos := f.phase.rank_pos
      cases rest with
      | nil => exact .inr (Nat.lt_of_lt_of_le hpos (by omega))
      | cons g rest =>
        refine .inr ?_
        show ((g :: rest).map fun g => g.phase.rank).sum < _
        omega

end State

/-! ## Whole runs -/

/-- The result of a run that was aborted is that of a cancelled run. -/
def EndsAsCancelled (s : State) : Prop :=
  s.ownAborted = true → ∀ reason, s.reason = some reason →
    ∀ l : LoopState, (l.buildResult reason).stopReason = .cancelled ∧
      (l.buildResult reason).goalMet = false

theorem start_inv (root : Frame) : Inv (.start root) :=
  ⟨nofun, forall_mem_nil _, nofun, nofun, fun _ => nofun⟩

/-- What the default evaluation is given in the runs below. -/
def anInput : EvaluateInput :=
  { role := "coder", goal := { objective := "deploy" }, step := 0, maxSteps := 1, retriesUsed := 0
    maxRetries := 2, outcome := { winner := none }, stepText := "", toolResults := []
    evidence := "", criterionTaskIds := [], rootTaskId := "agent-root", cancelled := true }

/-- A step whose turn asks for two tools, with an abort while the first one is at work. -/
def duringTool (how : Event) : List Event :=
  [.resume, .resume, .resume, .answer 2 false, .resume, .clear true, how, .resume, .resume,
    .clear true, .evaluate anInput EvaluateInput.onCancelled, .resume, .resume]

example : (machine.run (.start { maxSteps := 1 }) (duringTool .abortContext)).reason =
    some .cancelled := by decide +kernel

end NexusCode.Agent.Cancellation
