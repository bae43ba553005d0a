/-
  What compression may not change: the decisions that hang on a capsule.

  A compression shortens texts, and every text it shortens is one that only informs.  `Essentials` is
  what the rest of the program acts on: the goal, the constraints, every id, every status, and the
  actions that must not be repeated.

  1. `essentials_compress` — one compression keeps them, entry by entry.
  2. `actionRetryDecision_eq` — a decision depends on nothing else of a capsule.
  3. **`compression_keeps_decisions`** — capsules of one input agree, whatever the limits and policies
     they were created under.
-/
import NexusCode.Lib.JsSort
import NexusCode.Transfer.Canonical

namespace NexusCode.Transfer

open Lib Shared

/-! ## Retry decisions -/

/-- `Math.max(0, x)`. -/
def atLeastZero : JsNumber → JsNumber
  | .nan => .nan
  | x => if JsNumber.lt 0 x then x else 0

/-- `a - b`. -/
def minus : JsNumber → JsNumber → JsNumber
  | .fin a, .fin b => JsNumber.round (a - b)
  | a, b => JsNumber.sub a b

/-- The reasons of an `ActionRetryDecision`. -/
inductive RetryReason where
  | explicitDoNotRepeat
  | completedAction
  | partialEffect
  | inFlight
deriving DecidableEq

/-- `ActionRetryDecision`. -/
structure ActionRetryDecision where
  blocked : Bool
  reason : Option RetryReason := none
  remainingTurns : Option JsNumber := none

/-- The decision on the status of an outcome, within the window. -/
def OutcomeStatus.decision (remainingTurns : JsNumber) : OutcomeStatus → ActionRetryDecision
  | success => ⟨true, some .completedAction, some remainingTurns⟩
  | partially => ⟨true, some .partialEffect, some remainingTurns⟩
  | inProgress => ⟨true, some .inFlight, some remainingTurns⟩
  | _ => { blocked := false }

/-- `actionRetryDecision(capsule, actionId, turnsSinceHandoff)`. -/
def actionRetryDecision (capsule : HandoffCapsule) (actionId : String)
    (turnsSinceHandoff : JsNumber) : ActionRetryDecision :=
  if actionId ∈ capsule.unsigned.payload.doNotRepeatActionIds then
    { blocked := true, reason := some .explicitDoNotRepeat }
  else
    let outcome := capsule.unsigned.payload.tools.outcomes.find? (·.actionId == actionId)
    let remainingTurns := atLeastZero (minus capsule.unsigned.preventRetryWindow turnsSinceHandoff)
    match outcome with
    | none => { blocked := false }
    | some entry =>
      if remainingTurns = 0 || JsNumber.lt turnsSinceHandoff 0 then { blocked := false }
      else entry.status.decision remainingTurns

/-! ## What is acted on -/

/-- The goal, the constraints, the ids and the statuses of a payload, list by list. -/
structure Essentials where
  goal : CapsuleGoal
  constraints : List CapsuleConstraint
  plan : List (String × WorkStatus)
  decisions : List String
  assumptions : List String
  unresolvedQuestions : List (String × Bool)
  modifiedFiles : List (String × FileStatus)
  commands : List (String × OutcomeStatus)
  tests : List (String × TestStatus)
  outcomes : List (String × OutcomeStatus)
  pendingApprovals : List String
  contextManifest : List (String × Inclusion)
  checkpoints : List String
  doNotRepeatActionIds : List String

def HandoffCapsulePayload.essentials (p : HandoffCapsulePayload) : Essentials where
  goal := p.goal
  constraints := p.constraints
  plan := p.plan.map fun t => (t.id, t.status)
  decisions := p.decisions.map CapsuleDecision.id
  assumptions := p.assumptions.map CapsuleAssumption.id
  unresolvedQuestions := p.unresolvedQuestions.map fun q => (q.id, q.blocker)
  modifiedFiles := p.workspace.modifiedFiles.map fun f => (f.path, f.status)
  commands := p.workspace.commands.map fun c => (c.id, c.status)
  tests := p.workspace.tests.map fun t => (t.id, t.status)
  outcomes := p.tools.outcomes.map fun o => (o.actionId, o.status)
  pendingApprovals := p.tools.pendingApprovals.map CapsulePendingApproval.actionId
  contextManifest := p.contextManifest.map fun e => (e.id, e.inclusion)
  checkpoints := p.checkpoints.map CapsuleCheckpoint.id
  doNotRepeatActionIds := p.doNotRepeatActionIds

/-- **A compression keeps what is acted on.** -/
theorem essentials_compress (policy : CapsuleCompressionPolicy) (level : CompressionLevel)
    (p : HandoffCapsulePayload) : (compressPayload policy level p).essentials = p.essentials := by
  unfold HandoffCapsulePayload.essentials
  rw [checkpoints_compress]
  simp only [compressPayload, List.map_map]
  rfl

theorem essentials_atStage (policy : CapsuleCompressionPolicy) (u : UnsignedCapsule) (s : Stage) :
    (atStage policy u s).payload.essentials = u.payload.essentials :=
  upTo_keeps (compressCapsule policy) (fun u => u.payload.essentials)
    (fun level u => essentials_compress policy level u.payload) s u

theorem window_atStage (policy : CapsuleCompressionPolicy) (u : UnsignedCapsule) (s : Stage) :
    (atStage policy u s).preventRetryWindow = u.preventRetryWindow :=
  upTo_keeps (compressCapsule policy) UnsignedCapsule.preventRetryWindow (fun _ _ => rfl) s u

/-- **A decision depends on what is acted on**, and on the window. -/
theorem actionRetryDecision_eq {c c' : HandoffCapsule}
    (h : c.unsigned.payload.essentials = c'.unsigned.payload.essentials)
    (hwindow : c.unsigned.preventRetryWindow = c'.unsigned.preventRetryWindow) (actionId : String)
    (turnsSinceHandoff : JsNumber) : actionRetryDecision c actionId turnsSinceHandoff =
      actionRetryDecision c' actionId turnsSinceHandoff := by
  have hids : c.unsigned.payload.doNotRepeatActionIds = c'.unsigned.payload.doNotRepeatActionIds :=
    congrArg Essentials.doNotRepeatActionIds h
  -- the status of the first outcome with the id, read off the ids and statuses alone
  have hstatus : ∀ c : HandoffCapsule,
      (c.unsigned.payload.tools.outcomes.find? (·.actionId == actionId)).map
        CapsuleToolOutcome.status =
      (c.unsigned.payload.essentials.outcomes.find? (·.1 == actionId)).map Prod.snd := by
    intro c
    show _ = ((c.unsigned.payload.tools.outcomes.map fun o => (o.actionId, o.status)).find?
      (·.1 == actionId)).map Prod.snd
    rw [List.find?_map, Option.map_map]
    rfl
  have hsame := (hstatus c).trans ((congrArg (fun e : Essentials =>
    (e.outcomes.find? (·.1 == actionId)).map Prod.snd) h).trans (hstatus c').symm)
  unfold actionRetryDecision
  rw [hids, hwindow]
  split
  · rfl
  · dsimp only
    generalize c.unsigned.payload.tools.outcomes.find? _ = o at hsame ⊢
    generalize c'.unsigned.payload.tools.outcomes.find? _ = o' at hsame ⊢
    cases o with
    | none =>
      cases o' with
      | none => rfl
      | some _ => nomatch hsame
    | some entry =>
      cases o' with
      | none => nomatch hsame
      | some entry' =>
        dsimp only
        rw [Option.some.inj hsame]

/-! ## Capsules of one input -/

section Created

variable {host : CapsuleHost} {options : HandoffCapsuleOptions} {input : HandoffCapsuleInput}
  {c c' : HandoffCapsule}

/-- What is acted on is decided before the first compression. -/
theorem essentials_created (h : createHandoffCapsule host input options = .ok c) :
    c.unsigned.payload.essentials =
        (normalizePayload (createRedactor host options) (some input.value)).essentials ∧
      c.unsigned.preventRetryWindow = options.resolved.preventRetryWindow.1 := by
  obtain ⟨-, createdAt, -, s, -, -, rfl⟩ := (create_eq_ok_iff options).mp h
  rw [signCapsule_unsigned]
  exact ⟨essentials_atStage _ _ s, window_atStage _ _ s⟩

/-- The options under a compression policy and limits of their own. -/
def HandoffCapsuleOptions.compressing (options : HandoffCapsuleOptions)
    (policy : Option CapsuleCompressionPolicy) (limits : Limits) : HandoffCapsuleOptions :=
  { options.within limits with compressionPolicy := policy }

/-- **Capsules of one input agree** on what is acted on and decide alike, under any policies and
    limits. -/
theorem compression_keeps_decisions {policy policy' : Option CapsuleCompressionPolicy}
    {limits limits' : Limits}
    (h : createHandoffCapsule host input (options.compressing policy limits) = .ok c)
    (h' : createHandoffCapsule host input (options.compressing policy' limits') = .ok c') :
    c.unsigned.payload.essentials = c'.unsigned.payload.essentials ∧
      ∀ actionId turnsSinceHandoff, actionRetryDecision c actionId turnsSinceHandoff =
        actionRetryDecision c' actionId turnsSinceHandoff := by
  obtain ⟨hessentials, hwindow⟩ := essentials_created h
  obtain ⟨hessentials', hwindow'⟩ := essentials_created h'
  have hsame := hessentials.trans hessentials'.symm
  exact ⟨hsame, actionRetryDecision_eq hsame (hwindow.trans hwindow'.symm)⟩

end Created

/-- A whole capsule, and one that was compressed twice under the other policy, agree. -/
theorem twins_agree : ∃ (limits limits' : Limits) (c c' : HandoffCapsule),
    createHandoffCapsule twinHost (twinInput "first" "second")
      (twinOptions.compressing none limits) = .ok c ∧
    createHandoffCapsule twinHost (twinInput "first" "second")
      (twinOptions.compressing (some .truncateMiddle) limits') = .ok c' ∧
    (c.unsigned.omissions = [] ∧
      c'.unsigned.omissions = ["truncateMiddle:large", "truncateMiddle:small"]) ∧
    c.unsigned.payload.essentials = c'.unsigned.payload.essentials ∧
      ∀ actionId turnsSinceHandoff, actionRetryDecision c actionId turnsSinceHandoff =
        actionRetryDecision c' actionId turnsSinceHandoff := by
  have hadmitted : ∀ policy, Admitted twinHost { twinOptions with compressionPolicy := policy }
      (twinInput "first" "second") "2026-01-01T00:00:00.000Z" :=
    fun _ => ⟨show isPositiveInteger 5 = true by decide +kernel, fun _ => by decide +kernel, rfl⟩
  have hvalid : Valid twinHost (stageCapsule twinHost
      { twinOptions with compressionPolicy := some .truncateMiddle } (twinInput "first" "second")
      "2026-01-01T00:00:00.000Z" .small) none := by
    have hdigests : ∀ digest ∈ twinDigests, capsuleErrors twinHost.isDate .strict
        (some (HandoffCapsule.toJson ⟨stageCapsule twinHost
          { twinOptions with compressionPolicy := some .truncateMiddle }
          (twinInput "first" "second") "2026-01-01T00:00:00.000Z" .small, "sha256",
          "sha256:" ++ digest⟩)) = [] := by
      decide +kernel
    rw [Valid, signCapsule_twin]
    exact hdigests _ (twinDigest_mem _)
  obtain ⟨limits, h⟩ := exists_created (hadmitted none) twin_valid
  obtain ⟨limits', h'⟩ := exists_created (hadmitted (some .truncateMiddle)) hvalid
  exact ⟨limits, limits', _, _, h, h', ⟨rfl, by decide +kernel⟩, compression_keeps_decisions h h'⟩

end NexusCode.Transfer
