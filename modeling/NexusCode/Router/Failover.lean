/-
  Live failover: one public stream out of a chain of provider streams.

  A candidate's stream is its chunks and, if it did not just end, what it threw (`Source`).  The
  router consumes one candidate at a time (`attemptLoop`): it holds back the preamble until real
  output commits the candidate, and an eligible failure hands over to the next candidate — before
  any real output always, afterwards only with a safe recovery plan.

  What happens is recorded as a list of events: which candidate was started with which recovery,
  what was emitted, and each hand-off.  An emission names the candidate whose stream it came from;
  a chunk without one was made by the router.

  The abort signal is read when a candidate is about to start and when its stream throws; an
  `Env` says what is read there, so every abort time is covered.
-/
import NexusCode.Lib.Consumer
import NexusCode.Recovery.Overlap

namespace NexusCode.Router

open Lib Shared Recovery

/-! ## Candidates, streams and options -/

/-- `RouteReason`. -/
inductive RouteReason where
  | cost
  | latency
  | quality
  | local
  | explicit
  | fallback
deriving DecidableEq

/-- The wire name of a reason. -/
def RouteReason.text : RouteReason → String
  | cost => "cost"
  | latency => "latency"
  | quality => "quality"
  | .local => "local"
  | explicit => "explicit"
  | fallback => "fallback"

/-- `RouteCandidate`. -/
structure RouteCandidate where
  providerId : String
  modelId : String
  reason : RouteReason

def RouteCandidate.toJson (c : RouteCandidate) : Json :=
  .obj [("providerId", .str c.providerId), ("modelId", .str c.modelId),
    ("reason", .str c.reason.text)]

/-- What a stream threw: an `AdapterError`, or another value with its text. -/
inductive Thrown where
  | adapterError (error : AdapterError)
  | other (text : String)

/-- `e instanceof AdapterError ? e : new AdapterError("transport", String(e), …)`. -/
def Thrown.error : Thrown → AdapterError
  | adapterError error => error
  | other text => { code := .transport, message := text }

/-- A candidate's stream: its chunks, and what it threw after them. -/
structure Source where
  chunks : List StreamChunk
  thrown : Option Thrown := none

/-- `FailoverTrailEntry`. -/
structure FailoverTrailEntry where
  from_ : String
  to_ : String
  code : String
  message : String

def FailoverTrailEntry.toJson (e : FailoverTrailEntry) : Json :=
  .obj [("from", .str e.from_), ("to", .str e.to_), ("code", .str e.code),
    ("message", .str e.message)]

/-- The trail as it is stamped on a `run-start`. -/
def trailJson (trail : List FailoverTrailEntry) : Json := .arr (trail.map (·.toJson))

/-- `FailoverEvent`. -/
structure FailoverEvent where
  from_ : RouteCandidate
  to_ : RouteCandidate
  error : AdapterError
  attempt : Nat
  partialRecovery : Option PartialRecoveryAudit

/-- The entry a hand-off leaves in the trail. -/
def FailoverEvent.entry (e : FailoverEvent) : FailoverTrailEntry :=
  ⟨e.from_.providerId, e.to_.providerId, e.error.code.text, e.error.message⟩

/-- The `partialRecovery` options. -/
structure RecoveryOptions extends TrackerOptions where
  originalGoal : String
  mutationApproval : Option (List String) := none

/-- `FailoverOptions`. -/
structure FailoverOptions where
  beforeFailover : Option (FailoverEvent → Bool) := none
  isEligible : Option (AdapterError → Bool) := none
  isHealthy : Option (RouteCandidate → Bool) := none
  partialRecovery : Option RecoveryOptions := none

/-- `FAILOVER_CODES`. -/
def FAILOVER_CODES : List AdapterErrorCode :=
  [.rateLimit, .quotaExhausted, .overloaded, .transport, .cliExit, .emptyOutput]

/-- `isFailoverEligible(err)`. -/
def isFailoverEligible (err : AdapterError) : Bool :=
  if err.code = .cancelled then false else err.retryable || FAILOVER_CODES.contains err.code

/-- Everything the router is given besides the candidates: the run factory, called once for each
    attempt, and what the abort signal reads before an attempt and when one throws. -/
structure Env where
  rt : Runtime
  options : FailoverOptions
  makeRun : Nat → RouteCandidate → Option PartialRecoveryRequest → Source
  abortedAtStart : Nat → Bool
  abortedAtCatch : Nat → Bool

namespace Env

variable (env : Env)

/-- `opts.isEligible ?? isFailoverEligible`. -/
def eligible (err : AdapterError) : Bool := (env.options.isEligible.getD isFailoverEligible) err

/-- The options of the trackers. -/
def trackerOptions : TrackerOptions :=
  (env.options.partialRecovery.map (·.toTrackerOptions)).getD {}

/-- The ids the user approved for a continuation. -/
def approvedIds : List String :=
  (env.options.partialRecovery.bind (·.mutationApproval)).getD []

end Env

/-! ## Events -/

/-- An emitted chunk with the candidate whose stream it came from. -/
structure Emission where
  origin : Option Nat
  chunk : StreamChunk

/-- What happens in a run. -/
inductive Event where
  | started (i : Nat) (recovery : Option PartialRecoveryPlan)
  | emitted (emission : Emission)
  | handedOff (event : FailoverEvent)

/-- The emission an event is. -/
def Event.emission? : Event → Option Emission
  | emitted e => some e
  | _ => none

/-- The emissions of a run. -/
def emissions (trace : List Event) : List Emission := trace.filterMap (·.emission?)

/-- The public stream of a run. -/
def output (trace : List Event) : List StreamChunk := (emissions trace).map (·.chunk)

/-- A chunk made by the router. -/
def routerError (error : AdapterError) (retryable : Bool) (raw : Unknown := none) : Emission :=
  ⟨none, { runId := "", body := .error error retryable, raw }⟩

/-- The terminal of an aborted run. -/
def abortedError : Emission :=
  routerError { code := .cancelled, message := "aborted" } false

/-! ## Chunks on their way out -/

/-- `isPreambleChunk(chunk)`. -/
def isPreambleChunk (chunk : StreamChunk) : Bool :=
  match chunk.body with
  | .runStart .. => true
  | .sessionInit .. => true
  | .usage .. => true
  | _ => false

/-- The properties of `{ ...value }`. -/
def spread : Unknown → List (String × Json)
  | some (.obj fields) => fields
  | some (.arr items) => items.zipIdx.map fun p => (toString p.2, p.1)
  | some (.str s) => s.toList.zipIdx.map fun p => (toString p.2, .str (String.singleton p.1))
  | _ => []

/-- `stampFailover(chunk, trail)`. -/
def stampFailover (trail : List FailoverTrailEntry) (chunk : StreamChunk) : StreamChunk :=
  if chunk.isRunStart = false ∨ trail = [] then chunk
  else { chunk with
    raw := some (.obj (Json.setField "failover" (trailJson trail) (spread chunk.raw))) }

/-! ## One attempt -/

/-- What is fixed while one candidate is consumed. -/
structure Turn where
  i : Nat
  candidate : RouteCandidate
  next : Option RouteCandidate
  recovery : Option PartialRecoveryPlan
  trail : List FailoverTrailEntry

/-- The local variables of one attempt. -/
structure Attempt where
  tracker : Tracker
  overlap : Option (Overlap Char)
  overlapFinished : Bool := false
  preamble : List StreamChunk := []
  committed : Bool := false

/-- `tracker.observe(chunk)`. -/
def Attempt.observe (env : Env) (chunk : StreamChunk) (a : Attempt) : Attempt :=
  { a with tracker := a.tracker.observe env.rt env.trackerOptions chunk }

/-- How an attempt leaves its loop: the generator returns, or the next candidate is wanted. -/
inductive Outcome where
  | returned
  | handOff (error : AdapterError) (recovery : Option PartialRecoveryPlan)

section Attempt

variable (env : Env) (turn : Turn)

/-- The tracker at the start of an attempt: it knows what the earlier candidates have shown. -/
def primeTracker : Tracker :=
  match turn.recovery with
  | none => {}
  | some recovery =>
    let observe := fun (body : Body) (t : Tracker) =>
      t.observe env.rt env.trackerOptions { runId := "", body }
    let t : Tracker := {}
    let t := if recovery.checkpoint.assistantText = "" then t
      else observe (.textDelta recovery.checkpoint.assistantText (some .answer)) t
    let t := if recovery.checkpoint.reasoning = "" then t
      else observe (.reasoningDelta recovery.checkpoint.reasoning) t
    recovery.checkpoint.actions.foldl (fun t action => t.recordAction action) t

/-- The local variables at the start. -/
def startAttempt : Attempt where
  tracker := primeTracker env turn
  overlap := turn.recovery.map fun r =>
    Overlap.start r.checkpoint.assistantText.toList DEFAULT_MAX_PARTIAL_CONTEXT_CODE_POINTS

/-- `flushPreamble()`: a recovered switch is one logical run, so the replacement's start is
    suppressed; its usage is kept. -/
def flushPreamble (preamble : List StreamChunk) : List StreamChunk :=
  (preamble.filter fun p => !(turn.recovery.isSome && (p.isRunStart || p.isSessionInit))).map
    (stampFailover turn.trail)

/-- `recovery?.audit` as the stream carries it. -/
def auditFields : List (String × Json) :=
  (turn.recovery.map fun r => ("partialRecovery", r.audit.toJson)).toList

/-- Drop what the continuation repeats: the chunk to go on with, unless nothing of it is left. -/
def deduplicate (chunk : StreamChunk) (a : Attempt) : Attempt × Option StreamChunk :=
  match chunk.body, a.overlap with
  | .textDelta text channel, some overlap =>
    if channel = some .reasoning then (a, some chunk)
    else
      let (overlap, shown) := overlap.push text.toList
      let a := { a with overlap := some overlap }
      if shown = [] then (a, none)
      else (a, some { chunk with
        body := .textDelta (String.ofList shown) channel
        raw := some (.obj (auditFields turn ++
          (chunk.raw.map fun raw => ("providerRaw", raw)).toList)) })
  | _, _ => (a, some chunk)

/-- `finishOverlap(runId)`: the text still held back, which the tracker sees too. -/
def finishOverlap (runId : String) (a : Attempt) : Attempt × List StreamChunk :=
  match a.overlap with
  | none => (a, [])
  | some overlap =>
    if a.overlapFinished then (a, [])
    else
      let (overlap, text) := overlap.finish
      let a := { a with overlap := some overlap, overlapFinished := true }
      if text = [] then (a, [])
      else
        let recovered : StreamChunk :=
          { runId, body := .textDelta (String.ofList text) (some .answer),
            raw := some (.obj (auditFields turn)) }
        (a.observe env recovered, [recovered])

/-- What the plan of a hand-off to `next` is asked for. -/
def planInput (options : RecoveryOptions) (next : RouteCandidate) : PlanInput where
  originalGoal := options.originalGoal
  sourceProviderId := some turn.candidate.providerId
  targetProviderId := some next.providerId
  mutationApproval := options.mutationApproval

/-- `createRecoveryPlan()`: only a safe plan with a request is one. -/
def createRecoveryPlan (tracker : Tracker) : Option PartialRecoveryPlan :=
  match env.options.partialRecovery, turn.next with
  | some options, some next =>
    if options.enabled = false then none
    else
      let plan := tracker.createPlan env.rt options.toTrackerOptions
        (planInput turn options next)
      if plan.decision = .safe ∧ plan.request.isSome then some plan else none
  | _, _ => none

/-- The failure may be handed to a next candidate. -/
def mayHandOff (error : AdapterError) : Bool := turn.next.isSome && env.eligible error

/-- A chunk that has been observed: what is emitted, and where the loop goes. -/
def receive (chunk : StreamChunk) (a : Attempt) : List StreamChunk × (Attempt ⊕ Outcome) :=
  let isEnd := chunk.isTerminal
  if a.committed = false then
    match chunk.error? with
    | some error =>
      if mayHandOff env turn error then
        ([], .inr (.handOff error
          (if turn.recovery.isSome then createRecoveryPlan env turn a.tracker else none)))
      else (flushPreamble turn a.preamble ++ [chunk], .inr .returned)
    | none =>
      if isPreambleChunk chunk then ([], .inl { a with preamble := a.preamble ++ [chunk] })
      else (flushPreamble turn a.preamble ++ [chunk],
        if isEnd then .inr .returned else .inl { a with committed := true, preamble := [] })
  else
    match chunk.error? with
    | some error =>
      match (if mayHandOff env turn error then createRecoveryPlan env turn a.tracker else none) with
      | some plan => ([], .inr (.handOff error (some plan)))
      | none => ([chunk], .inr .returned)
    | none => ([chunk], if isEnd then .inr .returned else .inl a)

/-- One chunk of the candidate's stream. -/
def onChunk (a : Attempt) (sourceChunk : StreamChunk) : List StreamChunk × (Attempt ⊕ Outcome) :=
  match deduplicate turn sourceChunk a with
  | (a, none) => ([], .inl a)
  | (a, some chunk) =>
    let (a, recovered) := if chunk.isTerminal then finishOverlap env turn chunk.runId a else (a, [])
    let (out, next) := receive env turn chunk (a.observe env chunk)
    (recovered ++ out, next)

/-- A stream that threw. -/
def onThrow (thrown : Thrown) (a : Attempt) : List Emission × Outcome :=
  let error := thrown.error
  let own := (flushPreamble turn a.preamble).map (Emission.mk (some turn.i))
  if env.abortedAtCatch turn.i then ([abortedError], .returned)
  else if a.committed = false ∧ mayHandOff env turn error then
    ([], .handOff error (if turn.recovery.isSome then
      createRecoveryPlan env turn a.tracker.abortOpenActions else none))
  else if a.committed ∧ mayHandOff env turn error then
    match createRecoveryPlan env turn a.tracker.abortOpenActions with
    | some plan => ([], .handOff error (some plan))
    | none => (own ++ [routerError error error.retryable], .returned)
  else (own ++ [routerError error error.retryable], .returned)

/-- The loop over one candidate's stream. -/
def attemptLoop (thrown : Option Thrown) : Consumer Attempt StreamChunk Emission Outcome where
  step := fun a chunk =>
    ((onChunk env turn a chunk).1.map (Emission.mk (some turn.i)), (onChunk env turn a chunk).2)
  finish := fun a =>
    match thrown with
    | some thrown => onThrow env turn thrown a
    | none => ([], .returned)

/-- One candidate from its start: what it emits, and whether another one is wanted. -/
def runAttempt (source : Source) : List Emission × Outcome :=
  (attemptLoop env turn source.thrown).run (startAttempt env turn) source.chunks

end Attempt

/-! ## The chain -/

/-- What the router remembers between attempts. -/
structure Progress where
  i : Nat := 0
  trail : List FailoverTrailEntry := []
  attempt : Nat := 0
  lastError : Option AdapterError := none
  lastCandidate : Option RouteCandidate := none
  pendingRecovery : Option PartialRecoveryPlan := none

/-- The progress after a hand-off. -/
def Progress.advance (p : Progress) (event : FailoverEvent)
    (recovery : Option PartialRecoveryPlan) : Progress where
  i := p.i + 1
  trail := p.trail ++ [event.entry]
  attempt := event.attempt
  lastError := some event.error
  lastCandidate := some event.from_
  pendingRecovery := recovery

/-- What is fixed while the next candidate is consumed. -/
def Progress.turn (p : Progress) (candidate : RouteCandidate) (rest : List RouteCandidate) : Turn :=
  ⟨p.i, candidate, rest.head?, p.pendingRecovery, p.trail⟩

/-- The stream of the next candidate. -/
def Env.source (env : Env) (p : Progress) (candidate : RouteCandidate) : Source :=
  env.makeRun p.i candidate (p.pendingRecovery.bind (·.request))

/-- The attempts on the rest of the chain. -/
def runChain (env : Env) : List RouteCandidate → Progress → List Event
  | [], p =>
    let error := p.lastError.getD
      { code := .unknown, message := "all routing candidates failed",
        opts := { providerId := p.lastCandidate.map (·.providerId) } }
    [.emitted (routerError error error.retryable)]
  | candidate :: rest, p =>
    if env.abortedAtStart p.i then [.emitted abortedError]
    else
      let (out, outcome) := runAttempt env (p.turn candidate rest) (env.source p candidate)
      .started p.i p.pendingRecovery :: (out.map .emitted ++
        match outcome, rest with
        | .handOff error recovery, next :: _ =>
          let event : FailoverEvent := ⟨candidate, next, error, p.attempt + 1,
            recovery.map (·.audit)⟩
          if env.options.beforeFailover.any fun gate => !gate event then
            [.emitted (routerError error error.retryable
              (some (.obj [("switchDeclined", .bool true), ("target", next.toJson)])))]
          else
            .handedOff event :: runChain env rest (p.advance event recovery)
        | _, _ => [])

/-- The candidates that are not known to be unhealthy at dispatch. -/
def healthyCandidates (env : Env) (candidates : List RouteCandidate) : List RouteCandidate :=
  match env.options.isHealthy with
  | some isHealthy => candidates.filter isHealthy
  | none => candidates

/-- `runWithFailover(candidates, makeRun, scope, opts)`. -/
def runWithFailover (env : Env) (candidates : List RouteCandidate) : List Event :=
  match healthyCandidates env candidates with
  | [] => [.emitted (routerError
      { code := .invalidRequest, message := "no candidates available to route to" } false)]
  | chain => runChain env chain {}

end NexusCode.Router
