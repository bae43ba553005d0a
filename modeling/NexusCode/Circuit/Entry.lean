/-
  One record of the circuit breaker: its life cycle, its public projection and its validation
  when it is read back from the store.

  Times are whole milliseconds since the epoch.  The three functions that let time act on an
  entry are kept apart from the operations of the breaker:

  * `expireOpenEntry`  — an open circuit whose cooldown is over becomes half-open;
  * `expireProbeLease` — a probe lease that ran out, or whose owner died, is dropped;
  * `shiftEntry`       — a clock correction moves every stored time but the lease expiry.

  `lapse` is the first two in the order the breaker runs them.  It has one effect only: the entry
  becomes half-open without a lease (`lapse_eq`), after which time leaves it alone.
-/
import NexusCode.Circuit.Failure

namespace NexusCode.Circuit

open Lib Shared

/-- `ProviderCircuitState`. -/
inductive CircuitState where
  | closed
  | open_
  | halfOpen
deriving DecidableEq

/-- `ProviderAvailability`. -/
inductive Availability where
  | available
  | blocked
  | probeAvailable
  | probing
deriving DecidableEq

/-- A value in the `details` of an annotation. -/
inductive Scalar where
  | str (s : String)
  | num (q : Rat)
  | bool (b : Bool)
  | null
deriving DecidableEq

/-- `ProviderCircuitAnnotations`. -/
structure Annotations where
  estimatedRequestCostUsd : Option Rat := none
  quotaRemaining : Option Rat := none
  quotaUnit : Option String := none
  quotaResetAt : Option Nat := none
  statusLabel : Option String := none
  details : Option (List (String × Scalar)) := none
deriving DecidableEq

/-- `CircuitEntry`. -/
structure Entry where
  key : String
  target : Target
  state : CircuitState := .closed
  attempts : Nat := 0
  openCount : Nat := 0
  reason : Option Reason := none
  blockedUntil : Option Nat := none
  openedAt : Option Nat := none
  lastFailureAt : Option Nat := none
  lastSuccessAt : Option Nat := none
  lastError : Option StoredError := none
  annotations : Option Annotations := none
  probeLeaseId : Option String := none
  probeLeaseExpiresAt : Option Nat := none
  probeLeaseOwnerPid : Option Nat := none
deriving DecidableEq

/-- The record a scope gets when it is first mentioned. -/
def freshEntry (scope : Target) : Entry := { key := keyOf scope, target := scope }

/-- Forget the probe lease. -/
def Entry.dropLease (e : Entry) : Entry :=
  { e with probeLeaseId := none, probeLeaseExpiresAt := none, probeLeaseOwnerPid := none }

/-- Half-open with the probe free. -/
def Entry.halfOpened (e : Entry) : Entry := { e.dropLease with state := .halfOpen }

/-- An entry that refuses every request it applies to. -/
def Entry.hardBlock (e : Entry) : Bool :=
  e.state == .open_ || (e.state == .halfOpen && e.probeLeaseId != none)

/-- Open with no end: only a reset or a success lifts it. -/
def Entry.Indefinite (e : Entry) : Prop := e.state = .open_ ∧ e.blockedUntil = none

instance (e : Entry) : Decidable e.Indefinite := inferInstanceAs (Decidable (_ ∧ _))

/-! ## Time -/

/-- What the host supplies during one call of the breaker. -/
structure Host where
  /-- `process.pid`. -/
  pid : Nat
  /-- Does signalling a process id succeed, or fail only for lack of permission? -/
  alive : Nat → Bool := fun _ => true
  /-- The reading of the clock when the operation starts. -/
  raw : Nat
  /-- The reading of the clock in the `status` call that ends some operations. -/
  rawAgain : Nat := raw
  /-- `randomUUID()`. -/
  uuid : String
  /-- A UUID has 36 characters. -/
  uuid_length : JsString.length16 uuid = 36
  /-- `a.localeCompare(b) <= 0` under the host's collation. -/
  localeLe : String → String → Bool := fun a b => !JsString.ltUnits b a
  /-- The store file can be read and parsed. -/
  readable : Bool := true
  /-- The temporary file is written, synced and renamed over the store. -/
  writable : Bool := true

/-- The cooldown of an open circuit is over. -/
def Entry.cooldownOver (now : Nat) (e : Entry) : Bool :=
  e.state == .open_ && e.blockedUntil.any (· ≤ now)

/-- One step of `expireOpenEntries`. -/
def expireOpenEntry (now : Nat) (e : Entry) : Entry :=
  if e.cooldownOver now then e.halfOpened else e

/-- The process that holds the probe lease is still there. -/
def Entry.ownerAlive (h : Host) (e : Entry) : Bool :=
  match e.probeLeaseOwnerPid with
  | none => true
  | some pid => pid == h.pid || h.alive pid

/-- A probe lease that no longer counts. -/
def Entry.leaseOver (h : Host) (now : Nat) (e : Entry) : Bool :=
  e.state == .halfOpen && e.probeLeaseId != none &&
    (!e.ownerAlive h || e.probeLeaseExpiresAt.any (· ≤ now))

/-- One step of `expireProbeLeases`. -/
def expireProbeLease (h : Host) (now : Nat) (e : Entry) : Entry :=
  if e.leaseOver h now then e.dropLease else e

/-- Let time act on an entry: open circuits first, then leases. -/
def lapse (h : Host) (now : Nat) (e : Entry) : Entry := expireProbeLease h now (expireOpenEntry now e)

/-- `Math.max(0, time + delta)`. -/
def shiftTime (delta : Int) (time : Nat) : Nat := ((time : Int) + delta).toNat

/-- One step of `shiftTimestamps`. -/
def shiftEntry (delta : Int) (e : Entry) : Entry :=
  { e with
    blockedUntil := e.blockedUntil.map (shiftTime delta)
    openedAt := e.openedAt.map (shiftTime delta)
    lastFailureAt := e.lastFailureAt.map (shiftTime delta)
    lastSuccessAt := e.lastSuccessAt.map (shiftTime delta)
    annotations := e.annotations.map fun a =>
      { a with quotaResetAt := a.quotaResetAt.map (shiftTime delta) } }

/-! ## The public projection -/

/-- `ProviderCircuitStatus`; `retryAt` repeats `blockedUntil`. -/
structure Status where
  key : String
  target : Target
  state : CircuitState
  availability : Availability
  attempts : Nat
  openCount : Nat
  reason : Option Reason := none
  blockedUntil : Option Nat := none
  retryAt : Option Nat := none
  openedAt : Option Nat := none
  lastFailureAt : Option Nat := none
  lastSuccessAt : Option Nat := none
  lastError : Option StoredError := none
  annotations : Option Annotations := none
deriving DecidableEq

/-- `statusOf(entry)`. -/
def statusOf (e : Entry) : Status :=
  { key := e.key
    target := e.target
    state := e.state
    availability := match e.state with
      | .closed => .available
      | .open_ => .blocked
      | .halfOpen => if e.probeLeaseId = none then .probeAvailable else .probing
    attempts := e.attempts
    openCount := e.openCount
    reason := e.reason
    blockedUntil := e.blockedUntil
    retryAt := e.blockedUntil
    openedAt := e.openedAt
    lastFailureAt := e.lastFailureAt
    lastSuccessAt := e.lastSuccessAt
    lastError := e.lastError
    annotations := e.annotations }

/-- `closedStatus(target)`. -/
def closedStatus (target : Target) : Status :=
  { key := keyOf target, target, state := .closed, availability := .available,
    attempts := 0, openCount := 0 }

/-! ## Reading back -/

/-- Set a property of the `details` object. -/
def setDetail (k : String) (v : Scalar) : List (String × Scalar) → List (String × Scalar)
  | [] => [(k, v)]
  | (k', v') :: rest => if k' = k then (k, v) :: rest else (k', v') :: setDetail k v rest

/-- `validAnnotations(value)`: texts cut to length, at most 32 details, nothing when empty. -/
def validAnnotations (a : Annotations) : Option Annotations :=
  let cut := fun v => match v with
    | Scalar.str s => Scalar.str (JsString.sliceTo 512 s)
    | v => v
  let out : Annotations :=
    { a with
      quotaUnit := a.quotaUnit.map (JsString.sliceTo 64)
      statusLabel := a.statusLabel.map (JsString.sliceTo 256)
      details := a.details.map fun ds => (ds.take 32).foldl
        (fun out d => setDetail (JsString.sliceTo 128 d.1) (cut d.2) out) [] }
  if out = {} then none else some out

/-- `validStoredError(value)` for a record the breaker wrote. -/
def validStoredError (e : StoredError) : StoredError :=
  { e with
    message := sanitizeErrorMessage e.message
    retryAfterMs := e.retryAfterMs.filter (0 ≤ ·) }

/-- `validEntry(value)` for a record the breaker wrote; an unusable target drops the record. -/
def validEntry (raw : Entry) : Option Entry :=
  match normalizeTarget raw.target with
  | none => none
  | some target =>
    some { raw with
      key := keyOf target
      target
      lastError := raw.lastError.map validStoredError
      annotations := raw.annotations.bind validAnnotations
      probeLeaseId := raw.probeLeaseId.filter fun id => JsString.length16 id ≤ 128
      probeLeaseOwnerPid := raw.probeLeaseOwnerPid.filter (0 < ·) }

/-! ## What time leaves alone -/

section Fields

variable (h : Host) (now : Nat) (delta : Int) (e : Entry)

@[simp] theorem expireOpenEntry_key : (expireOpenEntry now e).key = e.key := by
  unfold expireOpenEntry; split <;> rfl
@[simp] theorem expireOpenEntry_target : (expireOpenEntry now e).target = e.target := by
  unfold expireOpenEntry; split <;> rfl
@[simp] theorem expireProbeLease_key : (expireProbeLease h now e).key = e.key := by
  unfold expireProbeLease; split <;> rfl
@[simp] theorem expireProbeLease_target : (expireProbeLease h now e).target = e.target := by
  unfold expireProbeLease; split <;> rfl
@[simp] theorem lapse_key : (lapse h now e).key = e.key := by simp [lapse]
@[simp] theorem lapse_target : (lapse h now e).target = e.target := by simp [lapse]
@[simp] theorem shiftEntry_key : (shiftEntry delta e).key = e.key := rfl
@[simp] theorem shiftEntry_target : (shiftEntry delta e).target = e.target := rfl
@[simp] theorem shiftEntry_state : (shiftEntry delta e).state = e.state := rfl
@[simp] theorem shiftEntry_leaseId : (shiftEntry delta e).probeLeaseId = e.probeLeaseId := rfl
@[simp] theorem shiftEntry_leaseExpiry :
    (shiftEntry delta e).probeLeaseExpiresAt = e.probeLeaseExpiresAt := rfl
@[simp] theorem dropLease_key : e.dropLease.key = e.key := rfl
@[simp] theorem dropLease_target : e.dropLease.target = e.target := rfl
@[simp] theorem dropLease_state : e.dropLease.state = e.state := rfl
@[simp] theorem dropLease_attempts : e.dropLease.attempts = e.attempts := rfl
@[simp] theorem dropLease_openCount : e.dropLease.openCount = e.openCount := rfl
@[simp] theorem dropLease_leaseId : e.dropLease.probeLeaseId = none := rfl
@[simp] theorem freshEntry_key (t : Target) : (freshEntry t).key = keyOf t := rfl

end Fields

/-! ## Lapsing -/

/-- Time changes the entry at `now`. -/
def Entry.lapses (h : Host) (now : Nat) (e : Entry) : Bool := e.cooldownOver now || e.leaseOver h now

/-- On a half-open entry, dropping the lease is all there is to half-opening it. -/
theorem dropLease_of_halfOpen {e : Entry} (h : e.state = .halfOpen) : e.dropLease = e.halfOpened := by
  simp only [Entry.halfOpened, Entry.dropLease, h]

/-- **The one effect of time** on an entry. -/
theorem lapse_eq (h : Host) (now : Nat) (e : Entry) :
    lapse h now e = if e.lapses h now then e.halfOpened else e := by
  unfold lapse expireProbeLease expireOpenEntry Entry.lapses
  by_cases hc : e.cooldownOver now = true
  · simp [hc, Entry.leaseOver, Entry.halfOpened, Entry.dropLease]
  · by_cases hl : e.leaseOver h now = true
    · have hs : e.state = .halfOpen := by
        simp only [Entry.leaseOver, Bool.and_eq_true, beq_iff_eq] at hl
        exact hl.1.1
      simp only [hc, hl, Bool.or_true, if_true, Bool.false_eq_true, if_false,
        dropLease_of_halfOpen hs]
    · simp [hc, hl]

@[simp] theorem halfOpened_key (e : Entry) : e.halfOpened.key = e.key := rfl
@[simp] theorem halfOpened_target (e : Entry) : e.halfOpened.target = e.target := rfl
@[simp] theorem halfOpened_state (e : Entry) : e.halfOpened.state = .halfOpen := rfl
@[simp] theorem halfOpened_leaseId (e : Entry) : e.halfOpened.probeLeaseId = none := rfl

@[simp] theorem lapses_halfOpened (h : Host) (now : Nat) (e : Entry) :
    e.halfOpened.lapses h now = false := by
  simp [Entry.lapses, Entry.cooldownOver, Entry.leaseOver]

theorem lapses_iff (h : Host) (now : Nat) (e : Entry) :
    e.lapses h now = true ↔
      (e.state = .open_ ∧ ∃ until_, e.blockedUntil = some until_ ∧ until_ ≤ now) ∨
      (e.state = .halfOpen ∧ e.probeLeaseId ≠ none ∧
        (e.ownerAlive h = false ∨ ∃ t, e.probeLeaseExpiresAt = some t ∧ t ≤ now)) := by
  simp [Entry.lapses, Entry.cooldownOver, Entry.leaseOver, Option.any_eq_true, and_assoc]

end NexusCode.Circuit
