/-
  The provider circuit breaker: its state and its operations.

  A breaker keeps the records of its scopes in a `Map`, here the list of its values in insertion
  order, and the last clock reading it accepted.  With a `filePath` every operation runs under
  the store lock: it first replaces the records by those of the file (`load`), and `persist`
  writes them back.  A lock that is not free in time is asked for again, since the operation
  re-enters itself; so an operation that returns has held the lock.

  Each operation is one function from a state to an answer and the next state.  The loops of the
  source over the records that apply to a target, or that a lease holds, are maps over the whole
  list with a guard: a record is touched at most once, and the order does not show.
-/
import NexusCode.Circuit.Entry
import NexusCode.Lib.Machine
import Mathlib.Data.List.Sort
import Mathlib.Algebra.GroupWithZero.Nat

namespace NexusCode.Circuit

open Lib Shared

/-! ## Options -/

/-- `PROBE_LEASE_TTL_MS`. -/
def probeLeaseTtlMs : Nat := 2 * 60 * 60000

/-- `ProviderCircuitBreakerOptions`, the numbers a caller may give. -/
structure RawOptions where
  filePath : Option String := none
  transientFailureThreshold : Option Int := none
  baseCooldownMs : Option Int := none
  maxCooldownMs : Option Int := none
  quotaCooldownMs : Option Int := none
  modelUnavailableCooldownMs : Option Int := none
  maxClockSkewMs : Option Int := none
  maxEntries : Option Int := none

/-- `NormalizedOptions`: every number is positive. -/
structure Options where
  filePath : Option String
  transientFailureThreshold : Nat
  baseCooldownMs : Nat
  maxCooldownMs : Nat
  quotaCooldownMs : Nat
  modelUnavailableCooldownMs : Nat
  maxClockSkewMs : Nat
  maxEntries : Nat
  threshold_pos : 0 < transientFailureThreshold
  baseCooldown_pos : 0 < baseCooldownMs
  maxCooldown_pos : 0 < maxCooldownMs
  quotaCooldown_pos : 0 < quotaCooldownMs
  modelCooldown_pos : 0 < modelUnavailableCooldownMs
  maxEntries_pos : 0 < maxEntries

/-- `positiveInteger(value, fallback)`. -/
def positiveInteger (value : Option Int) (fallback : Nat) : Nat :=
  match value with
  | some v => if 0 < v then v.toNat else fallback
  | none => fallback

theorem positiveInteger_pos {value : Option Int} {fallback : Nat} (h : 0 < fallback) :
    0 < positiveInteger value fallback := by
  unfold positiveInteger
  split
  · split <;> omega
  · exact h

/-- `normalizeOptions(opts)`. -/
def normalizeOptions (opts : RawOptions) : Options where
  filePath := opts.filePath
  transientFailureThreshold := positiveInteger opts.transientFailureThreshold 3
  baseCooldownMs := positiveInteger opts.baseCooldownMs 30000
  maxCooldownMs := positiveInteger opts.maxCooldownMs (15 * 60000)
  quotaCooldownMs := positiveInteger opts.quotaCooldownMs (60 * 60000)
  modelUnavailableCooldownMs := positiveInteger opts.modelUnavailableCooldownMs (5 * 60000)
  maxClockSkewMs := positiveInteger opts.maxClockSkewMs 5000
  maxEntries := positiveInteger opts.maxEntries 512
  threshold_pos := positiveInteger_pos (by decide)
  baseCooldown_pos := positiveInteger_pos (by decide)
  maxCooldown_pos := positiveInteger_pos (by decide)
  quotaCooldown_pos := positiveInteger_pos (by decide)
  modelCooldown_pos := positiveInteger_pos (by decide)
  maxEntries_pos := positiveInteger_pos (by decide)

/-! ## State, calls and answers -/

/-- `PersistedStore`. -/
structure PersistedStore where
  savedAt : Nat
  entries : List Entry
deriving DecidableEq

/-- A breaker and the store file it sees. -/
structure Breaker where
  entries : List Entry := []
  lastClockMs : Nat
  file : Option PersistedStore := none
deriving DecidableEq

/-- `ProviderCircuitLease`. -/
structure Lease where
  id : String
  keys : List String
deriving DecidableEq

/-- `ProviderCircuitFailureOptions`; an infinite time counts as none. -/
structure FailureOptions where
  retryAt : Option Int := none
  resetAt : Option Int := none
  lease : Option Lease := none
  annotations : Option Annotations := none

/-- `ProviderCircuitDecision`. -/
inductive Decision where
  | allowed (probe : Bool) (status : Status) (lease : Option Lease)
  | refused (status : Status) (retryAfterMs : Option Nat)
deriving DecidableEq

/-- The operations of `ProviderCircuitBreaker`. -/
inductive Call where
  | tryAcquire (target : Target)
  | recordFailure (target : Target) (error : Failure) (options : FailureOptions)
  | recordSuccess (target : Target) (lease : Option Lease)
  | status (target : Target)
  | reset (target : Option Target)
  | annotate (target : Target) (annotations : Annotations)
  | listStatuses (includeClosed : Bool)

/-- What an operation returns, or the `TypeError` of a target without a provider. -/
inductive Answer where
  | decision (d : Decision)
  | status (s : Status)
  | count (n : Nat)
  | statuses (l : List Status)
  | typeError
deriving DecidableEq

/-! ## Records of a map -/

/-- `entries.get(key)`. -/
def get (key : String) (es : List Entry) : Option Entry := es.find? (·.key = key)

/-- `entries.delete(key)`. -/
def delete (key : String) (es : List Entry) : List Entry := es.filter (·.key ≠ key)

/-- `entries.set(entry.key, entry)`. -/
def put (entry : Entry) (es : List Entry) : List Entry :=
  if es.any (·.key = entry.key) then es.map fun e => if e.key = entry.key then entry else e
  else es ++ [entry]

/-- Give the scope a record if it has none. -/
def ensure (scope : Target) (es : List Entry) : List Entry :=
  if es.any (·.key = keyOf scope) then es else es ++ [freshEntry scope]

/-- Change the records that meet a condition. -/
def updateIf (p : Entry → Bool) (f : Entry → Entry) (es : List Entry) : List Entry :=
  es.map fun e => if p e then f e else e

/-- `applicableEntries(target)`: broad scopes first. -/
def applicableEntries (target : Target) (es : List Entry) : List Entry :=
  (es.filter fun e => appliesTo e.target target).insertionSort
    fun a b => specificity a.target ≤ specificity b.target

/-- The comparison of `strongestBlock` puts `a` no later than `b`. -/
def blockLe (a b : Entry) : Bool :=
  if a.state = .halfOpen ∧ b.state ≠ .halfOpen then false
  else if b.state = .halfOpen ∧ a.state ≠ .halfOpen then true
  else if a.blockedUntil = none ∧ b.blockedUntil ≠ none then true
  else if b.blockedUntil = none ∧ a.blockedUntil ≠ none then false
  else if b.blockedUntil.getD 0 ≠ a.blockedUntil.getD 0 then
    b.blockedUntil.getD 0 ≤ a.blockedUntil.getD 0
  else specificity b.target ≤ specificity a.target

/-- `strongestBlock(entries)`. -/
def strongestBlock (es : List Entry) : Option Entry := (es.insertionSort (blockLe · ·)).head?

/-! ## The clock and the store -/

/-- `now()`; the value it returns is the `lastClockMs` it leaves. -/
def Breaker.now (o : Options) (raw : Nat) (s : Breaker) : Breaker :=
  if raw + o.maxClockSkewMs < s.lastClockMs then
    -- a material correction of the wall clock: remaining cooldowns are kept
    { s with
      entries := s.entries.map (shiftEntry ((raw : Int) - s.lastClockMs))
      lastClockMs := raw }
  else if raw < s.lastClockMs then s
  else { s with lastClockMs := raw }

/-- `persist()`; a write that fails leaves the old file. -/
def Breaker.persist (o : Options) (h : Host) (s : Breaker) : Breaker :=
  if o.filePath ≠ none ∧ h.writable = true then
    { s with file := some { savedAt := s.lastClockMs, entries := s.entries } }
  else s

/-- `if (changed) this.persist()`. -/
def Breaker.persistIf (o : Options) (h : Host) (changed : Bool) (s : Breaker) : Breaker :=
  if changed then s.persist o h else s

/-- The records a stored file yields for an instance whose clock stood at `clock`. -/
def loadEntries (o : Options) (h : Host) (clock : Nat) (store : PersistedStore) : List Entry :=
  let read := ((store.entries.take o.maxEntries).filterMap validEntry).foldl (fun es e => put e es) []
  let rebased :=
    if clock + o.maxClockSkewMs < store.savedAt then
      read.map (shiftEntry ((clock : Int) - store.savedAt))
    else read
  rebased.map (lapse h clock)

/-- `entries.clear()` and `load()`: a file that is missing or unreadable leaves no records. -/
def Breaker.load (o : Options) (h : Host) (s : Breaker) : Breaker :=
  { s with entries := match s.file with
      | none => []
      | some store => if h.readable then loadEntries o h s.lastClockMs store else [] }

/-- `withStoreLock(operation)`, up to the operation. -/
def Breaker.locked (o : Options) (h : Host) (s : Breaker) : Breaker :=
  if o.filePath = none then s else s.load o h

/-- `expireOpenEntries` and `expireProbeLeases` on the selected records at the current time. -/
def Breaker.expire (h : Host) (p : Entry → Bool) (s : Breaker) : Breaker :=
  { s with entries := updateIf p (lapse h s.lastClockMs) s.entries }

/-- The `changed` flag of the two. -/
def Breaker.expires (h : Host) (p : Entry → Bool) (s : Breaker) : Bool :=
  s.entries.any fun e => p e && e.lapses h s.lastClockMs

/-- Let time act on the selected records, and store the change if there is one. -/
def Breaker.refresh (o : Options) (h : Host) (p : Entry → Bool) (s : Breaker) : Breaker :=
  (s.expire h p).persistIf o h (s.expires h p)

/-! ## Operations -/

/-- The records that block the scope of a request. -/
def Entry.concerns (target : Target) (e : Entry) : Bool := appliesTo e.target target

/-- What `status(target)` answers once time has acted: the strongest block, else the exact record,
    else the most specific one. -/
def effectiveStatus (target : Target) (es : List Entry) : Status :=
  let applicable := applicableEntries target es
  let mostSpecific := applicable.insertionSort
    fun a b => specificity b.target ≤ specificity a.target
  match strongestBlock (applicable.filter (·.state ≠ .closed)) with
  | some e => statusOf e
  | none => match get (keyOf target) es with
    | some e => statusOf e
    | none => match mostSpecific.head? with
      | some e => statusOf e
      | none => closedStatus target

/-- `status(target)` under the lock, for a normalized target. -/
def Breaker.statusOf (o : Options) (h : Host) (raw : Nat) (target : Target) (s : Breaker) :
    Status × Breaker :=
  let s := (s.now o raw).refresh o h (Entry.concerns target)
  (effectiveStatus target s.entries, s)

/-- Reserve a half-open record for the probe. -/
def grant (h : Host) (now : Nat) (e : Entry) : Entry :=
  { e with
    probeLeaseId := some h.uuid
    probeLeaseExpiresAt := some (now + probeLeaseTtlMs)
    probeLeaseOwnerPid := some h.pid }

/-- A record the probe for `target` reserves. -/
def Entry.isProbe (target : Target) (e : Entry) : Bool := e.concerns target && e.state == .halfOpen

/-- `tryAcquire(target)` under the lock. -/
def Breaker.tryAcquire (o : Options) (h : Host) (target : Target) (s : Breaker) :
    Decision × Breaker :=
  let s := s.now o h.raw
  let now := s.lastClockMs
  let changed := s.expires h (Entry.concerns target)
  let s := s.expire h (Entry.concerns target)
  let applicable := applicableEntries target s.entries
  match strongestBlock (applicable.filter Entry.hardBlock) with
  | some blocker =>
    (.refused (Circuit.statusOf blocker) (blocker.blockedUntil.map (· - now)),
      s.persistIf o h changed)
  | none =>
    match applicable.filter fun e => e.state = .halfOpen with
    | [] =>
      let (status, s) := (s.persistIf o h changed).statusOf o h h.rawAgain target
      (.allowed false status none, s)
    | first :: others =>
      let s := { s with entries := updateIf (Entry.isProbe target) (grant h now) s.entries }
      (.allowed true (Circuit.statusOf (grant h now first))
        (some { id := h.uuid, keys := (first :: others).map (·.key) }), s.persist o h)

/-- A record the lease holds. -/
def Lease.holds (lease : Lease) (e : Entry) : Bool :=
  lease.keys.contains e.key && e.probeLeaseId == some lease.id

/-- `isActiveLease(lease)`: every record the lease was granted on still carries it. -/
def isActiveLease (lease : Lease) (es : List Entry) : Bool :=
  !lease.keys.isEmpty &&
    lease.keys.all fun key => (get key es).any (·.probeLeaseId = some lease.id)

/-- The lease of a call has been lost in the meantime. -/
def staleLease (lease : Option Lease) (es : List Entry) : Bool :=
  lease.any fun lease => !isActiveLease lease es

/-- The records `consumeProbe(lease)` takes the lease from. -/
def Entry.heldBy (lease : Option Lease) (e : Entry) : Bool := lease.any (·.holds e)

/-- `releaseProbe(lease, now)`: what becomes of a record the lease held. -/
def releaseEntry (now : Nat) (e : Entry) : Entry :=
  { e.dropLease with state := .open_, blockedUntil := some now }

/-- When the failure itself says how long to wait. -/
def explicitRetryAt (now : Nat) (error : StoredError) (options : FailureOptions) : Option Nat :=
  match options.retryAt, options.resetAt, error.retryAfterMs with
  | some t, _, _ => some (max (now : Int) t).toNat
  | none, some t, _ => some (max (now : Int) t).toNat
  | none, none, some ms => some (now + (max 0 ms).toNat)
  | none, none, none => none

/-- The failure opens the circuit of a record that saw `attempts` failures with this one. -/
def shouldOpen (o : Options) (reason : Reason) (explicit : Option Nat) (attempts : Nat)
    (wasProbe : Bool) : Bool :=
  reason != .transient || wasProbe || explicit.isSome || o.transientFailureThreshold ≤ attempts

/-- How long an opened circuit stays open; `none` is until a reset or a success. -/
def cooldownEnd (o : Options) (reason : Reason) (now openCount : Nat) : Option Nat :=
  match reason with
  | .auth => none
  | .quota => some (now + o.quotaCooldownMs)
  | .modelUnavailable => some (now + o.modelUnavailableCooldownMs)
  | .transient => some (now + min o.maxCooldownMs (o.baseCooldownMs * 2 ^ (openCount - 1)))

/-- `applyFailure(entry, reason, error, now, options, wasProbe)`. -/
def applyFailure (o : Options) (reason : Reason) (error : StoredError) (now : Nat)
    (options : FailureOptions) (wasProbe : Bool) (e : Entry) : Entry :=
  let explicit := explicitRetryAt now error options
  let e := { e.dropLease with
    reason := some reason
    attempts := e.attempts + 1
    lastFailureAt := some now
    lastError := some error }
  if shouldOpen o reason explicit e.attempts wasProbe then
    let openCount := e.openCount + 1
    { e with
      state := .open_
      openCount
      openedAt := some now
      blockedUntil := explicit <|> cooldownEnd o reason now openCount }
  else { e with state := .closed, blockedUntil := none, openedAt := none }

/-- What a failure leaves in the annotations of its scope. -/
def annotateFailure (options : FailureOptions) (e : Entry) : Entry :=
  let e := match options.annotations with
    | some a => { e with annotations := some a }
    | none => e
  match options.resetAt.filter (0 ≤ ·) with
  | some t =>
    { e with annotations := some { e.annotations.getD {} with quotaResetAt := some t.toNat } }
  | none => e

/-- The moment `prune` orders records by. -/
def Entry.stamp (e : Entry) : Nat :=
  (e.lastFailureAt <|> e.lastSuccessAt <|> e.openedAt).getD 0

/-- One loop of `prune()`: delete the listed records until the store fits. -/
def evict (bound : Nat) (p : Entry → Bool) : List Entry → List Entry → List Entry
  | [], es => es
  | e :: oldest, es =>
    if es.length ≤ bound then es
    else if p e then evict bound p oldest (delete e.key es)
    else evict bound p oldest es

/-- `prune()`: closed records go first, the longest untouched before the others. -/
def prune (o : Options) (es : List Entry) : List Entry :=
  let oldest := es.insertionSort fun a b => a.stamp ≤ b.stamp
  if es.length ≤ o.maxEntries then es
  else evict o.maxEntries (fun _ => true) oldest
    (evict o.maxEntries (·.state = .closed) oldest es)

/-- The records a classified failure touches, before `prune`: those the lease held reopen, and
    the scope of the failure counts it unless the lease held that record. -/
def failEntries (o : Options) (now : Nat) (target : Target) (reason : Reason)
    (error : StoredError) (options : FailureOptions) (es : List Entry) : List Entry :=
  let scope := failureScope target reason
  let probeKeys := (es.filter (Entry.heldBy options.lease)).map (·.key)
  let es := updateIf (Entry.heldBy options.lease)
    (applyFailure o reason error now options true) es
  let es := ensure scope es
  let es := updateIf (fun e => e.key = keyOf scope ∧ e.key ∉ probeKeys)
    (fun e => applyFailure o reason error now options (e.state = .halfOpen) e) es
  updateIf (·.key = keyOf scope) (annotateFailure options) es

/-- `recordFailure(target, error, options)` under the lock. -/
def Breaker.recordFailure (o : Options) (h : Host) (target : Target) (error : Failure)
    (options : FailureOptions) (s : Breaker) : Status × Breaker :=
  let s := s.now o h.raw
  let now := s.lastClockMs
  if staleLease options.lease s.entries then s.statusOf o h h.rawAgain target
  else
    match classifyProviderCircuitFailure error with
    | none =>
      let changed := s.entries.any (Entry.heldBy options.lease)
      let s := { s with entries := updateIf (Entry.heldBy options.lease) (releaseEntry now) s.entries }
      (s.persistIf o h changed).statusOf o h h.rawAgain target
    | some reason =>
      let scope := failureScope target reason
      let es := failEntries o now target reason (toStoredError error) options s.entries
      let s := { s with entries := prune o es }
      -- the record is answered with even when `prune` has just dropped it
      let status := (get (keyOf scope) es).elim (closedStatus scope) Circuit.statusOf
      (status, s.persist o h)

/-- A success closes a record. -/
def closeEntry (now : Nat) (e : Entry) : Entry :=
  { e.dropLease with
    state := .closed
    attempts := 0
    openCount := 0
    lastSuccessAt := some now
    reason := none
    blockedUntil := none
    openedAt := none
    lastError := none }

/-- The records a success closes: with a lease, not those another probe holds. -/
def Entry.closedBy (target : Target) (lease : Option Lease) (e : Entry) : Bool :=
  e.concerns target &&
    !(lease.any fun lease => e.probeLeaseId != none && e.probeLeaseId != some lease.id)

/-- `recordSuccess(target, lease)` under the lock. -/
def Breaker.recordSuccess (o : Options) (h : Host) (target : Target) (lease : Option Lease)
    (s : Breaker) : Status × Breaker :=
  let s := s.now o h.raw
  let now := s.lastClockMs
  if staleLease lease s.entries then s.statusOf o h h.rawAgain target
  else
    let changed := s.entries.any (Entry.closedBy target lease)
    let s := { s with entries := updateIf (Entry.closedBy target lease) (closeEntry now) s.entries }
    (s.persistIf o h changed).statusOf o h h.rawAgain target

/-- The records a reset deletes; without a target, all of them. -/
def Entry.coveredBy (scope : Option Target) (e : Entry) : Bool :=
  scope.all fun scope => isDescendant scope e.target

/-- `reset(target)` under the lock; a reset without a target always writes the store. -/
def Breaker.reset (o : Options) (h : Host) (scope : Option Target) (s : Breaker) : Nat × Breaker :=
  let count := (s.entries.filter (Entry.coveredBy scope)).length
  let s := { s with entries := s.entries.filter fun e => !e.coveredBy scope }
  (count, s.persistIf o h (scope.isNone || count != 0))

/-- `annotate(target, annotations)` under the lock. -/
def Breaker.annotate (o : Options) (h : Host) (target : Target) (annotations : Annotations)
    (s : Breaker) : Status × Breaker :=
  let es := updateIf (·.key = keyOf target) (fun e => { e with annotations := some annotations })
    (ensure target s.entries)
  let status := (get (keyOf target) es).elim (closedStatus target) Circuit.statusOf
  (status, { s with entries := prune o es }.persist o h)

/-- `listStatuses(options)` under the lock. -/
def Breaker.listStatuses (o : Options) (h : Host) (includeClosed : Bool) (s : Breaker) :
    List Status × Breaker :=
  let s := (s.now o h.raw).refresh o h fun _ => true
  let shown := s.entries.filter fun e => includeClosed || e.state != .closed
  ((shown.insertionSort (h.localeLe ·.key ·.key)).map Circuit.statusOf, s)

/-- One operation, from its public arguments to its answer. -/
def Breaker.perform (o : Options) (h : Host) (s : Breaker) (call : Call) : Answer × Breaker :=
  let s := s.locked o h
  let onTarget := fun (input : Target) (op : Target → Answer × Breaker) =>
    match normalizeTarget input with
    | none => (Answer.typeError, s)
    | some target => op target
  match call with
  | .tryAcquire input => onTarget input fun target =>
    let (d, s) := s.tryAcquire o h target
    (.decision d, s)
  | .recordFailure input error options => onTarget input fun target =>
    let (st, s) := s.recordFailure o h target error options
    (.status st, s)
  | .recordSuccess input lease => onTarget input fun target =>
    let (st, s) := s.recordSuccess o h target lease
    (.status st, s)
  | .status input => onTarget input fun target =>
    let (st, s) := s.statusOf o h h.raw target
    (.status st, s)
  | .reset none =>
    let (n, s) := s.reset o h none
    (.count n, s)
  | .reset (some input) => onTarget input fun target =>
    let (n, s) := s.reset o h (some target)
    (.count n, s)
  | .annotate input annotations => onTarget input fun target =>
    let (st, s) := s.annotate o h target annotations
    (.status st, s)
  | .listStatuses includeClosed =>
    let (l, s) := s.listStatuses o h includeClosed
    (.statuses l, s)

/-- `new ProviderCircuitBreaker(options)`: the records it loads are replaced by the first call. -/
def Breaker.start (o : Options) (h : Host) (file : Option PersistedStore) : Breaker :=
  { lastClockMs := h.raw, file : Breaker }.locked o h

/-- The breaker as a machine: one call with what the host supplies during it. -/
def machine (o : Options) : Machine Breaker (Host × Call) Answer where
  step := fun s a => s.perform o a.1 a.2

end NexusCode.Circuit
