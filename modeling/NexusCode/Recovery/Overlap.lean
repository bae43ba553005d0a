/-
  Streaming removal of the overlap between a partial answer and its continuation.

  A provider that continues an answer may repeat its end first.  The deduplicator holds back what
  it has received while that could still be a prefix of a suffix of the existing answer, and then
  drops the largest suffix that was repeated in full.

  Texts are lists of code points of an arbitrary type: nothing but equality is asked of them.
-/
import NexusCode.Recovery.Plan

namespace NexusCode.Recovery

/-- The state of a `ContinuationOverlapDeduplicator`. -/
structure Overlap (α : Type) where
  /-- The suffixes of the existing text, shortest first. -/
  suffixes : List (List α)
  pending : List α := []
  resolved : Bool := false

namespace Overlap

variable {α : Type} [DecidableEq α]

/-- `new ContinuationOverlapDeduplicator(existing, maxOverlapCodePoints)`. -/
def start (existing : List α) (maxOverlapCodePoints : Nat) : Overlap α where
  suffixes := (List.range (min existing.length maxOverlapCodePoints)).map fun n =>
    existing.drop (existing.length - (n + 1))

/-- A suffix and the pending text agree as far as both go. -/
def agrees (suffix pending : List α) : Bool :=
  (suffix.zip pending).all fun p => p.1 = p.2

/-- `resolve(final)`: what may be shown now. -/
def resolve (final : Bool) (o : Overlap α) : Overlap α × List α :=
  if o.resolved then (o, [])
  else
    let matching := o.suffixes.filter fun s => agrees s o.pending
    let undecided := final = false ∧ matching.any fun s => o.pending.length < s.length
    let covered := final = false ∧ ∃ largest ∈ matching.getLast?, o.pending.length ≤ largest.length
    if undecided ∨ covered then (o, [])
    else
      let complete := matching.filter fun s => s.length ≤ o.pending.length
      let overlap := (complete.getLast?.map List.length).getD 0
      ({ o with pending := [], resolved := true }, o.pending.drop overlap)

/-- `push(chunk)`. -/
def push (chunk : List α) (o : Overlap α) : Overlap α × List α :=
  if o.resolved then (o, chunk) else resolve false { o with pending := o.pending ++ chunk }

/-- `finish()`. -/
def finish (o : Overlap α) : Overlap α × List α := resolve true o

end Overlap

end NexusCode.Recovery
