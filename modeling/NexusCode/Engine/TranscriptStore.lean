/-
  The durable transcript: the table `turn_message` of one session.

  Appending at a sequence number first deletes the rows of that number; loading returns every
  row, ordered by sequence number and then by index.  The store redacts the content of what it
  writes; `redact` stands for that pass.

  A group of messages is in the table when all its rows are (`rowsOf … ⊆ table`).  Appending
  puts its own group in (`subset_append`) and leaves the groups of other numbers alone
  (`subset_append_of_ne`).  **`sublist_loadTranscript`**: groups in the table whose sequence
  numbers ascend come back unchanged and in that order, whatever else the table holds.
-/
import NexusCode.Engine.Transcript
import NexusCode.Lib.Ordered

namespace NexusCode.Engine

open Lib Shared List

/-- A row of `turn_message`. -/
structure Row where
  seq : Nat
  idx : Nat
  message : Message

variable (redact : List ContentBlock → List ContentBlock)

/-- The message as the store keeps it. -/
def stored (message : Message) : Message := { message with content := redact message.content }

/-- The rows of a group, numbered from `idx`. -/
def rowsFrom (seq : Nat) : Nat → List Message → List Row
  | _, [] => []
  | idx, message :: rest => ⟨seq, idx, stored redact message⟩ :: rowsFrom seq (idx + 1) rest

/-- The rows one call inserts. -/
def rowsOf (seq : Nat) (messages : List Message) : List Row := rowsFrom redact seq 0 messages

/-- `appendTranscript({ seq, messages })`. -/
def appendTranscript (seq : Nat) (messages : List Message) (table : List Row) : List Row :=
  table.filter (fun r => r.seq != seq) ++ rowsOf redact seq messages

/-- `ORDER BY seq ASC, idx ASC`. -/
def rowLe (a b : Row) : Prop := a.seq < b.seq ∨ a.seq = b.seq ∧ a.idx ≤ b.idx

/-- The strict part of the order. -/
def rowLt (a b : Row) : Prop := a.seq < b.seq ∨ a.seq = b.seq ∧ a.idx < b.idx

instance : DecidableRel rowLe := fun a b => by unfold rowLe; infer_instance

/-- `loadTranscript()`. -/
def loadTranscript (table : List Row) : List Message :=
  (table.insertionSort rowLe).map (·.message)

/-! ## Groups -/

variable {redact}

theorem rowsFrom_message (seq idx : Nat) (messages : List Message) :
    (rowsFrom redact seq idx messages).map (·.message) = messages.map (stored redact) := by
  induction messages generalizing idx with
  | nil => rfl
  | cons m rest ih => exact congrArg _ (ih (idx + 1))

theorem mem_rowsFrom {seq idx : Nat} {messages : List Message} {r : Row}
    (h : r ∈ rowsFrom redact seq idx messages) : r.seq = seq ∧ idx ≤ r.idx := by
  induction messages generalizing idx with
  | nil => nomatch h
  | cons m rest ih =>
    rcases mem_cons.mp h with rfl | h
    · exact ⟨rfl, Nat.le_refl _⟩
    · obtain ⟨hseq, hidx⟩ := ih h
      exact ⟨hseq, by omega⟩

theorem seq_of_mem_rowsOf {seq : Nat} {messages : List Message} {r : Row}
    (h : r ∈ rowsOf redact seq messages) : r.seq = seq := (mem_rowsFrom h).1

theorem pairwise_rowsFrom (seq idx : Nat) (messages : List Message) :
    (rowsFrom redact seq idx messages).Pairwise rowLt := by
  induction messages generalizing idx with
  | nil => exact List.Pairwise.nil
  | cons m rest ih =>
    refine pairwise_cons.mpr ⟨fun r hr => ?_, ih (idx + 1)⟩
    obtain ⟨hseq, hidx⟩ := mem_rowsFrom hr
    exact .inr ⟨hseq.symm, hidx⟩

theorem subset_append (seq : Nat) (messages : List Message) (table : List Row) :
    rowsOf redact seq messages ⊆ appendTranscript redact seq messages table :=
  subset_append_right _ _

/-- **Appending replaces the rows of its own sequence number only.** -/
theorem subset_append_of_ne {seq seq' : Nat} {group messages : List Message} {table : List Row}
    (h : rowsOf redact seq group ⊆ table) (hne : seq ≠ seq') :
    rowsOf redact seq group ⊆ appendTranscript redact seq' messages table := by
  intro r hr
  refine mem_append_left _ (mem_filter.mpr ⟨h hr, ?_⟩)
  rw [seq_of_mem_rowsOf hr]
  exact bne_iff_ne.mpr hne

/-! ## Loading -/

theorem pairwise_sorted (table : List Row) : (table.insertionSort rowLe).Pairwise rowLe := by
  have : Std.Total rowLe := ⟨fun a b => by unfold rowLe; omega⟩
  have : IsTrans Row rowLe := ⟨fun a b c hab hbc => by unfold rowLe at *; omega⟩
  exact pairwise_insertionSort rowLe table

/-- **Rows in strict order come back unchanged and in that order.** -/
theorem sublist_loadTranscript {rows table : List Row} (hrows : rows.Pairwise rowLt)
    (hsub : rows ⊆ table) : (rows.map (·.message)).Sublist (loadTranscript table) := by
  refine List.Sublist.map _ (Ordered.sublist_of_subset ?_ ?_ hrows (pairwise_sorted table) ?_)
  · intro a b hab hba
    unfold rowLt at hab
    unfold rowLe at hba
    omega
  · intro a haa
    unfold rowLt at haa
    omega
  · intro r hr
    exact (mem_insertionSort rowLe).mpr (hsub hr)

end NexusCode.Engine
