/-
  Answered turns in the durable transcript, over any number of sessions.

  A list of turns is laid out in a table (`Laid`) when their sequence numbers ascend, two apart,
  and everything stored of them is in the table.

  1. `Laid.snoc`, `Laid.replace`, `Laid.sublist` — a new turn above all others, a changed turn,
     and turns that are forgotten keep a table laid out.
  2. `Laid.load` — what is stored of laid out turns is loaded, unchanged and in order.
  3. `Inv` — of a state: the answered turns of the closed sessions, followed by all turns of the
     open one, are laid out, and the counter is above the turns of the open session.  Every call
     keeps it, except a new turn whose number is not above the stored answers (`NoOverwrite`).
  4. **`answered_turns_stored`** — in every run without such a turn, every answered turn is still
     returned.
  5. **`resumed_turn_overwrites`** — an answered turn that is gone after a resume.
-/
import NexusCode.Engine.Session

namespace NexusCode.Engine

open Lib Shared List

variable {redact : List ContentBlock → List ContentBlock}

variable (redact) in
/-- The rows stored of a turn. -/
def Turn.rows (turn : Turn) : List Row :=
  rowsOf redact turn.turnSeq turn.input ++ rowsOf redact (turn.turnSeq + 1) turn.reply

theorem Turn.rows_message (turn : Turn) :
    (turn.rows redact).map (·.message) = turn.messages.map (stored redact) := by
  unfold Turn.rows Turn.messages rowsOf
  rw [map_append, map_append, rowsFrom_message, rowsFrom_message]

variable {turn : Turn}

theorem Turn.seq_of_mem_rows {r : Row} (h : r ∈ turn.rows redact) :
    r.seq = turn.turnSeq ∨ r.seq = turn.turnSeq + 1 := by
  rcases mem_append.mp h with h | h
  · exact .inl (seq_of_mem_rowsOf h)
  · exact .inr (seq_of_mem_rowsOf h)

theorem Turn.pairwise_rows (turn : Turn) : (turn.rows redact).Pairwise rowLt := by
  refine pairwise_append.mpr ⟨pairwise_rowsFrom _ _ _, pairwise_rowsFrom _ _ _, ?_⟩
  intro a ha b hb
  have hseqa := seq_of_mem_rowsOf ha
  have hseqb := seq_of_mem_rowsOf hb
  exact .inl (by omega)

/-! ## Laid out turns -/

variable (redact) in
/-- The turns own ascending pairs of sequence numbers, and what is stored of them is there. -/
structure Laid (table : List Row) (turns : List Turn) : Prop where
  apart : (turns.map (·.turnSeq)).Pairwise fun a b => a + 1 < b
  inTable : ∀ turn ∈ turns, turn.rows redact ⊆ table

theorem Laid.nil (table : List Row) : Laid redact table [] :=
  ⟨List.Pairwise.nil, fun _ => nofun⟩

variable {table : List Row}

theorem Laid.sublist {turns turns' : List Turn} (h : Laid redact table turns)
    (hsub : turns'.Sublist turns) : Laid redact table turns' :=
  ⟨h.apart.sublist (hsub.map _), fun turn hturn => h.inTable turn (hsub.subset hturn)⟩

/-- A turn's rows stay where they are when rows are appended at other numbers. -/
theorem Turn.rows_subset_append {seq : Nat}
    {messages : List Message} (h : turn.rows redact ⊆ table) (hseq : turn.turnSeq ≠ seq)
    (hseq' : turn.turnSeq + 1 ≠ seq) :
    turn.rows redact ⊆ appendTranscript redact seq messages table := by
  obtain ⟨hinput, hreply⟩ := append_subset.mp h
  exact append_subset.mpr
    ⟨subset_append_of_ne hinput hseq, subset_append_of_ne hreply hseq'⟩

/-- **A new turn above all others.** -/
theorem Laid.snoc {turns : List Turn} (h : Laid redact table turns)
    {seq : Nat} {fresh : List Held} (habove : ∀ turn ∈ turns, turn.turnSeq + 1 < seq) :
    Laid redact (appendTranscript redact seq (fresh.map (·.message)) table)
      (turns ++ [{ turnSeq := seq, freshMessages := fresh }]) := by
  refine ⟨?_, fun turn hturn => ?_⟩
  · rw [map_append, pairwise_append]
    refine ⟨h.apart, pairwise_singleton _ _, ?_⟩
    intro a ha b hb
    obtain ⟨turn, hturn, rfl⟩ := mem_map.mp ha
    rw [mem_singleton.mp hb]
    exact habove turn hturn
  · rcases mem_append.mp hturn with hturn | hturn
    · have hlt := habove turn hturn
      exact Turn.rows_subset_append (h.inTable turn hturn) (by omega) (by omega)
    · rw [mem_singleton.mp hturn]
      exact append_subset.mpr ⟨subset_append _ _ _, fun r hr => nomatch hr⟩

/-- **A turn that changes.**  If its new rows are in the new table, and the rows at other numbers
    were left alone, the turns are laid out as before. -/
theorem Laid.replace {table' : List Row} {before after : List Turn} {turn' : Turn}
    (h : Laid redact table (before ++ turn :: after)) (hseq : turn'.turnSeq = turn.turnSeq)
    (hown : turn'.rows redact ⊆ table')
    (hothers : ∀ other : Turn, other.rows redact ⊆ table →
      (other.turnSeq + 1 < turn.turnSeq ∨ turn.turnSeq + 1 < other.turnSeq) →
      other.rows redact ⊆ table') :
    Laid redact table' (before ++ turn' :: after) := by
  have hmap : (before ++ turn' :: after).map (·.turnSeq)
      = (before ++ turn :: after).map (·.turnSeq) := by
    rw [map_append, map_append, map_cons, map_cons, hseq]
  refine ⟨hmap ▸ h.apart, fun other hother => ?_⟩
  have hapart := h.apart
  rw [map_append, map_cons, pairwise_append, pairwise_cons] at hapart
  obtain ⟨-, ⟨hafter, -⟩, hbefore⟩ := hapart
  rcases mem_append.mp hother with hmem | hmem
  · refine hothers other (h.inTable other (mem_append_left _ hmem)) (Or.inl ?_)
    exact hbefore _ (mem_map_of_mem hmem) _ mem_cons_self
  · rcases mem_cons.mp hmem with rfl | hmem
    · exact hown
    · refine hothers other ?_ (Or.inr (hafter _ (mem_map_of_mem hmem)))
      exact h.inTable other (mem_append_right _ (mem_cons_of_mem _ hmem))

/-- **What is stored of laid out turns is loaded**, unchanged and in order. -/
theorem Laid.load {turns : List Turn} (h : Laid redact table turns) :
    ((turns.flatMap (·.messages)).map (stored redact)).Sublist (loadTranscript table) := by
  have hrows : (turns.flatMap (·.rows redact)).Pairwise rowLt := by
    refine pairwise_flatMap.mpr ⟨fun turn _ => turn.pairwise_rows, ?_⟩
    refine (pairwise_map.mp h.apart).imp ?_
    intro turn turn' hlt a ha b hb
    have hseqa := Turn.seq_of_mem_rows ha
    have hseqb := Turn.seq_of_mem_rows hb
    exact .inl (by omega)
  have hsub : turns.flatMap (·.rows redact) ⊆ table := by
    intro r hr
    obtain ⟨turn, hturn, hr⟩ := mem_flatMap.mp hr
    exact h.inTable turn hturn hr
  have hmap : (turns.flatMap (·.rows redact)).map (·.message)
      = (turns.flatMap (·.messages)).map (stored redact) := by
    rw [map_flatMap, map_flatMap]
    exact congrArg (fun f => turns.flatMap f) (funext Turn.rows_message)
  exact hmap ▸ sublist_loadTranscript hrows hsub

/-! ## The invariant -/

/-- The turns that matter: answered ones of closed sessions, and those of the open session, which
    may still be answered. -/
def State.kept (σ : State) : List Turn :=
  σ.closed.filter (·.isAnswered) ++ if σ.session.history.enabled then σ.session.turns else []

variable (redact) in
/-- What every reachable state has, as long as no new turn overwrites an answer. -/
structure Inv (σ : State) : Prop where
  laid : Laid redact σ.table σ.kept
  below : σ.session.history.enabled = true →
    ∀ turn ∈ σ.session.turns, turn.turnSeq + 1 < σ.session.seq
  forgetful : σ.session.history.enabled = false → ∀ turn ∈ σ.session.turns, turn.reply = []

/-- A new turn's number is above every number that holds an answered turn of an earlier
    session. -/
def NoOverwrite (σ : State) : Op → Prop
  | .newTurn .. => σ.session.history.enabled = true →
      ∀ turn ∈ σ.closed, turn.isAnswered = true → turn.turnSeq + 1 < σ.session.seq
  | _ => True

instance (σ : State) (op : Op) : Decidable (NoOverwrite σ op) := by
  cases op <;> (unfold NoOverwrite; infer_instance)

theorem Inv.opened (history : History) : Inv redact (State.opened history) := by
  refine ⟨?_, fun _ _ => nofun, fun _ _ => nofun⟩
  have hkept : (State.opened history).kept = [] := by
    show [] ++ ite _ [] [] = []
    rw [ite_self]
    rfl
  rw [hkept]
  exact Laid.nil _

variable {σ : State}

theorem Inv.answered_sublist (h : Inv redact σ) :
    ((σ.closed ++ σ.session.turns).filter (·.isAnswered)).Sublist σ.kept := by
  rw [filter_append]
  unfold State.kept
  refine List.Sublist.append_left ?_ _
  split
  · exact filter_sublist
  · rename_i hdisabled
    have hforget := h.forgetful (Bool.not_eq_true _ ▸ hdisabled)
    have hnone : σ.session.turns.filter (·.isAnswered) = [] := by
      refine filter_eq_nil_iff.mpr fun turn hturn hanswered => ?_
      rw [Turn.isAnswered, hforget turn hturn] at hanswered
      nomatch hanswered
    exact hnone ▸ nil_sublist _

/-- A changed turn of the open session keeps the invariant, if the table changes as it should. -/
theorem Inv.replaceTurn (h : Inv redact σ) (henabled : σ.session.history.enabled = true)
    {k : Nat} (hturn : σ.session.turns[k]? = some turn) (turn' : Turn)
    (hseq : turn'.turnSeq = turn.turnSeq) {table' : List Row} (hown : turn'.rows redact ⊆ table')
    (hothers : ∀ other : Turn, other.rows redact ⊆ σ.table →
      (other.turnSeq + 1 < turn.turnSeq ∨ turn.turnSeq + 1 < other.turnSeq) →
      other.rows redact ⊆ table')
    {σ' : State} (htable : σ'.table = table') (hclosed : σ'.closed = σ.closed)
    (hhistory : σ'.session.history = σ.session.history)
    (hcount : σ'.session.seq = σ.session.seq)
    (hturns : σ'.session.turns = σ.session.turns.set k turn') : Inv redact σ' := by
  obtain ⟨hk, hget⟩ := List.getElem?_eq_some_iff.mp hturn
  have hsplit : σ.session.turns
      = σ.session.turns.take k ++ turn :: σ.session.turns.drop (k + 1) := by
    rw [← hget, getElem_cons_drop, take_append_drop]
  have hset : σ.session.turns.set k turn'
      = σ.session.turns.take k ++ turn' :: σ.session.turns.drop (k + 1) :=
    set_eq_take_append_cons_drop.trans (if_pos hk)
  have hlaid := h.laid
  unfold State.kept at hlaid
  rw [if_pos henabled, hsplit, ← append_assoc] at hlaid
  refine ⟨?_, fun _ other hother => ?_, fun hdisabled => ?_⟩
  · unfold State.kept
    rw [hhistory, if_pos henabled, hclosed, hturns, hset, ← append_assoc, htable]
    exact hlaid.replace hseq hown hothers
  · rw [hcount]
    rw [hturns] at hother
    rcases mem_or_eq_of_mem_set hother with hmem | rfl
    · exact h.below henabled other hmem
    · rw [hseq]
      exact h.below henabled turn (mem_of_getElem? hturn)
  · rw [hhistory, henabled] at hdisabled
    nomatch hdisabled

/-! ## Steps -/

theorem Inv.newTurn (h : Inv redact σ) (input : TurnInput) (reading : Option JsNumber)
    (hover : NoOverwrite σ (.newTurn input reading)) :
    Inv redact (σ.newTurn redact input reading) := by
  unfold State.newTurn
  have hlaid := h.laid
  unfold State.kept at hlaid
  dsimp only
  split
  · rename_i henabled
    rw [if_pos henabled] at hlaid
    have habove : ∀ turn ∈ σ.closed.filter (·.isAnswered) ++ σ.session.turns,
        turn.turnSeq + 1 < σ.session.seq := by
      intro turn hturn
      rcases mem_append.mp hturn with hmem | hmem
      · obtain ⟨hmem, hanswered⟩ := mem_filter.mp hmem
        exact hover henabled turn hmem hanswered
      · exact h.below henabled turn hmem
    refine ⟨?_, fun _ turn hturn => ?_, fun hdisabled => ?_⟩
    · unfold State.kept
      dsimp only
      rw [if_pos henabled, ← append_assoc]
      exact hlaid.snoc habove
    · rcases mem_append.mp hturn with hmem | hmem
      · exact Nat.lt_add_right 2 (h.below henabled turn hmem)
      · rw [mem_singleton.mp hmem]
        exact Nat.lt_succ_self _
    · exact absurd (henabled.symm.trans hdisabled) nofun
  · rename_i henabled
    rw [if_neg henabled] at hlaid
    refine ⟨?_, fun henabled' => absurd henabled' henabled, fun hdisabled turn hturn => ?_⟩
    · unfold State.kept
      dsimp only
      rw [if_neg henabled]
      exact hlaid
    · rcases mem_append.mp hturn with hmem | hmem
      · exact h.forgetful hdisabled turn hmem
      · rw [mem_singleton.mp hmem]

theorem Inv.recordReply (h : Inv redact σ) {k : Nat}
    (hturn : σ.session.turns[k]? = some turn) (reply : List Held) (reading : Option JsNumber) :
    Inv redact (σ.recordReply redact k turn reply reading) := by
  unfold State.recordReply
  dsimp only
  split
  · exact h
  · rename_i hgo
    obtain ⟨henabled, -⟩ : σ.session.history.enabled = true ∧ reply.isEmpty = false := by
      simpa using hgo
    refine h.replaceTurn henabled hturn
      { turn with recorded := reply, reply := reply.map (·.message) }
      rfl ?_ ?_ rfl rfl rfl rfl rfl
    · have hrows := h.laid.inTable turn (by
        unfold State.kept
        rw [if_pos henabled]
        exact mem_append_right _ (mem_of_getElem? hturn))
      refine append_subset.mpr ⟨?_, subset_append _ _ _⟩
      exact subset_append_of_ne (append_subset.mp hrows).1 (Nat.ne_of_lt (Nat.lt_succ_self _))
    · intro other hother hne
      exact Turn.rows_subset_append hother (by omega) (by omega)

theorem Inv.rollback (h : Inv redact σ) {k : Nat}
    (hturn : σ.session.turns[k]? = some turn) :
    Inv redact (σ.rollbackUnansweredInput redact k turn) := by
  unfold State.rollbackUnansweredInput
  dsimp only
  split
  · exact h
  · rename_i hgo
    obtain ⟨henabled, -⟩ : σ.session.history.enabled = true ∧ turn.rolledBack = false := by
      simpa using hgo
    refine h.replaceTurn henabled hturn { turn with rolledBack := true, reply := [] }
      rfl ?_ ?_ rfl rfl rfl rfl rfl
    · exact fun r hr => nomatch hr
    · intro other hother hne
      refine Turn.rows_subset_append ?_ (by omega) (by omega)
      exact Turn.rows_subset_append hother (by omega) (by omega)

theorem Inv.record (h : Inv redact σ) {k : Nat}
    (hturn : σ.session.turns[k]? = some turn) (reply : TurnReply) (reading : Option JsNumber) :
    Inv redact (σ.record redact k turn reply reading) := by
  unfold State.record
  dsimp only
  split
  · exact h.recordReply hturn _ reading
  · split
    · exact h.rollback hturn
    · exact h

theorem Inv.resume (h : Inv redact σ) (history : History)
    (reading : Option JsNumber) : Inv redact (σ.resume history reading) := by
  have hsub := h.answered_sublist
  unfold State.resume
  dsimp only
  split
  · refine ⟨?_, fun _ _ => nofun, fun _ _ => nofun⟩
    unfold State.kept
    dsimp only
    rw [ite_self, append_nil]
    exact h.laid.sublist hsub
  · refine ⟨?_, fun _ _ => nofun, fun _ _ => nofun⟩
    unfold State.kept
    dsimp only
    rw [ite_self, append_nil]
    exact h.laid.sublist hsub

/-- **Every call that does not overwrite keeps the invariant.** -/
theorem Inv.perform (h : Inv redact σ) (op : Op) (hover : NoOverwrite σ op) :
    Inv redact (σ.perform redact op) := by
  cases op with
  | newTurn input reading => exact h.newTurn input reading hover
  | record k reply reading =>
    unfold State.perform
    dsimp only
    split
    · rename_i turn hturn
      exact h.record hturn reply reading
    · exact h
  | summarize k result reading =>
    unfold State.perform
    dsimp only
    split
    · rename_i turn hturn
      exact h.recordReply hturn _ reading
    · exact h
  | setTranscript messages reading => exact ⟨h.laid, h.below, h.forgetful⟩
  | resume history reading => exact h.resume history reading

/-! ## Runs -/

/-- **Answered turns are never overwritten**, in every run in which each new turn's number is above
    the numbers of the answered turns of earlier sessions. -/
theorem answered_turns_stored (redact : List ContentBlock → List ContentBlock) (history : History)
    (ops : List Op) (hok : (machine redact).Always NoOverwrite (State.opened history) ops) :
    ((answeredMessages ((machine redact).run (State.opened history) ops)).map
      (stored redact)).Sublist
      (loadTranscript ((machine redact).run (State.opened history) ops).table) := by
  have hinv : Inv redact ((machine redact).run (State.opened history) ops) :=
    hok.invariant (fun σ op h hover => h.perform op hover) (Inv.opened history)
  generalize (machine redact).run (State.opened history) ops = σ at hinv ⊢
  exact (hinv.laid.sublist hinv.answered_sublist).load

/-- A turn with the given prompt. -/
def ask (prompt : String) : Op := .newTurn { prompt := some prompt } none

/-- A turn that fails, a turn that is answered, and one more turn after a resume. -/
def lostTurn : List Op :=
  [ask "a", .record 0 (.result ⟨.error, "", none⟩) none, ask "b", .record 1 (.text "B") none,
    .resume {} none, ask "c"]

/-- **The turn after the resume takes the number of the answered one**, whose two messages make the
    counter start at two. -/
theorem resumed_turn_overwrites :
    ¬ ((answeredMessages ((machine id).run (State.opened {}) lostTurn)).map (stored id)).Sublist
      (loadTranscript ((machine id).run (State.opened {}) lostTurn).table) := by
  intro h
  have hasked : "b" ∈ ((answeredMessages ((machine id).run (State.opened {}) lostTurn)).map
      (stored id)).map textOf := by
    decide +kernel
  have hgone : "b" ∉ (loadTranscript ((machine id).run (State.opened {}) lostTurn).table).map
      textOf := by
    decide +kernel
  exact hgone ((h.map textOf).subset hasked)

/-- Two answered turns and a question, in three sessions. -/
def resumedTwice : List Op :=
  [ask "a", .record 0 (.text "A") none, .resume {} none, ask "b", .record 0 (.text "B") none,
    .resume {} none, ask "c"]

theorem answered_turns_stored_resumedTwice :
    ((answeredMessages ((machine id).run (State.opened {}) resumedTwice)).map (stored id)).Sublist
      (loadTranscript ((machine id).run (State.opened {}) resumedTwice).table) :=
  answered_turns_stored id {} resumedTwice (by decide +kernel)

end NexusCode.Engine
