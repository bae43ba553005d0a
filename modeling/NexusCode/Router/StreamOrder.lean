/-
  A recovered stream and the order of its chunks.

  The overlap matcher of a continuation may hold text back for any number of chunks while the other
  chunks pass, and lets it out at the next text that decides, or at the terminal chunk.

  1. `Quiet`, `Flowing` — an attempt that has shown none of the answer, and one past the overlap.
  2. `quiet_step`, `release_step`, `run_flowing` — what a chunk does to each.
  3. `run_streamed` — an attempt shows its stream in one of the ways of `Streamed`.
  4. **`continuation_in_order_iff`** — in every run the chunks of a continuation keep their order if
     and only if its stream is `Orderly`.
  5. **`text_behind_tool_call`** — text that comes out behind a tool call it was sent before.
-/
import NexusCode.Router.PublicStream
import NexusCode.Router.StreamItems

namespace NexusCode.Router

open Lib Shared Recovery List Bool

/-! ## The chunks of one candidate -/

/-- The chunks that come from the stream of a candidate. -/
def ownChunks (i : Nat) (out : List Emission) : List StreamChunk :=
  (out.filter (·.origin = some i)).map (·.chunk)

theorem ownChunks_append (i : Nat) (out out' : List Emission) :
    ownChunks i (out ++ out') = ownChunks i out ++ ownChunks i out' := by
  rw [ownChunks, filter_append, map_append]
  rfl

theorem ownChunks_own (i : Nat) (l : List StreamChunk) :
    ownChunks i (l.map (Emission.mk (some i))) = l := by
  have hall : (l.map (Emission.mk (some i))).filter (·.origin = some i) =
      l.map (Emission.mk (some i)) := by
    refine filter_eq_self.mpr fun e he => ?_
    obtain ⟨c, -, rfl⟩ := mem_map.mp he
    exact decide_eq_true rfl
  rw [ownChunks, hall, map_chunk_mk]

theorem ownChunks_other {i : Nat} {out : List Emission} (h : ∀ e ∈ out, e.origin ≠ some i) :
    ownChunks i out = [] := by
  have hnone : out.filter (·.origin = some i) = [] :=
    filter_eq_nil_iff.mpr fun e he => by
      rw [decide_eq_true_eq]
      exact h e he
  rw [ownChunks, hnone]
  rfl

/-- The terminal chunk may be handed over, before there was real output: it is an eligible error,
    and there is a next candidate. -/
def handsOver (env : Env) (hasNext : Bool) (t : StreamChunk) : Bool :=
  match t.error? with
  | some error => hasNext && env.eligible error
  | none => false

/-! ## Quiet and flowing attempts -/

section Attempts

variable {env : Env} {turn : Turn} {existing : List Char} {a : Attempt}
  {front : List StreamChunk} {c : StreamChunk}

/-- What the matcher looks at of the existing text. -/
abbrev overlapLimit : Nat := DEFAULT_MAX_PARTIAL_CONTEXT_CODE_POINTS

/-- An attempt that has read some chunks and shown none of the answer. -/
structure Quiet (existing : List Char) (a : Attempt) (front : List StreamChunk) : Prop where
  overlap : ∃ o, a.overlap = some o ∧ Overlap.Reading existing overlapLimit o (answerText front)
  unfinished : a.overlapFinished = false
  committed : a.committed = front.any isReal
  preamble : a.preamble = if front.any isReal then [] else front.filter isPreambleChunk
  open_ : NoTerminal front
  held : answerText front <:+: recent existing overlapLimit

/-- An attempt past the overlap. -/
structure Flowing (a : Attempt) : Prop where
  overlap : ∃ o, a.overlap = some o ∧ o.resolved = true
  committed : a.committed = true
  preamble : a.preamble = []

/-- What a quiet attempt has shown. -/
def shownOf (front : List StreamChunk) : List StreamChunk :=
  if front.any isReal then publicFrom false front else []

/-- What it holds of the other chunks. -/
def heldOf (front : List StreamChunk) : List StreamChunk :=
  if front.any isReal then [] else publicFrom false front

theorem shownOf_append_heldOf (front : List StreamChunk) :
    shownOf front ++ heldOf front = publicFrom false front := by
  unfold shownOf heldOf
  split
  · exact append_nil _
  · exact nil_append _

variable (env) in
theorem quiet_start {plan : PartialRecoveryPlan} (hr : turn.recovery = some plan) :
    Quiet plan.checkpoint.assistantText.toList (startAttempt env turn) [] where
  overlap := by
    refine ⟨_, ?_, Overlap.Reading.start _ overlapLimit⟩
    show turn.recovery.map _ = _
    rw [hr]
    rfl
  unfinished := rfl
  committed := rfl
  preamble := rfl
  open_ := fun d hd => absurd hd not_mem_nil
  held := nil_infix

theorem flush_eq (hr : turn.recovery.isSome = true) (h : Quiet existing a front) :
    flushPreamble turn a.preamble = heldOf front := by
  rw [h.preamble]
  unfold heldOf flushPreamble
  split
  · rfl
  · rename_i hreal
    rw [not_eq_true] at hreal
    -- what is neither answer nor real nor terminal is preamble
    have hpreamble : front.filter isPreambleChunk = otherChunks front := by
      refine filter_congr fun d hd => ?_
      have hnotReal := any_eq_false.mp hreal d hd
      rw [isReal, h.open_ d hd] at hnotReal
      cases hp : isPreambleChunk d with
      | true => rw [isAnswer_of_preamble hp]; rfl
      | false =>
        rw [hp] at hnotReal
        cases hanswer : isAnswer d with
        | true => rfl
        | false =>
          rw [hanswer] at hnotReal
          exact absurd rfl hnotReal
    rw [hpreamble, publicFrom_of_noReal hreal, hr]
    have hstamp : ∀ d ∈ (otherChunks front).filter
        (fun p => !(true && (p.isRunStart || p.isSessionInit))),
        stampFailover turn.trail d = d := fun d hd => by
      refine stampFailover_of_not_runStart ?_
      have hnot := (mem_filter.mp hd).2
      rw [Bool.true_and, not_eq_true', or_eq_false_iff] at hnot
      exact hnot.1
    rw [map_congr_left hstamp, map_id'']
    · rfl
    · exact fun _ => rfl

theorem deduplicate_other (hc : isAnswer c = false) : deduplicate turn c a = (a, some c) := by
  unfold deduplicate
  split
  · rename_i text channel overlap hbody _
    have hchannel : channel = some .reasoning := by
      unfold isAnswer at hc
      rw [hbody] at hc
      simpa using hc
    rw [if_pos hchannel]
  · rfl

variable (turn) in
theorem deduplicate_answer {o o' : Overlap Char} {shown : List Char} (hc : isAnswer c = true)
    (ho : a.overlap = some o) (hpush : o.push (answerOf c) = (o', shown)) :
    (shown = [] ∧ deduplicate turn c a = ({ a with overlap := some o' }, none)) ∨
      shown ≠ [] ∧ ∃ c', deduplicate turn c a = ({ a with overlap := some o' }, some c') ∧
        isAnswer c' = true ∧ answerOf c' = shown ∧ c'.isTerminal = false ∧
        isPreambleChunk c' = false := by
  obtain ⟨runId, body, raw⟩ := c
  cases body with
  | textDelta text channel =>
    have hchannel : channel ≠ some .reasoning := by simpa [isAnswer] using hc
    have htext : answerOf { runId, body := .textDelta text channel, raw } = text.toList :=
      if_neg hchannel
    rw [htext] at hpush
    unfold deduplicate
    dsimp only
    rw [ho]
    dsimp only
    rw [if_neg hchannel, hpush]
    dsimp only
    by_cases hshown : shown = []
    · rw [if_pos hshown]
      exact .inl ⟨hshown, rfl⟩
    · rw [if_neg hshown]
      refine .inr ⟨hshown, _, rfl, hc, ?_, rfl, rfl⟩
      unfold answerOf
      dsimp only
      rw [if_neg hchannel, String.toList_ofList]
  | _ => cases hc

theorem onChunk_swallow {a' : Attempt} (h : deduplicate turn c a = (a', none)) :
    onChunk env turn a c = ([], .inl a') := by
  unfold onChunk
  rw [h]

theorem onChunk_pass {a' : Attempt} {c' : StreamChunk} (h : deduplicate turn c a = (a', some c'))
    (hterm : c'.isTerminal = false) :
    onChunk env turn a c = receive env turn c' (a'.observe env c') := by
  unfold onChunk
  rw [h]
  dsimp only
  rw [hterm, if_neg Bool.false_ne_true]
  rfl

theorem noError_of_open (h : c.isTerminal = false) : c.error? = none := by
  cases herror : c.error? with
  | none => rfl
  | some error =>
    rw [isTerminal_of_error herror] at h
    cases h

theorem noTerminal_concat (hfront : NoTerminal front) (hc : c.isTerminal = false) :
    NoTerminal (front ++ [c]) :=
  noTerminal_append hfront fun d hd => by
    rw [mem_singleton.mp hd]
    exact hc

theorem answerText_snoc (front : List StreamChunk) (c : StreamChunk) :
    answerText (front ++ [c]) = answerText front ++ answerOf c := by
  rw [answerText_append, answerText_cons]
  exact congrArg (answerText front ++ ·) (append_nil _)

theorem any_snoc (front : List StreamChunk) (c : StreamChunk) :
    (front ++ [c]).any isReal = (front.any isReal || isReal c) := by
  rw [any_append, any_cons, any_nil, Bool.or_false]

variable (env) in
/-- **A chunk of an answer that is held back**, or one that passes. -/
theorem quiet_step (hr : turn.recovery.isSome = true) (h : Quiet existing a front)
    (hterm : c.isTerminal = false)
    (hheld : answerText (front ++ [c]) <:+: recent existing overlapLimit) :
    ∃ a' es, onChunk env turn a c = (es, .inl a') ∧ Quiet existing a' (front ++ [c]) ∧
      shownOf (front ++ [c]) = shownOf front ++ es := by
  obtain ⟨o, ho, hreading⟩ := h.overlap
  have hopen := noTerminal_concat h.open_ hterm
  cases hc : isAnswer c with
  | true =>
    have hreal : (front ++ [c]).any isReal = front.any isReal := by
      rw [any_snoc, isReal_of_answer hc, Bool.or_false]
    have hshown : shownOf (front ++ [c]) = shownOf front ++ [] := by
      rw [shownOf, shownOf, hreal, publicFrom_append, publicFrom, hc, Bool.true_or, if_pos rfl,
        append_nil]
      exact congrArg (if front.any isReal then · else []) (append_nil _)
    have hpreamble : (front ++ [c]).filter isPreambleChunk = front.filter isPreambleChunk := by
      rw [filter_append]
      have hnot : isPreambleChunk c = false := by
        rw [← not_eq_true]
        intro hp
        rw [isAnswer_of_preamble hp] at hc
        cases hc
      rw [filter_cons_of_neg (by rw [hnot]; exact Bool.false_ne_true)]
      exact append_nil _
    rcases hreading.push (answerOf c) with ⟨-, o', hpush, hreading'⟩ | ⟨hnot, -⟩
    · rcases deduplicate_answer turn hc ho hpush with ⟨-, hnone⟩ | ⟨hne, -⟩
      · refine ⟨_, [], onChunk_swallow hnone, ⟨⟨o', rfl, ?_⟩, h.unfinished, ?_, ?_, hopen, hheld⟩,
          hshown⟩
        · rw [answerText_snoc]
          exact hreading'
        · rw [hreal]
          exact h.committed
        · rw [hreal, hpreamble]
          exact h.preamble
      · exact absurd rfl hne
    · rw [← answerText_snoc] at hnot
      exact absurd hheld hnot
  | false =>
    have htext : answerText (front ++ [c]) = answerText front := by
      rw [answerText_snoc, answerOf_of_not hc, append_nil]
    have hreceive : onChunk env turn a c = receive env turn c (a.observe env c) :=
      onChunk_pass (deduplicate_other hc) hterm
    have herror := noError_of_open hterm
    rw [hreceive]
    cases hreal : front.any isReal with
    | true =>
      have hcommitted : (a.observe env c).committed = true := h.committed.trans hreal
      rw [receive_committed hcommitted, herror]
      dsimp only
      rw [hterm, if_neg Bool.false_ne_true]
      refine ⟨_, [c], rfl, ⟨⟨o, ho, htext ▸ hreading⟩, h.unfinished, ?_, ?_, hopen, hheld⟩, ?_⟩
      · rw [any_snoc, hreal]
        exact hcommitted
      · have hpreamble := h.preamble
        rw [hreal, if_pos rfl] at hpreamble
        rw [any_snoc, hreal, Bool.true_or, if_pos rfl]
        exact hpreamble
      · rw [shownOf, shownOf, any_snoc, hreal, Bool.true_or, if_pos rfl, if_pos rfl,
          publicFrom_append, hreal, Bool.or_true, publicFrom_true]
        exact congrArg (publicFrom false front ++ ·) (filter_cons_of_pos (by rw [hc]; rfl))
    | false =>
      have hcommitted : (a.observe env c).committed = false := h.committed.trans hreal
      have hpreamble := h.preamble
      rw [hreal, if_neg Bool.false_ne_true] at hpreamble
      rw [receive_uncommitted hcommitted, herror]
      dsimp only
      cases hp : isPreambleChunk c with
      | true =>
        rw [if_pos rfl]
        refine ⟨_, [], rfl, ⟨⟨o, ho, htext ▸ hreading⟩, h.unfinished, ?_, ?_, hopen, hheld⟩, ?_⟩
        · rw [any_snoc, hreal, isReal_of_preamble hp]
          exact hcommitted
        · rw [any_snoc, hreal, isReal_of_preamble hp, Bool.or_false, if_neg Bool.false_ne_true,
            filter_append, filter_cons_of_pos hp, ← hpreamble]
          rfl
        · rw [shownOf, shownOf, any_snoc, hreal, isReal_of_preamble hp, Bool.or_false,
            if_neg Bool.false_ne_true]
          rfl
      | false =>
        have hcReal : isReal c = true := by
          rw [isReal, hc, hp, hterm]
          rfl
        rw [if_neg Bool.false_ne_true, hterm, if_neg Bool.false_ne_true]
        refine ⟨_, _, rfl, ⟨⟨o, ho, htext ▸ hreading⟩, h.unfinished, ?_, ?_, hopen, hheld⟩, ?_⟩
        · rw [any_snoc, hcReal, Bool.or_true]
        · rw [any_snoc, hcReal, Bool.or_true, if_pos rfl]
        · have hflush : flushPreamble turn (a.observe env c).preamble = publicFrom false front := by
            have hheldOf := flush_eq hr h
            rw [heldOf, hreal, if_neg Bool.false_ne_true] at hheldOf
            exact hheldOf
          rw [hflush, shownOf, shownOf, any_snoc, hcReal, hreal, Bool.or_true, if_pos rfl,
            if_neg Bool.false_ne_true, publicFrom_append, nil_append]
          refine congrArg (publicFrom false front ++ ·) ?_
          rw [publicFrom, hc, (shown_of_real hcReal).2, Bool.and_false, Bool.or_false,
            if_neg Bool.false_ne_true]
          rfl

variable (env) in
/-- **A chunk that decides** lets out what is held and the rest of the answer. -/
theorem release_step (hr : turn.recovery.isSome = true) (h : Quiet existing a front)
    (hc : isAnswer c = true)
    (hdecided : ¬ answerText (front ++ [c]) <:+: recent existing overlapLimit) :
    ∃ a' c' n, onChunk env turn a c = (heldOf front ++ [c'], .inl a') ∧ Flowing a' ∧
      isAnswer c' = true ∧ answerOf c' = (answerText (front ++ [c])).drop n ∧
      n < (answerText (front ++ [c])).length ∧ ∀ more,
        LongestOverlap existing overlapLimit (answerText (front ++ [c]) ++ more) n := by
  obtain ⟨o, ho, hreading⟩ := h.overlap
  rw [answerText_snoc] at hdecided ⊢
  rcases hreading.push (answerOf c) with ⟨hheld, -⟩ | ⟨-, o', n, hpush, hresolved, hlt, hlongest⟩
  · exact absurd hheld hdecided
  · rcases deduplicate_answer turn hc ho hpush with
      ⟨hnil, -⟩ | ⟨-, c', hsome, hc', hsaid, hterm, hp⟩
    · have hlength := congrArg List.length hnil
      rw [length_drop, length_nil] at hlength
      omega
    · have hflush := flush_eq hr h
      have herror := noError_of_open hterm
      rw [onChunk_pass hsome hterm]
      cases hreal : front.any isReal with
      | true =>
        have hcommitted : (Attempt.observe env c' { a with overlap := some o' }).committed = true :=
          h.committed.trans hreal
        have hpreamble := h.preamble
        rw [hreal, if_pos rfl] at hpreamble
        rw [receive_committed hcommitted, herror]
        dsimp only
        rw [hterm, if_neg Bool.false_ne_true, heldOf, hreal, if_pos rfl]
        exact ⟨_, c', n, rfl, ⟨⟨o', rfl, hresolved⟩, hcommitted, hpreamble⟩, hc', hsaid, hlt,
          hlongest⟩
      | false =>
        have hcommitted : (Attempt.observe env c' { a with overlap := some o' }).committed = false :=
          h.committed.trans hreal
        rw [receive_uncommitted hcommitted, herror]
        dsimp only
        rw [hp, if_neg Bool.false_ne_true, hterm, if_neg Bool.false_ne_true]
        refine ⟨_, c', n, congrArg (fun l => (l ++ [c'], _)) hflush, ⟨⟨o', rfl, hresolved⟩, rfl, rfl⟩,
          hc', hsaid, hlt, hlongest⟩

variable (env turn) in
theorem finish_quiet (h : Quiet existing a front) (runId : String) :
    ∃ a' text n, finishOverlap env turn runId a = (a', text) ∧
      (∀ d ∈ text, isAnswer d = true) ∧ answerText text = (answerText front).drop n ∧
      LongestOverlap existing overlapLimit (answerText front) n ∧
      a'.committed = a.committed ∧ a'.preamble = a.preamble := by
  obtain ⟨o, ho, hreading⟩ := h.overlap
  obtain ⟨n, hfinish, hlongest⟩ := hreading.finish
  unfold finishOverlap
  rw [ho]
  dsimp only
  rw [h.unfinished, if_neg Bool.false_ne_true, hfinish]
  split
  · rename_i hnil
    exact ⟨_, [], n, rfl, fun d hd => absurd hd not_mem_nil, hnil.symm, hlongest, rfl, rfl⟩
  · refine ⟨_, _, n, rfl, fun d hd => ?_, ?_, hlongest, rfl, rfl⟩
    · rw [mem_singleton.mp hd]
      rfl
    · show (String.ofList ((answerText front).drop n)).toList ++ [] = _
      rw [append_nil, String.toList_ofList]

theorem onChunk_terminal {a' : Attempt} {text : List StreamChunk} (hterm : c.isTerminal = true)
    (hfinish : finishOverlap env turn c.runId a = (a', text)) :
    onChunk env turn a c = (text ++ (receive env turn c (a'.observe env c)).1,
      (receive env turn c (a'.observe env c)).2) := by
  unfold onChunk
  rw [deduplicate_other (isAnswer_of_terminal hterm)]
  dsimp only
  rw [if_pos hterm, hfinish]

variable (env turn) in
/-- A terminal chunk after the commit ends the loop, and is shown unless it is handed over. -/
theorem receive_terminal (hcommitted : a.committed = true) (hterm : c.isTerminal = true) :
    ∃ es outcome, receive env turn c a = (es, .inr outcome) ∧ es.Sublist [c] := by
  rw [receive_committed hcommitted]
  cases c.error? with
  | none =>
    dsimp only
    rw [if_pos hterm]
    exact ⟨_, _, rfl, List.Sublist.refl _⟩
  | some error =>
    dsimp only
    split
    · exact ⟨_, _, rfl, nil_sublist _⟩
    · exact ⟨_, _, rfl, List.Sublist.refl _⟩

variable (env) in
/-- **A terminal chunk** of a quiet attempt. -/
theorem quiet_terminal (hr : turn.recovery.isSome = true) (h : Quiet existing a front)
    (hterm : c.isTerminal = true) :
    ∃ text rest n outcome, onChunk env turn a c = (text ++ rest, .inr outcome) ∧
      (∀ d ∈ text, isAnswer d = true) ∧ answerText text = (answerText front).drop n ∧
      LongestOverlap existing overlapLimit (answerText front) n ∧
      (front.any isReal = true → rest.Sublist [c]) ∧
      (front.any isReal = false →
        rest = if handsOver env turn.next.isSome c then [] else publicFrom false front ++ [c]) := by
  obtain ⟨a', text, n, hfinish, hisText, hsaid, hlongest, hcommitted', hpreamble'⟩ :=
    finish_quiet env turn h c.runId
  rw [onChunk_terminal hterm hfinish]
  have hcommitted : (a'.observe env c).committed = front.any isReal := hcommitted'.trans h.committed
  cases hreal : front.any isReal with
  | true =>
    obtain ⟨es, outcome, hreceive, hsub⟩ :=
      receive_terminal env turn (hcommitted.trans hreal) hterm
    rw [hreceive]
    exact ⟨text, es, n, outcome, rfl, hisText, hsaid, hlongest, fun _ => hsub, nofun⟩
  | false =>
    have hflush : flushPreamble turn (a'.observe env c).preamble = publicFrom false front := by
      have hheldOf := flush_eq hr h
      rw [heldOf, hreal, if_neg Bool.false_ne_true, ← hpreamble'] at hheldOf
      exact hheldOf
    have hp : isPreambleChunk c = false := by
      rw [← not_eq_true]
      intro hp
      rw [isTerminal_of_preamble hp] at hterm
      cases hterm
    rw [receive_uncommitted (hcommitted.trans hreal), handsOver, hflush]
    cases herror : c.error? with
    | none =>
      dsimp only
      rw [hp, if_neg Bool.false_ne_true, if_pos hterm]
      exact ⟨text, _, n, _, rfl, hisText, hsaid, hlongest, nofun, fun _ => rfl⟩
    | some error =>
      dsimp only
      rw [mayHandOff]
      split
      · exact ⟨text, _, n, _, rfl, hisText, hsaid, hlongest, nofun, fun _ => rfl⟩
      · exact ⟨text, _, n, _, rfl, hisText, hsaid, hlongest, nofun, fun _ => rfl⟩

theorem ownChunks_throw (thrown : Thrown) :
    ownChunks turn.i (onThrow env turn thrown a).1 = [] ∨
      ownChunks turn.i (onThrow env turn thrown a).1 = flushPreamble turn a.preamble := by
  have hnone : ∀ error retryable raw, ownChunks turn.i [routerError error retryable raw] = [] :=
    fun error retryable raw => ownChunks_other fun e he => by
      rw [mem_singleton.mp he]
      nofun
  unfold onThrow
  dsimp only
  split
  · exact .inl (hnone _ _ _)
  · split
    · exact .inl rfl
    · split
      · split
        · exact .inl rfl
        · rw [ownChunks_append, ownChunks_own, hnone, append_nil]
          exact .inr rfl
      · rw [ownChunks_append, ownChunks_own, hnone, append_nil]
        exact .inr rfl

end Attempts

/-! ## The loop -/

section Loop

variable {env : Env} {turn : Turn} {existing : List Char} {thrown : Option Thrown}

/-- What is shown of the rest of a stream. -/
def ownRest (env : Env) (turn : Turn) (thrown : Option Thrown) (a : Attempt)
    (chunks : List StreamChunk) : List StreamChunk :=
  ownChunks turn.i ((attemptLoop env turn thrown).run a chunks).1

theorem ownRest_inl {a a' : Attempt} {c : StreamChunk} {es : List StreamChunk}
    (h : onChunk env turn a c = (es, .inl a')) (chunks : List StreamChunk) :
    ownRest env turn thrown a (c :: chunks) = es ++ ownRest env turn thrown a' chunks := by
  have hstep : (attemptLoop env turn thrown).step a c =
      (es.map (Emission.mk (some turn.i)), .inl a') := by
    show ((onChunk env turn a c).1.map _, (onChunk env turn a c).2) = _
    rw [h]
  rw [ownRest, Consumer.run_cons_inl _ hstep, ownChunks_append, ownChunks_own]
  rfl

theorem ownRest_inr {a : Attempt} {c : StreamChunk} {es : List StreamChunk} {outcome : Outcome}
    (h : onChunk env turn a c = (es, .inr outcome)) (chunks : List StreamChunk) :
    ownRest env turn thrown a (c :: chunks) = es := by
  have hstep : (attemptLoop env turn thrown).step a c =
      (es.map (Emission.mk (some turn.i)), .inr outcome) := by
    show ((onChunk env turn a c).1.map _, (onChunk env turn a c).2) = _
    rw [h]
  rw [ownRest, Consumer.run_cons_inr _ hstep, ownChunks_own]

variable (env turn thrown) in
theorem ownRest_nil (a : Attempt) : ownRest env turn thrown a [] = [] ∨
    ownRest env turn thrown a [] = flushPreamble turn a.preamble := by
  cases thrown with
  | none => exact .inl rfl
  | some thrown => exact ownChunks_throw thrown

variable (env turn thrown) in
/-- **Past the overlap** every chunk passes as it is, but for empty text. -/
theorem run_flowing {a : Attempt} (h : Flowing a) (chunks : List StreamChunk) :
    answerText (ownRest env turn thrown a chunks) = answerText (upToTerminal chunks) ∧
      ∀ m, (itemsFrom m (ownRest env turn thrown a chunks)).Sublist
        (itemsFrom m (upToTerminal chunks)) := by
  induction chunks generalizing a with
  | nil =>
    have hnil : ownRest env turn thrown a [] = [] := by
      rcases ownRest_nil env turn thrown a with hnil | hflush
      · exact hnil
      · rw [hflush, h.preamble]
        rfl
    rw [hnil]
    exact ⟨rfl, fun m => List.Sublist.refl _⟩
  | cons c cs ih =>
    obtain ⟨o, ho, hresolved⟩ := h.overlap
    rw [upToTerminal]
    cases hterm : c.isTerminal with
    | true =>
      rw [if_pos rfl]
      have hfinish : ∃ a', finishOverlap env turn c.runId a = (a', []) ∧
          a'.committed = true := by
        have hnothing : o.finish = (o, []) := by
          unfold Overlap.finish Overlap.resolve
          rw [hresolved, if_pos rfl]
        unfold finishOverlap
        rw [ho]
        dsimp only
        split
        · exact ⟨_, rfl, h.committed⟩
        · rw [hnothing]
          exact ⟨_, rfl, h.committed⟩
      obtain ⟨a', hfinish, hcommitted⟩ := hfinish
      obtain ⟨es, outcome, hreceive, hsub⟩ := receive_terminal env turn
        (a := a'.observe env c) hcommitted hterm
      have hon := onChunk_terminal hterm hfinish
      rw [hreceive] at hon
      rw [ownRest_inr hon]
      have hnot : ∀ d ∈ es, isAnswer d = false := fun d hd => by
        rw [mem_singleton.mp (hsub.subset hd)]
        exact isAnswer_of_terminal hterm
      have hall : ∀ d ∈ [c], isAnswer d = false := fun d hd => by
        rw [mem_singleton.mp hd]
        exact isAnswer_of_terminal hterm
      rw [nil_append]
      refine ⟨(answerText_eq_nil hnot).trans (answerText_eq_nil hall).symm, fun m => ?_⟩
      rw [itemsFrom_of_not hnot, itemsFrom_of_not hall]
      exact hsub.map Item.chunk
    | false =>
      rw [if_neg Bool.false_ne_true]
      -- what is shown of the chunk has its items
      have hstep : ∃ a' es, onChunk env turn a c = (es, .inl a') ∧ Flowing a' ∧
          answerText es = answerOf c ∧ ∀ m, (itemsFrom m es).Sublist (itemsOf m c) := by
        cases hc : isAnswer c with
        | true =>
          have hpush : o.push (answerOf c) = (o, answerOf c) := by
            unfold Overlap.push
            rw [hresolved, if_pos rfl]
          rcases deduplicate_answer turn hc ho hpush with
            ⟨hnil, hnone⟩ | ⟨-, c', hsome, hc', hsaid, hterm', -⟩
          · refine ⟨_, [], onChunk_swallow hnone, ⟨⟨o, rfl, hresolved⟩, h.committed, h.preamble⟩,
              hnil.symm, fun m => nil_sublist _⟩
          · have hcommitted : (Attempt.observe env c' { a with overlap := some o }).committed = true :=
              h.committed
            rw [onChunk_pass hsome hterm', receive_committed hcommitted, noError_of_open hterm']
            dsimp only
            rw [hterm', if_neg Bool.false_ne_true]
            refine ⟨_, [c'], rfl, ⟨⟨o, rfl, hresolved⟩, h.committed, h.preamble⟩, ?_, fun m => ?_⟩
            · rw [answerText_cons, hsaid]
              exact append_nil _
            · rw [itemsFrom_singleton, itemsOf, itemsOf, if_pos hc, if_pos hc', hsaid]
        | false =>
          have hcommitted : (a.observe env c).committed = true := h.committed
          rw [onChunk_pass (deduplicate_other hc) hterm, receive_committed hcommitted,
            noError_of_open hterm]
          dsimp only
          rw [hterm, if_neg Bool.false_ne_true]
          refine ⟨_, [c], rfl, ⟨⟨o, ho, hresolved⟩, h.committed, h.preamble⟩, ?_, fun m => ?_⟩
          · rw [answerText_cons]
            exact append_nil _
          · rw [itemsFrom_singleton]
      obtain ⟨a', es, hon, hflowing, htext, hitems⟩ := hstep
      obtain ⟨hrestText, hrestItems⟩ := ih hflowing
      rw [ownRest_inl hon, answerText_append, htext, hrestText, answerText_cons]
      refine ⟨rfl, fun m => ?_⟩
      rw [itemsFrom_append, htext, itemsFrom]
      exact (hitems m).append (hrestItems _)

variable (env thrown) in
/-- **An attempt shows its stream in one of the four ways.** -/
theorem run_streamed (hr : turn.recovery.isSome = true) {a : Attempt} {front : List StreamChunk}
    (h : Quiet existing a front) (chunks : List StreamChunk) :
    Streamed existing overlapLimit (handsOver env turn.next.isSome)
      (front ++ upToTerminal chunks) (shownOf front ++ ownRest env turn thrown a chunks) := by
  induction chunks generalizing a front with
  | nil =>
    rw [upToTerminal, append_nil]
    refine .silent h.open_ h.held ?_
    refine List.Sublist.trans ?_ (publicFrom_sublist false front)
    rw [← shownOf_append_heldOf front]
    refine List.Sublist.append (List.Sublist.refl _) ?_
    rcases ownRest_nil env turn thrown a with hnil | hflush
    · rw [hnil]
      exact nil_sublist _
    · rw [hflush, flush_eq hr h]
  | cons c cs ih =>
    rw [upToTerminal]
    cases hterm : c.isTerminal with
    | true =>
      obtain ⟨text, rest, n, outcome, hon, hisText, hsaid, hlongest, hstarted, hunstarted⟩ :=
        quiet_terminal env hr h hterm
      rw [if_pos rfl, ownRest_inr hon]
      cases hreal : front.any isReal with
      | true =>
        rw [shownOf, hreal, if_pos rfl]
        exact .started h.open_ hterm h.held hlongest hisText hsaid hreal (hstarted hreal)
      | false =>
        rw [shownOf, hreal, if_neg Bool.false_ne_true, nil_append, hunstarted hreal]
        exact .unstarted h.open_ hterm h.held hlongest hisText hsaid hreal
    | false =>
      rw [if_neg Bool.false_ne_true]
      by_cases hheld : answerText (front ++ [c]) <:+: recent existing overlapLimit
      · obtain ⟨a', es, hon, hquiet, hshown⟩ := quiet_step env hr h hterm hheld
        have hrest := ih hquiet
        rw [hshown, append_assoc, append_assoc, singleton_append] at hrest
        rw [ownRest_inl hon]
        exact hrest
      · have hc : isAnswer c = true := by
          by_contra hnot
          rw [answerText_snoc, answerOf_of_not (not_eq_true _ ▸ hnot), append_nil] at hheld
          exact hheld h.held
        obtain ⟨a', c', n, hon, hflowing, hc', hsaid, hlt, hlongest⟩ :=
          release_step env hr h hc hheld
        obtain ⟨hrestText, hrestItems⟩ := run_flowing env turn thrown hflowing cs
        rw [ownRest_inl hon, append_assoc, singleton_append, ← append_assoc,
          shownOf_append_heldOf]
        exact .released h.open_ h.held hc hheld hlongest hlt hc' hsaid hrestText hrestItems

/-- **One attempt**: the order is kept iff the stream is orderly. -/
theorem attempt_in_order_iff {plan : PartialRecoveryPlan} (hr : turn.recovery = some plan)
    (source : Source) :
    InOrder plan.checkpoint.assistantText.toList overlapLimit (upToTerminal source.chunks)
        (ownChunks turn.i (runAttempt env turn source).1) ↔
      Orderly plan.checkpoint.assistantText.toList overlapLimit (handsOver env turn.next.isSome)
        (upToTerminal source.chunks) := by
  have hsome : turn.recovery.isSome = true := by
    rw [hr]
    rfl
  have hstreamed := run_streamed env source.thrown hsome
    (quiet_start env hr) source.chunks
  exact hstreamed.inOrder_iff

end Loop

/-! ## Runs -/

section Runs

variable {env : Env}

theorem emissions_append (trace trace' : List Event) :
    emissions (trace ++ trace') = emissions trace ++ emissions trace' :=
  filterMap_append

variable (env) in
/-- What an attempt emits is of its candidate, or made by the router. -/
theorem origin_runAttempt (turn : Turn) (source : Source) :
    ∀ e ∈ (runAttempt env turn source).1, e.origin = some turn.i ∨ e.origin = none := by
  have hown : ∀ l : List StreamChunk, ∀ e ∈ l.map (Emission.mk (some turn.i)),
      e.origin = some turn.i ∨ e.origin = none := fun l e he => by
    obtain ⟨c, -, rfl⟩ := mem_map.mp he
    exact .inl rfl
  have hrouter : ∀ error retryable, ∀ e ∈ [routerError error retryable],
      e.origin = some turn.i ∨ e.origin = none := fun error retryable e he => by
    rw [mem_singleton.mp he]
    exact .inr rfl
  have happend : ∀ {l l' : List Emission}, (∀ e ∈ l, e.origin = some turn.i ∨ e.origin = none) →
      (∀ e ∈ l', e.origin = some turn.i ∨ e.origin = none) →
      ∀ e ∈ l ++ l', e.origin = some turn.i ∨ e.origin = none := fun h h' e he =>
    (mem_append.mp he).elim (h e) (h' e)
  have hthrow : ∀ thrown a, ∀ e ∈ (onThrow env turn thrown a).1,
      e.origin = some turn.i ∨ e.origin = none := by
    intro thrown a
    unfold onThrow
    dsimp only
    split
    · exact hrouter _ _
    · split
      · exact fun e he => absurd he not_mem_nil
      · split
        · split
          · exact fun e he => absurd he not_mem_nil
          · exact happend (hown _) (hrouter _ _)
        · exact happend (hown _) (hrouter _ _)
  refine Consumer.rule (attemptLoop env turn source.thrown)
    (I := fun _ out _ => ∀ e ∈ out, e.origin = some turn.i ∨ e.origin = none)
    (Q := fun out _ => ∀ e ∈ out, e.origin = some turn.i ∨ e.origin = none)
    (startAttempt env turn) [] source.chunks ?_ ?_ ?_ (fun e he => absurd he not_mem_nil)
  · intro a out c cs a' es hout hstep
    cases (Prod.mk.inj hstep).1
    exact happend hout (hown _)
  · intro a out c cs outcome es hout hstep
    cases (Prod.mk.inj hstep).1
    exact happend hout (hown _)
  · intro a out hout
    refine happend hout ?_
    cases source.thrown with
    | none => exact fun e he => absurd he not_mem_nil
    | some thrown => exact hthrow thrown a

variable (env) in
theorem origin_runChain (chain : List RouteCandidate) : ∀ (p : Progress),
    ∀ e ∈ emissions (runChain env chain p), ∀ j, e.origin = some j → p.i ≤ j := by
  induction chain with
  | nil =>
    intro p e he j hj
    rw [mem_singleton.mp he] at hj
    cases hj
  | cons c rest ih =>
    intro p
    have hfirst := origin_runAttempt env (p.turn c rest) (env.source p c)
    have hstep := runChain_step env c rest p
    generalize runChain env (c :: rest) p = trace at hstep ⊢
    have hown : ∀ {out : List Emission} {o : Outcome},
        runAttempt env (p.turn c rest) (env.source p c) = (out, o) →
        ∀ e ∈ out, ∀ j, e.origin = some j → p.i ≤ j := fun hattempt e he j hj => by
      rw [hattempt] at hfirst
      rcases hfirst e he with hi | hnone
      · rw [hj] at hi
        exact (Option.some.inj hi).ge
      · rw [hj] at hnone
        cases hnone
    cases hstep with
    | aborted =>
      intro e he j hj
      rw [mem_singleton.mp he] at hj
      cases hj
    | last attempt stop =>
      rw [emissions_started, emissions_map_emitted]
      exact hown attempt
    | declined attempt =>
      rw [emissions_started, emissions_append, emissions_map_emitted]
      intro e he j hj
      rcases mem_append.mp he with he | he
      · exact hown attempt e he j hj
      · rw [mem_singleton.mp he] at hj
        cases hj
    | next event attempt more =>
      rw [emissions_started, emissions_append, emissions_map_emitted, emissions_handedOff]
      intro e he j hj
      rcases mem_append.mp he with he | he
      · exact hown attempt e he j hj
      · exact Nat.le_of_succ_le (ih _ e he j hj)

theorem started_mem_append {i : Nat} {r : Option PartialRecoveryPlan} {out : List Emission}
    {trace : List Event} (h : Event.started i r ∈ out.map Event.emitted ++ trace) :
    Event.started i r ∈ trace := by
  rcases mem_append.mp h with h | h
  · obtain ⟨e, -, heq⟩ := mem_map.mp h
    cases heq
  · exact h

/-- **What a candidate shows in a run is what its attempt shows.** -/
theorem runChain_own (chain : List RouteCandidate) : ∀ (p : Progress) {i : Nat}
    {r : Option PartialRecoveryPlan}, Event.started i r ∈ runChain env chain p → p.i ≤ i ∧
      ∀ candidate, chain[i - p.i]? = some candidate → ∃ turn : Turn, turn.i = i ∧
        turn.recovery = r ∧ turn.next.isSome = decide (i - p.i + 1 < chain.length) ∧
        ownChunks i (emissions (runChain env chain p)) = ownChunks turn.i
          (runAttempt env turn (env.makeRun i candidate (r.bind (·.request)))).1 := by
  induction chain with
  | nil =>
    intro p i r h
    cases mem_singleton.mp h
  | cons c rest ih =>
    intro p i r h
    have htail := fun event plan => origin_runChain env rest (p.advance event plan)
    have horigin := origin_runAttempt env (p.turn c rest) (env.source p c)
    have hnext : (p.turn c rest).next.isSome = decide (p.i - p.i + 1 < (c :: rest).length) := by
      rw [Nat.sub_self, Nat.zero_add]
      cases rest with
      | nil => rfl
      | cons next rest => exact (decide_eq_true (by simp)).symm
    have hcandidate : ∀ candidate, (c :: rest)[p.i - p.i]? = some candidate → candidate = c :=
      fun candidate hget => by
        rw [Nat.sub_self] at hget
        exact (Option.some.inj hget).symm
    have hrouter : ∀ raw (error : AdapterError) retryable,
        ownChunks p.i [routerError error retryable raw] = [] := fun raw error retryable =>
      ownChunks_other fun e he => by
        rw [mem_singleton.mp he]
        nofun
    have hstep := runChain_step env c rest p
    generalize runChain env (c :: rest) p = trace at hstep h ⊢
    cases hstep with
    | aborted => cases mem_singleton.mp h
    | @last out o attempt stop =>
      rcases mem_cons.mp h with heq | h
      · cases heq
        refine ⟨Nat.le_refl _, fun candidate hget => ⟨p.turn c rest, rfl, rfl, hnext, ?_⟩⟩
        rw [hcandidate candidate hget, emissions_started, emissions_map_emitted]
        exact congrArg (fun r => ownChunks p.i r.1) attempt.symm
      · rw [← append_nil (out.map Event.emitted)] at h
        exact absurd (started_mem_append h) not_mem_nil
    | @declined out error plan raw attempt =>
      rcases mem_cons.mp h with heq | h
      · cases heq
        refine ⟨Nat.le_refl _, fun candidate hget => ⟨p.turn c rest, rfl, rfl, hnext, ?_⟩⟩
        rw [hcandidate candidate hget, emissions_started, emissions_append, emissions_map_emitted,
          ownChunks_append, emissions_emitted]
        refine (congrArg (ownChunks p.i out ++ ·) (hrouter raw _ _)).trans ?_
        rw [append_nil]
        exact congrArg (fun r => ownChunks p.i r.1) attempt.symm
      · cases mem_singleton.mp (started_mem_append h)
    | @next out error plan event attempt more =>
      rcases mem_cons.mp h with heq | h
      · cases heq
        refine ⟨Nat.le_refl _, fun candidate hget => ⟨p.turn c rest, rfl, rfl, hnext, ?_⟩⟩
        have hlater : ownChunks p.i (emissions (runChain env rest (p.advance event plan))) = [] :=
          ownChunks_other fun e he hi => by
            have hle := htail event plan e he p.i hi
            exact absurd hle (Nat.not_succ_le_self p.i)
        rw [hcandidate candidate hget, emissions_started, emissions_append, emissions_map_emitted,
          emissions_handedOff, ownChunks_append, hlater, append_nil]
        exact congrArg (fun r => ownChunks p.i r.1) attempt.symm
      · rcases mem_cons.mp (started_mem_append h) with heq | h
        · cases heq
        · obtain ⟨hle, hrest⟩ := ih (p.advance event plan) h
          have hadvance : (p.advance event plan).i = p.i + 1 := rfl
          rw [hadvance] at hle hrest
          refine ⟨Nat.le_of_succ_le hle, fun candidate hget => ?_⟩
          have hindex : i - p.i = i - (p.i + 1) + 1 := by omega
          rw [hindex, List.getElem?_cons_succ] at hget
          obtain ⟨turn, hi, hr, hmore, hown⟩ := hrest candidate hget
          refine ⟨turn, hi, hr, ?_, ?_⟩
          · rw [hmore, hindex, length_cons]
            exact decide_eq_decide.mpr (by omega)
          · have hearlier : ownChunks i out = [] := ownChunks_other fun e he hi => by
              rw [attempt] at horigin
              rcases horigin e he with hp | hnone
              · rw [hi] at hp
                have hpi : i = p.i := Option.some.inj hp
                omega
              · rw [hi] at hnone
                cases hnone
            rw [emissions_started, emissions_append, emissions_map_emitted, emissions_handedOff,
              ownChunks_append, hearlier, nil_append]
            exact hown

/-- **A recovered stream keeps its order iff it is orderly**, in every run and for every
    continuation that is started. -/
theorem continuation_in_order_iff (env : Env) (candidates : List RouteCandidate) (i : Nat)
    (plan : PartialRecoveryPlan) (candidate : RouteCandidate)
    (hstart : Event.started i (some plan) ∈ runWithFailover env candidates)
    (hcandidate : (healthyCandidates env candidates)[i]? = some candidate) :
    InOrder plan.checkpoint.assistantText.toList DEFAULT_MAX_PARTIAL_CONTEXT_CODE_POINTS
        (upToTerminal (env.makeRun i candidate plan.request).chunks)
        (ownChunks i (emissions (runWithFailover env candidates))) ↔
      Orderly plan.checkpoint.assistantText.toList DEFAULT_MAX_PARTIAL_CONTEXT_CODE_POINTS
        (handsOver env (decide (i + 1 < (healthyCandidates env candidates).length)))
        (upToTerminal (env.makeRun i candidate plan.request).chunks) := by
  unfold runWithFailover at hstart ⊢
  cases hchain : healthyCandidates env candidates with
  | nil =>
    rw [hchain] at hcandidate
    cases hcandidate
  | cons c rest =>
    rw [hchain] at hstart hcandidate
    dsimp only at hstart ⊢
    obtain ⟨-, hturn⟩ := runChain_own (c :: rest) {} hstart
    obtain ⟨turn, hi, hr, hmore, hown⟩ := hturn candidate hcandidate
    rw [hown, ← show turn.next.isSome = decide (i + 1 < (c :: rest).length) from hmore]
    exact attempt_in_order_iff hr _

end Runs

/-! ## Text behind a tool call -/

section Counterexample

/-- The start of a tool call. -/
def callChunk : StreamChunk := { runId := "r", body := .toolCallStart "call_1" "run_tests" }

/-- A provider that breaks off, and one that says something else after a tool call. -/
def overtaking : Env :=
  recovering [[startChunk, textChunk "The test passed.", errorChunk .transport],
    [startChunk, textChunk "The", callChunk, textChunk " suite", endChunk]]

/-- The start of the second candidate, as a continuation. -/
def continues : Event → Bool
  | .started 1 (some _) => true
  | _ => false

theorem exists_continuation (trace : List Event) (h : trace.any continues = true) :
    ∃ plan, Event.started 1 (some plan) ∈ trace := by
  obtain ⟨e, he, hcontinues⟩ := any_eq_true.mp h
  unfold continues at hcontinues
  split at hcontinues
  · exact ⟨_, he⟩
  · cases hcontinues

theorem continuation_in_order_iff_brokenOff : ∃ plan,
    Event.started 1 (some plan) ∈ runWithFailover brokenOff [route "a", route "b"] ∧
    (InOrder plan.checkpoint.assistantText.toList DEFAULT_MAX_PARTIAL_CONTEXT_CODE_POINTS
        (upToTerminal [startChunk, textChunk "two", endChunk])
        (ownChunks 1 (emissions (runWithFailover brokenOff [route "a", route "b"]))) ↔
      Orderly plan.checkpoint.assistantText.toList DEFAULT_MAX_PARTIAL_CONTEXT_CODE_POINTS
        (handsOver brokenOff false) (upToTerminal [startChunk, textChunk "two", endChunk])) := by
  obtain ⟨plan, hplan⟩ := exists_continuation
    (runWithFailover brokenOff [route "a", route "b"]) (by decide +kernel)
  exact ⟨plan, hplan, continuation_in_order_iff brokenOff [route "a", route "b"] 1 plan (route "b")
    hplan rfl⟩

/-- An item as a number: 0 and 1 for a chunk, 1 for real output. -/
def Item.code : Item → Nat
  | .char position => position + 2
  | .chunk c => if isReal c then 1 else 0

/-- **Text comes out behind a tool call it was sent before.** -/
theorem text_behind_tool_call : ¬ ∀ (env : Env) (candidates : List RouteCandidate) (i : Nat)
    (plan : PartialRecoveryPlan) (candidate : RouteCandidate),
    Event.started i (some plan) ∈ runWithFailover env candidates →
    (healthyCandidates env candidates)[i]? = some candidate →
    InOrder plan.checkpoint.assistantText.toList DEFAULT_MAX_PARTIAL_CONTEXT_CODE_POINTS
      (upToTerminal (env.makeRun i candidate plan.request).chunks)
      (ownChunks i (emissions (runWithFailover env candidates))) := by
  intro h
  obtain ⟨plan, hplan⟩ := exists_continuation
    (runWithFailover overtaking [route "a", route "b"]) (by decide +kernel)
  obtain ⟨n, -, hbegins, hsub⟩ := h overtaking [route "a", route "b"] 1 plan (route "b") hplan rfl
  have hsource : upToTerminal (overtaking.makeRun 1 (route "b") plan.request).chunks =
      [startChunk, textChunk "The", callChunk, textChunk " suite", endChunk] := rfl
  rw [hsource] at hbegins hsub
  -- all nine characters come out, so none is taken for an overlap
  have hshown : (answerText (ownChunks 1
      (emissions (runWithFailover overtaking [route "a", route "b"])))).length = 9 := by
    decide +kernel
  have hsent : (answerText
      [startChunk, textChunk "The", callChunk, textChunk " suite", endChunk]).length = 9 := by
    decide +kernel
  have hlength := hbegins.length_le
  rw [length_drop, hshown, hsent] at hlength
  obtain rfl : n = 0 := by omega
  have hcodes := hsub.map Item.code
  have hout : (itemsFrom 0 (ownChunks 1
      (emissions (runWithFailover overtaking [route "a", route "b"])))).map Item.code =
        [1, 2, 3, 4, 5, 6, 7, 8, 9, 10, 0] := by
    decide +kernel
  have hin : (itemsFrom 0 [startChunk, textChunk "The", callChunk, textChunk " suite",
      endChunk]).map Item.code = [0, 2, 3, 4, 1, 5, 6, 7, 8, 9, 10, 0] := by
    decide +kernel
  rw [hout, hin] at hcodes
  exact absurd hcodes (by decide)

end Counterexample

end NexusCode.Router
