/-
  Streams of chunks: where they start, where they end, and how the router stamps them.

  A stream has an opening of preamble and a main part.  `OneTerminal` is the shape of a well ended
  stream; `upToTerminal` cuts a list after its first terminal chunk.
-/
import NexusCode.Router.Failover

namespace NexusCode.Router

open Lib Shared Recovery List

/-! ## Streams -/

namespace Source

/-- The preamble a stream starts with. -/
def opening (s : Source) : List StreamChunk := s.chunks.takeWhile isPreambleChunk

/-- The stream from its first other chunk on. -/
def main (s : Source) : List StreamChunk := s.chunks.dropWhile isPreambleChunk

/-- The error a stream reaches before any chunk but preamble. -/
def earlyError (s : Source) : Option AdapterError :=
  match s.main with
  | c :: _ => c.error?
  | [] => s.thrown.map Thrown.error

/-- The stream has a terminal chunk or throws. -/
def Ends (s : Source) : Prop := s.thrown.isSome ∨ ∃ c ∈ s.chunks, c.isTerminal = true

end Source

/-- The chunks up to the first terminal one, which is included. -/
def upToTerminal : List StreamChunk → List StreamChunk
  | [] => []
  | c :: cs => if c.isTerminal then [c] else c :: upToTerminal cs

/-- No chunk is terminal. -/
def NoTerminal (l : List StreamChunk) : Prop := ∀ c ∈ l, c.isTerminal = false

/-- Exactly one chunk is terminal, the last. -/
def OneTerminal (l : List StreamChunk) : Prop :=
  ∃ init last, l = init ++ [last] ∧ last.isTerminal = true ∧ NoTerminal init

theorem upToTerminal_sublist : ∀ l : List StreamChunk, (upToTerminal l).Sublist l
  | [] => List.Sublist.refl _
  | c :: cs => by
    rw [upToTerminal]
    split
    · exact List.Sublist.cons_cons c (nil_sublist cs)
    · exact List.Sublist.cons_cons c (upToTerminal_sublist cs)

variable {l : List StreamChunk}

theorem upToTerminal_of_noTerminal (h : NoTerminal l) :
    upToTerminal l = l := by
  induction l with
  | nil => rfl
  | cons c cs ih =>
    have hc := h c mem_cons_self
    rw [upToTerminal, hc, if_neg Bool.false_ne_true,
      ih fun d hd => h d (mem_cons_of_mem c hd)]

theorem oneTerminal_upToTerminal (h : ∃ c ∈ l, c.isTerminal = true) :
    OneTerminal (upToTerminal l) := by
  induction l with
  | nil =>
    obtain ⟨c, hc, -⟩ := h
    exact absurd hc not_mem_nil
  | cons c cs ih =>
    rw [upToTerminal]
    by_cases hc : c.isTerminal = true
    · rw [if_pos hc]
      exact ⟨[], c, rfl, hc, fun _ hd => absurd hd not_mem_nil⟩
    · rw [if_neg hc]
      obtain ⟨d, hd, hterm⟩ := h
      rcases mem_cons.mp hd with rfl | hd
      · exact absurd hterm hc
      obtain ⟨init, last, heq, hlast, hinit⟩ := ih ⟨d, hd, hterm⟩
      refine ⟨c :: init, last, by rw [heq]; rfl, hlast, ?_⟩
      intro x hx
      rcases mem_cons.mp hx with rfl | hx
      · simpa using hc
      · exact hinit x hx

theorem OneTerminal.append {l' : List StreamChunk} (h : NoTerminal l) (h' : OneTerminal l') :
    OneTerminal (l ++ l') := by
  obtain ⟨init, last, rfl, hlast, hinit⟩ := h'
  refine ⟨l ++ init, last, by rw [append_assoc], hlast, ?_⟩
  intro c hc
  rcases mem_append.mp hc with hc | hc
  · exact h c hc
  · exact hinit c hc

variable {c : StreamChunk}

theorem oneTerminal_singleton (h : c.isTerminal = true) : OneTerminal [c] :=
  ⟨[], c, rfl, h, fun _ hd => absurd hd not_mem_nil⟩

theorem isTerminal_of_error {e : AdapterError} (h : c.error? = some e) :
    c.isTerminal = true := by
  obtain ⟨runId, body, raw⟩ := c
  cases body <;> first | rfl | nomatch h

theorem isTerminal_of_preamble (h : isPreambleChunk c = true) :
    c.isTerminal = false := by
  obtain ⟨runId, body, raw⟩ := c
  cases body <;> first | rfl | nomatch h

theorem error?_of_preamble (h : isPreambleChunk c = true) :
    c.error? = none := by
  obtain ⟨runId, body, raw⟩ := c
  cases body <;> first | rfl | nomatch h

@[simp] theorem stampFailover_body (trail : List FailoverTrailEntry) (c : StreamChunk) :
    (stampFailover trail c).body = c.body := by
  unfold stampFailover
  split <;> rfl

@[simp] theorem stampFailover_isTerminal (trail : List FailoverTrailEntry) (c : StreamChunk) :
    (stampFailover trail c).isTerminal = c.isTerminal := by
  unfold StreamChunk.isTerminal
  rw [stampFailover_body]

@[simp] theorem stampFailover_isRunStart (trail : List FailoverTrailEntry) (c : StreamChunk) :
    (stampFailover trail c).isRunStart = c.isRunStart := by
  unfold StreamChunk.isRunStart
  rw [stampFailover_body]

theorem stampFailover_of_not_runStart {trail : List FailoverTrailEntry}
    (h : c.isRunStart = false) : stampFailover trail c = c := if_pos (Or.inl h)

/-! ## Receiving a chunk -/

section Receive

variable {env : Env} {turn : Turn}

theorem receive_uncommitted {a : Attempt} (hc : a.committed = false) (c : StreamChunk) :
    receive env turn c a = match c.error? with
      | some error =>
        if mayHandOff env turn error then
          ([], .inr (.handOff error
            (if turn.recovery.isSome then createRecoveryPlan env turn a.tracker else none)))
        else (flushPreamble turn a.preamble ++ [c], .inr .returned)
      | none =>
        if isPreambleChunk c then ([], .inl { a with preamble := a.preamble ++ [c] })
        else (flushPreamble turn a.preamble ++ [c],
          if c.isTerminal then .inr .returned
          else .inl { a with committed := true, preamble := [] }) :=
  if_pos hc

theorem receive_committed {a : Attempt} (hc : a.committed = true) (c : StreamChunk) :
    receive env turn c a = match c.error? with
      | some error =>
        match (if mayHandOff env turn error then createRecoveryPlan env turn a.tracker
          else none) with
        | some plan => ([], .inr (.handOff error (some plan)))
        | none => ([c], .inr .returned)
      | none => ([c], if c.isTerminal then .inr .returned else .inl a) :=
  if_neg (by rw [hc]; decide)

/-- Without a recovery the whole preamble is flushed, stamped. -/
theorem flushPreamble_of_none (hr : turn.recovery = none) (l : List StreamChunk) :
    flushPreamble turn l = l.map (stampFailover turn.trail) := by
  unfold flushPreamble
  rw [hr]
  simp

end Receive

/-! ## One candidate of a chain -/

/-- What can happen to the first candidate of a chain, and the trace that follows. -/
inductive ChainStep (env : Env) (c : RouteCandidate) (rest : List RouteCandidate) (p : Progress) :
    List Event → Prop where
  /-- The run was aborted before it. -/
  | aborted : ChainStep env c rest p [.emitted abortedError]
  /-- Its attempt ends the run. -/
  | last {out : List Emission} {o : Outcome}
      (attempt : runAttempt env (p.turn c rest) (env.source p c) = (out, o))
      (stop : o = .returned ∨ rest = []) :
      ChainStep env c rest p (.started p.i p.pendingRecovery :: out.map .emitted)
  /-- The switch to the next candidate is declined. -/
  | declined {out : List Emission} {error : AdapterError} {plan : Option PartialRecoveryPlan}
      {raw : Unknown}
      (attempt : runAttempt env (p.turn c rest) (env.source p c) = (out, .handOff error plan)) :
      ChainStep env c rest p (.started p.i p.pendingRecovery ::
        (out.map .emitted ++ [.emitted (routerError error error.retryable raw)]))
  /-- The next candidate is tried. -/
  | next {out : List Emission} {error : AdapterError} {plan : Option PartialRecoveryPlan}
      (event : FailoverEvent)
      (attempt : runAttempt env (p.turn c rest) (env.source p c) = (out, .handOff error plan))
      (more : rest ≠ []) :
      ChainStep env c rest p (.started p.i p.pendingRecovery ::
        (out.map .emitted ++ .handedOff event :: runChain env rest (p.advance event plan)))

/-- **The chain takes one of these steps.** -/
theorem runChain_step (env : Env) (c : RouteCandidate) (rest : List RouteCandidate)
    (p : Progress) : ChainStep env c rest p (runChain env (c :: rest) p) := by
  rw [runChain]
  split
  · exact .aborted
  · rcases hrun : runAttempt env (p.turn c rest) (env.source p c) with ⟨out, o⟩
    cases o with
    | returned =>
      simp only [append_nil]
      exact .last hrun (Or.inl rfl)
    | handOff error plan =>
      cases rest with
      | nil =>
        simp only [append_nil]
        exact .last hrun (Or.inr rfl)
      | cons next rest =>
        dsimp only
        split
        · exact .declined hrun
        · exact .next _ hrun (cons_ne_nil _ _)

end NexusCode.Router
