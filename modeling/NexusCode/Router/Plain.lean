/-
  Failover without partial recovery, said without its buffers.

  What the router is for: skip the candidates that fail, with an eligible error, before anything
  but preamble; serve the first other one, its preamble stamped with the trail of the hand-offs
  so far.

  1. `served` and `skipped` say this for one candidate; **`runAttempt_plain`** proves that the
     loop with its buffer and its commit flag computes exactly that.
  2. `PlainTrace` says it for the chain, and **`runChain_plain`** proves that the router's trace
     is one.
-/
import NexusCode.Router.Streams

namespace NexusCode.Router

open Lib Shared Recovery List Option

/-! ## One candidate -/

section OneCandidate

variable (env : Env) (turn : Turn)

/-- Emissions of the candidate itself. -/
def own (chunks : List StreamChunk) : List Emission := chunks.map (Emission.mk (some turn.i))

/-- What follows the forwarded chunks `l` of a stream without a terminal. -/
def closing (thrown : Option Thrown) (l : List StreamChunk) : List Emission :=
  if l.any (·.isTerminal) then []
  else match thrown with
    | none => []
    | some t => if env.abortedAtCatch turn.i then [abortedError]
      else [routerError t.error t.error.retryable]

/-- What the consumer sees of a candidate that is not skipped: nothing of a stream that shows only
    preamble and then just ends, or throws after the abort; the whole stream otherwise. -/
def served (s : Source) : List Emission :=
  if s.main = [] ∧ (s.thrown = none ∨ env.abortedAtCatch turn.i = true) then
    closing env turn s.thrown s.main
  else own turn (s.opening.map (stampFailover turn.trail) ++ upToTerminal s.main)
    ++ closing env turn s.thrown s.main

/-- The error that makes the router skip a candidate. -/
def skipped (s : Source) : Option AdapterError :=
  if s.main = [] ∧ env.abortedAtCatch turn.i = true then none
  else s.earlyError.filter (mayHandOff env turn)

/-- The abstract attempt. -/
def plainAttempt (s : Source) : List Emission × Outcome :=
  match skipped env turn s with
  | some error => ([], .handOff error none)
  | none => (served env turn s, .returned)

/-- Partial recovery is off. -/
def Env.Plain : Prop := ∀ options, env.options.partialRecovery = some options →
  options.enabled = false

variable {env turn}

variable {thrown : Option Thrown}

theorem closing_of_terminal {c : StreamChunk} {cs : List StreamChunk}
    (h : c.isTerminal = true) : closing env turn thrown (c :: cs) = [] := by
  have hany : (c :: cs).any (·.isTerminal) = true := by simp [h]
  exact if_pos hany

theorem closing_of_not_terminal {c : StreamChunk} {cs : List StreamChunk}
    (h : ¬ c.isTerminal = true) : closing env turn thrown (c :: cs) = closing env turn thrown cs := by
  have hany : (c :: cs).any (·.isTerminal) = cs.any (·.isTerminal) := by simp [h]
  unfold closing
  rw [hany]

theorem createRecoveryPlan_plain (hplain : env.Plain) (t : Tracker) :
    createRecoveryPlan env turn t = none := by
  unfold createRecoveryPlan
  split
  · rename_i options next hoptions _
    exact if_pos (hplain options hoptions)
  · rfl

variable (env turn) in
/-- Without a recovery a chunk is not touched before it is received. -/
theorem onChunk_plain {a : Attempt} (ho : a.overlap = none) (c : StreamChunk) :
    onChunk env turn a c
      = receive env turn c (a.observe env c) := by
  have hd : deduplicate turn c a = (a, some c) := by
    unfold deduplicate
    rw [ho]
    split
    · rename_i h
      nomatch h
    · rfl
  have hf : finishOverlap env turn c.runId a = (a, []) := by
    unfold finishOverlap
    rw [ho]
  unfold onChunk
  rw [hd]
  simp only [hf, ite_self, nil_append]

variable (env turn) in
theorem run_opening : ∀ (ps : List StreamChunk) (a : Attempt),
    (∀ p ∈ ps, isPreambleChunk p = true) → a.overlap = none → a.committed = false →
    ∃ a' : Attempt, a'.overlap = none ∧ a'.committed = false ∧ a'.preamble = a.preamble ++ ps ∧
      ∀ rest, (attemptLoop env turn thrown).run a (ps ++ rest)
        = (attemptLoop env turn thrown).run a' rest := by
  intro ps
  induction ps with
  | nil =>
    intro a _ ho hc
    exact ⟨a, ho, hc, (append_nil _).symm, fun rest => rfl⟩
  | cons p ps ih =>
    intro a hps ho hc
    have hp := hps p mem_cons_self
    have hstep : (attemptLoop env turn thrown).step a p
        = ([], .inl { a.observe env p with preamble := a.preamble ++ [p] }) := by
      show (List.map _ (onChunk env turn a p).1, (onChunk env turn a p).2) = _
      rw [onChunk_plain env turn ho]
      rw [receive_uncommitted (show (a.observe env p).committed = false from hc),
        error?_of_preamble hp]
      simp only [hp, if_true, map_nil]
      rfl
    obtain ⟨a', ho', hc', hpre', hrun⟩ := ih { a.observe env p with preamble := a.preamble ++ [p] }
      (fun q hq => hps q (mem_cons_of_mem p hq)) ho hc
    refine ⟨a', ho', hc', by rw [hpre']; simp, ?_⟩
    intro rest
    rw [cons_append, Consumer.run_cons_inl _ hstep, hrun]
    rfl

/-- After the commit the loop forwards the stream to its end. -/
theorem run_committed (hplain : env.Plain) :
    ∀ (l : List StreamChunk) (a : Attempt), a.overlap = none → a.committed = true →
      a.preamble = [] →
      (attemptLoop env turn thrown).run a l
        = (own turn (upToTerminal l) ++ closing env turn thrown l, .returned) := by
  intro l
  induction l with
  | nil =>
    intro a _ hc hpre
    cases thrown with
    | none => rfl
    | some t =>
      show onThrow env turn t a = _
      unfold onThrow
      simp only [hc, hpre, createRecoveryPlan_plain hplain]
      cases hab : env.abortedAtCatch turn.i with
      | true => simp [closing, hab, own, upToTerminal]
      | false =>
        cases mayHandOff env turn t.error <;>
          simp [closing, hab, own, upToTerminal, flushPreamble]
  | cons c cs ih =>
    intro a ho hc hpre
    have hrec := onChunk_plain env turn ho c
    by_cases hterm : c.isTerminal = true
    · have hstep : (attemptLoop env turn thrown).step a c = (own turn [c], .inr .returned) := by
        show (List.map _ (onChunk env turn a c).1, (onChunk env turn a c).2) = _
        rw [hrec, receive_committed (show (a.observe env c).committed = true from hc)]
        simp only [createRecoveryPlan_plain hplain, ite_self, hterm, if_true]
        cases c.error? <;> rfl
      rw [Consumer.run_cons_inr _ hstep, upToTerminal, if_pos hterm, closing_of_terminal hterm,
        append_nil]
    · have herr : c.error? = none := by
        cases h : c.error? with
        | none => rfl
        | some e => exact absurd (isTerminal_of_error h) hterm
      have hstep : (attemptLoop env turn thrown).step a c = (own turn [c],
          .inl (a.observe env c)) := by
        show (List.map _ (onChunk env turn a c).1, (onChunk env turn a c).2) = _
        rw [hrec, receive_committed (show (a.observe env c).committed = true from hc), herr]
        simp only [hterm]
        rfl
      rw [Consumer.run_cons_inl _ hstep, ih (a.observe env c) ho hc hpre, upToTerminal,
        if_neg hterm, closing_of_not_terminal hterm]
      rfl

/-- **The loop of one candidate, without its buffers.** -/
theorem runAttempt_plain (hplain : env.Plain) (hr : turn.recovery = none) (s : Source) :
    runAttempt env turn s = plainAttempt env turn s := by
  obtain ⟨a, ho, hc, hpre, hrun⟩ := run_opening env turn
    s.opening (startAttempt env turn) (fun p hp => mem_takeWhile_imp hp)
    (by rw [startAttempt, hr]; rfl) rfl
  have hsplit : s.chunks = s.opening ++ s.main := (takeWhile_append_dropWhile).symm
  have hpre : a.preamble = s.opening := hpre
  rw [runAttempt, hsplit, hrun]
  cases hmain : s.main with
  | nil =>
    -- only preamble: the end of the stream decides
    cases hthrown : s.thrown with
    | none =>
      show ([], Outcome.returned) = _
      simp [plainAttempt, skipped, served, closing, Source.earlyError, hmain, hthrown]
    | some t =>
      show onThrow env turn t a = _
      unfold onThrow
      simp only [hc, hpre, hr, flushPreamble_of_none hr]
      cases hab : env.abortedAtCatch turn.i with
      | true => simp [plainAttempt, skipped, served, closing, hmain, hthrown, hab]
      | false =>
        cases hmay : mayHandOff env turn t.error with
        | true => simp [plainAttempt, skipped, Source.earlyError, hmain, hthrown, hab, hmay,
          filter_some]
        | false =>
          simp [plainAttempt, skipped, served, closing, Source.earlyError, hmain, hthrown, hab,
            hmay, own, upToTerminal, filter_some]
  | cons c cs =>
    have hcpre : isPreambleChunk c = false := by
      have := List.head?_dropWhile_not isPreambleChunk s.chunks
      rw [show s.chunks.dropWhile isPreambleChunk = s.main from rfl, hmain] at this
      simpa using this
    have hrec := onChunk_plain env turn ho c
    rw [receive_uncommitted (show (a.observe env c).committed = false from hc)] at hrec
    have hearly : s.earlyError = c.error? := by rw [Source.earlyError, hmain]
    have hserved : served env turn s
        = own turn (s.opening.map (stampFailover turn.trail) ++ upToTerminal (c :: cs))
          ++ closing env turn s.thrown (c :: cs) := by
      rw [served, if_neg (by rw [hmain]; exact fun h => cons_ne_nil _ _ h.1), hmain]
    have hflush : flushPreamble turn (a.observe env c).preamble
        = s.opening.map (stampFailover turn.trail) := by
      rw [show (a.observe env c).preamble = s.opening from hpre, flushPreamble_of_none hr]
    rw [plainAttempt, skipped, if_neg (by rw [hmain]; exact fun h => cons_ne_nil _ _ h.1), hearly]
    by_cases hterm : c.isTerminal = true
    · -- the first other chunk is already the terminal
      have hup : upToTerminal (c :: cs) = [c] := by rw [upToTerminal, if_pos hterm]
      have hcl : closing env turn s.thrown (c :: cs) = [] := closing_of_terminal hterm
      cases herr : c.error? with
      | none =>
        have hstep : (attemptLoop env turn s.thrown).step a c
            = (own turn (s.opening.map (stampFailover turn.trail) ++ [c]), .inr .returned) := by
          show (List.map _ (onChunk env turn a c).1, (onChunk env turn a c).2) = _
          rw [hrec, herr]
          simp only [hcpre, hterm, if_true, hflush]
          rfl
        rw [Consumer.run_cons_inr _ hstep, hserved, hup, hcl, append_nil]
        rfl
      | some e =>
        cases hmay : mayHandOff env turn e with
        | true =>
          have hstep : (attemptLoop env turn s.thrown).step a c = ([], .inr (.handOff e none)) := by
            show (List.map _ (onChunk env turn a c).1, (onChunk env turn a c).2) = _
            rw [hrec, herr]
            simp only [hmay, if_true, hr]
            rfl
          rw [Consumer.run_cons_inr _ hstep]
          rw [filter_some, hmay]
          rfl
        | false =>
          have hstep : (attemptLoop env turn s.thrown).step a c
              = (own turn (s.opening.map (stampFailover turn.trail) ++ [c]), .inr .returned) := by
            show (List.map _ (onChunk env turn a c).1, (onChunk env turn a c).2) = _
            rw [hrec, herr]
            simp only [hmay, hflush]
            rfl
          rw [Consumer.run_cons_inr _ hstep, hserved, hup, hcl, append_nil]
          rw [filter_some, hmay]
          rfl
    · -- real output commits the candidate
      have herr : c.error? = none := by
        cases h : c.error? with
        | none => rfl
        | some e => exact absurd (isTerminal_of_error h) hterm
      have hstep : (attemptLoop env turn s.thrown).step a c
          = (own turn (s.opening.map (stampFailover turn.trail) ++ [c]),
            .inl { a.observe env c with committed := true, preamble := [] }) := by
        show (List.map _ (onChunk env turn a c).1, (onChunk env turn a c).2) = _
        rw [hrec, herr]
        simp only [hcpre, hterm, hflush]
        rfl
      rw [Consumer.run_cons_inl _ hstep, run_committed hplain cs
        { a.observe env c with committed := true, preamble := [] } ho rfl rfl, hserved, herr,
        upToTerminal, if_neg hterm, closing_of_not_terminal hterm]
      simp [own]

end OneCandidate

/-! ## The chain -/

/-- The turn of a candidate without a recovery. -/
def plainTurn (i : Nat) (c : RouteCandidate) (rest : List RouteCandidate)
    (trail : List FailoverTrailEntry) : Turn := ⟨i, c, rest.head?, none, trail⟩

/-- The traces of failover without recovery: skip, or stop at the first candidate that is not
    skipped, whose switch is declined, or that is not started any more. -/
inductive PlainTrace (env : Env) :
    List RouteCandidate → Nat → List FailoverTrailEntry → List Event → Prop where
  | aborted {c rest i trail} : PlainTrace env (c :: rest) i trail [.emitted abortedError]
  | serves {c rest i trail} (noSkip :
      skipped env (plainTurn i c rest trail) (env.makeRun i c none) = none) :
      PlainTrace env (c :: rest) i trail (.started i none ::
        (served env (plainTurn i c rest trail) (env.makeRun i c none)).map .emitted)
  | declines {c next rest i trail error raw} (skip :
      skipped env (plainTurn i c (next :: rest) trail) (env.makeRun i c none) = some error) :
      PlainTrace env (c :: next :: rest) i trail
        [.started i none, .emitted (routerError error error.retryable raw)]
  | skips {c next rest i trail error trace} (event : FailoverEvent) (skip :
      skipped env (plainTurn i c (next :: rest) trail) (env.makeRun i c none) = some error)
      (tail : PlainTrace env (next :: rest) (i + 1) (trail ++ [event.entry]) trace) :
      PlainTrace env (c :: next :: rest) i trail (.started i none :: .handedOff event :: trace)

theorem next_of_skipped {env : Env} {turn : Turn} {s : Source} {e : AdapterError}
    (h : skipped env turn s = some e) : s.earlyError = some e ∧ mayHandOff env turn e = true := by
  unfold skipped at h
  split at h
  · nomatch h
  · exact ⟨(filter_eq_some_iff.mp h).1, (filter_eq_some_iff.mp h).2⟩

theorem runChain_plain {env : Env} (hplain : env.Plain) : ∀ (chain : List RouteCandidate)
    (p : Progress), chain ≠ [] → p.pendingRecovery = none →
      PlainTrace env chain p.i p.trail (runChain env chain p) := by
  intro chain
  induction chain with
  | nil => intro p h; exact absurd rfl h
  | cons c rest ih =>
    intro p _ hp
    have hturn : p.turn c rest = plainTurn p.i c rest p.trail := by
      rw [Progress.turn, hp]
      rfl
    have hsource : env.source p c = env.makeRun p.i c none := by
      rw [Env.source, hp]
      rfl
    have hrun : runAttempt env (p.turn c rest) (env.source p c)
        = plainAttempt env (plainTurn p.i c rest p.trail) (env.makeRun p.i c none) := by
      rw [hturn, hsource]
      exact runAttempt_plain hplain rfl _
    have hstep := runChain_step env c rest p
    generalize runChain env (c :: rest) p = trace at hstep ⊢
    unfold plainAttempt at hrun
    cases hskip : skipped env (plainTurn p.i c rest p.trail) (env.makeRun p.i c none) with
    | none =>
      rw [hskip] at hrun
      cases hstep with
      | aborted => exact PlainTrace.aborted
      | last attempt stop =>
        rw [hrun] at attempt
        injection attempt with hout _
        rw [hp, ← hout]
        exact PlainTrace.serves hskip
      | declined attempt =>
        rw [hrun] at attempt
        nomatch attempt
      | next event attempt more =>
        rw [hrun] at attempt
        nomatch attempt
    | some error =>
      rw [hskip] at hrun
      have hnext : rest ≠ [] := by
        rintro rfl
        exact absurd (next_of_skipped hskip).2 (by simp [mayHandOff, plainTurn])
      obtain ⟨next, rest, rfl⟩ := exists_cons_of_ne_nil hnext
      cases hstep with
      | aborted => exact PlainTrace.aborted
      | last attempt stop =>
        rw [hrun] at attempt
        injection attempt with _ ho
        rcases stop with hstop | hstop
        · rw [← ho] at hstop
          nomatch hstop
        · nomatch hstop
      | declined attempt =>
        rw [hrun] at attempt
        injection attempt with hout ho
        injection ho with he _
        rw [hp, ← hout, ← he]
        exact PlainTrace.declines hskip
      | @next _ _ plan event attempt more =>
        rw [hrun] at attempt
        injection attempt with hout ho
        injection ho with _ hplan
        rw [hp, ← hout, ← hplan]
        exact PlainTrace.skips event hskip (ih (p.advance event none) more rfl)

end NexusCode.Router
