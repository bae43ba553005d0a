/-
  The contract of `withRetry`, and when it holds.

  An attempt makes way for the next one, or it ends the run.  Which of the two is decided by the
  stream it forwards, by what its source throws and by the abort signal (`MakesWay`).  An attempt
  that makes way has emitted nothing, so the run is its last attempt, after the starts and waits of
  those before it (`Settled`).

  One attempt can do both: its terminal chunk passes, the loop returns, and the source throws as it
  is closed.  The throw lands in the `catch` block, which emits a second terminal chunk or takes
  another attempt.

    1. `runAttempt_cases`             — what one attempt can do.
    2. `runFrom_settled`              — the shape of a run without such an attempt.
    3. **`withRetry_contract_iff`**   — the contract holds just when there is no such attempt.
    4. **`closing_repeats_terminal`** — such an attempt.
-/
import Mathlib.Data.List.Pairwise
import NexusCode.Resilience.Retry

namespace NexusCode.Resilience

open Lib Shared Router List Bool

/-! ## The contract -/

/-- The chunk a consumer sees. -/
def Happening.chunk? : Happening → Option StreamChunk
  | .emitted _ chunk => some chunk
  | _ => none

/-- An attempt starts. -/
def Happening.isStart : Happening → Bool
  | .started _ => true
  | _ => false

/-- A chunk other than `run-start`, `session-init` and `usage` is yielded. -/
def Happening.isOutput (h : Happening) : Bool := h.chunk?.any (!isPreambleChunk ·)

/-- What the consumer sees of a run. -/
def seen (run : List Happening) : List StreamChunk := run.filterMap (·.chunk?)

/-- The contract of a run with at most `maxAttempts` attempts. -/
structure Contract (maxAttempts : Nat) (run : List Happening) : Prop where
  /-- One terminal chunk, the last. -/
  terminal : OneTerminal (seen run)
  oneStart : runStarts (seen run) ≤ 1
  /-- An attempt that made way for another has shown nothing. -/
  noLeak : ∀ k c, .emitted k c ∈ run → ∀ j > k, .started j ∉ run ∧ ∀ c', .emitted j c' ∉ run
  /-- No attempt is started after output. -/
  noReplay : run.Pairwise fun x y => x.isOutput = true → y.isStart = false
  bounded : run.countP (·.isStart) ≤ maxAttempts

theorem seen_append (l l' : List Happening) : seen (l ++ l') = seen l ++ seen l' :=
  filterMap_append

theorem seen_emitted (k : Nat) (out : List StreamChunk) : seen (out.map (.emitted k)) = out := by
  rw [seen, filterMap_map]
  exact filterMap_some

theorem starts_eq_zero {l : List Happening} (h : ∀ x ∈ l, x.isStart = false) :
    l.countP (·.isStart) = 0 :=
  countP_eq_zero.mpr fun x hx => by
    rw [h x hx]
    exact Bool.false_ne_true

theorem seen_of_silent {l : List Happening} (h : ∀ x ∈ l, x.chunk? = none) : seen l = [] :=
  filterMap_eq_nil_iff.mpr h

/-! ## What decides about an attempt -/

section Attempts

variable (env : RetryEnv) (attempt : Nat)

/-- The stream of an attempt, as the validator forwards it. -/
def RetryEnv.stream : List StreamChunk := enforceStreamContract (env.make attempt).chunks

/-- The stream from its first chunk on that is not preamble. -/
def RetryEnv.main : List StreamChunk := (env.stream attempt).dropWhile isPreambleChunk

/-- The retryable error a stream has before any output, while another attempt is allowed. -/
def RetryEnv.earlyError : Option AdapterError :=
  match env.main attempt with
  | c :: _ => retryError (env.mayRetry attempt) c
  | [] => none

/-- What is thrown is a reason for another attempt. -/
def RetryEnv.Retries (thrown : Thrown) : Prop :=
  env.abortedAtCatch attempt = false ∧ thrown.error.retryable = true ∧ env.mayRetry attempt = true

/-- The attempt passes a terminal chunk on. -/
def RetryEnv.PassesTerminal : Prop :=
  env.earlyError attempt = none ∧ ∃ c ∈ env.stream attempt, c.isTerminal = true

/-- The source does not throw as it is closed after a terminal chunk. -/
def RetryEnv.ClosesWell : Prop :=
  env.PassesTerminal attempt → (env.make attempt).closing = none

/-- The attempt shows nothing and another one follows. -/
def RetryEnv.MakesWay : Prop :=
  env.abortedAtStart attempt = false ∧
    match env.earlyError attempt with
    | some _ => ∀ thrown ∈ (env.make attempt).closing, env.Retries attempt thrown
    | none => env.main attempt = [] ∧ ∃ thrown ∈ (env.make attempt).thrown,
        env.Retries attempt thrown

end Attempts

/-! ## One attempt -/

section Attempt

variable {env : RetryEnv} {attempt : Nat}

theorem dropWhile_of_all {l l' : List StreamChunk} (h : l.all isPreambleChunk = true) :
    (l ++ l').dropWhile isPreambleChunk = l'.dropWhile isPreambleChunk :=
  dropWhile_append_of_pos (all_eq_true.mp h)

/-- Where a list is not preamble throughout, its first other chunk is one of its own. -/
theorem dropWhile_of_not_all : ∀ {l : List StreamChunk} (l' : List StreamChunk),
    l.all isPreambleChunk = false →
      ∃ c rest, (l ++ l').dropWhile isPreambleChunk = c :: rest ∧ c ∈ l
  | [], _, h => nomatch h
  | c :: l, l', h => by
    cases hc : isPreambleChunk c with
    | true =>
      rw [all_cons, hc, Bool.true_and] at h
      obtain ⟨d, rest, hdrop, hd⟩ := dropWhile_of_not_all l' h
      refine ⟨d, rest, ?_, mem_cons_of_mem c hd⟩
      rw [cons_append, dropWhile_cons, hc]
      exact hdrop
    | false =>
      refine ⟨c, l ++ l', ?_, mem_cons_self⟩
      rw [cons_append, dropWhile_cons, hc]
      rfl

theorem retryError_of_quiet {mayRetry : Bool} {c : StreamChunk} (h : c.isTerminal = false) :
    retryError mayRetry c = none := by
  obtain ⟨runId, body, raw⟩ := c
  cases body <;> first | rfl | nomatch h

/-- **How the loop over an attempt is left**: for the next attempt, after a terminal chunk, or at
    the end of a stream without one. -/
theorem attemptExit_cases (env : RetryEnv) (attempt : Nat) :
    (∃ error a, env.earlyError attempt = some error ∧
      attemptExit env attempt = ([], .retry error a) ∧ a.committed = false ∧
      NoTerminal a.preamble ∧ runStarts a.preamble ≤ 1) ∨
    (env.PassesTerminal attempt ∧ ∃ out a, attemptExit env attempt = (out, .returned a) ∧
      OneTerminal out ∧ runStarts out ≤ 1 ∧ a.preamble = []) ∨
    (env.earlyError attempt = none ∧ NoTerminal (env.stream attempt) ∧
      ∃ out a, attemptExit env attempt = (out, .drained a) ∧ out ++ a.preamble = env.stream attempt ∧
        runStarts (env.stream attempt) ≤ 1 ∧ (a.committed = false → out = []) ∧
        (a.committed = false ↔ env.main attempt = [])) := by
  obtain ⟨hstarts, hquiet | hone⟩ := enforce_shape (env.make attempt).chunks
  · -- a stream without a terminal chunk
    right; right
    obtain ⟨out, a, -, hout, hheld, hcommitted, hrun⟩ :=
      run_quiet hquiet (a := {}) nofun
    have hmain : a.committed = false ↔ env.main attempt = [] := by
      cases hall : (env.stream attempt).all isPreambleChunk with
      | true =>
        have hfresh : a.committed = false := by
          rw [eq_false_iff, Ne, hcommitted]
          rintro (h | h)
          · nomatch h
          · rw [show (enforceStreamContract _).all isPreambleChunk = true from hall] at h
            nomatch h
        exact ⟨fun _ => dropWhile_eq_nil_iff.mpr (all_eq_true.mp hall), fun _ => hfresh⟩
      | false =>
        obtain ⟨c, rest, hdrop, -⟩ := dropWhile_of_not_all [] hall
        rw [append_nil] at hdrop
        constructor
        · intro h
          rw [hcommitted.mpr (Or.inr hall)] at h
          nomatch h
        · intro h
          rw [RetryEnv.main, hdrop] at h
          nomatch h
    refine ⟨?_, hquiet, out, a, ?_, hout, hstarts, hheld, hmain⟩
    · rw [RetryEnv.earlyError]
      split
      · rename_i c rest hc
        refine retryError_of_quiet (hquiet c ?_)
        have hmem : c ∈ env.main attempt := by
          rw [hc]
          exact mem_cons_self
        exact (dropWhile_sublist _).subset hmem
      · rfl
    · have h := hrun []
      rw [append_nil] at h
      rw [attemptExit, h, Consumer.run_nil]
      show (out ++ [], Exit.drained a) = _
      rw [append_nil]
  · -- a stream with one
    obtain ⟨init, last, hstream, hlast, hinit⟩ := hone
    obtain ⟨out, a, -, hout, hheld, hcommitted, hrun⟩ :=
      run_quiet hinit (a := {}) nofun
    rw [nil_append] at hout
    have hpasses : ∃ c ∈ env.stream attempt, c.isTerminal = true :=
      ⟨last, by rw [RetryEnv.stream, hstream]; exact mem_append_right _ mem_cons_self,
        hlast⟩
    have hinitStarts : runStarts init ≤ 1 := by
      rw [hstream, runStarts_append] at hstarts
      omega
    have hpreamble : isPreambleChunk last = false := by
      cases h : isPreambleChunk last with
      | false => rfl
      | true => exact absurd hlast (by rw [isTerminal_of_preamble h]; exact Bool.false_ne_true)
    have hearly : env.earlyError attempt =
        if a.committed = true then none else retryError (env.mayRetry attempt) last := by
      cases hall : init.all isPreambleChunk with
      | true =>
        have hfresh : ¬ a.committed = true := by
          rw [hcommitted, hall]
          simp
        rw [if_neg hfresh, RetryEnv.earlyError, RetryEnv.main, RetryEnv.stream, hstream,
          dropWhile_of_all hall, dropWhile_cons, hpreamble]
        rfl
      | false =>
        obtain ⟨c, rest, hdrop, hc⟩ := dropWhile_of_not_all [last] hall
        rw [if_pos (hcommitted.mpr (Or.inr hall)), RetryEnv.earlyError, RetryEnv.main,
          RetryEnv.stream, hstream, hdrop]
        exact retryError_of_quiet (hinit c hc)
    have hexit (es : List StreamChunk) (r : Exit)
        (hstep : receive (env.mayRetry attempt) a last = (es, .inr r)) :
        attemptExit env attempt = (out ++ es, r) := by
      rw [attemptExit, hstream, hrun, (attemptLoop _).run_cons_inr hstep]
    rcases receive_terminal (a := a) hlast with
      ⟨error, hfresh, herror, hstep⟩ | ⟨hpass, es, a', hstep, hone, hzero, hempty⟩
    · left
      have hsilent := hheld hfresh
      rw [hsilent, nil_append] at hout
      refine ⟨error, a, ?_, ?_, hfresh, ?_, ?_⟩
      · rw [hearly, if_neg (by rw [hfresh]; exact Bool.false_ne_true), herror]
      · rw [hexit _ _ hstep, hsilent]
        rfl
      · rw [hout]
        exact hinit
      · rw [hout]
        exact hinitStarts
    · right; left
      refine ⟨⟨?_, hpasses⟩, out ++ (a.preamble ++ es), a', hexit _ _ hstep, ?_, ?_, hempty⟩
      · rw [hearly]
        rcases hpass with h | h
        · exact if_pos h
        · rw [h, ite_self]
      · rw [← append_assoc, hout]
        exact OneTerminal.append hinit hone
      · rw [← append_assoc, hout, runStarts_append, hzero]
        exact hinitStarts

/-- **What a throw leads to**: another attempt, or one terminal chunk after what was held back. -/
theorem catchThrown_cases {a : Attempting} (hquiet : NoTerminal a.preamble) (thrown : Thrown) :
    (a.committed = false ∧ env.Retries attempt thrown ∧
      catchThrown env attempt a thrown = ([env.wait attempt thrown.error], true)) ∨
    (¬ (a.committed = false ∧ env.Retries attempt thrown) ∧
      ∃ out, catchThrown env attempt a thrown = (out.map (.emitted attempt), false) ∧
        OneTerminal out ∧ runStarts out ≤ runStarts a.preamble) := by
  unfold catchThrown
  by_cases habort : env.abortedAtCatch attempt = true
  · right
    rw [if_pos habort]
    refine ⟨fun h => ?_, [cancelledChunk], rfl, oneTerminal_singleton rfl, Nat.zero_le _⟩
    rw [h.2.1] at habort
    nomatch habort
  · rw [if_neg habort]
    by_cases hretry :
        (!a.committed && thrown.error.retryable && env.mayRetry attempt) = true
    · left
      simp only [and_eq_true, not_eq_true'] at hretry
      refine ⟨hretry.1.1, ⟨eq_false_iff.mpr habort, hretry.1.2, hretry.2⟩, ?_⟩
      simp [hretry.1.1, hretry.1.2, hretry.2]
    · right
      refine ⟨fun h => hretry ?_, a.preamble ++ [errorChunk thrown.error thrown.error.retryable],
        if_neg hretry, OneTerminal.append hquiet (oneTerminal_singleton rfl), ?_⟩
      · rw [h.1, h.2.2.1, h.2.2.2]
        rfl
      · rw [runStarts_append]
        exact Nat.le_refl _

/-- The happenings are no chunks. -/
def Silent (l : List Happening) : Prop := ∀ x ∈ l, x.chunk? = none ∧ x.isStart = false

theorem silent_nil : Silent [] := fun _ => nofun

theorem silent_wait (error : AdapterError) : Silent [env.wait attempt error] := by
  intro x hx
  rcases mem_singleton.mp hx with rfl
  exact ⟨rfl, rfl⟩

theorem not_makesWay_of_passes (h : env.PassesTerminal attempt) : ¬ env.MakesWay attempt := by
  rintro ⟨-, hway⟩
  rw [h.1] at hway
  obtain ⟨c, hc, hterminal⟩ := h.2
  have hpre := dropWhile_eq_nil_iff.mp hway.1 c hc
  rw [isTerminal_of_preamble hpre] at hterminal
  nomatch hterminal

/-- **What an attempt that has not been aborted can do**: it makes way without a chunk; it ends the
    run with its only terminal chunk; or a terminal chunk passes and its source fails to close. -/
theorem runAttempt_cases (hstart : env.abortedAtStart attempt = false) :
    (env.MakesWay attempt ∧ env.mayRetry attempt = true ∧ ∃ waits, Silent waits ∧
      runAttempt env attempt = (.started attempt :: waits, true)) ∨
    (¬ env.MakesWay attempt ∧ env.ClosesWell attempt ∧ ∃ waits out, Silent waits ∧
      runAttempt env attempt = (.started attempt :: (waits ++ out.map (.emitted attempt)), false) ∧
      OneTerminal out ∧ runStarts out ≤ 1) ∨
    (env.PassesTerminal attempt ∧ ∃ thrown ∈ (env.make attempt).closing, ∃ out a,
      OneTerminal out ∧ a.preamble = [] ∧ runAttempt env attempt =
        (.started attempt :: (out.map (.emitted attempt) ++ (catchThrown env attempt a thrown).1),
          (catchThrown env attempt a thrown).2)) := by
  have hrun : runAttempt env attempt =
      (.started attempt :: ((attemptExit env attempt).1.map (.emitted attempt) ++
        (afterLoop env attempt (attemptExit env attempt).2).1),
        (afterLoop env attempt (attemptExit env attempt).2).2) :=
    if_neg (by rw [hstart]; exact Bool.false_ne_true)
  have hway : env.MakesWay attempt ↔ match env.earlyError attempt with
      | some _ => ∀ thrown ∈ (env.make attempt).closing, env.Retries attempt thrown
      | none => env.main attempt = [] ∧ ∃ thrown ∈ (env.make attempt).thrown,
          env.Retries attempt thrown := and_iff_right hstart
  rcases attemptExit_cases env attempt with
    ⟨error, a, hearly, hexit, hfresh, hquiet, hstarts⟩ |
    ⟨hpasses, out, a, hexit, hone, hstarts, hempty⟩ |
    ⟨hearly, hquiet, out, a, hexit, hout, hstarts, hheld, hmain⟩
  · -- the stream asks for another attempt
    rw [hearly] at hway
    rw [hexit] at hrun
    cases hclosing : (env.make attempt).closing with
    | none =>
      left
      have hmay : env.mayRetry attempt = true := by
        have hsome := hearly
        rw [RetryEnv.earlyError] at hsome
        split at hsome
        · exact (and_eq_true_iff.mp (Option.filter_eq_some_iff.mp hsome).2).2
        · nomatch hsome
      refine ⟨hway.mpr ?_, hmay, [env.wait attempt error], silent_wait error, ?_⟩
      · rw [hclosing]
        exact fun _ => nofun
      · rw [hrun]
        simp only [afterLoop, closeSource, hclosing]
        rfl
    | some thrown =>
      have hafter : afterLoop env attempt (.retry error a) =
          (env.wait attempt error :: (catchThrown env attempt a thrown).1,
            (catchThrown env attempt a thrown).2) := by
        simp only [afterLoop, closeSource, hclosing]
      rw [hafter] at hrun
      have hway' : env.MakesWay attempt ↔ env.Retries attempt thrown := by
        rw [hway, hclosing]
        exact ⟨fun h => h thrown rfl, fun h t ht => by rwa [← Option.some.inj ht]⟩
      rcases catchThrown_cases hquiet thrown with
        ⟨-, hretries, hcatch⟩ | ⟨hnot, out, hcatch, hone, hle⟩
      · left
        refine ⟨hway'.mpr hretries, hretries.2.2,
          [env.wait attempt error, env.wait attempt thrown.error], ?_, ?_⟩
        · exact forall_mem_cons.mpr ⟨⟨rfl, rfl⟩, silent_wait _⟩
        · rw [hrun, hcatch]
          rfl
      · right; left
        refine ⟨fun h => hnot ⟨hfresh, hway'.mp h⟩, fun h => ?_, [env.wait attempt error], out,
          silent_wait error, ?_, hone, hle.trans hstarts⟩
        · rw [h.1] at hearly
          nomatch hearly
        rw [hrun, hcatch]
        rfl
  · -- a terminal chunk has passed
    have hnotWay := not_makesWay_of_passes hpasses
    rw [hexit] at hrun
    cases hclosing : (env.make attempt).closing with
    | none =>
      right; left
      refine ⟨hnotWay, fun _ => hclosing, [], out, silent_nil, ?_, hone, hstarts⟩
      rw [hrun]
      simp only [afterLoop, closeSource, hclosing, append_nil]
      rfl
    | some thrown =>
      right; right
      refine ⟨hpasses, thrown, rfl, out, a, hone, hempty, ?_⟩
      rw [hrun]
      simp only [afterLoop, closeSource, hclosing]
  · -- the stream has ended without one
    rw [hearly] at hway
    rw [hexit] at hrun
    have hcloses : env.ClosesWell attempt := by
      rintro ⟨-, c, hc, hterminal⟩
      rw [hquiet c hc] at hterminal
      nomatch hterminal
    have hheldQuiet : NoTerminal a.preamble := by
      rw [← hout] at hquiet
      exact (noTerminal_append.mp hquiet).2
    have houtQuiet : NoTerminal out := by
      rw [← hout] at hquiet
      exact (noTerminal_append.mp hquiet).1
    rw [← hout, runStarts_append] at hstarts
    cases hthrown : (env.make attempt).thrown with
    | none =>
      right; left
      have hlast : OneTerminal (a.preamble ++ [errorChunk (noTerminalError a.providerId) false]) :=
        OneTerminal.append hheldQuiet (oneTerminal_singleton rfl)
      refine ⟨?_, hcloses, [], out ++ (a.preamble ++ [errorChunk (noTerminalError a.providerId) false]),
        silent_nil, ?_, OneTerminal.append houtQuiet hlast, ?_⟩
      · rw [hway, hthrown]
        rintro ⟨-, thrown, h, -⟩
        nomatch h
      · rw [hrun]
        simp only [afterLoop, hthrown, map_append, nil_append]
      · rw [runStarts_append, runStarts_append]
        exact hstarts
    | some thrown =>
      have hafter : afterLoop env attempt (.drained a) = catchThrown env attempt a thrown := by
        simp only [afterLoop, hthrown]
      rw [hafter] at hrun
      have hway' : env.MakesWay attempt ↔ a.committed = false ∧ env.Retries attempt thrown := by
        rw [hway, hthrown, hmain]
        refine and_congr_right fun _ => ⟨?_, fun h => ⟨thrown, rfl, h⟩⟩
        rintro ⟨t, ht, h⟩
        rwa [Option.some.inj ht]
      rcases catchThrown_cases hheldQuiet thrown with
        ⟨hfresh, hretries, hcatch⟩ | ⟨hnot, last, hcatch, hone, hle⟩
      · left
        refine ⟨hway'.mpr ⟨hfresh, hretries⟩, hretries.2.2, [env.wait attempt thrown.error],
          silent_wait _, ?_⟩
        rw [hrun, hcatch, hheld hfresh]
        rfl
      · right; left
        refine ⟨fun h => hnot (hway'.mp h), hcloses, [], out ++ last, silent_nil, ?_,
          OneTerminal.append houtQuiet hone, ?_⟩
        · rw [hrun, hcatch, nil_append, map_append]
        · rw [runStarts_append]
          omega

end Attempt

/-! ## A run -/

section Run

variable {env : RetryEnv}

/-- The shape of a run that keeps the contract: the starts and waits up to its last attempt, and
    what that one emits. -/
structure Settled (first most : Nat) (run : List Happening) : Prop where
  intro ::
  shape : ∃ opening k out, run = opening ++ out.map (.emitted k) ∧
    (∀ x ∈ opening, x.chunk? = none) ∧ (∀ j, .started j ∈ opening → j ≤ k) ∧ first ≤ k ∧
    opening.countP (·.isStart) ≤ most ∧ OneTerminal out ∧ runStarts out ≤ 1

theorem settled_last {k most : Nat} {waits : List Happening} {out : List StreamChunk}
    (hwaits : Silent waits) (hone : OneTerminal out) (hstarts : runStarts out ≤ 1) :
    Settled k (most + 1) (.started k :: (waits ++ out.map (.emitted k))) := by
  refine ⟨.started k :: waits, k, out, rfl, ?_, ?_, Nat.le_refl k, ?_, hone, hstarts⟩
  · exact forall_mem_cons.mpr ⟨rfl, fun x hx => (hwaits x hx).1⟩
  · intro j hj
    rcases mem_cons.mp hj with h | h
    · exact Nat.le_of_eq (Happening.started.inj h)
    · nomatch (hwaits _ h).2
  · rw [countP_cons, starts_eq_zero fun x hx => (hwaits x hx).2]
    show 0 + 1 ≤ most + 1
    omega

theorem Settled.after {k most : Nat} {waits run : List Happening} (hwaits : Silent waits)
    (h : Settled (k + 1) most run) : Settled k (most + 1) (.started k :: waits ++ run) := by
  obtain ⟨opening, last, out, rfl, hsilent, hle, hfirst, hmost, hone, hstarts⟩ := h.shape
  refine ⟨.started k :: waits ++ opening, last, out, by rw [append_assoc], ?_, ?_, by omega,
    ?_, hone, hstarts⟩
  · intro x hx
    rcases mem_append.mp hx with hx | hx
    · rcases mem_cons.mp hx with rfl | hx
      · rfl
      · exact (hwaits x hx).1
    · exact hsilent x hx
  · intro j hj
    rcases mem_append.mp hj with hj | hj
    · rcases mem_cons.mp hj with h | h
      · obtain rfl := Happening.started.inj h
        omega
      · nomatch (hwaits _ h).2
    · exact hle j hj
  · rw [countP_append, countP_cons, starts_eq_zero fun x hx => (hwaits x hx).2]
    show 0 + 1 + _ ≤ most + 1
    omega

theorem Settled.contract {first most : Nat} {run : List Happening} (h : Settled first most run) :
    Contract most run := by
  obtain ⟨opening, k, out, rfl, hsilent, hle, -, hmost, hone, hstarts⟩ := h.shape
  have hseen : seen (opening ++ out.map (.emitted k)) = out := by
    rw [seen_append, seen_of_silent hsilent, seen_emitted, nil_append]
  have hnoStart : ∀ x ∈ out.map (Happening.emitted k), x.isStart = false := by
    intro x hx
    obtain ⟨c, -, rfl⟩ := mem_map.mp hx
    rfl
  have hfrom : ∀ j c, .emitted j c ∈ opening ++ out.map (Happening.emitted k) → j = k := by
    intro j c hmem
    rcases mem_append.mp hmem with hmem | hmem
    · nomatch hsilent _ hmem
    · obtain ⟨d, -, heq⟩ := mem_map.mp hmem
      exact (Happening.emitted.inj heq).1.symm
  refine ⟨by rw [hseen]; exact hone, by rw [hseen]; exact hstarts, ?_, ?_, ?_⟩
  · intro i c hi j hj
    obtain rfl := hfrom i c hi
    refine ⟨fun hstart => ?_, fun c' h => ?_⟩
    · rcases mem_append.mp hstart with hstart | hstart
      · have := hle j hstart
        omega
      · nomatch hnoStart _ hstart
    · have := hfrom j c' h
      omega
  · refine pairwise_append.mpr ⟨?_, ?_, ?_⟩
    · refine pairwise_of_forall_mem_list fun x hx y _ hout => ?_
      rw [Happening.isOutput, hsilent x hx] at hout
      nomatch hout
    · exact pairwise_of_forall_mem_list fun x _ y hy _ => hnoStart y hy
    · exact fun x _ y hy _ => hnoStart y hy
  · rw [countP_append, starts_eq_zero hnoStart]
    exact hmost

theorem runFrom_of_last {left attempt : Nat} {run : List Happening}
    (h : runAttempt env attempt = (run, false)) : runFrom env left attempt = run := by
  cases left with
  | zero => rw [runFrom, h]
  | succ left =>
    rw [runFrom, h]
    exact append_nil run

theorem runFrom_of_again {left attempt : Nat} {run : List Happening}
    (h : runAttempt env attempt = (run, true)) :
    runFrom env (left + 1) attempt = run ++ runFrom env left (attempt + 1) := by
  rw [runFrom, h]
  rfl

/-- **The shape of a run**: where every attempt that is reached closes well, the run is settled.
    The induction is on the attempts that are left. -/
theorem runFrom_settled (left attempt : Nat) (hleft : attempt + left = env.policy.maxAttempts)
    (hclose : ∀ k ≥ attempt, (∀ j ≥ attempt, j < k → env.MakesWay j) →
      env.abortedAtStart k = false → env.ClosesWell k) :
    Settled attempt (left + 1) (runFrom env left attempt) := by
  cases hstart : env.abortedAtStart attempt with
  | true =>
    -- a run that is aborted before the attempt
    rw [runFrom_of_last (if_pos hstart)]
    exact ⟨[], attempt, [cancelledChunk], rfl, fun _ => nofun, fun _ => nofun,
      Nat.le_refl _, Nat.zero_le _, oneTerminal_singleton rfl, Nat.zero_le _⟩
  | false =>
    rcases runAttempt_cases hstart with ⟨hway, hmay, waits, hwaits, hrun⟩ |
      ⟨-, -, waits, out, hwaits, hrun, hone, hstarts⟩ | ⟨hpasses, thrown, hthrown, -⟩
    · cases left with
      | zero =>
        have : attempt < env.policy.maxAttempts := of_decide_eq_true hmay
        omega
      | succ left =>
        rw [runFrom_of_again hrun]
        refine Settled.after hwaits (runFrom_settled left (attempt + 1) (by omega) ?_)
        intro k hk hbefore
        refine hclose k (by omega) fun j hj hjk => ?_
        rcases Nat.eq_or_lt_of_le hj with rfl | hj
        · exact hway
        · exact hbefore j hj hjk
    · rw [runFrom_of_last hrun]
      exact settled_last hwaits hone hstarts
    · have hclosing := hclose attempt (Nat.le_refl _) (fun j hj hlt => by omega) hstart hpasses
      rw [hclosing] at hthrown
      nomatch hthrown

/-- How many terminal chunks the consumer sees. -/
def terminals (run : List Happening) : Nat := (seen run).countP (·.isTerminal)

theorem terminals_append (l l' : List Happening) :
    terminals (l ++ l') = terminals l + terminals l' := by
  rw [terminals, seen_append, countP_append]
  rfl

theorem countP_isTerminal {l : List StreamChunk} (h : OneTerminal l) :
    l.countP (·.isTerminal) = 1 := by
  obtain ⟨init, last, rfl, hlast, hinit⟩ := h
  have hzero : init.countP (·.isTerminal) = 0 :=
    countP_eq_zero.mpr fun c hc => by
      rw [hinit c hc]
      exact Bool.false_ne_true
  rw [countP_append, hzero, countP_singleton, if_pos hlast]

theorem terminals_emitted {k : Nat} {out : List StreamChunk} (h : OneTerminal out) :
    terminals (out.map (.emitted k)) = 1 := by
  rw [terminals, seen_emitted, countP_isTerminal h]

theorem terminals_cons_started (k : Nat) (run : List Happening) :
    terminals (.started k :: run) = terminals run := rfl

theorem one_le_terminals (left attempt : Nat) (hleft : attempt + left = env.policy.maxAttempts) :
    1 ≤ terminals (runFrom env left attempt) := by
  cases hstart : env.abortedAtStart attempt with
  | true =>
    rw [runFrom_of_last (if_pos hstart)]
    exact Nat.le_refl 1
  | false =>
    rcases runAttempt_cases hstart with ⟨-, hmay, waits, -, hrun⟩ |
      ⟨-, -, waits, out, -, hrun, hone, -⟩ | ⟨-, thrown, -, out, a, hone, -, hrun⟩
    · cases left with
      | zero =>
        have : attempt < env.policy.maxAttempts := of_decide_eq_true hmay
        omega
      | succ left =>
        have ih := one_le_terminals left (attempt + 1) (by omega)
        rw [runFrom_of_again hrun, terminals_append]
        omega
    · rw [runFrom_of_last hrun, terminals_cons_started, terminals_append, terminals_emitted hone]
      omega
    · have hfirst : 1 ≤ terminals (runAttempt env attempt).1 := by
        rw [hrun]
        show 1 ≤ terminals (.started attempt :: _)
        rw [terminals_cons_started, terminals_append, terminals_emitted hone]
        omega
      cases left with
      | zero => exact hfirst
      | succ left =>
        show 1 ≤ terminals ((runAttempt env attempt).1 ++ _)
        rw [terminals_append]
        omega

/-- **An attempt whose source fails to close shows a second terminal chunk**, its own or one of a
    further attempt. -/
theorem two_le_terminals (left attempt k : Nat) (hleft : attempt + left = env.policy.maxAttempts)
    (hk : attempt ≤ k) (hreached : ∀ j ≥ attempt, j < k → env.MakesWay j)
    (hstart : env.abortedAtStart k = false) (hbad : ¬ env.ClosesWell k) :
    2 ≤ terminals (runFrom env left attempt) := by
  rcases Nat.eq_or_lt_of_le hk with rfl | hlt
  · -- the attempt itself
    have hpasses : env.PassesTerminal attempt := Classical.byContradiction fun h =>
      hbad fun h' => absurd h' h
    rcases runAttempt_cases hstart with ⟨hway, -⟩ | ⟨-, hcloses, -⟩ |
      ⟨-, thrown, -, out, a, hone, hempty, hrun⟩
    · exact absurd hway (not_makesWay_of_passes hpasses)
    · exact absurd hcloses hbad
    · have hquiet : NoTerminal a.preamble := by
        rw [hempty]
        exact noTerminal_nil
      rcases catchThrown_cases hquiet thrown with
        ⟨-, hretries, hcatch⟩ | ⟨-, last, hcatch, hlast, -⟩
      · -- another attempt, which shows one
        have hlt : attempt < env.policy.maxAttempts := of_decide_eq_true hretries.2.2
        obtain ⟨left, rfl⟩ : ∃ n, left = n + 1 := ⟨left - 1, by omega⟩
        rw [hcatch] at hrun
        have hnext : 1 ≤ terminals (runFrom env left (attempt + 1)) :=
          one_le_terminals left (attempt + 1) (by omega)
        rw [runFrom_of_again hrun, terminals_append, terminals_cons_started, terminals_append,
          terminals_emitted hone]
        omega
      · -- an error chunk of its own
        rw [hcatch] at hrun
        rw [runFrom_of_last hrun, terminals_cons_started, terminals_append,
          terminals_emitted hone, terminals_emitted hlast]
  · -- an attempt after this one, which makes way
    have hway := hreached attempt (Nat.le_refl _) hlt
    rcases runAttempt_cases hway.1 with ⟨-, hmay, waits, -, hrun⟩ | ⟨hnot, -⟩ | ⟨hpasses, -⟩
    · have hmax : attempt < env.policy.maxAttempts := of_decide_eq_true hmay
      obtain ⟨left, rfl⟩ : ∃ n, left = n + 1 := ⟨left - 1, by omega⟩
      have hrest := two_le_terminals left (attempt + 1) k (by omega) hlt
        (fun j hj => hreached j (by omega)) hstart hbad
      rw [runFrom_of_again hrun, terminals_append]
      omega
    · exact absurd hway hnot
    · exact absurd hway (not_makesWay_of_passes hpasses)
termination_by left

/-- **When `withRetry` keeps its contract**: just when no attempt that is reached, all those before
    it having made way, passes a terminal chunk and then throws as its source is closed. -/
theorem withRetry_contract_iff (env : RetryEnv) (h : 1 ≤ env.policy.maxAttempts) :
    Contract env.policy.maxAttempts (withRetry env) ↔
      ∀ k ≥ 1, (∀ j ≥ 1, j < k → env.MakesWay j) → env.abortedAtStart k = false →
        env.ClosesWell k := by
  have hleft : 1 + (env.policy.maxAttempts - 1) = env.policy.maxAttempts := by omega
  constructor
  · intro hcontract k hk hreached hstart
    by_contra hbad
    have htwo := two_le_terminals _ 1 k hleft hk hreached hstart hbad
    have hone := countP_isTerminal hcontract.terminal
    change 2 ≤ (seen (withRetry env)).countP (·.isTerminal) at htwo
    omega
  · intro hclose
    have hsettled := runFrom_settled _ 1 hleft hclose
    rw [Nat.sub_add_cancel h] at hsettled
    exact hsettled.contract

end Run

/-! ## A source that fails to close -/

/-- A provider that answers and throws as its stream is closed. -/
def failingClose : RetryEnv where
  make _ :=
    { chunks :=
        [{ runId := "r", body := .runStart "openai" "m" 0 },
          { runId := "r", body := .textDelta "done" none },
          { runId := "r", body := .runEnd
              { finishReason := .stop, message := { role := .assistant, content := [.text "done"] }
                ts := 1 } }]
      closing := some (.adapterError { code := .transport, message := "socket hang up" }) }
  policy := { maxAttempts := 3, baseDelayMs := 500, maxDelayMs := 15000, jitter := 3 / 10 }

/-- **A source that fails to close**: the answer ends twice. -/
theorem closing_repeats_terminal : ¬ Contract 3 (withRetry failingClose) := by
  intro h
  have hone := countP_isTerminal h.terminal
  have htwo : (seen (withRetry failingClose)).countP (·.isTerminal) = 2 := by decide +kernel
  rw [htwo] at hone
  nomatch hone

/-- The same provider, closing well. -/
def closesWell : RetryEnv :=
  { failingClose with make := fun k => { failingClose.make k with closing := none } }

theorem withRetry_contract_of_close : Contract 3 (withRetry closesWell) :=
  (withRetry_contract_iff closesWell (by decide)).mpr fun _ _ _ _ _ => rfl

end NexusCode.Resilience
