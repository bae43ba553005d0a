/-
  What one chunk, and the end of a stream, can do to an attempt.

  `ChunkStep` lists the six things a chunk can do, each with everything the rest of the proofs
  needs about it, and **`onChunk_step`** proves that the loop does one of them; `EndStep` and
  `onThrow_step` do the same for a stream that throws.  Nothing after this module unfolds the
  loop.
-/
import NexusCode.Router.Continuation

namespace NexusCode.Router

open Lib Shared Recovery

/-! ## Text -/

/-- The chunk is a text delta. -/
def IsText (c : StreamChunk) : Prop := ∃ text channel, c.body = .textDelta text channel

variable {c : StreamChunk}

theorem IsText.not_terminal (h : IsText c) : c.isTerminal = false := by
  obtain ⟨text, channel, h⟩ := h
  rw [StreamChunk.isTerminal, h]

theorem IsText.not_preamble (h : IsText c) : isPreambleChunk c = false := by
  obtain ⟨text, channel, h⟩ := h
  rw [isPreambleChunk, h]

theorem IsText.not_runStart (h : IsText c) : c.isRunStart = false := by
  obtain ⟨text, channel, h⟩ := h
  rw [StreamChunk.isRunStart, h]

theorem IsText.actionKey? (h : IsText c) : actionKey? c = none := by
  obtain ⟨text, channel, h⟩ := h
  rw [Router.actionKey?, h]

/-- What the consumer sees of a chunk: itself, or the rest of its text. -/
def Shown (c c' : StreamChunk) : Prop := c' = c ∨ (IsText c ∧ IsText c')

/-! ## Steps -/

section Steps

variable (env : Env) (turn : Turn)

/-- What a terminal chunk brings out of the overlap, and the tracker after it. -/
inductive Withheld (a : Attempt) : List StreamChunk → Tracker → Prop where
  | nothing : Withheld a [] a.tracker
  | text {r : StreamChunk} (isText : IsText r) (continuing : turn.recovery.isSome = true) :
      Withheld a [r] (a.tracker.observe env.rt env.trackerOptions r)

/-- The attempt continues somebody exactly when it has an overlap to remove. -/
def Attempt.Proper (a : Attempt) : Prop := a.overlap.isSome = turn.recovery.isSome

/-- The plan a failed attempt hands over: after the commit there has to be one. -/
def HandOffPlan (a : Attempt) (t : Tracker) (plan : Option PartialRecoveryPlan) : Prop :=
  if a.committed then ∃ p, plan = some p ∧ createRecoveryPlan env turn t = some p
  else plan = if turn.recovery.isSome then createRecoveryPlan env turn t else none

/-- The preamble that is still held back. -/
def Attempt.held (a : Attempt) : List StreamChunk :=
  if a.committed then [] else flushPreamble turn a.preamble

/-- What a chunk can do: emissions, and the next state or the outcome. -/
inductive ChunkStep (a : Attempt) (c : StreamChunk) :
    List StreamChunk → Attempt ⊕ Outcome → Prop where
  /-- Repeated text is dropped. -/
  | swallow {a' : Attempt} (isText : IsText c) (continuing : turn.recovery.isSome = true)
      (committed : a'.committed = a.committed) (preamble : a'.preamble = a.preamble)
      (tracker : a'.tracker = a.tracker) (proper : a'.Proper turn) : ChunkStep a c [] (.inl a')
  /-- Preamble is held back before the commit. -/
  | buffer {a' : Attempt} (isPreamble : isPreambleChunk c = true) (open_ : a.committed = false)
      (committed : a'.committed = false) (preamble : a'.preamble = a.preamble ++ [c])
      (tracker : a'.tracker = a.tracker) (proper : a'.Proper turn) : ChunkStep a c [] (.inl a')
  /-- Real output commits. -/
  | commit {a' : Attempt} {c' : StreamChunk} (shown : Shown c c') (open_ : a.committed = false)
      (notPreamble : isPreambleChunk c' = false) (notTerminal : c'.isTerminal = false)
      (committed : a'.committed = true) (preamble : a'.preamble = [])
      (tracker : a'.tracker = a.tracker.observe env.rt env.trackerOptions c')
      (proper : a'.Proper turn) :
      ChunkStep a c (flushPreamble turn a.preamble ++ [c']) (.inl a')
  /-- After the commit chunks are forwarded. -/
  | forward {a' : Attempt} {c' : StreamChunk} (shown : Shown c c') (done : a.committed = true)
      (notTerminal : c'.isTerminal = false) (committed : a'.committed = true)
      (preamble : a'.preamble = a.preamble)
      (tracker : a'.tracker = a.tracker.observe env.rt env.trackerOptions c')
      (proper : a'.Proper turn) : ChunkStep a c [c'] (.inl a')
  /-- A terminal chunk ends the run. -/
  | finish {pre : List StreamChunk} {t : Tracker} (isTerminal : c.isTerminal = true)
      (withheld : Withheld env turn a pre t) :
      ChunkStep a c (pre ++ (a.held turn ++ [c])) (.inr .returned)
  /-- Or an error is handed over. -/
  | handOff {pre : List StreamChunk} {t : Tracker} {error : AdapterError}
      {plan : Option PartialRecoveryPlan} (isError : c.error? = some error)
      (may : mayHandOff env turn error = true) (withheld : Withheld env turn a pre t)
      (planned : HandOffPlan env turn a (t.observe env.rt env.trackerOptions c) plan) :
      ChunkStep a c pre (.inr (.handOff error plan))

variable {env turn}

variable {a : Attempt}

/-- The two things removing the overlap can do to a chunk that is not terminal. -/
theorem deduplicate_cases (hproper : a.Proper turn) (c : StreamChunk) :
    ((deduplicate turn c a).2 = none ∧ IsText c ∧ turn.recovery.isSome = true ∨
      ∃ c', (deduplicate turn c a).2 = some c' ∧ Shown c c') ∧
    (deduplicate turn c a).1.committed = a.committed ∧
    (deduplicate turn c a).1.preamble = a.preamble ∧
    (deduplicate turn c a).1.tracker = a.tracker ∧ (deduplicate turn c a).1.Proper turn := by
  unfold deduplicate
  split
  · rename_i text channel overlap hbody hoverlap
    have hcont : turn.recovery.isSome = true := by
      rw [← hproper, hoverlap]
      rfl
    split
    · exact ⟨.inr ⟨c, rfl, .inl rfl⟩, rfl, rfl, rfl, hproper⟩
    · dsimp only
      split
      · exact ⟨.inl ⟨rfl, ⟨text, channel, hbody⟩, hcont⟩, rfl, rfl, rfl, hcont.symm⟩
      · exact ⟨.inr ⟨_, rfl, .inr ⟨⟨text, channel, hbody⟩, ⟨_, _, rfl⟩⟩⟩, rfl, rfl, rfl,
          hcont.symm⟩
  · exact ⟨.inr ⟨c, rfl, .inl rfl⟩, rfl, rfl, rfl, hproper⟩

theorem deduplicate_of_not_text {c : StreamChunk} (h : ¬ IsText c) :
    deduplicate turn c a = (a, some c) := by
  unfold deduplicate
  split
  · rename_i text channel overlap hbody hoverlap
    exact absurd ⟨text, channel, hbody⟩ h
  · rfl

variable (env turn) in
theorem finishOverlap_cases (hproper : a.Proper turn) (runId : String) :
    Withheld env turn a (finishOverlap env turn runId a).2 (finishOverlap env turn runId a).1.tracker
    ∧ (finishOverlap env turn runId a).1.committed = a.committed ∧
    (finishOverlap env turn runId a).1.preamble = a.preamble := by
  unfold finishOverlap
  split
  · exact ⟨.nothing, rfl, rfl⟩
  · rename_i overlap hoverlap
    split
    · exact ⟨.nothing, rfl, rfl⟩
    · dsimp only
      split
      · exact ⟨.nothing, rfl, rfl⟩
      · refine ⟨.text ⟨_, _, rfl⟩ ?_, rfl, rfl⟩
        rw [← hproper, hoverlap]
        rfl

variable (env turn) in
/-- **What a chunk does is one of the six steps.** -/
theorem onChunk_step (hproper : a.Proper turn) (c : StreamChunk) :
    ChunkStep env turn a c (onChunk env turn a c).1 (onChunk env turn a c).2 := by
  by_cases hterm : c.isTerminal = true
  · -- terminal chunks are not text: they settle the overlap first
    have hnot : ¬ IsText c := fun h => by rw [h.not_terminal] at hterm; nomatch hterm
    obtain ⟨hwith, hcom, hpre⟩ := finishOverlap_cases env turn hproper c.runId
    generalize hf : finishOverlap env turn c.runId a = f at hwith hcom hpre
    obtain ⟨a₁, pre⟩ := f
    have hon : onChunk env turn a c = (pre ++ (receive env turn c (a₁.observe env c)).1,
        (receive env turn c (a₁.observe env c)).2) := by
      unfold onChunk
      rw [deduplicate_of_not_text hnot]
      simp only [hterm, if_true, hf]
    have hnp : isPreambleChunk c = false := by
      cases hp : isPreambleChunk c with
      | false => rfl
      | true => rw [isTerminal_of_preamble hp] at hterm; nomatch hterm
    have hcom' : (a₁.observe env c).committed = a.committed := hcom
    have hpre' : (a₁.observe env c).preamble = a.preamble := hpre
    rw [hon]
    cases hc : a.committed with
    | false =>
      have hheld : flushPreamble turn (a₁.observe env c).preamble = a.held turn := by
        rw [hpre', Attempt.held, hc]
        rfl
      rw [receive_uncommitted (hcom'.trans hc), hheld]
      cases herr : c.error? with
      | none =>
        simp only [hnp, hterm, if_true]
        exact .finish hterm hwith
      | some error =>
        by_cases hmay : mayHandOff env turn error = true
        · simp only [hmay, if_true, List.append_nil]
          refine .handOff herr hmay hwith ?_
          rw [HandOffPlan, hc]
          rfl
        · simp only [hmay]
          exact .finish hterm hwith
    | true =>
      have hheld : a.held turn = [] := by rw [Attempt.held, hc]; rfl
      have hfin := ChunkStep.finish (c := c) hterm hwith
      rw [hheld, List.nil_append] at hfin
      rw [receive_committed (hcom'.trans hc)]
      cases herr : c.error? with
      | none =>
        simp only [hterm, if_true]
        exact hfin
      | some error =>
        by_cases hmay : mayHandOff env turn error = true
        · simp only [hmay, if_true]
          cases hplan : createRecoveryPlan env turn (a₁.observe env c).tracker with
          | none => exact hfin
          | some plan =>
            simp only [List.append_nil]
            refine .handOff herr hmay hwith ?_
            rw [HandOffPlan, hc]
            exact ⟨plan, rfl, hplan⟩
        · simp only [hmay]
          exact hfin
  · have hterm : c.isTerminal = false := by simpa using hterm
    obtain ⟨hcases, hcom, hpre, htr, hprop⟩ := deduplicate_cases hproper c
    generalize hd : deduplicate turn c a = d at hcases hcom hpre htr hprop
    obtain ⟨a₁, o⟩ := d
    rcases hcases with ⟨ho, htext, hcont⟩ | ⟨c', ho, hshown⟩
    · obtain rfl : o = none := ho
      have hon : onChunk env turn a c = ([], .inl a₁) := by
        unfold onChunk
        rw [hd]
      rw [hon]
      exact .swallow htext hcont hcom hpre htr hprop
    · obtain rfl : o = some c' := ho
      have hterm' : c'.isTerminal = false := by
        rcases hshown with rfl | ⟨-, h⟩
        · exact hterm
        · exact h.not_terminal
      have herr : c'.error? = none := by
        cases h : c'.error? with
        | none => rfl
        | some e => rw [isTerminal_of_error h] at hterm'; nomatch hterm'
      have hon : onChunk env turn a c = receive env turn c' (a₁.observe env c') := by
        unfold onChunk
        rw [hd]
        simp only [hterm']
        rfl
      have htr' : (a₁.observe env c').tracker = a.tracker.observe env.rt env.trackerOptions c' := by
        show a₁.tracker.observe env.rt env.trackerOptions c' = _
        rw [show a₁.tracker = a.tracker from htr]
      have hcom' : (a₁.observe env c').committed = a.committed := hcom
      rw [hon]
      cases hc : a.committed with
      | true =>
        rw [receive_committed (hcom'.trans hc), herr]
        simp only [hterm']
        exact .forward hshown hc hterm' (hcom'.trans hc) hpre htr' hprop
      | false =>
        rw [receive_uncommitted (hcom'.trans hc), herr]
        cases hp : isPreambleChunk c' with
        | true =>
          obtain rfl : c' = c := by
            rcases hshown with h | ⟨-, h⟩
            · exact h
            · rw [h.not_preamble] at hp
              nomatch hp
          simp only [if_true]
          refine .buffer hp hc (hcom'.trans hc) ?_ ?_ hprop
          · show a₁.preamble ++ [c'] = _
            rw [show a₁.preamble = a.preamble from hpre]
          · show a₁.tracker.observe env.rt env.trackerOptions c' = _
            rw [observe_preamble hp]
            exact htr
        | false =>
          have hflush : flushPreamble turn (a₁.observe env c').preamble
              = flushPreamble turn a.preamble := by
            rw [show (a₁.observe env c').preamble = a.preamble from hpre]
          simp only [hterm', hflush]
          exact .commit hshown hc hp hterm' rfl rfl htr' hprop

variable (env turn)

/-- What a stream that throws can do. -/
inductive EndStep (thrown : Thrown) (a : Attempt) : List Emission → Outcome → Prop where
  /-- The abort is reported, and nothing that was held back. -/
  | aborted : EndStep thrown a [abortedError] .returned
  /-- The error is reported after what was held back. -/
  | report : EndStep thrown a ((a.held turn).map (Emission.mk (some turn.i)) ++
      [routerError thrown.error thrown.error.retryable]) .returned
  /-- Or it is handed over. -/
  | handOff {plan : Option PartialRecoveryPlan} (may : mayHandOff env turn thrown.error = true)
      (planned : HandOffPlan env turn a a.tracker.abortOpenActions plan) :
      EndStep thrown a [] (.handOff thrown.error plan)

variable {env turn}

/-- After the commit the buffer is empty. -/
def Attempt.Flushed (a : Attempt) : Prop := a.committed = true → a.preamble = []

variable (env turn) in
theorem onThrow_step (hflushed : a.Flushed) (thrown : Thrown) :
    EndStep env turn thrown a (onThrow env turn thrown a).1 (onThrow env turn thrown a).2 := by
  have hheld : flushPreamble turn a.preamble = a.held turn := by
    unfold Attempt.held
    split
    · rename_i hc
      rw [hflushed hc]
      rfl
    · rfl
  unfold onThrow
  simp only [hheld]
  split
  · exact .aborted
  · split
    · rename_i h
      refine .handOff h.2 ?_
      rw [HandOffPlan, h.1]
      rfl
    · split
      · rename_i h
        cases hplan : createRecoveryPlan env turn a.tracker.abortOpenActions with
        | none => exact .report
        | some plan =>
          refine .handOff h.2 ?_
          rw [HandOffPlan, if_pos h.1]
          exact ⟨plan, rfl, hplan⟩
      · exact .report

end Steps

end NexusCode.Router
