/-
  What `withRetry` makes of an answer that comes in the final message only.

  `recoverTerminalContent` walks over the blocks of the message.  The flags it asks, whether an
  answer or a reasoning was streamed, it also sets itself, so of each kind of text it recovers the
  first block that is not empty and no other.

  1. `RecoversAll`       — what is wanted: every block is seen, as deltas or as a tool call.
  2. `recoverBlocks_…`   — what comes of the blocks: one lemma for each kind.
  3. `seen_finalOnly`    — what is seen of a run whose last stream is silent up to its end.
  4. **`recovers_all_iff`** — all is recovered just when no kind of text has two blocks.
-/
import NexusCode.Resilience.RetryContract

namespace NexusCode.Resilience

open Lib Shared Router List Option

/-! ## What is seen of an answer -/

/-- The text of a delta of the answer. -/
def answerDelta? (c : StreamChunk) : Option String :=
  match c.body with
  | .textDelta text channel => if channel = some .reasoning then none else some text
  | _ => none

/-- The text of a delta of the reasoning. -/
def reasoningDelta? (c : StreamChunk) : Option String :=
  match c.body with
  | .textDelta text channel => if channel = some .reasoning then some text else none
  | .reasoningDelta text => some text
  | _ => none

/-- What a chunk says of a tool call. -/
inductive ToolEvent where
  | started (id name : String)
  | argument (id argsJsonDelta : String)
  | ended (id : String) (input : Unknown)

def toolEvent? (c : StreamChunk) : Option ToolEvent :=
  match c.body with
  | .toolCallStart id name => some (.started id name)
  | .toolCallDelta id argsJsonDelta => some (.argument id argsJsonDelta)
  | .toolCallEnd id input => some (.ended id input)
  | _ => none

/-- The chunk is no text, reasoning or tool chunk. -/
structure Mute (c : StreamChunk) : Prop where
  answer : answerDelta? c = none
  reasoning : reasoningDelta? c = none
  tool : toolEvent? c = none

/-- The text of a block of thinking. -/
def thinking? : ContentBlock → Option String
  | .thinking text _ => some text
  | _ => none

/-- The start and the end of the tool call of a block. -/
def callEvents : ContentBlock → List ToolEvent
  | .toolUse id name input => [.started id name, .ended id input]
  | _ => []

/-- Every block of the message is seen. -/
structure RecoversAll (chunks : List StreamChunk) (message : Message) : Prop where
  answer : String.join (chunks.filterMap answerDelta?) = textOf message
  reasoning : String.join (chunks.filterMap reasoningDelta?) =
    String.join (message.content.filterMap thinking?)
  tools : chunks.filterMap toolEvent? = message.content.flatMap callEvents

/-! ## Texts that are not empty -/

/-- The texts that are not empty. -/
def solid (texts : List String) : List String := texts.filter fun text => !text.isEmpty

theorem join_solid (texts : List String) : String.join (solid texts) = String.join texts := by
  induction texts with
  | nil => rfl
  | cons text texts ih =>
    unfold solid at ih ⊢
    cases hempty : text.isEmpty with
    | true =>
      rw [filter_cons_of_neg (by rw [hempty]; decide), ih, String.join_cons,
        String.isEmpty_iff.mp hempty, String.empty_append]
    | false =>
      rw [filter_cons_of_pos (by rw [hempty]; rfl), String.join_cons, String.join_cons, ih]

/-- The first of the texts that are not empty is all of them if there is no second. -/
theorem head_eq_join_iff (texts : List String) :
    String.join (solid texts).head?.toList = String.join texts ↔ (solid texts).length ≤ 1 := by
  rw [← join_solid texts]
  have hsolid : ∀ text ∈ solid texts, text.isEmpty = false := by
    intro text h
    simpa using (mem_filter.mp h).2
  generalize solid texts = l at hsolid
  cases l with
  | nil => exact iff_of_true rfl (Nat.zero_le 1)
  | cons first rest =>
    cases rest with
    | nil => exact iff_of_true rfl (Nat.le_refl 1)
    | cons second rest =>
      refine iff_of_false (fun heq => ?_) (by simp)
      -- the second text would be empty
      have hlength := congrArg String.length heq
      have hsecond := hsolid second (mem_cons_of_mem _ mem_cons_self)
      rw [List.head?_cons, toList_some, String.join_cons, String.join_cons, String.join_cons,
        String.join_nil, String.append_empty, String.length_append, String.length_append] at hlength
      have hzero : second.length = 0 := by omega
      rw [String.isEmpty_iff.mpr (String.length_eq_zero_iff.mp hzero)] at hsecond
      nomatch hsecond

/-! ## The blocks -/

section Blocks

variable (end_ : StreamChunk)

/-- What is recovered of one block. -/
def recoverBlock (shown : Shown) : ContentBlock → List StreamChunk
  | .text text =>
    if !shown.answer && !text.isEmpty then
      [{ runId := end_.runId, body := .textDelta text (some .answer), raw := end_.raw }]
    else []
  | .thinking text _ =>
    if !shown.reasoning && !text.isEmpty then
      [{ runId := end_.runId, body := .reasoningDelta text, raw := end_.raw }]
    else []
  | .toolUse id name input =>
    if shown.endedTools.contains id then []
    else
      (if shown.startedTools.contains id then []
        else [{ runId := end_.runId, body := .toolCallStart id name, raw := end_.raw }]) ++
      [{ runId := end_.runId, body := .toolCallEnd id input, raw := end_.raw }]
  | _ => []

/-- The flags behind a block. -/
def Shown.behind (shown : Shown) : ContentBlock → Shown
  | .text text => { shown with answer := shown.answer || !text.isEmpty }
  | .thinking text _ => { shown with reasoning := shown.reasoning || !text.isEmpty }
  | _ => shown

theorem recoverBlocks_cons (shown : Shown) (block : ContentBlock) (rest : List ContentBlock) :
    recoverBlocks end_ shown (block :: rest) =
      recoverBlock end_ shown block ++ recoverBlocks end_ (shown.behind block) rest := by
  obtain ⟨answer, reasoning, startedTools, endedTools⟩ := shown
  cases block with
  | text text =>
    rw [recoverBlocks, recoverBlock, Shown.behind]
    cases answer <;> cases text.isEmpty <;> rfl
  | thinking text signature =>
    rw [recoverBlocks, recoverBlock, Shown.behind]
    cases reasoning <;> cases text.isEmpty <;> rfl
  | toolUse id name input =>
    rw [recoverBlocks, recoverBlock]
    split
    · rfl
    · rw [append_assoc]
      rfl
  | _ => rfl

/-- **Of one kind of text** only the first is recovered that is not empty, and none if one was shown:
    `read` is what the kind is read off, in the blocks and in the chunks, and `flag` its flag. -/
theorem recoverBlocks_first {read : ContentBlock → Option String}
    {delta? : StreamChunk → Option String} (flag : Shown → Bool)
    (hblock : ∀ shown block, (recoverBlock end_ shown block).filterMap delta? =
      if flag shown then [] else ((read block).filter fun text => !text.isEmpty).toList)
    (hflag : ∀ shown block, flag (shown.behind block) =
      (flag shown || ((read block).filter fun text => !text.isEmpty).isSome)) :
    ∀ (blocks : List ContentBlock) (shown : Shown),
      (recoverBlocks end_ shown blocks).filterMap delta? =
        if flag shown then [] else (solid (blocks.filterMap read)).head?.toList := by
  intro blocks
  induction blocks with
  | nil =>
    intro shown
    rw [recoverBlocks]
    cases flag shown <;> rfl
  | cons block rest ih =>
    intro shown
    rw [recoverBlocks_cons, filterMap_append, hblock, ih, hflag]
    cases flag shown with
    | true => rfl
    | false =>
      rw [if_neg Bool.false_ne_true, if_neg Bool.false_ne_true, Bool.false_or]
      unfold solid
      cases hread : read block with
      | none =>
        rw [filterMap_cons_none hread]
        rfl
      | some text =>
        rw [filterMap_cons_some hread, filter_cons, filter_some]
        cases text.isEmpty <;> rfl

theorem recoverBlocks_answer (blocks : List ContentBlock) (shown : Shown) :
    (recoverBlocks end_ shown blocks).filterMap answerDelta? =
      if shown.answer then [] else (solid (blocks.filterMap (·.text?))).head?.toList := by
  refine recoverBlocks_first end_ Shown.answer (fun shown block => ?_)
    (fun shown block => ?_) blocks shown
  · cases block with
    | text text =>
      show List.filterMap _ (ite _ _ _) = ite _ _ (Option.filter _ (some text)).toList
      rw [filter_some]
      cases shown.answer <;> cases text.isEmpty <;> rfl
    | thinking text signature =>
      rw [recoverBlock]
      cases shown.answer <;> split <;> rfl
    | toolUse id name input =>
      rw [recoverBlock]
      cases shown.answer <;> split <;> (try split) <;> rfl
    | _ => cases shown.answer <;> rfl
  · cases block with
    | text text =>
      show _ = (shown.answer || (Option.filter _ (some text)).isSome)
      rw [filter_some]
      cases htext : text.isEmpty <;> simp [Shown.behind, htext]
    | _ => exact (Bool.or_false _).symm

theorem recoverBlocks_reasoning (blocks : List ContentBlock) (shown : Shown) :
    (recoverBlocks end_ shown blocks).filterMap reasoningDelta? =
      if shown.reasoning then [] else (solid (blocks.filterMap thinking?)).head?.toList := by
  refine recoverBlocks_first end_ Shown.reasoning (fun shown block => ?_)
    (fun shown block => ?_) blocks shown
  · cases block with
    | thinking text signature =>
      show List.filterMap _ (ite _ _ _) = ite _ _ (Option.filter _ (some text)).toList
      rw [filter_some]
      cases shown.reasoning <;> cases text.isEmpty <;> rfl
    | text text =>
      rw [recoverBlock]
      cases shown.reasoning <;> split <;> rfl
    | toolUse id name input =>
      rw [recoverBlock]
      cases shown.reasoning <;> split <;> (try split) <;> rfl
    | _ => cases shown.reasoning <;> rfl
  · cases block with
    | thinking text signature =>
      show _ = (shown.reasoning || (Option.filter _ (some text)).isSome)
      rw [filter_some]
      cases htext : text.isEmpty <;> simp [Shown.behind, htext]
    | _ => exact (Bool.or_false _).symm

/-- **Every tool call is recovered**, where none was seen before. -/
theorem recoverBlocks_tools : ∀ (blocks : List ContentBlock) (shown : Shown),
    shown.startedTools = [] → shown.endedTools = [] →
      (recoverBlocks end_ shown blocks).filterMap toolEvent? = blocks.flatMap callEvents := by
  intro blocks
  induction blocks with
  | nil => exact fun _ _ _ => rfl
  | cons block rest ih =>
    intro shown hstarted hended
    have hbehind : (shown.behind block).startedTools = [] ∧ (shown.behind block).endedTools = [] := by
      cases block <;> exact ⟨hstarted, hended⟩
    rw [recoverBlocks_cons, filterMap_append, ih _ hbehind.1 hbehind.2, flatMap_cons]
    refine congrArg (· ++ rest.flatMap callEvents) ?_
    cases block with
    | toolUse id name input =>
      rw [recoverBlock]
      rw [hstarted, hended]
      rfl
    | text text =>
      rw [recoverBlock]
      split <;> rfl
    | thinking text signature =>
      rw [recoverBlock]
      split <;> rfl
    | _ => rfl

end Blocks

/-! ## An attempt that is silent up to its end -/

variable {c : StreamChunk}

theorem note_of_mute (shown : Shown) (h : Mute c) : shown.note c = shown := by
  obtain ⟨hanswer, hreasoning, htool⟩ := h
  obtain ⟨runId, body, raw⟩ := c
  cases body with
  | textDelta text channel =>
    by_cases hchannel : channel = some .reasoning
    · have hsome : reasoningDelta? ⟨runId, .textDelta text channel, raw⟩ = some text := if_pos hchannel
      rw [hsome] at hreasoning
      nomatch hreasoning
    · have hsome : answerDelta? ⟨runId, .textDelta text channel, raw⟩ = some text := if_neg hchannel
      rw [hsome] at hanswer
      nomatch hanswer
  | reasoningDelta => nomatch hreasoning
  | toolCallStart => nomatch htool
  | toolCallEnd => nomatch htool
  | _ => rfl

theorem receive_shown {mayRetry : Bool} {a a' : Attempting}
    {out : List StreamChunk} (hmute : Mute c) (h : receive mayRetry a c = (out, .inl a')) :
    a'.shown = a.shown := by
  have hname : (a.name c).shown = a.shown := by
    unfold Attempting.name
    split <;> rfl
  unfold receive at h
  dsimp only at h
  split at h
  · obtain ⟨-, ha⟩ := Prod.mk.inj h
    rw [← Sum.inl.inj ha]
    exact hname
  · split at h
    · split at h <;> nomatch (Prod.mk.inj h).2
    · split at h <;> nomatch (Prod.mk.inj h).2
    · obtain ⟨-, ha⟩ := Prod.mk.inj h
      rw [← Sum.inl.inj ha]
      exact (note_of_mute _ hmute).trans hname

/-- **Mute chunks** pass, or are held back, and nothing is noted of them. -/
theorem run_mute (mayRetry : Bool) : ∀ {init : List StreamChunk} {a : Attempting},
    NoTerminal init → (∀ c ∈ init, Mute c) →
      ∃ out a', out ++ a'.preamble = a.preamble ++ init ∧ a'.shown = a.shown ∧
        ∀ rest, (attemptLoop mayRetry).run a (init ++ rest) =
          (out ++ ((attemptLoop mayRetry).run a' rest).1, ((attemptLoop mayRetry).run a' rest).2) := by
  intro init
  induction init with
  | nil => exact fun {a} _ _ => ⟨[], a, (append_nil _).symm, rfl, fun _ => rfl⟩
  | cons c init ih =>
    intro a hquiet hmute
    obtain ⟨hc, hinit⟩ := forall_mem_cons.mp hquiet
    obtain ⟨hmutec, hmute⟩ := forall_mem_cons.mp hmute
    obtain ⟨out₁, a₁, hstep, -, hout₁, -⟩ := receive_quiet a hc
    obtain ⟨out, a', hout, hshown, hrun⟩ := ih (a := a₁) hinit hmute
    refine ⟨out₁ ++ out, a', ?_, hshown.trans (receive_shown hmutec hstep), fun rest => ?_⟩
    · rw [append_assoc, hout, ← append_assoc, hout₁, append_assoc]
      rfl
    · rw [cons_append, (attemptLoop mayRetry).run_cons_inl hstep, hrun, append_assoc]

theorem errorForRunEnd_none (end_ : RunEnd) (providerId : Option String) :
    errorForRunEnd end_ providerId = none ↔ errorForRunEnd end_ none = none := by
  unfold errorForRunEnd
  cases end_.finishReason with
  | contentFilter => exact iff_of_false nofun nofun
  | cancelled => exact iff_of_false nofun nofun
  | error => exact iff_of_false nofun nofun
  | _ =>
    dsimp only
    cases end_.message.content.any renderable
    · exact iff_of_false nofun nofun
    · exact iff_of_true rfl rfl

theorem solid_ne_nil {texts : List String} {text : String} (h : text ∈ texts)
    (htrim : (!(JsString.trim text).isEmpty) = true) : solid texts ≠ [] := by
  have hne : (!text.isEmpty) = true := by
    cases hempty : text.isEmpty with
    | true =>
      rw [String.isEmpty_iff.mp hempty] at htrim
      nomatch htrim
    | false => rfl
  exact ne_nil_of_mem (mem_filter.mpr ⟨h, hne⟩)

/-- Something is recovered of a message by which a turn can be shown. -/
theorem recoverBlocks_ne_nil {blocks : List ContentBlock}
    (h : blocks.any renderable = true) : recoverBlocks c {} blocks ≠ [] := by
  intro hnil
  have hanswer := recoverBlocks_answer c blocks {}
  have hreasoning := recoverBlocks_reasoning c blocks {}
  have htools := recoverBlocks_tools c blocks {} rfl rfl
  rw [hnil] at hanswer hreasoning htools
  have hfirst : ∀ {texts : List String}, [] = texts.head?.toList → texts = [] := by
    intro texts hhead
    cases texts with
    | nil => rfl
    | cons => nomatch hhead
  obtain ⟨block, hblock, hrender⟩ := any_eq_true.mp h
  cases block with
  | text text =>
    exact solid_ne_nil (mem_filterMap.mpr ⟨_, hblock, rfl⟩) hrender (hfirst hanswer)
  | thinking text signature =>
    exact solid_ne_nil (mem_filterMap.mpr ⟨_, hblock, rfl⟩) hrender (hfirst hreasoning)
  | toolUse id name input =>
    have hevent : ToolEvent.started id name ∈ blocks.flatMap callEvents :=
      mem_flatMap.mpr ⟨_, hblock, mem_cons_self⟩
    rw [← htools] at hevent
    nomatch hevent
  | _ => nomatch hrender

theorem renderable_of_errorForRunEnd {end_ : RunEnd} (h : errorForRunEnd end_ none = none) :
    end_.message.content.any renderable = true := by
  unfold errorForRunEnd at h
  dsimp only at h
  split at h
  · nomatch h
  · nomatch h
  · nomatch h
  · split at h
    · next hany => exact hany
    · nomatch h

/-! ## The run -/

/-- The stream of the attempt, as it is forwarded, sends no text, reasoning or tool chunk up to its
    final message, and the message is no error. -/
structure FinalOnly (env : RetryEnv) (attempt : Nat) (front : List StreamChunk) (c : StreamChunk)
    (end_ : RunEnd) : Prop where
  stream : env.stream attempt = front ++ [c]
  mute : ∀ d ∈ front, Mute d
  body : c.body = .runEnd end_
  noError : errorForRunEnd end_ none = none

/-- **What an attempt emits** that sends the final message only. -/
theorem attemptExit_finalOnly {env : RetryEnv} {attempt : Nat} {front : List StreamChunk}
    {end_ : RunEnd} (h : FinalOnly env attempt front c end_) : ∃ a, attemptExit env attempt =
      (front ++ recoverBlocks c {} end_.message.content ++ [c], .returned a) ∧
        a.committed = true ∧ a.preamble = [] := by
  obtain ⟨hstream, hmute, hbody, hnoError⟩ := h
  have hquiet : NoTerminal front := by
    have hterminal : c.isTerminal = true := by
      unfold StreamChunk.isTerminal
      rw [hbody]
    rcases (enforce_shape (env.make attempt).chunks).2 with hnone | ⟨init, last, heq, -, hinit⟩
    · have hlast := hnone c (by
        rw [show enforceStreamContract _ = front ++ [c] from hstream]
        exact mem_append_right _ (mem_singleton_self c))
      rw [hlast] at hterminal
      nomatch hterminal
    · rw [show enforceStreamContract _ = front ++ [c] from hstream] at heq
      rw [(append_inj' heq rfl).1]
      exact hinit
  obtain ⟨out, a, hout, hshown, hrun⟩ :=
    run_mute (env.mayRetry attempt) (a := {}) hquiet hmute
  obtain ⟨runId, body, raw⟩ := c
  obtain rfl : body = .runEnd end_ := hbody
  have herror := (errorForRunEnd_none end_ a.providerId).mpr hnoError
  have hstep : receive (env.mayRetry attempt) a ⟨runId, .runEnd end_, raw⟩ =
      (a.preamble ++ recoverBlocks ⟨runId, .runEnd end_, raw⟩ a.shown end_.message.content ++
        [⟨runId, .runEnd end_, raw⟩], .inr (.returned { a with
          preamble := []
          committed := a.committed ||
            !(recoverBlocks ⟨runId, .runEnd end_, raw⟩ a.shown end_.message.content).isEmpty })) := by
    have hname : a.name ⟨runId, .runEnd end_, raw⟩ = a := rfl
    unfold receive
    simp only [hname, isPreambleChunk, Bool.and_false, Bool.false_eq_true, if_false, herror]
  refine ⟨{ a with
    preamble := []
    committed := a.committed ||
      !(recoverBlocks ⟨runId, .runEnd end_, raw⟩ a.shown end_.message.content).isEmpty }, ?_, ?_,
    rfl⟩
  · rw [attemptExit, show enforceStreamContract _ = _ from hstream, hrun,
      (attemptLoop _).run_cons_inr hstep]
    refine Prod.ext ?_ rfl
    dsimp only
    rw [hshown, append_assoc, ← append_assoc out, hout, ← append_assoc]
    rfl
  · have hrecovered := recoverBlocks_ne_nil (c := ⟨runId, .runEnd end_, raw⟩)
      (renderable_of_errorForRunEnd hnoError)
    dsimp only
    rw [hshown, isEmpty_eq_false_iff.mpr hrecovered]
    exact Bool.or_true _

/-- What a source leads to that throws as it is closed: at most an error chunk. -/
theorem closeSource_committed (env : RetryEnv) (attempt : Nat) {a : Attempting}
    (hcommitted : a.committed = true) (hpreamble : a.preamble = []) :
    ∃ errors : List StreamChunk, closeSource env attempt a true = (errors.map (.emitted attempt), false) ∧
      ∀ e ∈ errors, Mute e := by
  unfold closeSource
  cases (env.make attempt).closing with
  | none => exact ⟨[], rfl, fun _ => nofun⟩
  | some thrown =>
    dsimp only
    unfold catchThrown
    split
    · exact ⟨[cancelledChunk], rfl, forall_mem_singleton.mpr ⟨rfl, rfl, rfl⟩⟩
    · rw [hcommitted, hpreamble]
      exact ⟨[_], rfl, forall_mem_singleton.mpr ⟨rfl, rfl, rfl⟩⟩

/-- The attempts before the one that is reached are not seen. -/
theorem seen_reached {env : RetryEnv} {k : Nat} : ∀ (left attempt : Nat),
    env.policy.maxAttempts ≤ attempt + left → attempt ≤ k →
      (∀ j ≥ attempt, j < k → env.MakesWay j) →
        ∃ left', seen (runFrom env left attempt) = seen (runFrom env left' k) := by
  intro left
  induction left with
  | zero =>
    intro attempt hmost hk hreached
    rcases Nat.eq_or_lt_of_le hk with rfl | hlt
    · exact ⟨0, rfl⟩
    · have hway := hreached attempt (Nat.le_refl _) hlt
      rcases runAttempt_cases hway.1 with ⟨-, hmay, -⟩ | ⟨hnot, -⟩ | ⟨hpasses, -⟩
      · have : attempt < env.policy.maxAttempts := of_decide_eq_true hmay
        omega
      · exact absurd hway hnot
      · exact absurd hway (not_makesWay_of_passes hpasses)
  | succ left ih =>
    intro attempt hmost hk hreached
    rcases Nat.eq_or_lt_of_le hk with rfl | hlt
    · exact ⟨left + 1, rfl⟩
    · have hway := hreached attempt (Nat.le_refl _) hlt
      rcases runAttempt_cases hway.1 with ⟨-, -, waits, hwaits, hrun⟩ | ⟨hnot, -⟩ | ⟨hpasses, -⟩
      · obtain ⟨left', hseen⟩ := ih (attempt + 1) (by omega) hlt fun j hj => hreached j (by omega)
        refine ⟨left', ?_⟩
        rw [runFrom_of_again hrun, seen_append, hseen]
        refine congrArg (· ++ seen (runFrom env left' k)) (seen_of_silent fun x hx => ?_)
        rcases mem_cons.mp hx with rfl | hx
        · rfl
        · exact (hwaits x hx).1
      · exact absurd hway hnot
      · exact absurd hway (not_makesWay_of_passes hpasses)

/-- **What is seen of a run** that reaches an attempt that sends the final message only. -/
theorem seen_finalOnly {env : RetryEnv} {attempt : Nat} {front : List StreamChunk}
    {end_ : RunEnd} (hfirst : 1 ≤ attempt) (hreached : ∀ j ≥ 1, j < attempt → env.MakesWay j)
    (hstart : env.abortedAtStart attempt = false) (h : FinalOnly env attempt front c end_) :
    ∃ errors, seen (withRetry env) =
        front ++ recoverBlocks c {} end_.message.content ++ c :: errors ∧
      ∀ e ∈ errors, Mute e := by
  obtain ⟨left, hseen⟩ := seen_reached (env.policy.maxAttempts - 1) 1 (by omega) hfirst hreached
  obtain ⟨a, hexit, hcommitted, hpreamble⟩ := attemptExit_finalOnly h
  obtain ⟨errors, hclose, herrors⟩ :=
    closeSource_committed env attempt hcommitted hpreamble
  have hrun : runAttempt env attempt = (.started attempt ::
      ((front ++ recoverBlocks c {} end_.message.content ++ [c]).map (.emitted attempt) ++
        errors.map (.emitted attempt)), false) := by
    unfold runAttempt
    rw [hstart, if_neg Bool.false_ne_true, hexit]
    dsimp only [afterLoop]
    rw [hclose]
  refine ⟨errors, ?_, herrors⟩
  rw [withRetry, hseen, runFrom_of_last hrun, ← map_append]
  show seen (List.map _ _) = _
  rw [seen_emitted, append_assoc _ [c]]
  rfl

/-- The final message does not have two blocks of text, or two of thinking, that are not empty. -/
def OneOfEach (message : Message) : Prop :=
  (solid (message.content.filterMap (·.text?))).length ≤ 1 ∧
    (solid (message.content.filterMap thinking?)).length ≤ 1

/-- **A final-only answer is recovered completely** iff its message has at most one block
    of text and at most one of thinking that are not empty: for every run that reaches an attempt
    whose stream sends no text, reasoning or tool chunk, whatever becomes of the attempts before it
    and of closing its source. -/
theorem recovers_all_iff (env : RetryEnv) (attempt : Nat) (front : List StreamChunk)
    (c : StreamChunk) (end_ : RunEnd) (hfirst : 1 ≤ attempt)
    (hreached : ∀ j ≥ 1, j < attempt → env.MakesWay j) (hstart : env.abortedAtStart attempt = false)
    (h : FinalOnly env attempt front c end_) :
    RecoversAll (seen (withRetry env)) end_.message ↔ OneOfEach end_.message := by
  obtain ⟨errors, hseen, herrors⟩ := seen_finalOnly hfirst hreached hstart h
  have hmute : Mute c := by
    have hbody := h.body
    refine ⟨?_, ?_, ?_⟩
    · unfold answerDelta?
      rw [hbody]
    · unfold reasoningDelta?
      rw [hbody]
    · unfold toolEvent?
      rw [hbody]
  have hread : ∀ {β : Type} (f : StreamChunk → Option β), (∀ d, Mute d → f d = none) →
      (seen (withRetry env)).filterMap f =
        (recoverBlocks c {} end_.message.content).filterMap f := by
    intro β f hf
    rw [hseen, filterMap_append, filterMap_append, filterMap_cons_none (hf c hmute),
      filterMap_eq_nil_iff.mpr fun d hd => hf d (h.mute d hd),
      filterMap_eq_nil_iff.mpr fun e he => hf e (herrors e he), nil_append,
      append_nil]
  have hanswer := (hread answerDelta? fun _ hd => hd.answer).trans
    (recoverBlocks_answer c end_.message.content {})
  have hreasoning := (hread reasoningDelta? fun _ hd => hd.reasoning).trans
    (recoverBlocks_reasoning c end_.message.content {})
  have htools := (hread toolEvent? fun _ hd => hd.tool).trans
    (recoverBlocks_tools c end_.message.content {} rfl rfl)
  rw [if_neg Bool.false_ne_true] at hanswer hreasoning
  constructor
  · rintro ⟨hall, hallReasoning, -⟩
    rw [hanswer] at hall
    rw [hreasoning] at hallReasoning
    exact ⟨(head_eq_join_iff _).mp hall, (head_eq_join_iff _).mp hallReasoning⟩
  · rintro ⟨hone, honeReasoning⟩
    refine ⟨?_, ?_, htools⟩
    · rw [hanswer]
      exact (head_eq_join_iff _).mpr hone
    · rw [hreasoning]
      exact (head_eq_join_iff _).mpr honeReasoning

/-! ## A final message in two blocks -/

/-- A provider that sends the final message only, with such blocks. -/
def finalOnly (content : List ContentBlock) : RetryEnv where
  make _ :=
    { chunks :=
        [{ runId := "r", body := .runStart "openai" "m" 0 },
          { runId := "r", body := .runEnd
              { finishReason := .stop, message := { role := .assistant, content }, ts := 1 } }] }
  policy := { maxAttempts := 3, baseDelayMs := 500, maxDelayMs := 15000, jitter := 3 / 10 }

/-- A thought, a text and a call. -/
def eachOnce : List ContentBlock := [.thinking "hm" none, .text "so", .toolUse "t" "read" none]

theorem recovers_all_eachOnce :
    RecoversAll (seen (withRetry (finalOnly eachOnce))) { role := .assistant, content := eachOnce } :=
  (recovers_all_iff (finalOnly eachOnce) 1 [{ runId := "r", body := .runStart "openai" "m" 0 }] _
    { finishReason := .stop, message := { role := .assistant, content := eachOnce }, ts := 1 }
    (Nat.le_refl 1) (fun j hj hlt => absurd hlt (by omega)) rfl
    ⟨rfl, forall_mem_singleton.mpr ⟨rfl, rfl, rfl⟩, rfl, rfl⟩).mpr
    ⟨by decide +kernel, by decide +kernel⟩

/-- Two texts: the second is lost. -/
theorem second_text_lost : ¬ ∀ (env : RetryEnv) (attempt : Nat) (front : List StreamChunk)
    (c : StreamChunk) (end_ : RunEnd), 1 ≤ attempt → (∀ j ≥ 1, j < attempt → env.MakesWay j) →
      env.abortedAtStart attempt = false → FinalOnly env attempt front c end_ →
        RecoversAll (seen (withRetry env)) end_.message := by
  intro h
  have hall := h (finalOnly [.text "one", .text "two"]) 1
    [{ runId := "r", body := .runStart "openai" "m" 0 }] _
    { finishReason := .stop, ts := 1
      message := { role := .assistant, content := [.text "one", .text "two"] } }
    (Nat.le_refl 1) (fun j hj hlt => absurd hlt (by omega)) rfl
    ⟨rfl, forall_mem_singleton.mpr ⟨rfl, rfl, rfl⟩, rfl, rfl⟩
  have hanswer := hall.answer
  revert hanswer
  decide +kernel

end NexusCode.Resilience
