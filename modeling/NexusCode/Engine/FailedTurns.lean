/-
  A turn that fails: `newTurn`, then `record` with a result that is not `ok`.

  `newTurn` replaces the transcript by the trimmed conversation; the rollback takes the turn's own
  message objects out again, and nothing brings back what was trimmed.

  1. `rollback_own` — taking the turn's objects out of what it appended them to.
  2. `trimmedHead_eq_self_iff` — when a trim drops nothing.
  3. **`failed_turn_leaves`** — a failed turn leaves what the trim kept of the conversation.
  4. **`failed_turn_forgets`** — a long question leaves less than there was.
-/
import NexusCode.Engine.Trimming

namespace NexusCode.Engine

open Lib Shared List

/-! ## Taking objects out -/

/-- The turn's objects stand nowhere else: taking them out gives back what was in front. -/
theorem rollback_own {front : List Held} : ∀ {own : List Held},
    (∀ m ∈ own, ∀ x ∈ front, x.ref ≠ m.ref) → own.foldl takeOut (front ++ own) = front := by
  intro own
  induction own with
  | nil => exact fun _ => append_nil front
  | cons m own ih =>
    intro hnew
    have hfront : ∀ x ∈ front, ¬ (x.ref == m.ref) = true := fun x hx heq =>
      hnew m mem_cons_self x hx (beq_iff_eq.mp heq)
    have htake : takeOut (front ++ m :: own) m = front ++ own := by
      unfold takeOut
      rw [eraseP_append_right _ hfront, eraseP_cons, beq_self_eq_true]
      rfl
    rw [foldl_cons, htake]
    exact ih fun y hy => hnew y (mem_cons_of_mem m hy)

/-- Whatever stands there: each object is left as often as it stood in front. -/
theorem rollback_perm (front own : List Held) :
    ((own.foldl takeOut (front ++ own)).map (·.ref)).Perm (front.map (·.ref)) := by
  have hfold : ∀ (own held : List Held),
      (own.foldl takeOut held).map (·.ref) = (held.map (·.ref)).diff (own.map (·.ref)) := by
    intro own
    induction own with
    | nil => exact fun held => (diff_nil _).symm
    | cons m own ih =>
      intro held
      have herase : (takeOut held m).map (·.ref) = (held.map (·.ref)).erase m.ref := by
        unfold takeOut
        rw [erase_eq_eraseP', eraseP_map]
        rfl
      rw [foldl_cons, ih, herase, map_cons, diff_cons]
  have hback : ∀ own front : List Ref, (own ++ front).diff own = front := by
    intro own front
    induction own with
    | nil => exact diff_nil _
    | cons ref own ih => rw [cons_append, diff_cons, erase_cons_head, ih]
  rw [hfold, map_append]
  have hcomm : (front.map (·.ref) ++ own.map (·.ref)).Perm (own.map (·.ref) ++ front.map (·.ref)) :=
    perm_append_comm
  have hperm := hcomm.diff_right (own.map (·.ref))
  rwa [hback] at hperm

/-! ## When nothing is dropped -/

/-- A trim of `front` with `own` as its tail drops nothing: every message but the system messages
    fits, and no orphan opens the conversation. -/
structure Unabridged (maxTokens : JsNumber) (front own : List Held) : Prop where
  fitting : ∀ before x after, front = before ++ x :: after → isSystem x = false →
    fits maxTokens (transcriptTokens (x :: after ++ own)) = true
  opening : ∀ m, front.head? = some m → orphaned m = false

theorem length_survivors_le (maxTokens : JsNumber) (rest head : List Held) :
    (survivors maxTokens rest head).length ≤ head.length :=
  (survivors_sublist rest head).length_le

theorem survivors_eq_self_iff {maxTokens : JsNumber} (front own : List Held) :
    survivors maxTokens own front = front ↔
      ∀ before x after, front = before ++ x :: after → isSystem x = false →
        fits maxTokens (transcriptTokens (x :: after ++ own)) = true := by
  constructor
  · rintro h before x after rfl hx
    rw [survivors_append] at h
    have hlen : (survivors maxTokens own (x :: after)).length = (x :: after).length := by
      have hall := congrArg List.length h
      rw [length_append, length_append] at hall
      have hbefore := length_survivors_le maxTokens (x :: after ++ own) before
      have hafter := length_survivors_le maxTokens own (x :: after)
      omega
    unfold survivors at hlen
    rw [hx, Bool.false_or] at hlen
    split at hlen
    · assumption
    · have hafter := length_survivors_le maxTokens own after
      rw [length_cons] at hlen
      omega
  · intro h
    induction front with
    | nil => rfl
    | cons m front ih =>
      have hkeep : (isSystem m || fits maxTokens (transcriptTokens (m :: front ++ own))) = true := by
        cases hs : isSystem m with
        | true => rfl
        | false => exact h [] m front rfl hs
      rw [survivors, if_pos hkeep, ih fun before x after heq => h (m :: before) x after (heq ▸ rfl)]

/-- **A trim drops nothing** just when the conversation is unabridged. -/
theorem trimmedHead_eq_self_iff {maxTokens : JsNumber} (front own : List Held) :
    trimmedHead maxTokens front own = front ↔ Unabridged maxTokens front own := by
  unfold trimmedHead
  constructor
  · intro h
    have hsurvive : survivors maxTokens own front = front := by
      refine (survivors_sublist own front).eq_of_length_le ?_
      have hdrop := (dropWhile_sublist (l := survivors maxTokens own front) orphaned).length_le
      rwa [h] at hdrop
    refine ⟨(survivors_eq_self_iff front own).mp hsurvive, fun m hm => ?_⟩
    rw [hsurvive, dropWhile_eq_self_iff] at h
    cases front with
    | nil => exact nomatch hm
    | cons x front =>
      obtain rfl := Option.some.inj hm
      exact Bool.not_eq_true _ ▸ h (Nat.succ_pos _)
  · intro h
    rw [(survivors_eq_self_iff front own).mpr h.fitting]
    cases front with
    | nil => rfl
    | cons m front => exact dropWhile_cons_of_neg (by rw [h.opening m rfl]; decide)

/-! ## The conversation in front of a turn -/

/-- The messages in front of a turn's own: the transcript, or what the caller passed of it. -/
def State.front (σ : State) (incoming : List Held) : List Held :=
  match threadedAt incoming σ.session.transcript with
  | none => σ.session.transcript
  | some i => incoming.take i

/-- The turn's own messages. -/
def State.own (σ : State) (incoming : List Held) : List Held :=
  incoming.drop ((threadedAt incoming σ.session.transcript).getD 0)

theorem threadedFrom_sound : ∀ (incoming : List Held) (keys : List String) (i j : Nat),
    threadedFrom keys i incoming = some j →
    ∃ k, j = i + k ∧ keys.Sublist (keysOf (incoming.take k)) := by
  intro incoming
  induction incoming with
  | nil =>
    intro keys i j h
    cases keys with
    | nil => exact ⟨0, (Option.some.inj h).symm, nil_sublist _⟩
    | cons key keys => exact nomatch h
  | cons m incoming ih =>
    intro keys i j h
    cases keys with
    | nil => exact ⟨0, (Option.some.inj h).symm, nil_sublist _⟩
    | cons key keys =>
      unfold threadedFrom at h
      split at h
      · rename_i hkey
        obtain ⟨k, rfl, hsub⟩ := ih keys (i + 1) j h
        refine ⟨k + 1, by omega, ?_⟩
        rw [take_succ_cons, show keysOf (m :: incoming.take k)
          = key :: keysOf (incoming.take k) from congrArg (· :: _) hkey]
        exact hsub.cons_cons key
      · obtain ⟨k, rfl, hsub⟩ := ih (key :: keys) (i + 1) j h
        exact ⟨k + 1, by omega, hsub.cons _⟩

theorem keysOf_transcript_sublist (σ : State) (incoming : List Held) :
    (keysOf σ.session.transcript).Sublist (keysOf (σ.front incoming)) := by
  unfold State.front
  split
  · exact List.Sublist.refl _
  · rename_i i hat
    unfold threadedAt at hat
    split at hat
    · rename_i hempty
      rw [List.isEmpty_iff.mp hempty]
      exact nil_sublist _
    · split at hat
      · exact nomatch hat
      · obtain ⟨k, rfl, hsub⟩ := threadedFrom_sound _ _ _ _ hat
        rwa [Nat.zero_add]

/-! ## The turn -/

variable (redact : List ContentBlock → List ContentBlock)

/-- The state after a turn that is settled at once. -/
def State.settled (σ : State) (input : TurnInput) (reading : Option JsNumber) (reply : TurnReply)
    (reading' : Option JsNumber) : State :=
  (σ.perform redact (.newTurn input reading)).perform redact
    (.record σ.session.turns.length reply reading')

/-- A settled run or orchestration whose run is not `ok`. -/
def TurnReply.Failed (reply : TurnReply) : Prop :=
  reply.isObject = true ∧ ∀ run, reply.run? = some run → run.status ≠ .ok

theorem replyMessages_failed {reply : TurnReply} (h : reply.Failed) (next : Nat) :
    replyMessages next reply = [] := by
  obtain ⟨hobject, hrun⟩ := h
  cases reply with
  | absent => exact absurd hobject Bool.false_ne_true
  | text reply => exact absurd hobject Bool.false_ne_true
  | messages reply => exact absurd hobject Bool.false_ne_true
  | result reply =>
    show (if reply.status ≠ .ok ∨ _ then _ else _) = _
    rw [if_pos (Or.inl (hrun reply rfl))]
  | outcome winner runs =>
    unfold replyMessages
    dsimp only
    cases hreply : (TurnReply.outcome winner runs).run? with
    | none => rfl
    | some run => exact if_pos (Or.inl (hrun run hreply))

/-- Settling a failed turn is the rollback of the newest turn. -/
theorem settled_failed {σ : State} {input : TurnInput} {reading reading' : Option JsNumber}
    {reply : TurnReply} {turn : Turn} (h : reply.Failed)
    (hturn : (σ.newTurn redact input reading).session.turns = σ.session.turns ++ [turn]) :
    σ.settled redact input reading reply reading'
      = (σ.newTurn redact input reading).rollbackUnansweredInput redact
          σ.session.turns.length turn := by
  have hget : (σ.newTurn redact input reading).session.turns[σ.session.turns.length]?
      = some turn := by
    rw [hturn, List.getElem?_append_right (Nat.le_refl _), Nat.sub_self]
    rfl
  unfold State.settled State.perform
  dsimp only
  rw [hget]
  dsimp only
  unfold State.record
  rw [replyMessages_failed h]
  exact (if_neg Bool.false_ne_true).trans (if_pos h.1)

theorem failed_turn_without_memory {σ : State} (hoff : σ.session.history.enabled = false)
    {input : TurnInput} {reading reading' : Option JsNumber} {reply : TurnReply}
    (h : reply.Failed) :
    (σ.settled redact input reading reply reading').session.transcript
      = σ.session.transcript := by
  have hnew : σ.newTurn redact input reading = { σ with
      session := { σ.session with turns := σ.session.turns ++ [{ turnSeq := σ.session.seq }] }
      nextRef := σ.nextRef + 1 } := by
    unfold State.newTurn
    dsimp only
    rw [if_neg (by rw [hoff]; decide)]
  rw [settled_failed redact h (congrArg (·.session.turns) hnew), hnew]
  unfold State.rollbackUnansweredInput
  dsimp only
  rw [hoff]
  rfl

/-- A turn of a session with memory: the transcript is what the trim keeps of the front, and the
    turn's own messages. -/
theorem newTurn_memory {σ : State} (hon : σ.session.history.enabled = true) (input : TurnInput)
    (reading : Option JsNumber) :
    (σ.newTurn redact input reading).session = { σ.session with
      transcript :=
        trimmedHead (maxTokensNow σ.session.history reading)
          (σ.front (toMessages σ.nextRef input)) (σ.own (toMessages σ.nextRef input))
          ++ σ.own (toMessages σ.nextRef input)
      seq := σ.session.seq + 2
      turns := σ.session.turns ++
        [{ turnSeq := σ.session.seq, freshMessages := σ.own (toMessages σ.nextRef input) }] } := by
  generalize hin : toMessages σ.nextRef input = incoming
  have hown : (σ.own incoming).length
      = incoming.length - (threadedAt incoming σ.session.transcript).getD 0 := by
    unfold State.own
    exact length_drop
  have hcombined : (if (threadedAt incoming σ.session.transcript).isNone then
      σ.session.transcript ++ incoming else incoming) = σ.front incoming ++ σ.own incoming := by
    unfold State.front State.own
    cases threadedAt incoming σ.session.transcript with
    | none => rfl
    | some i => exact (take_append_drop i incoming).symm
  have hbound : boundTranscript (σ.front incoming ++ σ.own incoming)
      (maxTokensNow σ.session.history reading) (σ.own incoming).length
        = trimmedHead (maxTokensNow σ.session.history reading) (σ.front incoming) (σ.own incoming)
          ++ σ.own incoming := by
    rw [boundTranscript_eq, length_append, Nat.add_sub_cancel, take_left, drop_left]
  unfold State.newTurn
  dsimp only
  rw [if_pos hon, hin, hcombined, ← hown, hbound, length_append, Nat.add_sub_cancel,
    drop_left]

/-- **A failed turn leaves what the trim kept** of the conversation in front of the turn's own
    messages: the very list, unless one of these is an object that stands in front already, and the
    same objects in any case.  That is the transcript there was before, key for key, just when
    nothing was dropped, provided that nothing else stood in front of the turn. -/
theorem failed_turn_leaves (redact : List ContentBlock → List ContentBlock) (σ : State)
    (input : TurnInput) (reading reading' : Option JsNumber) (reply : TurnReply)
    (hfailed : reply.Failed) :
    (σ.session.history.enabled = false →
      (σ.settled redact input reading reply reading').session.transcript
        = σ.session.transcript) ∧
    (σ.session.history.enabled = true → ∃ kept front own,
      kept = trimmedHead (maxTokensNow σ.session.history reading) front own ∧
      front = σ.front (toMessages σ.nextRef input) ∧ own = σ.own (toMessages σ.nextRef input) ∧
      ((σ.settled redact input reading reply reading').session.transcript.map (·.ref)).Perm
        (kept.map (·.ref)) ∧
      ((∀ m ∈ own, ∀ x ∈ front, x.ref ≠ m.ref) →
        (σ.settled redact input reading reply reading').session.transcript = kept ∧
        (front.length = σ.session.transcript.length →
          (keysOf (σ.settled redact input reading reply reading').session.transcript
              = keysOf σ.session.transcript ↔
            Unabridged (maxTokensNow σ.session.history reading) front own)))) := by
  refine ⟨fun hoff => failed_turn_without_memory redact hoff hfailed,
    fun hon => ⟨_, _, _, rfl, rfl, rfl, ?_⟩⟩
  have hsession := newTurn_memory redact hon input reading
  have hfront := keysOf_transcript_sublist σ (toMessages σ.nextRef input)
  generalize σ.front (toMessages σ.nextRef input) = front at *
  generalize σ.own (toMessages σ.nextRef input) = own at *
  have hleft : (σ.settled redact input reading reply reading').session.transcript
      = own.foldl takeOut
          (trimmedHead (maxTokensNow σ.session.history reading) front own ++ own) := by
    rw [settled_failed redact hfailed (congrArg (·.turns) hsession)]
    unfold State.rollbackUnansweredInput
    dsimp only
    rw [hsession]
    dsimp only
    rw [hon]
    rfl
  rw [hleft]
  refine ⟨rollback_perm _ _, fun hnew => ?_⟩
  have hkept := rollback_own fun m hm x hx => hnew m hm x
    ((trimmedHead_sublist (maxTokensNow σ.session.history reading) front own).subset hx)
  rw [hkept]
  refine ⟨rfl, fun hlen => ?_⟩
  rw [← trimmedHead_eq_self_iff]
  have hkeys : keysOf σ.session.transcript = keysOf front :=
    hfront.eq_of_length_le (by unfold keysOf; rw [length_map, length_map, hlen])
  constructor
  · intro h
    refine (trimmedHead_sublist _ _ _).eq_of_length_le ?_
    have hsame := congrArg List.length (h.trans hkeys)
    unfold keysOf at hsame
    rw [length_map, length_map] at hsame
    exact hsame.ge
  · intro h
    rw [h, hkeys]

/-- The failed run of a turn. -/
def failedRun : TurnReply := .result { status := .error, text := "" }

theorem failedRun_failed : failedRun.Failed := by
  refine ⟨rfl, ?_⟩
  rintro run ⟨⟩
  decide

/-- A session with a small budget after one answered question. -/
def shortMemory : State :=
  (machine id).run (State.opened { budget := .fixed 13 })
    [.newTurn { prompt := some "a b c d" } none, .record 0 (.text "ok") none]

theorem failed_turn_leaves_shortMemory :
    (shortMemory.settled id { prompt := some "why" } none failedRun none).session.transcript
      = trimmedHead 13 shortMemory.session.transcript
          (makeObjects shortMemory.nextRef (userText "why")) := by
  obtain ⟨kept, front, own, hkept, hfront, hown, -, hleft⟩ :=
    (failed_turn_leaves id shortMemory { prompt := some "why" } none none failedRun
      failedRun_failed).2 (by decide +kernel)
  subst hfront hown
  rw [(hleft (by decide +kernel)).1, hkept]
  rfl

/-- A question that is handed over, answered, and handed over again. -/
def askedAgain : State :=
  (machine id).run (State.opened {})
    [.newTurn { messages := some [textMessage 0 .user "why"] } none, .record 0 (.text "ok") none]

/-- The next question crowds out the whole conversation, and the rollback does not bring it back;
    an object that is handed over again is taken out where it stood first. -/
theorem failed_turn_forgets :
    shortMemory.session.transcript.length = 2 ∧
    (shortMemory.settled id { prompt := some "why" } none failedRun none).session.transcript = [] ∧
    askedAgain.session.transcript.map (·.message.role) = [.user, .assistant] ∧
    (askedAgain.settled id { messages := some [textMessage 0 .user "why"] } none failedRun
      none).session.transcript.map (·.message.role) = [.assistant, .user] := by
  refine ⟨by decide +kernel, length_eq_zero_iff.mp (by decide +kernel), by decide +kernel,
    by decide +kernel⟩

end NexusCode.Engine
