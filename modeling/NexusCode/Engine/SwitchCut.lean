/-
  What the cut of `compactHistory` does to tool exchanges and to the latest user turn.

  The scan stops at a message that no longer fits, whatever stands behind it, so the answer of a
  call may be kept where the call is dropped; and the system messages are taken out of their places
  and put in front.

  1. `Issued` — every tool message comes after an assistant message with its call.
  2. `compactHistory_front` — a compacted history is a front of system messages and what is behind
     the cut.
  3. `issued_behind_iff`, `turn_kept_iff` — each half of the property, for such a list.
  4. **`exchanges_kept_iff`** — the adapted messages keep the exchanges and the turn iff
     nothing is compacted, or the cut severs no answer from its calls and no system message follows
     the latest user message.
  5. **`severed_answer`** — a call with a long text, its answer, and a short question.
-/
import NexusCode.Engine.Switching
import NexusCode.Engine.ExchangeGuard

namespace NexusCode.Switching

open Lib Shared List Option
open Engine (callIds)

/-! ## Exchanges and turns -/

/-- An assistant message with a `tool_use` of the id. -/
def Calls (id : String) (message : Message) : Prop :=
  message.role = .assistant ∧ id ∈ callIds message

/-- Every tool message comes after an assistant message with the `tool_use` of its id. -/
def Issued (messages : List Message) : Prop :=
  ∀ before answer after, messages = before ++ answer :: after → answer.role = .tool →
    ∃ id, answer.toolCallId = some id ∧ ∃ call ∈ before, Calls id call

/-- The same of the messages that are sent. -/
def IssuedSent (sent : List Sent) : Prop :=
  ∀ before answer after, sent = before ++ .own answer :: after → answer.role = .tool →
    ∃ id, answer.toolCallId = some id ∧ ∃ call, .own call ∈ before ∧ Calls id call

/-- The messages from the latest user message on. -/
def latestTurn (messages : List Message) : List Message :=
  match lastUserIndex messages with
  | some i => messages.drop i
  | none => []

/-- The adapted messages keep exchanges whole, and the latest user turn in its order. -/
def KeepsExchanges (request : ChatRequest) (adapted : AdaptedSwitchRequest) : Prop :=
  IssuedSent adapted.messages ∧ ((latestTurn request.messages).map .own).Sublist adapted.messages

/-- An answer is kept, and all its calls are dropped. -/
def Severed (old kept : List Message) : Prop :=
  ∃ before answer after id, kept = before ++ answer :: after ∧ answer.role = .tool ∧
    answer.toolCallId = some id ∧ (∃ call ∈ old, Calls id call) ∧ ∀ call ∈ before, ¬ Calls id call

/-- Within the budget nothing is compacted.  Beyond it, no system message may follow the latest
    user message, and the cut may not come between an answer and its calls. -/
def CutsCleanly (budget : JsNumber) (messages : List Message) : Prop :=
  JsNumber.le (.fin (tokensOf (charsOf messages) : Nat)) budget = true ∨
    (∀ message ∈ latestTurn messages, message.role ≠ .system) ∧
    ∃ old newer, Cut budget (tokensOf (charsOf (messages.filter isSystem)
        + charsOf (requiredOf messages))) (olderOf messages) old newer ∧
      ¬ Severed old (newer ++ requiredOf messages)

/-! ## The latest user turn -/

variable {messages : List Message}

theorem lastUserIndex_eq_none :
    lastUserIndex messages = none ↔ ∀ message ∈ messages, message.role ≠ .user := by
  induction messages with
  | nil => exact ⟨fun _ _ h => absurd h not_mem_nil, fun _ => rfl⟩
  | cons message rest ih =>
    rw [forall_mem_cons, ← ih, lastUserIndex]
    cases hrest : lastUserIndex rest with
    | some i =>
      constructor
      · intro h
        cases h
      · rintro ⟨-, h⟩
        cases h
    | none =>
      dsimp only
      split
      · rename_i huser
        constructor
        · intro h
          cases h
        · rintro ⟨h, -⟩
          exact absurd huser h
      · rename_i huser
        exact ⟨fun _ => ⟨huser, rfl⟩, fun _ => rfl⟩

theorem lastUserIndex_append {user : Message} (back : List Message) (huser : user.role = .user)
    (hback : ∀ message ∈ back, message.role ≠ .user) (front : List Message) :
    lastUserIndex (front ++ user :: back) = some front.length := by
  induction front with
  | nil =>
    rw [nil_append, lastUserIndex, lastUserIndex_eq_none.mpr hback]
    exact if_pos huser
  | cons message front ih =>
    rw [cons_append, lastUserIndex, ih]
    rfl

theorem latest_user (messages : List Message) :
    lastUserIndex messages = none ∨ ∃ front user back, messages = front ++ user :: back ∧
      user.role = .user ∧ ∀ message ∈ back, message.role ≠ .user := by
  induction messages with
  | nil => exact .inl rfl
  | cons message rest ih =>
    rcases ih with hnone | ⟨front, user, back, rfl, huser, hback⟩
    · by_cases huser : message.role = .user
      · exact .inr ⟨[], message, rest, rfl, huser, lastUserIndex_eq_none.mp hnone⟩
      · left
        rw [lastUserIndex_eq_none, forall_mem_cons]
        exact ⟨huser, lastUserIndex_eq_none.mp hnone⟩
    · exact .inr ⟨message :: front, user, back, rfl, huser, hback⟩

section Turn

variable {user : Message} {front back : List Message}

theorem latestTurn_append (huser : user.role = .user)
    (hback : ∀ message ∈ back, message.role ≠ .user) :
    latestTurn (front ++ user :: back) = user :: back := by
  rw [latestTurn, lastUserIndex_append back huser hback]
  exact drop_left

/-- What is never dropped is the latest turn without its system messages. -/
theorem requiredOf_append (huser : user.role = .user)
    (hback : ∀ message ∈ back, message.role ≠ .user) :
    requiredOf (front ++ user :: back)
      = user :: back.filter fun message => !isSystem message := by
  have hown : isSystem user = false := by
    rw [isSystem, huser]
    rfl
  have hindex := lastUserIndex_append (back.filter fun message => !isSystem message) huser
    (fun message h => hback message (mem_filter.mp h).1)
    (front.filter fun message => !isSystem message)
  rw [requiredOf, filter_append, filter_cons_of_pos (by rw [hown]; rfl), requiredStart,
    hindex]
  exact drop_left

end Turn

/-! ## What is sent -/

section Sent

variable {front : List Sent} {kept : List Message}

variable {messages : List Message}

/-- A compacted history: system messages, and what is behind the cut. -/
theorem compactHistory_front {budget : JsNumber}
    (hover : JsNumber.le (.fin (tokensOf (charsOf messages) : Nat)) budget = false) :
    ∃ front old newer,
      Cut budget (tokensOf (charsOf (messages.filter isSystem) + charsOf (requiredOf messages)))
        (olderOf messages) old newer ∧
      (∀ message, .own message ∈ front → message.role = .system) ∧
      (compactHistory messages budget).messages
        = front ++ (newer ++ requiredOf messages).map .own := by
  have hsystem : ∀ message, Sent.own message ∈ (messages.filter isSystem).map Sent.own →
      message.role = .system := by
    intro message h
    obtain ⟨own, hown, heq⟩ := mem_map.mp h
    cases heq
    exact of_decide_eq_true (mem_filter.mp hown).2
  rcases compactHistory_cut messages budget with ⟨hfits, -⟩ | ⟨-, old, newer, hcut, heq⟩
  · rw [hover] at hfits
    cases hfits
  · rw [heq]
    split
    · exact ⟨_, old, newer, hcut, hsystem, map_append⟩
    · refine ⟨(messages.filter isSystem).map .own ++ [.summary (summaryText old)], old, newer,
        hcut, fun message h => ?_, append_cons _ _ _⟩
      rcases mem_append.mp h with h | h
      · exact hsystem message h
      · cases mem_singleton.mp h

/-- Behind a front of system messages, the exchanges are those of the rest. -/
theorem issuedSent_front_iff (hfront : ∀ message, .own message ∈ front → message.role = .system) :
    IssuedSent (front ++ kept.map .own) ↔ Issued kept := by
  constructor
  · intro h before answer after heq htool
    obtain ⟨id, hid, call, hcall, hcalls⟩ := h (front ++ before.map .own) answer (after.map .own)
      (by rw [heq, map_append, map_cons, append_assoc]) htool
    refine ⟨id, hid, call, ?_, hcalls⟩
    rcases mem_append.mp hcall with hin | hin
    · have hrole := hcalls.1
      rw [hfront call hin] at hrole
      cases hrole
    · obtain ⟨own, hown, heq⟩ := mem_map.mp hin
      cases heq
      exact hown
  · intro h before answer after heq htool
    -- a tool message does not stand in the front
    rcases append_eq_append_iff.mp heq with ⟨rest, rfl, hkept⟩ | ⟨rest, rfl, hrest⟩
    · obtain ⟨own, tail, rfl, rfl, htail⟩ := map_eq_append_iff.mp hkept
      obtain ⟨own', after', rfl, hown, rfl⟩ := map_eq_cons_iff.mp htail
      obtain rfl := Sent.own.inj hown
      obtain ⟨id, hid, call, hcall, hcalls⟩ := h own own' after' rfl htool
      exact ⟨id, hid, call, mem_append_right _ (mem_map_of_mem hcall), hcalls⟩
    · cases rest with
      | nil =>
        obtain ⟨own', after', rfl, hown, rfl⟩ := map_eq_cons_iff.mp hrest.symm
        obtain rfl := Sent.own.inj hown
        obtain ⟨id, hid, call, hcall, -⟩ := h [] own' after' rfl htool
        exact absurd hcall not_mem_nil
      | cons head rest =>
        obtain ⟨rfl, -⟩ := cons.inj hrest
        have hrole := hfront answer (mem_append_right _ mem_cons_self)
        rw [htool] at hrole
        cases hrole

/-- Of an issued history the part behind a cut is issued iff the cut severs nothing. -/
theorem issued_behind_iff {old kept : List Message} (hissued : Issued messages)
    (hsplit : (messages.filter fun message => !isSystem message) = old ++ kept) :
    Issued kept ↔ ¬ Severed old kept := by
  constructor
  · rintro h ⟨before, answer, after, id, heq, htool, hid, -, hnone⟩
    obtain ⟨id', hid', call, hcall, hcalls⟩ := h before answer after heq htool
    obtain rfl := some.inj (hid.symm.trans hid')
    exact hnone call hcall hcalls
  · intro h before answer after heq htool
    -- the same message in the whole history, and what is in front of it
    have hwhole := hsplit
    rw [heq, ← append_assoc] at hwhole
    obtain ⟨front, back, rfl, hfront, hback⟩ := filter_eq_append_iff.mp hwhole
    obtain ⟨skipped, after', rfl, hskipped, -, -⟩ := filter_eq_cons_iff.mp hback
    obtain ⟨id, hid, call, hcall, hcalls⟩ := hissued (front ++ skipped) answer after'
      (by rw [append_assoc]) htool
    refine ⟨id, hid, ?_⟩
    by_contra hnone
    refine h ⟨before, answer, after, id, heq, htool, hid, ⟨call, ?_, hcalls⟩,
      fun call hcall hcalls => hnone ⟨call, hcall, hcalls⟩⟩
    have hown : (!isSystem call) = true := by
      rw [isSystem, hcalls.1]
      rfl
    rcases mem_append.mp hcall with hcall | hcall
    · have hmem : call ∈ old ++ before := hfront ▸ mem_filter.mpr ⟨hcall, hown⟩
      rcases mem_append.mp hmem with hold | hbefore
      · exact hold
      · exact absurd ⟨call, hbefore, hcalls⟩ hnone
    · exact absurd hown (hskipped call hcall)

/-- The latest turn is kept in its order iff it has no system message. -/
theorem turn_kept_iff {newer : List Message}
    (hnewer : ∀ message ∈ newer, message.role ≠ .system)
    (hfront : ∀ message, .own message ∈ front → message.role = .system) :
    ((latestTurn messages).map .own).Sublist
        (front ++ (newer ++ requiredOf messages).map .own) ↔
      ∀ message ∈ latestTurn messages, message.role ≠ .system := by
  rcases latest_user messages with hnone | ⟨before, user, back, rfl, huser, hback⟩
  · rw [latestTurn, hnone]
    exact ⟨fun _ _ h => absurd h not_mem_nil, fun _ => nil_sublist _⟩
  · rw [latestTurn_append huser hback, requiredOf_append huser hback]
    have huser' : user.role ≠ .system := by
      rw [huser]
      exact nofun
    constructor
    · intro h message hmem
      rcases mem_cons.mp hmem with rfl | hmem
      · exact huser'
      -- the user message is not in the front, so all of the turn comes after it
      obtain ⟨passed, rest, hpassed, huserin, hrest⟩ := cons_sublist_iff.mp h
      have hlong : front.length < passed.length := by
        by_contra hshort
        obtain ⟨tail, rfl⟩ := prefix_of_prefix_length_le ⟨rest, hpassed.symm⟩
          (prefix_append front _) (by omega)
        exact huser' (hfront user (mem_append_left _ huserin))
      obtain ⟨tail, rfl⟩ := prefix_of_prefix_length_le (prefix_append front _)
        ⟨rest, hpassed.symm⟩ (by omega)
      rw [append_assoc] at hpassed
      have hin : Sent.own message ∈ (newer ++
          user :: back.filter fun message => !isSystem message).map Sent.own := by
        rw [append_cancel_left hpassed]
        exact mem_append_right _ (hrest.subset (mem_map_of_mem hmem))
      obtain ⟨own, hown, heq⟩ := mem_map.mp hin
      obtain rfl := Sent.own.inj heq
      rcases mem_append.mp hown with hown | hown
      · exact hnewer own hown
      rcases mem_cons.mp hown with rfl | hown
      · exact huser'
      · have hfiltered := (mem_filter.mp hown).2
        rw [isSystem, Bool.not_eq_true'] at hfiltered
        exact of_decide_eq_false hfiltered
    · intro h
      rw [forall_mem_cons] at h
      have hall : (back.filter fun message => !isSystem message) = back := by
        rw [filter_eq_self]
        intro message hmem
        rw [isSystem, decide_eq_false (h.2 message hmem)]
        rfl
      rw [hall, map_append]
      exact ((sublist_append_right _ _).trans (sublist_append_right _ _))

end Sent

/-! ## The adapted messages -/

theorem Cut.newer_own {budget : JsNumber} {base : Nat} {old newer : List Message}
    (h : Cut budget base (olderOf messages) old newer) :
    ∀ message ∈ newer, message.role ≠ .system := by
  intro message hmem
  have hin : message ∈ olderOf messages := by
    rw [h.split]
    exact mem_append_right _ hmem
  have hfiltered := (mem_filter.mp (mem_of_mem_take hin)).2
  rw [isSystem, Bool.not_eq_true'] at hfiltered
  exact of_decide_eq_false hfiltered

theorem uncompacted_keeps (hissued : Issued messages) :
    IssuedSent (messages.map .own) ∧
      ((latestTurn messages).map Sent.own).Sublist (messages.map .own) := by
  constructor
  · have hnil : ∀ message, Sent.own message ∈ ([] : List Sent) → message.role = .system :=
      fun message h => absurd h not_mem_nil
    exact (issuedSent_front_iff hnil).mpr hissued
  · apply List.Sublist.map
    rw [latestTurn]
    split
    · exact drop_sublist _ _
    · exact nil_sublist _

theorem compactHistory_keeps_iff (hissued : Issued messages)
    (budget : JsNumber) :
    (IssuedSent (compactHistory messages budget).messages ∧
      ((latestTurn messages).map .own).Sublist (compactHistory messages budget).messages) ↔
      CutsCleanly budget messages := by
  unfold CutsCleanly
  cases hfits : JsNumber.le (.fin (tokensOf (charsOf messages) : Nat)) budget with
  | true =>
    rcases compactHistory_cut messages budget with ⟨-, heq⟩ | ⟨hover, -⟩
    · rw [heq]
      exact ⟨fun _ => .inl rfl, fun _ => uncompacted_keeps hissued⟩
    · rw [hfits] at hover
      cases hover
  | false =>
    obtain ⟨front, old, newer, hcut, hfront, heq⟩ := compactHistory_front hfits
    have hsplit : (messages.filter fun message => !isSystem message)
        = old ++ (newer ++ requiredOf messages) := by
      rw [← append_assoc, ← hcut.split]
      exact (take_append_drop _ _).symm
    rw [heq, issuedSent_front_iff hfront, issued_behind_iff hissued hsplit,
      turn_kept_iff hcut.newer_own hfront]
    constructor
    · rintro ⟨hwhole, hturn⟩
      exact .inr ⟨hturn, old, newer, hcut, hwhole⟩
    · rintro (h | ⟨hturn, old', newer', hcut', hwhole⟩)
      · cases h
      · obtain ⟨rfl, rfl⟩ := hcut.unique hcut'
        exact ⟨hwhole, hturn⟩

/-- **The adapted messages keep the exchanges and the latest turn** iff the target has
    no context window or the history is cut cleanly: for every request in which tool messages
    answer calls that were issued before them, every compatible target and every margin. -/
theorem exchanges_kept_iff (request : ChatRequest) (assessment : Assessment)
    (safetyMarginTokens : JsNumber) (adapted : AdaptedSwitchRequest)
    (hissued : Issued request.messages)
    (hok : adaptRequestForSwitch request assessment safetyMarginTokens = .ok adapted) :
    KeepsExchanges request adapted ↔ ∀ contextWindow, assessment.contextWindow = some contextWindow →
      CutsCleanly (atLeast256 (inputRoom contextWindow assessment.requestedOutputTokens
        safetyMarginTokens)) request.messages := by
  unfold adaptRequestForSwitch at hok
  split at hok
  · cases hok
  split at hok
  · rename_i hwindow
    cases hok
    rw [hwindow]
    exact ⟨fun _ contextWindow h => (nomatch h), fun _ => uncompacted_keeps hissued⟩
  · rename_i contextWindow hwindow
    cases hok
    rw [hwindow]
    refine (compactHistory_keeps_iff hissued _).trans ⟨fun h contextWindow' heq => ?_, fun h => ?_⟩
    · obtain rfl := some.inj heq
      exact h
    · exact h contextWindow rfl

/-! ## Runs -/

/-- A long call with its answer, and a short question. -/
def severedRequest : ChatRequest where
  messages :=
    [{ lines .assistant 60 with content := .toolUse "call_1" "read" none ::
        (lines .assistant 60).content },
      { lines .tool 1 with toolCallId := some "call_1" }, lines .user 1]

/-- A short exchange. -/
def shortRequest : ChatRequest where
  messages :=
    [{ role := .assistant, content := [.toolUse "call_1" "read" none] },
      { lines .tool 1 with toolCallId := some "call_1" }, lines .user 1]

/-- A note behind a long question. -/
def notedRequest : ChatRequest := { messages := [lines .user 60, lines .system 1] }

theorem issued_exchange {call answer user : Message} (hcalls : Calls "call_1" call)
    (hanswer : answer.toolCallId = some "call_1") (huser : user.role = .user) :
    Issued [call, answer, user] := by
  intro before message after heq htool
  match before with
  | [] =>
    obtain ⟨rfl, -⟩ := cons.inj heq
    rw [hcalls.1] at htool
    cases htool
  | [_] =>
    obtain ⟨rfl, hrest⟩ := cons.inj heq
    obtain ⟨rfl, -⟩ := cons.inj hrest
    exact ⟨"call_1", hanswer, _, mem_cons_self, hcalls⟩
  | [_, _] =>
    obtain ⟨-, hrest⟩ := cons.inj heq
    obtain ⟨-, hrest⟩ := cons.inj hrest
    obtain ⟨rfl, -⟩ := cons.inj hrest
    rw [huser] at htool
    cases htool
  | _ :: _ :: _ :: before =>
    have hlength := congrArg List.length heq
    simp at hlength

theorem exchanges_kept_iff_short : ∃ adapted,
    adaptRequestForSwitch shortRequest smallTarget 128 = .ok adapted ∧
      KeepsExchanges shortRequest adapted := by
  have hissued : Issued shortRequest.messages :=
    issued_exchange ⟨rfl, mem_cons_self⟩ rfl rfl
  refine ⟨_, rfl, (exchanges_kept_iff shortRequest smallTarget 128 _ hissued rfl).mpr ?_⟩
  intro contextWindow hwindow
  obtain rfl := some.inj hwindow
  exact .inl (by decide +kernel)

/-- The role of a message that is sent. -/
def Sent.role : Sent → Role
  | .own message => message.role
  | .summary _ => .system

/-- A tool message behind a system message only was issued nowhere. -/
theorem not_issuedSent_of_roles {sent : List Sent} {roles : List Role}
    (h : sent.map Sent.role = .system :: .tool :: roles) : ¬ IssuedSent sent := by
  intro hissued
  obtain ⟨first, rest, rfl, hfirst, hrest⟩ := map_eq_cons_iff.mp h
  obtain ⟨second, rest, rfl, hsecond, -⟩ := map_eq_cons_iff.mp hrest
  cases second with
  | summary text => cases hsecond
  | own answer =>
    obtain ⟨id, -, call, hcall, hcalls⟩ := hissued [first] answer rest rfl hsecond
    obtain rfl := mem_singleton.mp hcall
    rw [show Sent.role (.own call) = call.role from rfl, hcalls.1] at hfirst
    cases hfirst

/-- **Severed**: the call is dropped and its answer is kept; and a note is moved in front of the
    question it follows. -/
theorem severed_answer :
    (¬ ∀ request assessment safetyMarginTokens adapted, Issued request.messages →
      adaptRequestForSwitch request assessment safetyMarginTokens = .ok adapted →
      IssuedSent adapted.messages) ∧
    ¬ ∀ request assessment safetyMarginTokens adapted, Issued request.messages →
      adaptRequestForSwitch request assessment safetyMarginTokens = .ok adapted →
      ((latestTurn request.messages).map .own).Sublist adapted.messages := by
  constructor
  · intro h
    have hroles : (adaptRequestForSwitch severedRequest smallTarget 128).toOption.map
        (fun adapted => adapted.messages.map Sent.role) = some [.system, .tool, .user] := by
      decide +kernel
    cases hok : adaptRequestForSwitch severedRequest smallTarget 128 with
    | error message =>
      rw [hok] at hroles
      cases hroles
    | ok adapted =>
      rw [hok] at hroles
      refine not_issuedSent_of_roles (some.inj hroles) (h _ _ _ adapted ?_ hok)
      exact issued_exchange ⟨rfl, mem_cons_self⟩ rfl rfl
  · intro h
    have hroles : (adaptRequestForSwitch notedRequest smallTarget 128).toOption.map
        (fun adapted => adapted.messages.map Sent.role) = some [.system, .user] := by
      decide +kernel
    cases hok : adaptRequestForSwitch notedRequest smallTarget 128 with
    | error message =>
      rw [hok] at hroles
      cases hroles
    | ok adapted =>
      rw [hok] at hroles
      have hissued : Issued notedRequest.messages := by
        intro before message after heq htool
        have hmem : message ∈ notedRequest.messages := by
          rw [heq]
          exact mem_append_right _ mem_cons_self
        rcases mem_pair.mp hmem with rfl | rfl <;> cases htool
      have hsublist := (h _ _ _ adapted hissued hok).map Sent.role
      rw [show adapted.messages.map Sent.role = _ from some.inj hroles] at hsublist
      exact absurd hsublist (by decide)

end NexusCode.Switching
