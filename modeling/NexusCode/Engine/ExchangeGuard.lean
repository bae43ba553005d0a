/-
  The guard of a tool exchange before it is handed to the history.

  `guardToolExchange` collects the ids that the tool messages of the exchange answer, and puts a
  placeholder behind the assistant message of each call whose id is not among them.  The ids are
  one set for the whole exchange, so the guard does not ask where an answer stands:

  1. `placeholdersFor_spec` — the blocks of one message: every id is in the set after them, and
     what was not in it before has its placeholder.
  2. `guardLoop_followed`, `guardLoop_answered` — the induction on the messages.
  3. **`guarded_exchange`** — what every guarded exchange has: all calls answered somewhere, the
     placeholders in their places, nothing lost, and nothing left for a second guard to do.
  4. **`answer_before_call`** — an answer that stands in front of its call is taken for it.
-/
import NexusCode.Shared.Stream
import NexusCode.Lib.JsMap

namespace NexusCode.Engine

open Lib Shared List

/-! ## The guard -/

/-- The id of a `tool_use` block. -/
def toolUseId? : ContentBlock → Option String
  | .toolUse id _ _ => some id
  | _ => none

/-- The ids of the calls of a message. -/
def callIds (m : Message) : List String := m.content.filterMap toolUseId?

/-- `answered` after the first loop. -/
def answeredIds (exchange : List Message) : List String :=
  exchange.foldl (fun answered m => match m.role, m.toolCallId with
    | .tool, some id => if id = "" then answered else JsSet.add id answered
    | _, _ => answered) []

/-- `placeholder`. -/
def placeholder (id name : String) : Message where
  role := .tool
  content := [.text "[cancelled — no result recorded]"]
  toolCallId := some id
  name := if name = "" then none else some name

/-- The loop over the blocks of an assistant message: the placeholders, and `answered` after it. -/
def placeholdersFor : List ContentBlock → List String → List Message × List String
  | [], answered => ([], answered)
  | .toolUse id name _ :: blocks, answered =>
    if id ∈ answered then placeholdersFor blocks answered
    else
      let (placeholders, answered) := placeholdersFor blocks (JsSet.add id answered)
      (placeholder id name :: placeholders, answered)
  | _ :: blocks, answered => placeholdersFor blocks answered

/-- The second loop. -/
def guardLoop : List Message → List String → List Message
  | [], _ => []
  | m :: messages, answered =>
    if m.role = .assistant then
      let (placeholders, answered) := placeholdersFor m.content answered
      m :: (placeholders ++ guardLoop messages answered)
    else m :: guardLoop messages answered

/-- `guardToolExchange(exchange)`. -/
def guardToolExchange (exchange : List Message) : List Message :=
  guardLoop exchange (answeredIds exchange)

/-! ## Pairing -/

/-- A tool message with the id. -/
def Answers (id : String) (m : Message) : Prop := m.role = .tool ∧ m.toolCallId = some id

/-- The messages before the next assistant or user message. -/
def sameTurn (messages : List Message) : List Message :=
  messages.takeWhile fun m => m.role ≠ .assistant ∧ m.role ≠ .user

/-- A message with the id comes before the next assistant or user message. -/
def Followed (id : String) (messages : List Message) : Prop :=
  ∃ answer ∈ sameTurn messages, Answers id answer

/-- Every call of an assistant message is followed by an answer. -/
def WellPaired (exchange : List Message) : Prop :=
  ∀ front m rest, exchange = front ++ m :: rest → m.role = .assistant →
    ∀ id ∈ callIds m, Followed id rest

/-! ## One message -/

section Placeholders

variable {blocks : List ContentBlock} {answered : List String} {id name : String}

/-- What the blocks of a message leave: all their ids in the set, and a placeholder for each id
    that was not in it. -/
theorem placeholdersFor_spec (blocks : List ContentBlock) (answered : List String) :
    (∀ id, id ∈ (placeholdersFor blocks answered).2 ↔
      id ∈ answered ∨ id ∈ blocks.filterMap toolUseId?) ∧
    (∀ id ∈ blocks.filterMap toolUseId?, id ∈ answered ∨
      ∃ p ∈ (placeholdersFor blocks answered).1, Answers id p) ∧
    ∀ p ∈ (placeholdersFor blocks answered).1, p.role = .tool := by
  induction blocks generalizing answered with
  | nil =>
    refine ⟨fun id => ?_, fun id hid => ?_, fun p hp => ?_⟩
    · exact (or_iff_left (not_mem_nil)).symm
    · exact absurd hid (not_mem_nil)
    · exact absurd hp (not_mem_nil)
  | cons block blocks ih =>
    cases block with
    | toolUse id' name input =>
      rw [filterMap_cons_some (show toolUseId? (.toolUse id' name input) = some id' from rfl)]
      by_cases hmem : id' ∈ answered
      · rw [placeholdersFor, if_pos hmem]
        obtain ⟨hset, hplaced, htool⟩ := ih answered
        refine ⟨fun id => ?_, fun id hid => ?_, htool⟩
        · rw [hset, mem_cons]
          constructor
          · rintro (h | h)
            · exact .inl h
            · exact .inr (.inr h)
          · rintro (h | rfl | h)
            · exact .inl h
            · exact .inl hmem
            · exact .inr h
        · rcases mem_cons.mp hid with rfl | hid
          · exact .inl hmem
          · exact hplaced id hid
      · rw [placeholdersFor, if_neg hmem]
        obtain ⟨hset, hplaced, htool⟩ := ih (JsSet.add id' answered)
        refine ⟨fun id => ?_, fun id hid => ?_, fun p hp => ?_⟩
        · show id ∈ (placeholdersFor blocks (JsSet.add id' answered)).2 ↔ _
          rw [hset, JsSet.mem_add, mem_cons]
          tauto
        · show _ ∨ ∃ p ∈ placeholder id' name :: _, _
          rcases mem_cons.mp hid with rfl | hid
          · exact .inr ⟨_, mem_cons_self, rfl, rfl⟩
          · rcases hplaced id hid with hold | ⟨p, hp, hanswers⟩
            · rcases JsSet.mem_add.mp hold with rfl | hold
              · exact .inr ⟨_, mem_cons_self, rfl, rfl⟩
              · exact .inl hold
            · exact .inr ⟨p, mem_cons_of_mem _ hp, hanswers⟩
        · rcases mem_cons.mp hp with rfl | hp
          · rfl
          · exact htool p hp
    | text => exact ih answered
    | image => exact ih answered
    | audio => exact ih answered
    | toolResult => exact ih answered
    | thinking => exact ih answered

theorem placeholdersFor_of_answered (h : ∀ id ∈ blocks.filterMap toolUseId?, id ∈ answered) :
    placeholdersFor blocks answered = ([], answered) := by
  induction blocks with
  | nil => rfl
  | cons block blocks ih =>
    cases block with
    | toolUse id' name input =>
      rw [filterMap_cons_some (show toolUseId? (.toolUse id' name input) = some id' from rfl),
        forall_mem_cons] at h
      rw [placeholdersFor, if_pos h.1]
      exact ih h.2
    | text => exact ih h
    | image => exact ih h
    | audio => exact ih h
    | toolResult => exact ih h
    | thinking => exact ih h

end Placeholders

/-! ## The messages -/

section Loop

variable {messages : List Message} {answered : List String} {m : Message} {id : String}

theorem mem_answeredIds (exchange : List Message) (id : String) :
    id ∈ answeredIds exchange ↔ id ≠ "" ∧ ∃ m ∈ exchange, Answers id m := by
  suffices h : ∀ exchange : List Message, ∀ answered : List String,
      id ∈ exchange.foldl (fun answered m => match m.role, m.toolCallId with
        | .tool, some id => if id = "" then answered else JsSet.add id answered
        | _, _ => answered) answered ↔
      id ∈ answered ∨ id ≠ "" ∧ ∃ m ∈ exchange, Answers id m by
    rw [answeredIds, h]
    exact or_iff_right not_mem_nil
  intro exchange
  induction exchange with
  | nil =>
    intro answered
    simp
  | cons m exchange ih =>
    intro answered
    rw [foldl_cons, ih, exists_mem_cons_iff]
    by_cases hanswers : ∃ id', m.role = .tool ∧ m.toolCallId = some id'
    · obtain ⟨id', hrole, hid⟩ := hanswers
      have hm : Answers id m ↔ id = id' := by
        rw [Answers, hid]
        exact ⟨fun h => (Option.some.inj h.2).symm, fun h => ⟨hrole, h ▸ rfl⟩⟩
      rw [hm, hrole, hid]
      dsimp only
      split
      · rename_i hempty
        subst hempty
        tauto
      · rename_i hne
        rw [JsSet.mem_add]
        constructor
        · rintro ((rfl | h) | h)
          · exact .inr ⟨hne, .inl rfl⟩
          · exact .inl h
          · exact .inr ⟨h.1, .inr h.2⟩
        · rintro (h | ⟨h, rfl | hrest⟩)
          · exact .inl (.inr h)
          · exact .inl (.inl rfl)
          · exact .inr ⟨h, hrest⟩
    · have hm : ¬ Answers id m := fun h => hanswers ⟨id, h⟩
      split
      · rename_i id' hrole hid
        exact absurd ⟨id', hrole, hid⟩ hanswers
      · rw [or_iff_right hm]

theorem sublist_guardLoop (messages : List Message) (answered : List String) :
    messages.Sublist (guardLoop messages answered) := by
  induction messages generalizing answered with
  | nil => exact List.Sublist.refl []
  | cons m messages ih =>
    rw [guardLoop]
    split
    · exact ((ih _).trans (sublist_append_right _ _)).cons_cons m
    · exact (ih _).cons_cons m

theorem mem_of_mem_guardLoop (h : m ∈ guardLoop messages answered) (hrole : m.role ≠ .tool) :
    m ∈ messages := by
  induction messages generalizing answered with
  | nil => exact h
  | cons x messages ih =>
    rw [guardLoop] at h
    split at h
    · rcases mem_cons.mp h with rfl | h
      · exact mem_cons_self
      rcases mem_append.mp h with hplaced | h
      · exact absurd ((placeholdersFor_spec _ _).2.2 m hplaced) hrole
      · exact mem_cons_of_mem _ (ih h)
    · rcases mem_cons.mp h with rfl | h
      · exact mem_cons_self
      · exact mem_cons_of_mem _ (ih h)

theorem mem_sameTurn_append {placed rest : List Message} (h : ∀ p ∈ placed, p.role = .tool)
    (hm : m ∈ placed) : m ∈ sameTurn (placed ++ rest) := by
  unfold sameTurn
  rw [takeWhile_append_of_pos]
  · exact mem_append_left _ hm
  · intro p hp
    rw [h p hp]
    rfl

/-- A list before whose cut no assistant message stands goes up to the cut. -/
theorem split_behind {placed rest front back : List Message} (h : ∀ p ∈ placed, p.role = .tool)
    (hm : m.role = .assistant) (heq : placed ++ rest = front ++ m :: back) :
    ∃ front', front = placed ++ front' ∧ rest = front' ++ m :: back := by
  rcases append_eq_append_iff.mp heq with ⟨front', rfl, hrest⟩ | ⟨cut, rfl, hcut⟩
  · exact ⟨front', rfl, hrest⟩
  · cases cut with
    | nil => exact ⟨[], (append_nil _).symm ▸ (append_nil _).symm, hcut.symm⟩
    | cons x cut =>
      obtain ⟨rfl, -⟩ := cons.inj hcut
      have htool := h m (mem_append_right _ mem_cons_self)
      rw [hm] at htool
      cases htool

/-- A call is followed by an answer, or its id was in the set, or an earlier message calls with
    it. -/
theorem guardLoop_followed {front rest : List Message}
    (heq : guardLoop messages answered = front ++ m :: rest) (hm : m.role = .assistant)
    (hid : id ∈ callIds m) :
    id ∈ answered ∨ Followed id rest ∨
      ∃ earlier ∈ front, earlier.role = .assistant ∧ id ∈ callIds earlier := by
  induction messages generalizing answered front with
  | nil =>
    rw [guardLoop] at heq
    exact absurd heq.symm (append_ne_nil_of_right_ne_nil _ (cons_ne_nil _ _))
  | cons x messages ih =>
    rw [guardLoop] at heq
    obtain ⟨hset, hplaced, htool⟩ := placeholdersFor_spec x.content answered
    by_cases hx : x.role = .assistant
    · rw [if_pos hx] at heq
      cases front with
      | nil =>
        obtain ⟨rfl, rfl⟩ := cons.inj heq
        rcases hplaced id hid with hold | ⟨p, hp, hanswers⟩
        · exact .inl hold
        · exact .inr (.inl ⟨p, mem_sameTurn_append htool hp, hanswers⟩)
      | cons y front =>
        obtain ⟨rfl, htail⟩ := cons.inj heq
        obtain ⟨front', rfl, hback⟩ := split_behind htool hm htail
        rcases ih hback with hold | hfollowed | ⟨earlier, hmem, hearlier⟩
        · rcases (hset id).mp hold with hold | hcall
          · exact .inl hold
          · exact .inr (.inr ⟨x, mem_cons_self, hx, hcall⟩)
        · exact .inr (.inl hfollowed)
        · exact .inr (.inr ⟨earlier,
            mem_cons_of_mem _ (mem_append_right _ hmem), hearlier⟩)
    · rw [if_neg hx] at heq
      cases front with
      | nil =>
        obtain ⟨rfl, -⟩ := cons.inj heq
        exact absurd hm hx
      | cons y front =>
        obtain ⟨rfl, htail⟩ := cons.inj heq
        rcases ih htail with hold | hfollowed | ⟨earlier, hmem, hearlier⟩
        · exact .inl hold
        · exact .inr (.inl hfollowed)
        · exact .inr (.inr ⟨earlier, mem_cons_of_mem _ hmem, hearlier⟩)

variable (answered) in
theorem guardLoop_answered (hmem : m ∈ messages) (hm : m.role = .assistant) (hid : id ∈ callIds m) :
    id ∈ answered ∨ ∃ answer ∈ guardLoop messages answered, Answers id answer := by
  induction messages generalizing answered with
  | nil => exact absurd hmem not_mem_nil
  | cons x messages ih =>
    rw [guardLoop]
    obtain ⟨hset, hplaced, -⟩ := placeholdersFor_spec x.content answered
    have hcalls : x.role = .assistant → id ∈ callIds x → id ∈ answered ∨ ∃ answer ∈
        x :: ((placeholdersFor x.content answered).1 ++
          guardLoop messages (placeholdersFor x.content answered).2), Answers id answer := by
      intro _ hcall
      rcases hplaced id hcall with hold | ⟨p, hp, hanswers⟩
      · exact .inl hold
      · exact .inr ⟨p, mem_cons_of_mem _ (mem_append_left _ hp), hanswers⟩
    by_cases hx : x.role = .assistant
    · rw [if_pos hx]
      rcases mem_cons.mp hmem with rfl | hmem
      · exact hcalls hx hid
      rcases ih (placeholdersFor x.content answered).2 hmem with
        hold | ⟨answer, hanswer, hanswers⟩
      · rcases (hset id).mp hold with hold | hcall
        · exact .inl hold
        · exact hcalls hx hcall
      · exact .inr ⟨answer, mem_cons_of_mem _ (mem_append_right _ hanswer), hanswers⟩
    · rw [if_neg hx]
      rcases mem_cons.mp hmem with rfl | hmem
      · exact absurd hm hx
      · rcases ih answered hmem with hold | ⟨answer, hanswer, hanswers⟩
        · exact .inl hold
        · exact .inr ⟨answer, mem_cons_of_mem _ hanswer, hanswers⟩

theorem guardLoop_of_answered
    (h : ∀ m ∈ messages, m.role = .assistant → ∀ id ∈ callIds m, id ∈ answered) :
    guardLoop messages answered = messages := by
  induction messages with
  | nil => rfl
  | cons m messages ih =>
    obtain ⟨hm, hmessages⟩ := forall_mem_cons.mp h
    rw [guardLoop]
    split
    · rename_i hrole
      rw [placeholdersFor_of_answered (hm hrole)]
      exact congrArg (m :: ·) (ih hmessages)
    · exact congrArg (m :: ·) (ih hmessages)

end Loop

/-! ## The guarded exchange -/

/-- Every call of a guarded exchange is answered somewhere in it. -/
theorem guarded_calls_answered {exchange : List Message} {m : Message} {id : String}
    (hmem : m ∈ guardToolExchange exchange) (hm : m.role = .assistant) (hid : id ∈ callIds m) :
    ∃ answer ∈ guardToolExchange exchange, Answers id answer := by
  have hin : m ∈ exchange := by
    apply mem_of_mem_guardLoop hmem
    rw [hm]
    exact nofun
  rcases guardLoop_answered (answeredIds exchange) hin hm hid with hold | hanswered
  · obtain ⟨-, answer, hanswer, hanswers⟩ := (mem_answeredIds exchange id).mp hold
    exact ⟨answer, (sublist_guardLoop _ _).subset hanswer, hanswers⟩
  · exact hanswered

/-- A guarded exchange has all messages of the exchange in their order, and an answer for every
    call of an assistant message.  The call is followed by its answer before the next assistant or
    user message, unless the exchange answers its id elsewhere or an earlier message calls with it.
    A second guard changes nothing where every call has an id. -/
theorem guarded_exchange (exchange : List Message) :
    exchange.Sublist (guardToolExchange exchange) ∧
    (∀ m ∈ guardToolExchange exchange, m.role = .assistant → ∀ id ∈ callIds m,
      ∃ answer ∈ guardToolExchange exchange, Answers id answer) ∧
    (∀ front m rest, guardToolExchange exchange = front ++ m :: rest → m.role = .assistant →
      ∀ id ∈ callIds m, Followed id rest ∨ (∃ answer ∈ exchange, Answers id answer) ∨
        ∃ earlier ∈ front, earlier.role = .assistant ∧ id ∈ callIds earlier) ∧
    ((∀ m ∈ exchange, m.role = .assistant → "" ∉ callIds m) →
      guardToolExchange (guardToolExchange exchange) = guardToolExchange exchange) := by
  refine ⟨sublist_guardLoop _ _, fun m hmem hm id hid => guarded_calls_answered hmem hm hid,
    fun front m rest heq hm id hid => ?_, fun hnamed => ?_⟩
  · rcases guardLoop_followed heq hm hid with hold | hfollowed | hearlier
    · exact .inr (.inl ((mem_answeredIds exchange id).mp hold).2)
    · exact .inl hfollowed
    · exact .inr (.inr hearlier)
  · apply guardLoop_of_answered
    intro m hmem hm id hid
    rw [mem_answeredIds]
    refine ⟨?_, guarded_calls_answered hmem hm hid⟩
    rintro rfl
    have hin : m ∈ exchange := by
      apply mem_of_mem_guardLoop hmem
      rw [hm]
      exact nofun
    exact hnamed m hin hm hid

/-- An answer in front of its call is taken for it, so the call is not followed by one; and the
    placeholder of a call without an id is not taken for an answer by the next guard. -/
theorem answer_before_call :
    (¬ ∀ exchange, WellPaired (guardToolExchange exchange)) ∧
    ¬ ∀ exchange, guardToolExchange (guardToolExchange exchange) = guardToolExchange exchange := by
  constructor
  · intro h
    obtain ⟨answer, hanswer, -⟩ := h
      [{ role := .tool, content := [.text "answered"], toolCallId := some "call_1" },
        { role := .assistant, content := [.toolUse "call_1" "echo" none] }]
      [{ role := .tool, content := [.text "answered"], toolCallId := some "call_1" }]
      { role := .assistant, content := [.toolUse "call_1" "echo" none] } [] rfl rfl "call_1"
      mem_cons_self
    exact absurd hanswer not_mem_nil
  · intro h
    have hlength := congrArg List.length
      (h [{ role := .assistant, content := [.toolUse "" "echo" none] }])
    exact absurd hlength (by decide)

end NexusCode.Engine
