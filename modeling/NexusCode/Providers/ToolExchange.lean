/-
  Tool exchanges, and what the four translations make of them.

  A history is a list of turns: plain messages, and exchanges, in which an assistant message with
  calls is followed by the messages that answer exactly these calls.  A native list is read as a
  flat list of items: calls, results, and what is said (`Item`).  An exchange survives when in the
  native list its calls are directly followed by one result for each of them, before anything else
  that is said (`Survives`).

  The translations differ in what they keep:

  1. Anthropic keeps the order of the answers, so a block that is said before a result stands
     before it;
  2. OpenAI puts what a user message says before the results it carries;
  3. Gemini and Bedrock have no result for a message of the role `tool`, whose text becomes
     something said.

  **`exchanges_survive_iff`** — for each adapter, when all exchanges of a history survive.
-/
import NexusCode.Providers.Messages
import NexusCode.Lib.Front
import Mathlib.Data.List.Perm.Basic

namespace NexusCode.Providers

open Lib Shared List Option

/-! ## Histories -/

/-- `b.type === "tool_use"`. -/
def callId? : ContentBlock → Option String
  | .toolUse id _ _ => some id
  | _ => none

/-- The id and the texts of a tool result. -/
def answer? : ContentBlock → Option (String × List String)
  | .toolResult id content _ => some (id, content.filterMap (·.text?))
  | _ => none

/-- Neither a call nor a result. -/
def isOrdinary (b : ContentBlock) : Bool := (callId? b).isNone && (answer? b).isNone

/-- A message of the role `tool` with text content and the id of its call. -/
structure IsToolAnswer (m : Message) : Prop where
  role : m.role = .tool
  keyed : m.toolCallId.isSome = true
  text : ∀ b ∈ m.content, b.text?.isSome = true

/-- A user message that carries tool results, maybe among other blocks. -/
structure IsUserAnswer (m : Message) : Prop where
  role : m.role = .user
  answers : m.content.filterMap answer? ≠ []
  noCall : ∀ b ∈ m.content, callId? b = none

/-- The answers of a message. -/
def answersOf (m : Message) : List (String × List String) :=
  if m.role = .tool then [(m.toolCallId.getD "", m.content.filterMap (·.text?))]
  else m.content.filterMap answer?

/-- An assistant message with calls, and the messages that answer exactly these. -/
structure Exchange where
  assistant : Message
  answers : List Message
  isAssistant : assistant.role = .assistant
  noAnswer : ∀ b ∈ assistant.content, answer? b = none
  calls : assistant.content.filterMap callId? ≠ []
  areAnswers : ∀ m ∈ answers, IsToolAnswer m ∨ IsUserAnswer m
  exact : ((answers.flatMap answersOf).map (·.1)).Perm (assistant.content.filterMap callId?)

/-- A turn of a history: a message without calls and results, or an exchange. -/
inductive Turn where
  | plain (m : Message) (role : m.role ≠ .tool) (blocks : ∀ b ∈ m.content, isOrdinary b = true)
  | exchange (e : Exchange)

/-- The messages of a turn. -/
def Turn.messages : Turn → List Message
  | .plain m _ _ => [m]
  | .exchange e => e.assistant :: e.answers

/-- The messages of a history. -/
def messagesOf (turns : List Turn) : List Message := turns.flatMap (·.messages)

/-- The exchanges of a history. -/
def exchangesOf (turns : List Turn) : List Exchange :=
  turns.filterMap fun
    | .exchange e => some e
    | .plain .. => none

/-! ## Native lists -/

/-- An item of a native list: a call, a result with its text, or what the model or the user (or
    the system) says. -/
inductive Item where
  | call (id : String)
  | result (id text : String)
  | said (byModel : Bool)

/-- The four native adapters. -/
inductive Adapter where
  | anthropic
  | openai
  | gemini
  | bedrock
deriving DecidableEq

/-- The text of a part of a tool result. -/
def Anthropic.ResultParam.text? : ResultParam → Option String
  | .text t => some t
  | .image _ => none

/-- The item of a block of Anthropic's. -/
def Anthropic.BlockParam.item (byModel : Bool) : BlockParam → Item
  | .text _ => .said byModel
  | .image _ => .said byModel
  | .toolUse id _ _ => .call id
  | .toolResult id content _ => .result id (String.join (content.filterMap (·.text?)))

/-- The items of a message of OpenAI's. -/
def OpenAI.ChatMessage.items : ChatMessage → List Item
  | .system _ => [.said false]
  | .user _ => [.said false]
  | .tool id content => [.result id content]
  | .assistant content calls =>
    (if content.isSome then [.said true] else []) ++ calls.map fun c => .call c.id

/-- The item of a part of Gemini's. -/
def Gemini.Part.item (byModel : Bool) : Part → Item
  | .functionCall id _ _ => .call id
  | .functionResponse id _ content => .result id content
  | _ => .said byModel

/-- The item of a block of Bedrock's. -/
def Bedrock.Block.item (byModel : Bool) : Block → Item
  | .toolUse id _ _ => .call id
  | .toolResult id content _ => .result id content
  | _ => .said byModel

/-- The native list an adapter makes of some messages, as items. -/
def nativeItems (toLowerCase : String → String) (a : Adapter) (messages : List Message) :
    List Item :=
  match a with
  | .anthropic => (Anthropic.mapMessages messages).flatMap fun m =>
      m.content.map (·.item m.isAssistant)
  | .openai => (OpenAI.toOpenAIMessages messages).flatMap (·.items)
  | .gemini => (Gemini.mapMessages messages).flatMap fun m => m.parts.map (·.item m.isModel)
  | .bedrock => (Bedrock.mapMessages toLowerCase messages).flatMap fun m =>
      m.content.map (·.item m.isAssistant)

/-! ## Survival -/

namespace Item

/-- Something is said. -/
def isSaid : Item → Bool
  | said _ => true
  | _ => false

/-- A call, or something the model says: what the message with the calls may hold. -/
def isOfModel : Item → Bool
  | call _ => true
  | said byModel => byModel
  | _ => false

def isResult : Item → Bool
  | result .. => true
  | _ => false

def callId? : Item → Option String
  | call id => some id
  | _ => none

def resultId? : Item → Option String
  | result id _ => some id
  | _ => none

end Item

/-- The texts stand in the text of the result, whole and in order. -/
def Carries (texts : List String) (text : String) : Prop :=
  ∃ pieces : List String, texts.Sublist pieces ∧ text = String.join pieces

/-- The item is the result of an answer: it has its id and carries its texts. -/
def IsResultOf (item : Item) (answer : String × List String) : Prop :=
  ∃ text, item = .result answer.1 text ∧ Carries answer.2 text

/-- The results are those of the exchange: one for each call, with the text of its answer. -/
structure Answered (e : Exchange) (results : List Item) : Prop where
  ids : (results.filterMap (·.resultId?)).Perm (e.assistant.content.filterMap callId?)
  texts : ∃ answers, answers.Perm (e.answers.flatMap answersOf) ∧
    List.Forall₂ IsResultOf results answers

/-- **The exchanges survive in a native list**, one after the other: what stands before an exchange
    is said; then come its calls, in the message of the model; then, before anything else, its
    results; and after the last exchange everything is said. -/
def Survives : List Exchange → List Item → Prop
  | [], items => ∀ i ∈ items, i.isSaid = true
  | e :: rest, items =>
    let calls := (items.dropWhile (·.isSaid)).takeWhile (·.isOfModel)
    let after := (items.dropWhile (·.isSaid)).dropWhile (·.isOfModel)
    calls.filterMap (·.callId?) = e.assistant.content.filterMap callId? ∧
      Answered e (after.takeWhile (·.isResult)) ∧ Survives rest (after.dropWhile (·.isResult))

/-! ## What decides -/

/-- The blocks the answers of an exchange consist of, as one list. -/
def Exchange.blocks (e : Exchange) : List ContentBlock :=
  e.answers.flatMap fun m =>
    if m.role = .tool then [.toolResult (m.toolCallId.getD "") m.content none] else m.content

/-- No block that is shown stands before a result. -/
def ResultsFirst (shown : ContentBlock → Bool) (blocks : List ContentBlock) : Prop :=
  blocks.Pairwise fun b c => (answer? b).isNone = true → shown b = true → answer? c = none

/-- Does the adapter pass a block on that is neither a call nor a result? -/
def Adapter.shows : Adapter → ContentBlock → Bool
  | .anthropic, .thinking .. => false
  | .gemini, .audio .. => false
  | .bedrock, .audio .. => false
  | .bedrock, .thinking .. => false
  | _, _ => true

/-- **What an exchange must be like for an adapter.** -/
def Kept (a : Adapter) (e : Exchange) : Prop :=
  match a with
  | .anthropic => ResultsFirst a.shows e.blocks
  | .openai => ∀ m ∈ e.answers, m.role = .user → ∀ b ∈ m.content, (answer? b).isSome = true
  | .gemini | .bedrock => (∀ m ∈ e.answers, m.role ≠ .tool) ∧ ResultsFirst a.shows e.blocks

/-! ## Items, message by message -/

variable {toLowerCase : String → String} {a : Adapter}

/-- The items of a block in a message of a role. -/
def blockItems (toLowerCase : String → String) (a : Adapter) (byModel : Bool) (b : ContentBlock) :
    List Item :=
  match a with
  | .anthropic => ((Anthropic.mapContentBlock b).map (·.item byModel)).toList
  | .openai => []
  | .gemini => (Gemini.mapContentBlock b).map (·.item byModel)
  | .bedrock => (Bedrock.mapContentBlock toLowerCase b).map (·.item byModel)

/-- The items of a message. -/
def messageItems (toLowerCase : String → String) (a : Adapter) (m : Message) : List Item :=
  match a with
  | .openai => (OpenAI.toOpenAIMessage m).flatMap (·.items)
  | .anthropic =>
    match m.role with
    | .system => []
    | .tool => blockItems toLowerCase .anthropic false
        (.toolResult (m.toolCallId.getD "") m.content none)
    | role => m.content.flatMap (blockItems toLowerCase .anthropic (role = .assistant))
  | a =>
    if m.role = .system then []
    else m.content.flatMap (blockItems toLowerCase a (m.role = .assistant))

theorem flush_items (pending : List Anthropic.BlockParam) :
    ((Anthropic.flush pending).flatMap fun m => m.content.map (·.item m.isAssistant)) =
      pending.map (·.item false) := by
  unfold Anthropic.flush
  cases pending with
  | nil => rfl
  | cons b rest => exact flatMap_singleton _ _

theorem anthropic_content (byModel : Bool) (content : List ContentBlock) :
    (content.filterMap Anthropic.mapContentBlock).map (·.item byModel) =
      content.flatMap (blockItems toLowerCase .anthropic byModel) := by
  rw [map_filterMap, filterMap_eq_flatMap_toList]
  rfl

theorem mapFrom_items : ∀ (messages : List Message) (pending : List Anthropic.BlockParam),
    ((Anthropic.mapFrom pending messages).flatMap fun m => m.content.map (·.item m.isAssistant)) =
      pending.map (·.item false) ++ messages.flatMap (messageItems toLowerCase .anthropic)
  | [], pending => by
    rw [Anthropic.mapFrom, flush_items, flatMap_nil, append_nil]
  | m :: rest, pending => by
    rw [Anthropic.mapFrom, flatMap_cons, messageItems]
    cases m.role with
    | system => exact mapFrom_items rest pending
    | tool =>
      dsimp only
      rw [mapFrom_items rest _, map_append, append_assoc]
      rfl
    | user =>
      dsimp only
      rw [flatMap_append, flush_items, flatMap_cons, mapFrom_items rest [],
        anthropic_content]
      rfl
    | assistant =>
      dsimp only
      rw [flatMap_append, flush_items, flatMap_cons, mapFrom_items rest [],
        anthropic_content]
      rfl

theorem hoisted_items {β : Type} (f : Message → β) (g : β → List Item) : ∀ messages : List Message,
    ((messages.filter fun m => m.role ≠ .system).map f).flatMap g =
      messages.flatMap fun m => if m.role = .system then [] else g (f m)
  | [] => rfl
  | m :: rest => by
    rw [filter_cons, flatMap_cons, ← hoisted_items f g rest]
    by_cases h : m.role = .system
    · rw [if_pos h, if_neg (by rw [decide_eq_true_iff, not_not]; exact h), nil_append]
    · rw [if_neg h, if_pos (decide_eq_true h), map_cons, flatMap_cons]

/-- **The native list, message by message.** -/
theorem nativeItems_eq (messages : List Message) :
    nativeItems toLowerCase a messages = messages.flatMap (messageItems toLowerCase a) := by
  cases a with
  | anthropic => exact mapFrom_items messages []
  | openai => exact flatMap_assoc
  | gemini =>
    refine (hoisted_items _ _ messages).trans (flatMap_congr fun m _ => ?_)
    dsimp only
    rw [map_flatMap]
    rfl
  | bedrock =>
    refine (hoisted_items _ _ messages).trans (flatMap_congr fun m _ => ?_)
    dsimp only
    rw [map_flatMap]
    rfl

/-! ## What a block becomes -/

theorem carries_join (texts : List String) : Carries texts (String.join texts) :=
  ⟨texts, List.Sublist.refl _, rfl⟩

theorem carries_filterMap {f : ContentBlock → Option String} (hf : ∀ t, f (.text t) = some t)
    (content : List ContentBlock) :
    Carries (content.filterMap (·.text?)) (String.join (content.filterMap f)) := by
  refine ⟨content.filterMap f, ?_, rfl⟩
  induction content with
  | nil => exact List.Sublist.refl _
  | cons b rest ih =>
    have hskip : (rest.filterMap (·.text?)).Sublist ((b :: rest).filterMap f) := by
      rw [filterMap_cons]
      split
      · exact ih
      · exact ih.cons _
    cases b with
    | text t =>
      rw [filterMap_cons_some (hf t)]
      exact ih.cons_cons t
    | _ => exact hskip

theorem carries_map {f : ContentBlock → String} (hf : ∀ t, f (.text t) = t)
    (content : List ContentBlock) :
    Carries (content.filterMap (·.text?)) (String.join (content.map f)) := by
  rw [← filterMap_eq_map]
  exact carries_filterMap (fun t => congrArg some (hf t)) content

theorem carries_result (content : List ContentBlock) : Carries (content.filterMap (·.text?))
    (String.join ((Anthropic.mapToolResultContent content).filterMap (·.text?))) := by
  rw [Anthropic.mapToolResultContent, filterMap_map]
  exact carries_filterMap (fun _ => rfl) content

theorem blockItems_answer (ha : a ≠ .openai) (byModel : Bool) {b : ContentBlock}
    {r : String × List String} (h : answer? b = some r) :
    ∃ item, blockItems toLowerCase a byModel b = [item] ∧ IsResultOf item r := by
  cases b with
  | toolResult id content isError =>
    obtain rfl := some.inj h
    cases a with
    | anthropic => exact ⟨_, rfl, _, rfl, carries_result content⟩
    | openai => exact absurd rfl ha
    | gemini => exact ⟨_, rfl, _, rfl, carries_map (fun _ => rfl) content⟩
    | bedrock => exact ⟨_, rfl, _, rfl, carries_map (fun _ => rfl) content⟩
  | _ => nomatch h

theorem blockItems_call (ha : a ≠ .openai) (byModel : Bool) {b : ContentBlock} {id : String}
    (h : callId? b = some id) : blockItems toLowerCase a byModel b = [.call id] := by
  cases b with
  | toolUse id' name input =>
    obtain rfl := some.inj h
    cases a with
    | openai => exact absurd rfl ha
    | _ => rfl
  | _ => nomatch h

theorem blockItems_ordinary (ha : a ≠ .openai) (byModel : Bool) {b : ContentBlock}
    (h : isOrdinary b = true) :
    blockItems toLowerCase a byModel b = if a.shows b then [.said byModel] else [] := by
  cases b with
  | toolUse id name input => nomatch h
  | toolResult id content isError => nomatch h
  | text t => cases a <;> first | rfl | exact absurd rfl ha
  | thinking t signature => cases a <;> first | rfl | exact absurd rfl ha
  | image mime data => cases data <;> cases a <;> first | rfl | exact absurd rfl ha
  | audio mime data => cases data <;> cases a <;> first | rfl | exact absurd rfl ha

theorem block_cases (b : ContentBlock) : (∃ id, callId? b = some id) ∨
    (∃ r, answer? b = some r) ∨ isOrdinary b = true := by
  cases b with
  | toolUse id name input => exact .inl ⟨id, rfl⟩
  | toolResult id content isError => exact .inr (.inl ⟨_, rfl⟩)
  | _ => exact .inr (.inr rfl)

/-! ## What a message becomes -/

/-- Apart from OpenAI, a message of the user or the assistant becomes the items of its blocks. -/
theorem messageItems_blocks (ha : a ≠ .openai) {m : Message} (hsystem : m.role ≠ .system)
    (htool : m.role ≠ .tool) : messageItems toLowerCase a m =
      m.content.flatMap (blockItems toLowerCase a (m.role = .assistant)) := by
  cases a with
  | openai => exact absurd rfl ha
  | anthropic =>
    rw [messageItems]
    cases hrole : m.role with
    | system => exact absurd hrole hsystem
    | tool => exact absurd hrole htool
    | user => rfl
    | assistant => rfl
  | gemini => exact if_neg hsystem
  | bedrock => exact if_neg hsystem

theorem toolCall?_eq_none {b : ContentBlock} (h : callId? b = none) : OpenAI.toolCall? b = none := by
  cases b with
  | toolUse id name input => nomatch h
  | _ => rfl

theorem toolMessage?_eq_none {b : ContentBlock} (h : answer? b = none) :
    OpenAI.toolMessage? b = none := by
  cases b with
  | toolResult id content isError => nomatch h
  | _ => rfl

theorem isOrdinary_iff (b : ContentBlock) :
    isOrdinary b = true ↔ callId? b = none ∧ answer? b = none := by
  rw [isOrdinary, Bool.and_eq_true, isNone_iff_eq_none, isNone_iff_eq_none]

theorem plain_said {m : Message} (hrole : m.role ≠ .tool)
    (hblocks : ∀ b ∈ m.content, isOrdinary b = true) :
    ∀ i ∈ messageItems toLowerCase a m, i.isSaid = true := by
  by_cases ha : a = .openai
  · subst ha
    have hcalls : m.content.filterMap OpenAI.toolCall? = [] := filterMap_eq_nil_iff.mpr
      fun b hb => toolCall?_eq_none ((isOrdinary_iff b).mp (hblocks b hb)).1
    have hresults : m.content.filterMap OpenAI.toolMessage? = [] := filterMap_eq_nil_iff.mpr
      fun b hb => toolMessage?_eq_none ((isOrdinary_iff b).mp (hblocks b hb)).2
    rw [messageItems, OpenAI.toOpenAIMessage]
    intro i hi
    obtain ⟨native, hnative, hi⟩ := mem_flatMap.mp hi
    cases hm : m.role with
    | tool => exact absurd hm hrole
    | system =>
      rw [hm] at hnative
      obtain rfl := mem_singleton.mp hnative
      obtain rfl := mem_singleton.mp hi
      rfl
    | user =>
      rw [hm, hresults] at hnative
      dsimp only at hnative
      rw [append_nil] at hnative
      split at hnative
      · nomatch hnative
      · obtain rfl := mem_singleton.mp hnative
        obtain rfl := mem_singleton.mp hi
        rfl
    | assistant =>
      rw [hm, hcalls] at hnative
      obtain rfl := mem_singleton.mp hnative
      rw [OpenAI.ChatMessage.items, map_nil, append_nil, mem_ite_nil_right] at hi
      obtain rfl := mem_singleton.mp hi.2
      rfl
  · by_cases hsystem : m.role = .system
    · have hnone : messageItems toLowerCase a m = [] := by
        cases a with
        | openai => exact absurd rfl ha
        | anthropic => rw [messageItems, hsystem]
        | gemini => exact if_pos hsystem
        | bedrock => exact if_pos hsystem
      rw [hnone]
      exact fun i h => nomatch h
    · rw [messageItems_blocks ha hsystem hrole]
      intro i hi
      obtain ⟨b, hb, hi⟩ := mem_flatMap.mp hi
      rw [blockItems_ordinary ha _ (hblocks b hb)] at hi
      split at hi
      · obtain rfl := mem_singleton.mp hi
        rfl
      · nomatch hi

/-- The message with the calls keeps them, among what the model says. -/
theorem assistant_items (e : Exchange) :
    (∀ i ∈ messageItems toLowerCase a e.assistant, i.isOfModel = true) ∧
      (messageItems toLowerCase a e.assistant).filterMap (·.callId?) =
        e.assistant.content.filterMap callId? := by
  by_cases ha : a = .openai
  · subst ha
    have hcalls : (e.assistant.content.filterMap OpenAI.toolCall?).map (·.id) =
        e.assistant.content.filterMap callId? := by
      rw [map_filterMap]
      refine filterMap_congr fun b _ => ?_
      cases b <;> rfl
    rw [messageItems, OpenAI.toOpenAIMessage, e.isAssistant]
    dsimp only
    rw [flatMap_singleton, OpenAI.ChatMessage.items]
    constructor
    · intro i hi
      rcases mem_append.mp hi with hi | hi
      · obtain rfl := mem_singleton.mp (mem_ite_nil_right.mp hi).2
        rfl
      · obtain ⟨c, _, rfl⟩ := mem_map.mp hi
        rfl
    · rw [filterMap_append, filterMap_map, ← hcalls]
      have hnone : ∀ c : Prop, ∀ [Decidable c],
          (if c then [Item.said true] else []).filterMap (·.callId?) = [] := fun c _ => by
        split <;> rfl
      rw [hnone, nil_append]
      exact (filterMap_eq_map (f := OpenAI.ToolCall.id)).symm ▸ rfl
  · have hrole := e.isAssistant
    rw [messageItems_blocks ha (by rw [hrole]; decide) (by rw [hrole]; decide), hrole]
    have hblock : ∀ b ∈ e.assistant.content,
        (∀ i ∈ blockItems toLowerCase a true b, i.isOfModel = true) ∧
          (blockItems toLowerCase a true b).filterMap (·.callId?) = (callId? b).toList := by
      intro b hb
      rcases block_cases b with ⟨id, hid⟩ | ⟨r, hr⟩ | hordinary
      · rw [blockItems_call ha true hid, hid]
        exact ⟨fun i hi => by rw [mem_singleton.mp hi]; rfl, rfl⟩
      · rw [e.noAnswer b hb] at hr
        nomatch hr
      · rw [blockItems_ordinary ha true hordinary, ((isOrdinary_iff b).mp hordinary).1]
        constructor
        · intro i hi
          rw [mem_singleton.mp (mem_ite_nil_right.mp hi).2]
          rfl
        · split <;> rfl
    constructor
    · intro i hi
      obtain ⟨b, hb, hi⟩ := mem_flatMap.mp hi
      exact (hblock b hb).1 i hi
    · rw [filterMap_flatMap, filterMap_eq_flatMap_toList]
      exact flatMap_congr fun b hb => (hblock b hb).2

/-! ## What an answer becomes -/

/-- Gemini and Bedrock have no result for a message of the role `tool`. -/
def Adapter.losesTool : Adapter → Bool
  | .gemini => true
  | .bedrock => true
  | _ => false

/-- The items of an answer are results and what the user says. -/
def IsAnswerItem (i : Item) : Prop := i.isResult = true ∨ i = .said false

theorem IsAnswerItem.not_ofModel {i : Item} (h : IsAnswerItem i) : i.isOfModel = false := by
  rcases h with h | rfl
  · cases i with
    | result id text => rfl
    | _ => nomatch h
  · rfl

theorem IsAnswerItem.isSaid {i : Item} (h : IsAnswerItem i) (hresult : i.isResult = false) :
    i.isSaid = true := by
  rcases h with h | rfl
  · rw [h] at hresult
    nomatch hresult
  · rfl

theorem blocks_items (ha : a ≠ .openai) {blocks : List ContentBlock}
    (hcall : ∀ b ∈ blocks, callId? b = none) :
    (∀ i ∈ blocks.flatMap (blockItems toLowerCase a false), IsAnswerItem i) ∧
      List.Forall₂ IsResultOf ((blocks.flatMap (blockItems toLowerCase a false)).filter (·.isResult))
        (blocks.filterMap answer?) := by
  induction blocks with
  | nil => exact ⟨fun _ => nofun, List.Forall₂.nil⟩
  | cons b rest ih =>
    obtain ⟨hall, hresults⟩ := ih fun c hc => hcall c (mem_cons_of_mem b hc)
    rw [flatMap_cons, filter_append]
    rcases block_cases b with ⟨id, hid⟩ | ⟨r, hr⟩ | hordinary
    · rw [hcall b mem_cons_self] at hid
      nomatch hid
    · obtain ⟨item, hitem, text, hresult, hcarries⟩ :=
        @blockItems_answer toLowerCase a ha false b r hr
      rw [hitem, hresult, filterMap_cons_some hr]
      refine ⟨fun i hi => ?_, List.Forall₂.cons ⟨text, rfl, hcarries⟩ hresults⟩
      rcases mem_cons.mp hi with rfl | hi
      · exact .inl rfl
      · exact hall i hi
    · rw [blockItems_ordinary ha false hordinary,
        filterMap_cons_none ((isOrdinary_iff b).mp hordinary).2]
      constructor
      · intro i hi
        rcases mem_append.mp hi with hi | hi
        · exact .inr (mem_singleton.mp (mem_ite_nil_right.mp hi).2)
        · exact hall i hi
      · split
        · exact hresults
        · exact hresults

theorem openai_user {m : Message} (hrole : m.role = .user) :
    messageItems toLowerCase .openai m =
      (if (m.content.filter fun b => !OpenAI.isToolResult b).isEmpty then [] else [.said false]) ++
        (m.content.filterMap OpenAI.toolMessage?).flatMap (·.items) := by
  rw [messageItems, OpenAI.toOpenAIMessage, hrole]
  dsimp only
  rw [flatMap_append]
  split <;> rfl

/-- The results among the blocks of a user message, as OpenAI gets them. -/
theorem openai_results : ∀ content : List ContentBlock,
    List.Forall₂ IsResultOf ((content.filterMap OpenAI.toolMessage?).flatMap (·.items))
      (content.filterMap answer?) ∧
    ∀ i ∈ (content.filterMap OpenAI.toolMessage?).flatMap (·.items), i.isResult = true
  | [] => ⟨List.Forall₂.nil, fun _ => nofun⟩
  | b :: rest => by
    obtain ⟨hresults, hall⟩ := openai_results rest
    cases b with
    | toolResult id content isError =>
      refine ⟨List.Forall₂.cons ⟨_, rfl, carries_join _⟩ hresults, fun i hi => ?_⟩
      rcases mem_cons.mp hi with rfl | hi
      · rfl
      · exact hall i hi
    | _ => exact ⟨hresults, hall⟩

/-- **What an answer becomes**: results of its answers, in order, and what the user says beside
    them; Gemini and Bedrock lose the result of a message of the role `tool`. -/
theorem answer_items {m : Message} (hm : IsToolAnswer m ∨ IsUserAnswer m) :
    (∀ i ∈ messageItems toLowerCase a m, IsAnswerItem i) ∧
      if a.losesTool = true ∧ m.role = .tool then
        (messageItems toLowerCase a m).filter (·.isResult) = []
      else
        List.Forall₂ IsResultOf ((messageItems toLowerCase a m).filter (·.isResult)) (answersOf m) := by
  rcases hm with ⟨hrole, _, htext⟩ | ⟨hrole, hanswers, hcall⟩
  · have hanswers : answersOf m = [(m.toolCallId.getD "", m.content.filterMap (·.text?))] :=
      if_pos hrole
    have hone : ∀ {item : Item}, IsResultOf item (m.toolCallId.getD "",
        m.content.filterMap (·.text?)) → messageItems toLowerCase a m = [item] →
        (∀ i ∈ messageItems toLowerCase a m, IsAnswerItem i) ∧ List.Forall₂ IsResultOf
          ((messageItems toLowerCase a m).filter (·.isResult)) (answersOf m) := by
      rintro item ⟨text, rfl, hcarries⟩ hitems
      rw [hitems, hanswers]
      refine ⟨fun i hi => .inl ?_, List.Forall₂.cons ⟨text, rfl, hcarries⟩ List.Forall₂.nil⟩
      rw [mem_singleton.mp hi]
      rfl
    have hlost : a ≠ .openai → messageItems toLowerCase a m =
        m.content.flatMap (blockItems toLowerCase a false) →
        (∀ i ∈ messageItems toLowerCase a m, i = .said false) := by
      intro ha hitems i hi
      rw [hitems] at hi
      obtain ⟨b, hb, hi⟩ := mem_flatMap.mp hi
      have hordinary : isOrdinary b = true := by
        have htext := htext b hb
        cases b with
        | text t => rfl
        | _ => nomatch htext
      rw [blockItems_ordinary ha false hordinary] at hi
      exact mem_singleton.mp (mem_ite_nil_right.mp hi).2
    have hsaid : (∀ i ∈ messageItems toLowerCase a m, i = .said false) →
        (∀ i ∈ messageItems toLowerCase a m, IsAnswerItem i) ∧
          (messageItems toLowerCase a m).filter (·.isResult) = [] := by
      intro h
      refine ⟨fun i hi => .inr (h i hi), filter_eq_nil_iff.mpr fun i hi => ?_⟩
      rw [h i hi]
      exact Bool.false_ne_true
    cases a with
    | anthropic =>
      rw [if_neg fun h => nomatch h.1]
      refine hone ⟨_, rfl, carries_result m.content⟩ ?_
      rw [messageItems, hrole]
      rfl
    | openai =>
      rw [if_neg fun h => nomatch h.1]
      refine hone ⟨_, rfl, carries_join _⟩ ?_
      rw [messageItems, OpenAI.toOpenAIMessage, hrole]
      rfl
    | gemini =>
      rw [if_pos ⟨rfl, hrole⟩]
      refine hsaid (hlost (by decide) ?_)
      have hitems : messageItems toLowerCase .gemini m = _ := if_neg (by rw [hrole]; decide)
      rw [hitems, hrole]
      rfl
    | bedrock =>
      rw [if_pos ⟨rfl, hrole⟩]
      refine hsaid (hlost (by decide) ?_)
      have hitems : messageItems toLowerCase .bedrock m = _ := if_neg (by rw [hrole]; decide)
      rw [hitems, hrole]
      rfl
  · have hnot : ¬ (a.losesTool = true ∧ m.role = .tool) := fun h => by
      rw [hrole] at h
      nomatch h.2
    rw [if_neg hnot, answersOf, if_neg (by rw [hrole]; decide)]
    by_cases ha : a = .openai
    · subst ha
      obtain ⟨hresults, hall⟩ := openai_results m.content
      rw [openai_user hrole, filter_append, filter_eq_self.mpr hall]
      constructor
      · intro i hi
        rcases mem_append.mp hi with hi | hi
        · exact .inr (mem_singleton.mp (mem_ite_nil_left.mp hi).2)
        · exact .inl (hall i hi)
      · split
        · exact hresults
        · exact hresults
    · rw [messageItems_blocks ha (by rw [hrole]; decide) (by rw [hrole]; decide), hrole]
      exact blocks_items ha hcall

/-! ## What the answers of an exchange become -/

/-- The items of some answers. -/
def answerItems (toLowerCase : String → String) (a : Adapter) (answers : List Message) :
    List Item :=
  answers.flatMap (messageItems toLowerCase a)

theorem answerItems_are {answers : List Message}
    (h : ∀ m ∈ answers, IsToolAnswer m ∨ IsUserAnswer m) :
    ∀ i ∈ answerItems toLowerCase a answers, IsAnswerItem i := by
  intro i hi
  obtain ⟨m, hm, hi⟩ := mem_flatMap.mp hi
  exact (answer_items (h m hm)).1 i hi

/-- Where no message is lost, the results are those of the answers. -/
theorem results_complete {answers : List Message}
    (h : ∀ m ∈ answers, IsToolAnswer m ∨ IsUserAnswer m)
    (hkept : a.losesTool = true → ∀ m ∈ answers, m.role ≠ .tool) :
    List.Forall₂ IsResultOf ((answerItems toLowerCase a answers).filter (·.isResult))
      (answers.flatMap answersOf) := by
  induction answers with
  | nil => exact List.Forall₂.nil
  | cons m rest ih =>
    have hrest := ih (fun m' hm' => h m' (mem_cons_of_mem m hm'))
      fun hlost m' hm' => hkept hlost m' (mem_cons_of_mem m hm')
    have hm := (@answer_items toLowerCase a m (h m mem_cons_self)).2
    rw [if_neg fun hlost => hkept hlost.1 m mem_cons_self hlost.2] at hm
    rw [answerItems, flatMap_cons, filter_append, flatMap_cons]
    exact rel_append hm hrest

/-- There are never more results than answers, and fewer where a message is lost. -/
theorem results_length {answers : List Message}
    (h : ∀ m ∈ answers, IsToolAnswer m ∨ IsUserAnswer m) :
    ((answerItems toLowerCase a answers).filter (·.isResult)).length ≤
        (answers.flatMap answersOf).length ∧
      (a.losesTool = true → (∃ m ∈ answers, m.role = .tool) →
        ((answerItems toLowerCase a answers).filter (·.isResult)).length <
          (answers.flatMap answersOf).length) := by
  induction answers with
  | nil => exact ⟨Nat.le_refl _, fun _ ⟨_, hm, _⟩ => nomatch hm⟩
  | cons m rest ih =>
    obtain ⟨hle, hlt⟩ := ih fun m' hm' => h m' (mem_cons_of_mem m hm')
    have hm := (@answer_items toLowerCase a m (h m mem_cons_self)).2
    rw [answerItems] at hle hlt
    rw [answerItems, flatMap_cons, filter_append, flatMap_cons, length_append,
      length_append]
    by_cases hlost : a.losesTool = true ∧ m.role = .tool
    · rw [if_pos hlost] at hm
      have hone : (answersOf m).length = 1 := by
        rw [answersOf, if_pos hlost.2]
        rfl
      rw [hm, hone, length_nil]
      exact ⟨by omega, fun _ _ => by omega⟩
    · rw [if_neg hlost] at hm
      rw [hm.length_eq]
      refine ⟨by omega, fun hloses ⟨m', hm', htool⟩ => ?_⟩
      rcases mem_cons.mp hm' with rfl | hm'
      · exact absurd ⟨hloses, htool⟩ hlost
      · have := hlt hloses ⟨m', hm', htool⟩
        omega

/-- Apart from OpenAI, results come first exactly if they do among the blocks. -/
theorem isPrefix_blocks (ha : a ≠ .openai) {blocks : List ContentBlock}
    (hcall : ∀ b ∈ blocks, callId? b = none) :
    Front.IsPrefix (·.isResult) (blocks.flatMap (blockItems toLowerCase a false)) ↔
      ResultsFirst a.shows blocks := by
  have hshort : ∀ b ∈ blocks, (blockItems toLowerCase a false b).Pairwise fun i j =>
      i.isResult = false → j.isResult = false := by
    intro b hb
    rcases block_cases b with ⟨id, hid⟩ | ⟨r, hr⟩ | hordinary
    · rw [blockItems_call ha false hid]
      exact pairwise_singleton _ _
    · obtain ⟨item, hitem, _⟩ := @blockItems_answer toLowerCase a ha false b r hr
      rw [hitem]
      exact pairwise_singleton _ _
    · rw [blockItems_ordinary ha false hordinary]
      split
      · exact pairwise_singleton _ _
      · exact List.Pairwise.nil
  rw [Front.IsPrefix, pairwise_flatMap, and_iff_right hshort]
  refine List.Pairwise.iff_of_mem fun {b c} hb hc => ?_
  have hkind : ∀ b ∈ blocks, (answer? b).isSome = true ∧
      (∃ id text, blockItems toLowerCase a false b = [.result id text]) ∨
      answer? b = none ∧
        blockItems toLowerCase a false b = if a.shows b then [.said false] else [] := by
    intro b hb
    rcases block_cases b with ⟨id, hid⟩ | ⟨r, hr⟩ | hordinary
    · rw [hcall b hb] at hid
      nomatch hid
    · obtain ⟨item, hitem, text, rfl, _⟩ := @blockItems_answer toLowerCase a ha false b r hr
      exact .inl ⟨by rw [hr]; rfl, _, _, hitem⟩
    · exact .inr ⟨((isOrdinary_iff b).mp hordinary).2, blockItems_ordinary ha false hordinary⟩
  rcases hkind b hb with ⟨hsome, id, text, hitem⟩ | ⟨hnone, hitem⟩
  · rw [hitem]
    refine iff_of_true (fun x hx y _ h => ?_) fun h => ?_
    · rw [mem_singleton.mp hx] at h
      nomatch h
    · rw [← not_isSome, hsome] at h
      nomatch h
  · rw [hitem, hnone]
    cases hshown : a.shows b with
    | false => exact iff_of_true (fun _ => nofun) fun _ => nofun
    | true =>
      rcases hkind c hc with ⟨hsome, id, text, hitem'⟩ | ⟨hnone', hitem'⟩
      · rw [hitem']
        refine iff_of_false (fun h => ?_) fun h => ?_
        · exact Bool.noConfusion (h _ mem_cons_self _ mem_cons_self rfl)
        · rw [h rfl rfl] at hsome
          nomatch hsome
      · rw [hitem', hnone']
        refine iff_of_true (fun x _ y hy _ => ?_) fun _ _ => rfl
        rw [mem_singleton.mp (mem_ite_nil_right.mp hy).2]
        rfl

/-- Where no message is lost, the items of the answers are those of their blocks. -/
theorem answerItems_blocks (ha : a ≠ .openai) {answers : List Message}
    (h : ∀ m ∈ answers, IsToolAnswer m ∨ IsUserAnswer m)
    (hkept : a.losesTool = true → ∀ m ∈ answers, m.role ≠ .tool) :
    answerItems toLowerCase a answers = (answers.flatMap fun m =>
      if m.role = .tool then [.toolResult (m.toolCallId.getD "") m.content none]
      else m.content).flatMap (blockItems toLowerCase a false) := by
  rw [flatMap_assoc]
  refine flatMap_congr fun m hm => ?_
  rcases h m hm with ⟨hrole, _, _⟩ | ⟨hrole, _, _⟩
  · rw [if_pos hrole, flatMap_singleton]
    cases a with
    | anthropic => rw [messageItems, hrole]
    | openai => exact absurd rfl ha
    | gemini => exact absurd hrole (hkept rfl m hm)
    | bedrock => exact absurd hrole (hkept rfl m hm)
  · rw [if_neg (by rw [hrole]; decide), messageItems_blocks ha (by rw [hrole]; decide)
      (by rw [hrole]; decide), hrole]
    rfl

/-- What OpenAI makes of answers starts with the results exactly if the user says nothing. -/
theorem isPrefix_openai {answers : List Message}
    (h : ∀ m ∈ answers, IsToolAnswer m ∨ IsUserAnswer m) :
    Front.IsPrefix (·.isResult) (answerItems toLowerCase .openai answers) ↔
      ∀ m ∈ answers, m.role = .user → ∀ b ∈ m.content, (answer? b).isSome = true := by
  have hresult : ∀ b, OpenAI.isToolResult b = (answer? b).isSome := fun b => by cases b <;> rfl
  constructor
  · intro hprefix m hm hrole b hb
    have hone := (pairwise_flatMap.mp hprefix).1 m hm
    rcases h m hm with ⟨htool, _, _⟩ | ⟨_, hanswers, _⟩
    · rw [hrole] at htool
      nomatch htool
    · rw [openai_user hrole, pairwise_append] at hone
      -- a block that is said would stand before the results of the message
      by_contra hnone
      have hrest : ¬ (m.content.filter fun b => !OpenAI.isToolResult b).isEmpty = true := by
        rw [List.isEmpty_iff, filter_eq_nil_iff]
        intro hall
        have hb' := hall b hb
        rw [hresult, Bool.not_eq_true'] at hb'
        exact hb' (Bool.not_eq_true _ ▸ hnone)
      rw [if_neg hrest] at hone
      obtain ⟨hresults, hall⟩ := openai_results m.content
      cases hitems : (m.content.filterMap OpenAI.toolMessage?).flatMap (·.items) with
      | nil =>
        rw [hitems] at hresults
        exact hanswers (forall₂_nil_left_iff.mp hresults)
      | cons i rest =>
        rw [hitems] at hone hall
        have hsaid : i.isResult = false :=
          hone.2.2 (.said false) mem_cons_self i mem_cons_self rfl
        rw [hall i mem_cons_self] at hsaid
        nomatch hsaid
  · intro hall
    refine pairwise_of_forall_mem_list fun i hi j _ hnot => ?_
    obtain ⟨m, hm, hi⟩ := mem_flatMap.mp hi
    have hi' : i.isResult = true := by
      rcases h m hm with ⟨htool, _, _⟩ | ⟨hrole, _, _⟩
      · rw [messageItems, OpenAI.toOpenAIMessage, htool] at hi
        obtain rfl := mem_singleton.mp hi
        rfl
      · have hempty : (m.content.filter fun b => !OpenAI.isToolResult b).isEmpty = true := by
          rw [List.isEmpty_iff, filter_eq_nil_iff]
          intro b hb
          rw [hresult, hall m hm hrole b hb]
          exact Bool.false_ne_true
        rw [openai_user hrole, if_pos hempty, nil_append] at hi
        exact (openai_results m.content).2 i hi
    rw [show i.isResult = false from hnot] at hi'
    nomatch hi'

theorem resultIds : ∀ {results : List Item} {answers : List (String × List String)},
    List.Forall₂ IsResultOf results answers →
      results.filterMap (·.resultId?) = answers.map (·.1)
  | _, _, .nil => rfl
  | _, _, .cons ⟨_, rfl, _⟩ hrest => congrArg (_ :: ·) (resultIds hrest)

/-- What an adapter needs, in the items of the answers: no result is lost, and nothing that is said
    stands before one. -/
theorem kept_iff (e : Exchange) : Kept a e ↔
    (a.losesTool = true → ∀ m ∈ e.answers, m.role ≠ .tool) ∧
      Front.IsPrefix (·.isResult) (answerItems toLowerCase a e.answers) := by
  have hcall : ∀ b ∈ e.blocks, callId? b = none := by
    intro b hb
    obtain ⟨m, hm, hb⟩ := mem_flatMap.mp hb
    rcases e.areAnswers m hm with ⟨hrole, _, _⟩ | ⟨hrole, _, hcall⟩
    · rw [if_pos hrole] at hb
      rw [mem_singleton.mp hb]
      rfl
    · rw [if_neg (by rw [hrole]; decide)] at hb
      exact hcall b hb
  have hblocks : a ≠ .openai → (a.losesTool = true → ∀ m ∈ e.answers, m.role ≠ .tool) →
      (Front.IsPrefix (·.isResult) (answerItems toLowerCase a e.answers) ↔
        ResultsFirst a.shows e.blocks) := by
    intro ha hlost
    rw [answerItems_blocks ha e.areAnswers hlost]
    exact isPrefix_blocks ha hcall
  have hlossy : a.losesTool = true → a ≠ .openai →
      (Kept a e ↔ (∀ m ∈ e.answers, m.role ≠ .tool) ∧ ResultsFirst a.shows e.blocks) →
      (Kept a e ↔ (a.losesTool = true → ∀ m ∈ e.answers, m.role ≠ .tool) ∧
        Front.IsPrefix (·.isResult) (answerItems toLowerCase a e.answers)) := by
    intro hloses ha hkept
    rw [hkept]
    constructor
    · rintro ⟨hlost, hfirst⟩
      exact ⟨fun _ => hlost, (hblocks ha fun _ => hlost).mpr hfirst⟩
    · rintro ⟨hlost, hprefix⟩
      exact ⟨hlost hloses, (hblocks ha hlost).mp hprefix⟩
  cases a with
  | anthropic =>
    rw [hblocks (by decide) nofun]
    exact (and_iff_right fun h => nomatch h).symm
  | openai =>
    rw [isPrefix_openai e.areAnswers]
    exact (and_iff_right fun h => nomatch h).symm
  | gemini => exact hlossy rfl (by decide) Iff.rfl
  | bedrock => exact hlossy rfl (by decide) Iff.rfl

/-- **One exchange**: the results at the beginning of the items are those of the exchange exactly
    if it is as the adapter needs it. -/
theorem answered_iff (e : Exchange) :
    Answered e ((answerItems toLowerCase a e.answers).takeWhile (·.isResult)) ↔ Kept a e := by
  rw [@kept_iff toLowerCase]
  constructor
  · rintro ⟨-, answers, hperm, hresults⟩
    have hlength := hresults.length_eq.trans hperm.length_eq
    have hsub := (Front.takeWhile_sublist_filter (p := (·.isResult))
      (answerItems toLowerCase a e.answers)).length_le
    obtain ⟨hle, hlt⟩ := @results_length toLowerCase a e.answers e.areAnswers
    constructor
    · intro hloses m hm htool
      have := hlt hloses ⟨m, hm, htool⟩
      omega
    · rw [Front.isPrefix_iff_length]
      omega
  · rintro ⟨hlost, hprefix⟩
    have hresults := @results_complete toLowerCase a e.answers e.areAnswers hlost
    rw [Front.takeWhile_eq_filter hprefix]
    refine ⟨?_, _, List.Perm.refl _, hresults⟩
    rw [resultIds hresults]
    exact e.exact

/-! ## A whole history -/

theorem survives_said : ∀ (es : List Exchange) {said : List Item} (items : List Item),
    (∀ i ∈ said, i.isSaid = true) → (Survives es (said ++ items) ↔ Survives es items)
  | [], said, items, h => by
    rw [Survives, Survives]
    exact ⟨fun hall i hi => hall i (mem_append_right said hi), fun hall i hi =>
      (mem_append.mp hi).elim (h i) (hall i)⟩
  | e :: rest, said, items, h => by
    rw [Survives, Survives, dropWhile_append_of_pos h]

/-- The native list of a history. -/
def historyItems (toLowerCase : String → String) (a : Adapter) (turns : List Turn) : List Item :=
  nativeItems toLowerCase a (messagesOf turns)

theorem historyItems_plain {m : Message} {role blocks} (rest : List Turn) :
    historyItems toLowerCase a (.plain m role blocks :: rest) =
      messageItems toLowerCase a m ++ historyItems toLowerCase a rest := by
  rw [historyItems, historyItems, nativeItems_eq, nativeItems_eq]
  rfl

theorem historyItems_exchange (e : Exchange) (rest : List Turn) :
    historyItems toLowerCase a (.exchange e :: rest) =
      messageItems toLowerCase a e.assistant ++
        (answerItems toLowerCase a e.answers ++ historyItems toLowerCase a rest) := by
  rw [historyItems, historyItems, nativeItems_eq, nativeItems_eq, messagesOf, flatMap_cons,
    Turn.messages, cons_append, flatMap_cons, flatMap_append]
  rfl

theorem exists_call (toLowerCase : String → String) (a : Adapter) (e : Exchange) :
    ∃ i ∈ messageItems toLowerCase a e.assistant, i.isSaid = false := by
  have hcalls := (@assistant_items toLowerCase a e).2
  cases hids : e.assistant.content.filterMap callId? with
  | nil => exact absurd hids e.calls
  | cons id rest =>
    rw [hids] at hcalls
    obtain ⟨i, hi, hid⟩ := mem_filterMap.mp (hcalls ▸ mem_cons_self : id ∈ _)
    refine ⟨i, hi, ?_⟩
    cases i with
    | said byModel => nomatch hid
    | _ => rfl

theorem calls_from (toLowerCase : String → String) (a : Adapter) (e : Exchange) :
    ∃ id tail, (messageItems toLowerCase a e.assistant).dropWhile (·.isSaid) = .call id :: tail ∧
      (∀ i ∈ tail, i.isOfModel = true) ∧
      (Item.call id :: tail).filterMap (·.callId?) = e.assistant.content.filterMap callId? := by
  obtain ⟨call, hcall, hnot⟩ := exists_call toLowerCase a e
  obtain ⟨hmodel, hids⟩ := @assistant_items toLowerCase a e
  have hmem := Front.mem_dropWhile (p := (·.isSaid)) hnot hcall
  have hsplit := takeWhile_append_dropWhile (p := (·.isSaid))
    (l := messageItems toLowerCase a e.assistant)
  have hhead := Front.head_dropWhile (p := (·.isSaid)) (l := messageItems toLowerCase a e.assistant)
  cases hfrom : (messageItems toLowerCase a e.assistant).dropWhile (·.isSaid) with
  | nil =>
    rw [hfrom] at hmem
    nomatch hmem
  | cons first tail =>
    rw [hfrom] at hsplit hhead
    have hall : ∀ i ∈ first :: tail, i.isOfModel = true := fun i hi =>
      hmodel i (hsplit ▸ mem_append_right _ hi)
    have hfirst := hhead first rfl
    have hofModel := hall first mem_cons_self
    cases first with
    | said byModel => nomatch hfirst
    | result id text => nomatch hofModel
    | call id =>
      refine ⟨id, tail, rfl, fun i hi => hall i (mem_cons_of_mem _ hi), ?_⟩
      -- what is said before the first call holds no call
      have hnone : ((messageItems toLowerCase a e.assistant).takeWhile (·.isSaid)).filterMap
          (·.callId?) = [] := by
        refine filterMap_eq_nil_iff.mpr fun i hi => ?_
        have hsaid := mem_takeWhile_imp hi
        cases i with
        | said byModel => rfl
        | _ => nomatch hsaid
      rw [← hids, ← hsplit, filterMap_append, hnone, nil_append]

/-- After what is said, a history does not start with a result. -/
theorem head_not_result : ∀ turns : List Turn,
    ∀ i ∈ ((historyItems toLowerCase a turns).dropWhile (·.isSaid)).head?, i.isResult = false
  | [], i, h => by
    rw [historyItems, nativeItems_eq] at h
    nomatch h
  | .plain m role blocks :: rest, i, h => by
    rw [historyItems_plain, dropWhile_append_of_pos (plain_said role blocks)] at h
    exact head_not_result rest i h
  | .exchange e :: rest, i, h => by
    obtain ⟨call, hcall, hnot⟩ := exists_call toLowerCase a e
    obtain ⟨id, tail, hfrom, -, -⟩ := calls_from toLowerCase a e
    rw [historyItems_exchange, Front.dropWhile_append_of_mem hnot _ hcall, hfrom] at h
    obtain rfl := some.inj h
    rfl

theorem Answered.ne_nil {e : Exchange} {results : List Item} (h : Answered e results) :
    results ≠ [] := by
  rintro rfl
  exact e.calls h.ids.nil_eq.symm

/-- Without an answer, the calls of an exchange would have to be followed by results of the rest. -/
theorem not_survives_unanswered (e : Exchange) (es : List Exchange) (turns : List Turn) :
    ¬ Survives (e :: es)
      (messageItems toLowerCase a e.assistant ++ historyItems toLowerCase a turns) := by
  obtain ⟨call, hcall, hnot⟩ := exists_call toLowerCase a e
  obtain ⟨id, tail, hfrom, htail, hids⟩ := calls_from toLowerCase a e
  have hall : ∀ i ∈ Item.call id :: tail, i.isOfModel = true := fun i hi =>
    (mem_cons.mp hi).elim (fun h => by rw [h]; rfl) (htail i)
  rw [Survives, Front.dropWhile_append_of_mem hnot _ hcall, hfrom,
    takeWhile_append_of_pos hall, dropWhile_append_of_pos hall]
  rintro ⟨hcalls, hanswered, -⟩
  generalize hZ : historyItems toLowerCase a turns = Z at hcalls hanswered
  -- what the model goes on to say holds no call
  rw [filterMap_append, hids] at hcalls
  have hnone := append_right_eq_self.mp hcalls
  have hsaid : ∀ i ∈ Z.takeWhile (·.isOfModel), i.isSaid = true := by
    intro i hi
    have hmodel := mem_takeWhile_imp hi
    have hid := filterMap_eq_nil_iff.mp hnone i hi
    cases i with
    | said byModel => rfl
    | call id => nomatch hid
    | result id text => nomatch hmodel
  have hhead := @head_not_result toLowerCase a turns
  rw [hZ, ← takeWhile_append_dropWhile (p := (·.isOfModel)) (l := Z),
    dropWhile_append_of_pos hsaid] at hhead
  cases hafter : Z.dropWhile (·.isOfModel) with
  | nil =>
    rw [hafter] at hanswered
    exact hanswered.ne_nil rfl
  | cons first after =>
    rw [hafter] at hanswered hhead
    rw [takeWhile_cons] at hanswered
    split at hanswered
    · rename_i hresult
      rw [dropWhile_cons] at hhead
      have hnot : first.isSaid = false := by
        cases first with
        | result id text => rfl
        | _ => nomatch hresult
      rw [if_neg (by rw [hnot]; exact Bool.false_ne_true)] at hhead
      rw [hhead first rfl] at hresult
      nomatch hresult
    · exact hanswered.ne_nil rfl

theorem survives_exchange (e : Exchange) (es : List Exchange) (turns : List Turn) :
    Survives (e :: es) (historyItems toLowerCase a (.exchange e :: turns)) ↔
      Kept a e ∧ Survives es (historyItems toLowerCase a turns) := by
  rw [historyItems_exchange]
  cases hanswers : answerItems toLowerCase a e.answers with
  | nil =>
    refine iff_of_false (not_survives_unanswered e es turns) fun h => ?_
    have hanswered := (@answered_iff toLowerCase a e).mpr h.1
    rw [hanswers] at hanswered
    exact hanswered.ne_nil rfl
  | cons first others =>
    obtain ⟨call, hcall, hnot⟩ := exists_call toLowerCase a e
    obtain ⟨id, tail, hfrom, htail, hids⟩ := calls_from toLowerCase a e
    have hall : ∀ i ∈ Item.call id :: tail, i.isOfModel = true := fun i hi =>
      (mem_cons.mp hi).elim (fun h => by rw [h]; rfl) (htail i)
    have hfirst : first.isOfModel = false :=
      (@answerItems_are toLowerCase a _ e.areAnswers first
        (hanswers ▸ mem_cons_self)).not_ofModel
    have hhead : ∀ i ∈ ((first :: others) ++ historyItems toLowerCase a turns).head?,
        i.isOfModel = false := fun i hi => some.inj hi ▸ hfirst
    rw [Survives, Front.dropWhile_append_of_mem hnot _ hcall, hfrom,
      takeWhile_append_of_pos hall, dropWhile_append_of_pos hall,
      Front.takeWhile_of_head hhead, Front.dropWhile_of_head hhead, append_nil,
      and_iff_right hids]
    -- the results of the exchange end before the rest of the history
    have hrest : ∀ i ∈ (historyItems toLowerCase a turns).head?, i.isResult = false := by
      intro i hi
      have hnext := @head_not_result toLowerCase a turns
      cases hZ : historyItems toLowerCase a turns with
      | nil =>
        rw [hZ] at hi
        nomatch hi
      | cons next Z =>
        rw [hZ] at hi hnext
        obtain rfl := some.inj hi
        cases next with
        | result id text => exact hnext _ rfl
        | _ => rfl
    rw [Front.takeWhile_append_of_head hrest, Front.dropWhile_append_of_head hrest, ← hanswers,
      answered_iff]
    refine and_congr_right fun hkept => survives_said es _ fun i hi => ?_
    have hnotResult := Front.not_of_mem_dropWhile ((@kept_iff toLowerCase a e).mp hkept).2 i hi
    have hmem := (dropWhile_suffix Item.isResult).subset hi
    exact (answerItems_are e.areAnswers i hmem).isSaid hnotResult

/-- **The exchanges of a history survive the translation exactly if each of them is as the adapter
    needs it.** -/
theorem exchanges_survive_iff (toLowerCase : String → String) (a : Adapter) (turns : List Turn) :
    Survives (exchangesOf turns) (historyItems toLowerCase a turns) ↔
      ∀ e ∈ exchangesOf turns, Kept a e := by
  induction turns with
  | nil =>
    rw [historyItems, nativeItems_eq]
    exact iff_of_true (fun _ => nofun) fun _ => nofun
  | cons turn rest ih =>
    cases turn with
    | plain m role blocks =>
      rw [historyItems_plain]
      exact (survives_said _ _ (plain_said role blocks)).trans ih
    | exchange e =>
      have hcons : exchangesOf (.exchange e :: rest) = e :: exchangesOf rest := rfl
      rw [hcons, survives_exchange, ih, forall_mem_cons]

/-- An assistant that calls a tool, and the message of the role `tool` that answers it. -/
def answeredCall : Exchange where
  assistant :=
    { role := .assistant, content := [.toolUse "call_1" "read_file" (some (.obj []))] }
  answers := [{ role := .tool, content := [.text "contents"], toolCallId := some "call_1" }]
  isAssistant := rfl
  noAnswer := by
    intro b hb
    rw [List.mem_singleton.mp hb]
    rfl
  calls := List.cons_ne_nil _ _
  areAnswers := by
    intro m hm
    rw [List.mem_singleton.mp hm]
    refine .inl ⟨rfl, rfl, fun b hb => ?_⟩
    rw [List.mem_singleton.mp hb]
    rfl
  exact := List.Perm.refl _

/-- Gemini gets the answer as a text of the user: the call has no result. -/
theorem tool_answer_lost : ¬ ∀ (toLowerCase : String → String) (a : Adapter) (turns : List Turn),
    Survives (exchangesOf turns) (historyItems toLowerCase a turns) := by
  intro h
  obtain ⟨-, hanswered, -⟩ := h id .gemini [.exchange answeredCall]
  exact hanswered.ne_nil rfl

end NexusCode.Providers
