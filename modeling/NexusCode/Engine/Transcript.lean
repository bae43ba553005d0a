/-
  The short-term memory of a conversation: what is threaded into a turn and what is trimmed.

  A message is held as an object (`Held`), because the engine takes messages out of its
  transcript by identity, not by value.  What a caller hands over keeps its identity; the engine
  makes new objects for prompts, plain replies and rows read back from the store.

  1. `estimateTokens`, `messageTokens` — the cost estimate.
  2. `threadedAt` — did the caller thread the conversation already?
  3. `boundTranscript` — drop the oldest messages, never the tail and never a `system` message
     (**`boundTranscript_tail`**).
  4. `resumable`, `replyMessages` — what is kept of a stored conversation, and of a reply.
-/
import NexusCode.Shared.Stream

namespace NexusCode.Engine

open Lib Shared

/-! ## Message objects -/

/-- The identity of an object: one a caller handed over, or one the engine made. -/
inductive Ref where
  | given (n : Nat)
  | made (n : Nat)
deriving DecidableEq

/-- A message object. -/
structure Held where
  ref : Ref
  message : Message

/-- Objects for messages that were just made, numbered from `next`. -/
def makeObjects (next : Nat) (messages : List Message) : List Held :=
  messages.zipIdx.map fun (message, k) => ⟨.made (next + k), message⟩

/-- `transcript.splice(transcript.indexOf(message), 1)`, if it is there. -/
def takeOut (transcript : List Held) (message : Held) : List Held :=
  transcript.eraseP fun m => m.ref == message.ref

/-! ## The cost of a message -/

/-- The number of runs of `\S+`, given whether the character before was white. -/
def countWords : Bool → List Char → Nat
  | _, [] => 0
  | afterWhite, c :: cs =>
    if JsString.isWhite c then countWords true cs
    else (if afterWhite then 1 else 0) + countWords false cs

/-- `estimateTokens(text)`: a quarter of its length, and at least its words. -/
def estimateTokens (text : String) : Nat :=
  max ((JsString.length16 text + 3) / 4) (countWords true text.toList)

mutual

/-- `blockTokens(block)`. -/
def blockTokens : ContentBlock → Nat
  | .text text => estimateTokens text
  | .thinking text _ => estimateTokens text
  | .toolUse _ name input =>
    estimateTokens name + estimateTokens (Json.stringify (input.getD .null))
  | .toolResult _ content _ => blocksTokens content
  | .image .. => 512
  | .audio .. => 512

/-- The cost of a list of blocks. -/
def blocksTokens : List ContentBlock → Nat
  | [] => 0
  | block :: rest => blockTokens block + blocksTokens rest

end

/-- `messageTokens(message)`. -/
def messageTokens (message : Message) : Nat := 4 + blocksTokens message.content

/-! ## The key of a message -/

/-- The wire name of a role. -/
def Role.text : Role → String
  | .system => "system"
  | .user => "user"
  | .assistant => "assistant"
  | .tool => "tool"

/-- A property that is left out when it is undefined. -/
def optionalField (name : String) : Unknown → List (String × Json)
  | some v => [(name, v)]
  | none => []

/-- The payload of an image or a recording. -/
def mediaJson : MediaData → Json
  | .inline data => .str data
  | .url url => .obj [("url", .str url)]

mutual

/-- A block as `JSON.stringify` sees it. -/
def blockJson : ContentBlock → Json
  | .text text => .obj [("type", .str "text"), ("text", .str text)]
  | .image mime data =>
    .obj [("type", .str "image"), ("mime", .str mime), ("data", mediaJson data)]
  | .audio mime data =>
    .obj [("type", .str "audio"), ("mime", .str mime), ("data", mediaJson data)]
  | .toolUse id name input =>
    .obj ([("type", .str "tool_use"), ("id", .str id), ("name", .str name)]
      ++ optionalField "input" input)
  | .toolResult toolCallId content isError =>
    .obj ([("type", .str "tool_result"), ("toolCallId", .str toolCallId),
      ("content", .arr (blocksJson content))] ++ optionalField "isError" (isError.map .bool))
  | .thinking text signature =>
    .obj ([("type", .str "thinking"), ("text", .str text)]
      ++ optionalField "signature" (signature.map .str))

/-- A list of blocks. -/
def blocksJson : List ContentBlock → List Json
  | [] => []
  | block :: rest => blockJson block :: blocksJson rest

end

/-- `messageKey(message)`, for objects whose properties stand in the declared order. -/
def messageKey (message : Message) : String :=
  Json.stringify (.obj ([("role", .str (Role.text message.role)),
    ("content", .arr (blocksJson message.content))]
    ++ optionalField "toolCallId" (message.toolCallId.map .str)
    ++ optionalField "name" (message.name.map .str)))

/-! ## Threading -/

/-- The scan of `threadedAt`: the keys still to be matched, and where the scan stands. -/
def threadedFrom : List String → Nat → List Held → Option Nat
  | [], i, _ => some i
  | _ :: _, _, [] => none
  | key :: keys, i, m :: incoming =>
    if messageKey m.message = key then threadedFrom keys (i + 1) incoming
    else threadedFrom (key :: keys) (i + 1) incoming

/-- `threadedAt(incoming, history)`. -/
def threadedAt (incoming history : List Held) : Option Nat :=
  if history.isEmpty then some 0
  else if incoming.length < history.length then none
  else threadedFrom (history.map fun m => messageKey m.message) 0 incoming

/-! ## Trimming -/

/-- The scan of `boundTranscript` from the newest message of the head to the oldest. -/
def keepNewest (maxTokens : JsNumber) : Nat → Bool → List Held → List Held → List Held
  | _, _, kept, [] => kept
  | total, full, kept, m :: older =>
    let cost := messageTokens m.message
    if m.message.role = .system then keepNewest maxTokens (total + cost) full (m :: kept) older
    else if full || JsNumber.lt maxTokens (.fin (total + cost : Nat)) then
      keepNewest maxTokens total true kept older
    else keepNewest maxTokens (total + cost) full (m :: kept) older

/-- A message that cannot open a conversation. -/
def orphaned (m : Held) : Bool := m.message.role = .assistant || m.message.role = .tool

/-- `boundTranscript(messages, maxTokens, keepTail)`. -/
def boundTranscript (messages : List Held) (maxTokens : JsNumber) (keepTail : Nat) : List Held :=
  let tailStart := messages.length - keepTail
  let tail := messages.drop tailStart
  let head := messages.take tailStart
  let total := (tail.map fun m => messageTokens m.message).sum
  (keepNewest maxTokens total (JsNumber.le maxTokens 0) [] head.reverse).dropWhile orphaned ++ tail

/-- **The tail survives every trim.** -/
theorem boundTranscript_tail (messages : List Held) (maxTokens : JsNumber) {keepTail : Nat}
    (h : keepTail ≤ messages.length) :
    (boundTranscript messages maxTokens keepTail).drop
      ((boundTranscript messages maxTokens keepTail).length - keepTail)
      = messages.drop (messages.length - keepTail) := by
  have hlen : (messages.drop (messages.length - keepTail)).length = keepTail := by
    rw [List.length_drop]
    omega
  unfold boundTranscript
  generalize List.dropWhile orphaned _ = kept
  rw [List.length_append, hlen, Nat.add_sub_cancel]
  exact List.drop_left

/-- `resumable(messages)`: the conversation up to its last answer. -/
def resumable (messages : List Held) : List Held :=
  messages.rdropWhile fun m => m.message.role ≠ .assistant

/-! ## Turns in and out -/

/-- `TurnInput`. -/
structure TurnInput where
  prompt : Option String := none
  messages : Option (List Held) := none

/-- `toMessages(input)`. -/
def toMessages (next : Nat) (input : TurnInput) : List Held :=
  match input.messages, input.prompt with
  | some messages, _ => messages
  | none, some prompt => makeObjects next (userText prompt)
  | none, none => []

/-- `RunStatus`. -/
inductive RunStatus where
  | ok
  | error
  | cancelled
  | timeout
deriving DecidableEq

/-- What a turn reads of a `RunResult`. -/
structure RunResult where
  status : RunStatus
  text : String
  toolExchange : Option (List Held) := none

/-- `TurnReply`. -/
inductive TurnReply where
  | absent
  | text (reply : String)
  | messages (reply : List Held)
  | result (reply : RunResult)
  | outcome (winner : Option RunResult) (runs : List RunResult)

/-- The settled run a reply reports. -/
def TurnReply.run? : TurnReply → Option RunResult
  | .result reply => some reply
  | .outcome winner runs => winner.orElse fun _ => runs.head?
  | _ => none

/-- Does the reply report a settled run or orchestration? -/
def TurnReply.isObject : TurnReply → Bool
  | .result _ => true
  | .outcome .. => true
  | _ => false

/-- One assistant message with the given text. -/
def assistantText (next : Nat) (text : String) : List Held :=
  makeObjects next [{ role := .assistant, content := [.text text] }]

/-- `replyMessages(reply)`. -/
def replyMessages (next : Nat) (reply : TurnReply) : List Held :=
  match reply with
  | .absent => []
  | .text reply => if JsString.length16 reply > 0 then assistantText next reply else []
  | .messages reply => reply
  | reply =>
    match reply.run? with
    | none => []
    | some result =>
      if result.status ≠ .ok ∨ JsString.length16 result.text = 0 then []
      else
        match result.toolExchange with
        | some (m :: exchange) => m :: exchange
        | _ => assistantText next result.text

end NexusCode.Engine
