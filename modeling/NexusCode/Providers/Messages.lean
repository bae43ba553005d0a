/-
  Canonical messages in the form of each backend.

  Each adapter has a translation of its own from messages to the native list.  What they have in
  common is the text a block is folded into where a backend takes text alone (`foldedText`).
-/
import NexusCode.Shared.Stream

namespace NexusCode.Providers

open Lib Shared

/-- What stands for a medium in a text. -/
def mediaNote (what : String) : MediaData → String
  | .inline _ => "[" ++ what ++ "]"
  | .url url => "[" ++ what ++ ": " ++ url ++ "]"

mutual

/-- `textFromBlock(b)`, with what becomes of audio. -/
def foldedText (audio : MediaData → String) : ContentBlock → String
  | .text text => text
  | .thinking text _ => text
  | .toolUse _ name _ => "[tool_use " ++ name ++ "]"
  | .toolResult _ content _ => foldedTexts audio content
  | .image _ data => mediaNote "image" data
  | .audio _ data => audio data

/-- `blocks.map(textFromBlock).join("")`. -/
def foldedTexts (audio : MediaData → String) : List ContentBlock → String
  | [] => ""
  | b :: rest => foldedText audio b ++ foldedTexts audio rest

end

/-! ## Anthropic -/

namespace Anthropic

/-- The source of an image. -/
inductive ImageSource where
  | base64 (mediaType data : String)
  | url (url : String)

/-- A part of the content of a tool result. -/
inductive ResultParam where
  | text (text : String)
  | image (source : ImageSource)

/-- `Anthropic.ContentBlockParam`, as far as it is built. -/
inductive BlockParam where
  | text (text : String)
  | image (source : ImageSource)
  | toolUse (id name : String) (input : Unknown)
  | toolResult (toolUseId : String) (content : List ResultParam) (isError : Option Bool)

/-- `Anthropic.MessageParam`. -/
structure MessageParam where
  isAssistant : Bool
  content : List BlockParam

/-- `textFromBlock(b)`. -/
def textFromBlock : ContentBlock → String := foldedText (mediaNote "audio")

/-- One part of the content of a tool result. -/
def mapResultBlock : ContentBlock → ResultParam
  | .text text => .text text
  | .image mime (.inline data) => .image (.base64 mime data)
  | b => .text (textFromBlock b)

/-- `mapToolResultContent(content)`. -/
def mapToolResultContent (content : List ContentBlock) : List ResultParam :=
  content.map mapResultBlock

/-- `mapContentBlock(b)`. -/
def mapContentBlock : ContentBlock → Option BlockParam
  | .text text => some (.text text)
  | .image mime (.inline data) => some (.image (.base64 mime data))
  | .image _ (.url url) => some (.image (.url url))
  | .audio mime (.inline _) => some (.text ("[audio: " ++ mime ++ "]"))
  | .audio _ (.url url) => some (.text ("[audio: " ++ url ++ "]"))
  | .toolUse id name input => some (.toolUse id name input)
  | .toolResult id content isError => some (.toolResult id (mapToolResultContent content) isError)
  | .thinking _ _ => none

/-- `flush()`. -/
def flush (pending : List BlockParam) : List MessageParam :=
  if pending.isEmpty then [] else [⟨false, pending⟩]

/-- The loop over the messages, with the tool results that wait for their message. -/
def mapFrom (pending : List BlockParam) : List Message → List MessageParam
  | [] => flush pending
  | m :: rest =>
    match m.role with
    | .system => mapFrom pending rest
    | .tool =>
      let block := mapContentBlock (.toolResult (m.toolCallId.getD "") m.content none)
      mapFrom (pending ++ block.toList) rest
    | .user => flush pending ++ ⟨false, m.content.filterMap mapContentBlock⟩ :: mapFrom [] rest
    | .assistant => flush pending ++ ⟨true, m.content.filterMap mapContentBlock⟩ :: mapFrom [] rest

/-- `mapMessages(messages)`. -/
def mapMessages (messages : List Message) : List MessageParam := mapFrom [] messages

end Anthropic

/-! ## OpenAI -/

namespace OpenAI

/-- `OpenAI.ChatCompletionContentPart`, as far as it is built. -/
inductive ContentPart where
  | text (text : String)
  | imageUrl (url : String)
  | inputAudio (data format : String)

/-- The content of a user message. -/
inductive UserContent where
  | text (text : String)
  | parts (parts : List ContentPart)

/-- A call of an assistant message. -/
structure ToolCall where
  id : String
  name : String
  arguments : String

/-- `OpenAI.ChatCompletionMessageParam`; an assistant message without calls has no list of them. -/
inductive ChatMessage where
  | system (content : String)
  | user (content : UserContent)
  | tool (toolCallId content : String)
  | assistant (content : Option String) (toolCalls : List ToolCall)

/-- `imagePartUrl(block)`. -/
def imagePartUrl (mime : String) : MediaData → String
  | .inline data => "data:" ++ mime ++ ";base64," ++ data
  | .url url => url

/-- `audioFormat(mime)`; no letter outside ASCII is one of those looked for in lower case. -/
def audioFormat (mime : String) : String :=
  let tails := (JsString.toLowerAscii mime).toList.tails
  if tails.any ("mp3".toList.isPrefixOf ·) || tails.any ("mpeg".toList.isPrefixOf ·) then "mp3"
  else "wav"

/-- One content part, if the block has one. -/
def toUserPart : ContentBlock → Option ContentPart
  | .text text => some (.text text)
  | .image mime data => some (.imageUrl (imagePartUrl mime data))
  | .audio mime (.inline data) => some (.inputAudio data (audioFormat mime))
  | .audio _ (.url url) => some (.text ("[audio: " ++ url ++ "]"))
  | _ => none

/-- `toUserParts(blocks)`. -/
def toUserParts (blocks : List ContentBlock) : UserContent :=
  match blocks with
  | [.text text] => .text text
  | blocks =>
    let parts := blocks.filterMap toUserPart
    if parts.isEmpty then .text "" else .parts parts

/-- `textFrom(blocks)`. -/
def textFrom (blocks : List ContentBlock) : String := String.join (blocks.filterMap (·.text?))

/-- `typeof t.input === "string" ? t.input : JSON.stringify(t.input ?? {})`. -/
def argumentsOf : Unknown → String
  | some (.str s) => s
  | some .null => Json.stringify (.obj [])
  | some v => Json.stringify v
  | none => Json.stringify (.obj [])

/-- The call of a block, if it is one. -/
def toolCall? : ContentBlock → Option ToolCall
  | .toolUse id name input => some ⟨id, name, argumentsOf input⟩
  | _ => none

/-- A tool result inside a user message becomes a message of its own. -/
def toolMessage? : ContentBlock → Option ChatMessage
  | .toolResult id content _ => some (.tool id (textFrom content))
  | _ => none

/-- `b.type === "tool_result"`. -/
def isToolResult : ContentBlock → Bool
  | .toolResult .. => true
  | _ => false

/-- The native messages of one message. -/
def toOpenAIMessage (m : Message) : List ChatMessage :=
  match m.role with
  | .system => [.system (textFrom m.content)]
  | .user =>
    let rest := m.content.filter fun b => !isToolResult b
    (if rest.isEmpty then [] else [.user (toUserParts rest)]) ++ m.content.filterMap toolMessage?
  | .tool => [.tool (m.toolCallId.getD "") (textFrom m.content)]
  | .assistant =>
    let text := textFrom m.content
    let calls := m.content.filterMap toolCall?
    let content := if text ≠ "" then some text else if calls.isEmpty then some "" else none
    [.assistant content calls]

/-- `toOpenAIMessages(messages)`. -/
def toOpenAIMessages (messages : List Message) : List ChatMessage :=
  messages.flatMap toOpenAIMessage

end OpenAI

/-! ## Gemini -/

namespace Gemini

/-- `Part`, as far as it is built. -/
inductive Part where
  | text (text : String)
  | inlineData (mimeType data : String)
  | functionCall (id name : String) (args : Json)
  | functionResponse (id name content : String)
  | thought (text : String) (signature : Option String)

/-- `Content`. -/
structure Content where
  isModel : Bool
  parts : List Part

/-- `textFromBlock(b)`. -/
def textFromBlock : ContentBlock → String := foldedText fun _ => ""

/-- `mapContentBlock(b)`. -/
def mapContentBlock : ContentBlock → List Part
  | .text text => [.text text]
  | .image mime (.inline data) => [.inlineData mime data]
  | .image _ (.url url) => [.text ("[image: " ++ url ++ "]")]
  | .toolUse id name input => [.functionCall id name (input.elim (.obj []) fun v =>
      match v with
      | .null => .obj []
      | v => v)]
  | .toolResult id content _ =>
    [.functionResponse id id (String.join (content.map textFromBlock))]
  | .thinking text signature => [.thought text signature]
  | .audio _ _ => []

/-- `mapMessages(messages)`. -/
def mapMessages (messages : List Message) : List Content :=
  (messages.filter fun m => m.role ≠ .system).map fun m =>
    ⟨m.role = .assistant, m.content.flatMap mapContentBlock⟩

end Gemini

/-! ## Bedrock -/

namespace Bedrock

/-- `BedrockContentBlock`, as far as it is built; the bytes of an image are kept in base64. -/
inductive Block where
  | text (text : String)
  | image (format bytes : String)
  | toolUse (toolUseId name : String) (input : Json)
  | toolResult (toolUseId content : String) (isError : Bool)

/-- `BedrockMessage`. -/
structure BedrockMessage where
  isAssistant : Bool
  content : List Block

/-- `imageFormatFromMime(mime)`, with the lower-casing of the language. -/
def imageFormatFromMime (toLowerCase : String → String) (mime : String) : String :=
  match mime.splitOn "/" with
  | _ :: sub :: _ => if toLowerCase sub = "jpg" then "jpeg" else toLowerCase sub
  | _ => "png"

/-- `textFromBlock(b)`. -/
def textFromBlock : ContentBlock → String := foldedText fun _ => ""

/-- `mapContentBlock(b)`. -/
def mapContentBlock (toLowerCase : String → String) : ContentBlock → List Block
  | .text text => [.text text]
  | .image mime (.inline data) => [.image (imageFormatFromMime toLowerCase mime) data]
  | .image _ (.url url) => [.text ("[image: " ++ url ++ "]")]
  | .toolUse id name input => [.toolUse id name (input.elim (.obj []) fun v =>
      match v with
      | .null => .obj []
      | v => v)]
  | .toolResult id content isError =>
    [.toolResult id (String.join (content.map textFromBlock)) (isError.getD false)]
  | .thinking _ _ => []
  | .audio _ _ => []

/-- `mapMessages(messages)`. -/
def mapMessages (toLowerCase : String → String) (messages : List Message) : List BedrockMessage :=
  (messages.filter fun m => m.role ≠ .system).map fun m =>
    ⟨m.role = .assistant, m.content.flatMap (mapContentBlock toLowerCase)⟩

end Bedrock

end NexusCode.Providers
