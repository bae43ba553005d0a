/-
  Messages and stream chunks: the contract every adapter translates its backend into.

  A value the source types as `unknown` is `undefined` or a JSON value (`Unknown`).  The usage
  record is carried without being looked into.
-/
import NexusCode.Lib.Json
import NexusCode.Shared.Errors

namespace NexusCode.Shared

open Lib

/-- A value of type `unknown`; `none` is `undefined`. -/
abbrev Unknown := Option Json

/-! ## Messages -/

/-- `Role`. -/
inductive Role where
  | system
  | user
  | assistant
  | tool
deriving DecidableEq

/-- `data: string | { url: string }`. -/
inductive MediaData where
  | inline (data : String)
  | url (url : String)

/-- `ContentBlock`. -/
inductive ContentBlock where
  | text (text : String)
  | image (mime : String) (data : MediaData)
  | audio (mime : String) (data : MediaData)
  | toolUse (id name : String) (input : Unknown)
  | toolResult (toolCallId : String) (content : List ContentBlock) (isError : Option Bool)
  | thinking (text : String) (signature : Option String)

/-- `Message`. -/
structure Message where
  role : Role
  content : List ContentBlock
  toolCallId : Option String := none
  name : Option String := none

/-- `userText(text)`. -/
def userText (text : String) : List Message := [{ role := .user, content := [.text text] }]

/-- The text of a block of text. -/
def ContentBlock.text? : ContentBlock → Option String
  | .text t => some t
  | _ => none

/-- `textOf(message)`. -/
def textOf (message : Message) : String := String.join (message.content.filterMap (·.text?))

/-! ## Chunks -/

/-- `FinishReason`. -/
inductive FinishReason where
  | stop
  | length
  | toolUse
  | contentFilter
  | cancelled
  | error
deriving DecidableEq

/-- The channel of a text delta; absent means the answer. -/
inductive Channel where
  | answer
  | reasoning
deriving DecidableEq

/-- The status of a file edit. -/
inductive FileEditStatus where
  | proposed
  | applied
  | cancelled
deriving DecidableEq

/-- The kind of an approval request. -/
inductive ApprovalKind where
  | file
  | shell
  | tool
deriving DecidableEq

/-- The wire name of a kind. -/
def ApprovalKind.text : ApprovalKind → String
  | file => "file"
  | shell => "shell"
  | tool => "tool"

/-- The payload of a `run-end` chunk. -/
structure RunEnd where
  finishReason : FinishReason
  message : Message
  toolExchange : Option (List Message) := none
  usage : Unknown := none
  providerSessionId : Option String := none
  ts : Int

/-- The payload of a `file-edit` chunk. -/
structure FileEdit where
  path : String
  diff : String
  status : FileEditStatus
  approvalId : Option String := none

/-- What a chunk says, without the run it belongs to and the untranslated provider event. -/
inductive Body where
  | runStart (adapterId model : String) (ts : Int)
  | sessionInit (providerId providerSessionId : Option String) (tools mcpServers : Option (List String))
  | textDelta (text : String) (channel : Option Channel)
  | reasoningDelta (text : String)
  | toolCallStart (id name : String)
  | toolCallDelta (id argsJsonDelta : String)
  | toolCallEnd (id : String) (input : Unknown)
  | toolResult (toolCallId : String) (content : List ContentBlock) (isError : Option Bool)
  | fileEdit (edit : FileEdit)
  | approvalRequest (approvalId : String) (kind : ApprovalKind) (detail : Unknown)
  | usage (usage : Unknown)
  | runEnd (end_ : RunEnd)
  | error (error : AdapterError) (retryable : Bool)

/-- `StreamChunk`. -/
structure StreamChunk where
  runId : String
  body : Body
  raw : Unknown := none

/-- Is the chunk a `run-start`? -/
def StreamChunk.isRunStart (chunk : StreamChunk) : Bool :=
  match chunk.body with
  | .runStart .. => true
  | _ => false

/-- Is the chunk a `session-init`? -/
def StreamChunk.isSessionInit (chunk : StreamChunk) : Bool :=
  match chunk.body with
  | .sessionInit .. => true
  | _ => false

/-- `isTerminal(chunk)`. -/
def StreamChunk.isTerminal (chunk : StreamChunk) : Bool :=
  match chunk.body with
  | .runEnd .. => true
  | .error .. => true
  | _ => false

/-- The error a chunk carries. -/
def StreamChunk.error? (chunk : StreamChunk) : Option AdapterError :=
  match chunk.body with
  | .error e _ => some e
  | _ => none

end NexusCode.Shared
