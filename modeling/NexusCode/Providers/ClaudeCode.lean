/-
  The event handler of the Claude Code program.

  A line of its output is an event of one of five types; every other value is ignored, except
  `null`, which has no property `type` to read.  The lookups that the source guards by `?.` and
  `??` are total here, and those it does not guard may end with a `TypeError`.
-/
import NexusCode.Providers.Subprocess

namespace NexusCode.Providers.ClaudeCode

open Lib Shared

/-- `ClaudePermissionMode`. -/
inductive PermissionMode where
  | default
  | acceptEdits
  | plan
  | bypassPermissions
deriving DecidableEq

/-! ## Diffs -/

/-- `lines(s)`. -/
def lines (s : String) : List String :=
  let body := if s.toList.getLast? = some '\n' then String.ofList s.toList.dropLast else s
  if body = "" then [] else body.splitOn "\n"

/-- `writeDiff(path, content)`. -/
def writeDiff (path content : String) : String :=
  let added := (lines content).map ("+" ++ ·)
  "--- /dev/null\n+++ b/" ++ path ++ "\n@@ -0,0 +1," ++ toString added.length ++ " @@\n" ++
    "\n".intercalate added ++ "\n"

/-- `replaceDiff(path, oldStr, newStr)`. -/
def replaceDiff (path oldStr newStr : String) : String :=
  let removed := (lines oldStr).map ("-" ++ ·)
  let added := (lines newStr).map ("+" ++ ·)
  "--- a/" ++ path ++ "\n+++ b/" ++ path ++ "\n@@ -1," ++ toString removed.length ++ " +1," ++
    toString added.length ++ " @@\n" ++ "\n".intercalate (removed ++ added) ++ "\n"

/-! ## Blocks -/

/-- `String(value[key] ?? "")`. -/
def textAt (v : Json) (key : String) : Except TypeError String :=
  Json.toText (Json.withDefault (v.get? key) (.str ""))

/-- One edit of a `MultiEdit`. -/
def editDiff (path : Json) (e : Json) : Except TypeError String :=
  match e with
  | .null => .error .propertyOfNull
  | e => (textAt e "old_string").bind fun oldStr => (textAt e "new_string").bind fun newStr =>
      (Json.toText path).map fun p => replaceDiff p oldStr newStr

/-- `edits.map(…).join("")`. -/
def editDiffs (path : Json) : List Json → Except TypeError String
  | [] => .ok ""
  | e :: rest => (editDiff path e).bind fun d => (editDiffs path rest).map fun ds => d ++ ds

/-- `block.input ?? {}`. -/
def inputOf (block : Json) : Json := Json.withDefault (block.get? "input") (.obj [])

/-- `input.file_path ?? input.path`, when it is truthy. -/
def pathOf (block : Json) : Option Json :=
  (Json.orElse ((inputOf block).get? "file_path") ((inputOf block).get? "path")).filter Json.truthy

/-- `block.name === name`. -/
def isNamed (block : Json) (name : String) : Bool := block.textIs "name" name

/-- `Array.isArray(input.edits) ? input.edits : []`. -/
def editsOf (block : Json) : List Json :=
  match (inputOf block).get? "edits" with
  | some (.arr items) => items
  | _ => []

/-- `toFileEdit(runId, block, mode, raw)`. -/
def toFileEdit (mode : PermissionMode) (block : Json) : Except TypeError (Option Chunk) :=
  match pathOf block with
  | none => .ok none
  | some path =>
    let status := if mode = .acceptEdits ∨ mode = .bypassPermissions then FileEditStatus.applied
      else .proposed
    if isNamed block "Write" then
      (textAt (inputOf block) "content").bind fun content =>
        (Json.toText path).map fun p => some (.fileEdit path (writeDiff p content) status)
    else if isNamed block "Edit" then
      (editDiff path (inputOf block)).map fun diff => some (.fileEdit path diff status)
    else if isNamed block "MultiEdit" then
      (editDiffs path (editsOf block)).map fun diff => some (.fileEdit path diff status)
    else .ok none

/-- One item of the content of a tool result. -/
def resultItem (x : Json) : Except TypeError ContentBlock :=
  if x.typeIs "text" then (textAt x "text").map .text
  else .ok (.text (Json.stringify x))

/-- The items of the content of a tool result. -/
def resultItems : List Json → Except TypeError (List ContentBlock)
  | [] => .ok []
  | x :: rest => (resultItem x).bind fun b => (resultItems rest).map fun bs => b :: bs

/-- `normalizeToolResult(content)`. -/
def normalizeToolResult (content : Unknown) : Except TypeError (List ContentBlock) :=
  match content with
  | some (.str s) => .ok [.text s]
  | some (.arr items) => resultItems items
  | none => .ok [.text ""]
  | some .null => .ok [.text ""]
  | some v => (Json.toText v).map fun t => [.text t]

/-! ## Events -/

/-- `for (const raw of e.message?.content ?? [])`: what the loop runs over. -/
def contentOf (e : Json) : Except TypeError (List Json) :=
  match (e.get? "message").bind (·.get? "content") with
  | none => .ok []
  | some .null => .ok []
  | some (.arr items) => .ok items
  | some (.str s) => .ok (s.toList.map fun c => .str (String.singleton c))
  | some _ => .error .notIterable

/-- `tools.map(String)`. -/
def toTexts : List Json → Except TypeError (List String)
  | [] => .ok []
  | v :: rest => (Json.toText v).bind fun t => (toTexts rest).map fun ts => t :: ts

/-- The names of the servers: texts, or objects with a text for their name. -/
def serverNames (servers : List Json) : List String :=
  servers.filterMap fun m =>
    match m with
    | .str s => some s
    | m => match m.get? "name" with
      | some (.str s) => some s
      | _ => none

/-- `chunk.tools`, if there is an array of them. -/
def toolsOf (e : Json) : Except TypeError (Option (List String)) :=
  match e.get? "tools" with
  | some (.arr items) => (toTexts items).map some
  | _ => .ok none

/-- `case "system"`. -/
def onSystem (e : Json) (state : StreamState) : Except TypeError (StreamState × List Chunk) :=
  if e.textIs "subtype" "init" then
    let sessionId := match e.get? "session_id" with
      | some (.str s) => s
      | _ => ""
    let servers := match e.get? "mcp_servers" with
      | some (.arr items) => some (serverNames items)
      | _ => none
    (toolsOf e).map fun tools => ({ state with sessionId },
      [.sessionInit (if sessionId = "" then none else some sessionId) tools servers])
  else .ok (state, [])

/-- `case "stream_event"`. -/
def onStreamEvent (e : Json) (state : StreamState) : StreamState × List Chunk :=
  let inner := (e.get? "event").getD .null
  if inner.typeIs "content_block_delta" then
    let d := (inner.get? "delta").getD .null
    if d.typeIs "text_delta" then
      (state, [.textDelta (Json.withDefault (d.get? "text") (.str ""))])
    else if d.typeIs "thinking_delta" then
      (state, [.reasoningDelta (Json.withDefault (d.get? "thinking") (.str ""))])
    else (state, [])
  else (state, [])

/-- One block of an assistant message. -/
def assistantBlock (mode : PermissionMode) (acc : StreamState × List Chunk) (raw : Json) :
    Except TypeError (StreamState × List Chunk) :=
  match raw with
  | .null => .error .propertyOfNull
  | raw =>
    if raw.typeIs "text" then
      match raw.get? "text" with
      | some (.str t) =>
        if acc.1.emittedContent = false ∧ t ≠ "" then
          .ok (acc.1, acc.2 ++ [.textDelta (.str t)])
        else .ok acc
      | _ => .ok acc
    else if raw.typeIs "tool_use" then
      (toFileEdit mode raw).map fun edit =>
        ({ acc.1 with
            toolUses := acc.1.toolUses ++ [⟨raw.get? "id", raw.get? "name", raw.get? "input"⟩] },
          acc.2 ++ [.toolCallStart (raw.get? "id") (raw.get? "name"),
            .toolCallEnd (raw.get? "id") (raw.get? "input")] ++ edit.toList)
    else .ok acc

/-- One block of a user message. -/
def userBlock (acc : StreamState × List Chunk) (raw : Json) :
    Except TypeError (StreamState × List Chunk) :=
  match raw with
  | .null => .error .propertyOfNull
  | raw =>
    if raw.typeIs "tool_result" then
      (normalizeToolResult (raw.get? "content")).map fun content =>
        (acc.1, acc.2 ++ [.toolResult (Json.withDefault (raw.get? "tool_use_id") (.str ""))
          content (raw.get? "is_error")])
    else .ok acc

/-- `mapUsage(ev)`: the members of the usage, none if there are none. -/
def mapUsage (e : Json) : Option PartialUsage :=
  let u := (e.get? "usage").filter Json.truthy
  let counted := match u with
    | some u =>
      [("inputTokens", Json.withDefault (u.get? "input_tokens") (.num 0)),
        ("outputTokens", Json.withDefault (u.get? "output_tokens") (.num 0))] ++
      ((Json.orElse (u.get? "cache_read_input_tokens") none).map fun v =>
        ("cacheReadTokens", v)).toList ++
      ((Json.orElse (u.get? "cache_creation_input_tokens") none).map fun v =>
        ("cacheWriteTokens", v)).toList
    | none => []
  let cost := match e.get? "total_cost_usd" with
    | some (.num x) => [("reportedCostUsd", Json.num x)]
    | _ => []
  if (counted ++ cost).isEmpty then none else some (counted ++ cost)

/-- The text of the result. -/
def resultText (e : Json) : Option String :=
  match e.get? "result" with
  | some (.str s) => some s
  | _ => none

/-- `line.is_error === true || (typeof line.subtype === "string" && line.subtype.startsWith("error"))`. -/
def isErrorResult (e : Json) : Bool :=
  (match e.get? "is_error" with
    | some (.bool b) => b
    | _ => false) ||
  (match e.get? "subtype" with
    | some (.str s) => "error".toList.isPrefixOf s.toList
    | _ => false)

/-- `state.terminal` after a result. -/
def terminalOf (e : Json) : Terminal where
  ok := !isErrorResult e
  subtype :=
    if isErrorResult e then
      match resultText e with
      | some s => if s ≠ "" then some (.str s) else e.get? "subtype"
      | none => e.get? "subtype"
    else e.get? "subtype"

/-- `case "result"`. -/
def onResult (e : Json) (state : StreamState) : StreamState × List Chunk :=
  ({ state with
      finalText := (resultText e).or state.finalText
      terminal := some (terminalOf e) },
    ((mapUsage e).map Chunk.usage).toList)

/-- `handleEvent(ev, state, push, cfg)`. -/
def handleEvent (mode : PermissionMode) : Handler := fun ev state =>
  match ev with
  | .null => .error .propertyOfNull
  | e =>
    if e.typeIs "system" then onSystem e state
    else if e.typeIs "stream_event" then .ok (onStreamEvent e state)
    else if e.typeIs "assistant" then
      (contentOf e).bind fun content => content.foldlM (assistantBlock mode) (state, [])
    else if e.typeIs "user" then
      (contentOf e).bind fun content => content.foldlM userBlock (state, [])
    else if e.typeIs "result" then .ok (onResult e state)
    else .ok (state, [])

end NexusCode.Providers.ClaudeCode
