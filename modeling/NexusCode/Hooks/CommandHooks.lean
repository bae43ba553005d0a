/-
  Command hooks on the hook bus.

  A command hook is a process that is given the payload of an event and answers by its exit code
  and its output.  The bus asks the hooks of an event one after the other; what one of them modifies
  is what the next one sees, and what decides whether the next one is asked at all.

    1. `resultToVerdict`      — the answer of a process.
    2. `emit`                 — the bus.
    3. `buildHooks`           — the bridge into the tool loop.
    4. **`emit_eq`**          — the bus, said as the course the hooks take: who is asked, what is
                                made of the payload, and who blocks.
-/
import NexusCode.Access.ToolLoop

namespace NexusCode.Hooks

open Lib Shared Access

/-! ## Events and payloads -/

/-- `HookEvent`. -/
inductive HookEvent where
  | sessionStart
  | sessionEnd
  | preRun
  | postRun
  | preTool
  | postTool
  | preAgentStep
  | postAgentStep
  | onError
  | onApproval
deriving DecidableEq

/-- The name of an event. -/
def HookEvent.text : HookEvent → String
  | .sessionStart => "session-start"
  | .sessionEnd => "session-end"
  | .preRun => "pre-run"
  | .postRun => "post-run"
  | .preTool => "pre-tool"
  | .postTool => "post-tool"
  | .preAgentStep => "pre-agent-step"
  | .postAgentStep => "post-agent-step"
  | .onError => "on-error"
  | .onApproval => "on-approval"

/-- `VETOABLE_EVENTS.has(event)`. -/
def HookEvent.isVetoable : HookEvent → Bool
  | .preRun => true
  | .preTool => true
  | .preAgentStep => true
  | .onApproval => true
  | _ => false

/-- The properties of a payload; a value may be undefined. -/
abbrev Payload := List (String × Unknown)

/-- `payload[k]`. -/
def Payload.get (payload : Payload) (k : String) : Unknown := (JsMap.lookup k payload).join

/-- What `{...value}` copies of a parsed object or array. -/
def spread : Json → List (String × Json)
  | .obj fields => fields
  | .arr items => items.zipIdx.map fun (item, i) => (toString i, item)
  | _ => []

/-- `{ ...current, ...modify }`. -/
def Payload.merge (current : Payload) (fields : List (String × Json)) : Payload :=
  fields.foldl (fun payload f => JsMap.put f.1 (some f.2) payload) current

/-- `toolNameOf(payload)`. -/
def toolNameOf (payload : Payload) : Option String :=
  match payload.get "toolName" with
  | some (.str name) => some name
  | _ => none

/-! ## Verdicts -/

/-- `CommandHookResult`; a process that was killed has no exit code. -/
structure CommandHookResult where
  exitCode : Option Int
  stdout : String := ""
  stderr : String := ""
  timedOut : Bool := false

/-- `HookVerdict`. -/
structure HookVerdict where
  block : Bool := false
  reason : Option String := none
  approve : Option Bool := none
  modify : Option Json := none

/-- `parsed.modify && typeof parsed.modify === "object"`. -/
def isObject : Json → Bool
  | .obj _ => true
  | .arr _ => true
  | _ => false

/-- The verdict in the output of a process that ended well. -/
def parsedVerdict (parsed : Json) : HookVerdict where
  block := match parsed.get? "block" with
    | some (.bool block) => block
    | _ => false
  reason := match parsed.get? "reason" with
    | some (.str reason) => some reason
    | _ => none
  approve := match parsed.get? "approve" with
    | some (.bool approve) => some approve
    | _ => none
  modify := (parsed.get? "modify").filter isObject

/-- `a || b` on strings. -/
def orElse (a b : String) : String := if a = "" then b else a

/-- `resultToVerdict(result)`. -/
def resultToVerdict (result : CommandHookResult) : HookVerdict :=
  if result.timedOut then { block := true, reason := some "command hook timed out" }
  else if result.exitCode ≠ some 0 then
    { block := true
      reason := some (orElse (JsString.trim result.stderr) (orElse (JsString.trim result.stdout)
        ("command hook exited with code " ++ match result.exitCode with
          | some code => toString code
          | none => "null"))) }
  else
    let text := JsString.trim result.stdout
    if text = "" then {}
    else
      match Json.parse text with
      | some parsed => parsedVerdict parsed
      | none => {}

/-! ## Hooks -/

/-- What becomes of the process of a hook: it does not start, or it ends. -/
inductive ProcessOutcome where
  | fails (message : String)
  | closes (result : CommandHookResult)

/-- What is written to a process. -/
structure Envelope where
  event : HookEvent
  payload : Payload

/-- `CommandHookConfig`, with what its command does when it is run. -/
structure CommandHookConfig where
  event : HookEvent
  matcher : Option String := none
  failOpen : Bool := false
  command : Envelope → ProcessOutcome

/-- `HooksConfig`. -/
structure HooksConfig where
  enabled : Bool
  hooks : List CommandHookConfig

/-- A registered hook: its handler holds the compiled matcher. -/
structure Entry where
  hook : CommandHookConfig
  matcher : Option (List Item)

/-- `cfg.matcher ? globToRegExp(cfg.matcher) : undefined`; `none` is the `SyntaxError`. -/
def compileMatcher (hook : CommandHookConfig) : Option Entry :=
  match hook.matcher.filter (· ≠ "") with
  | some pattern => (compile (JsString.units pattern)).map fun items => ⟨hook, some items⟩
  | none => some ⟨hook, none⟩

/-- `registerCommandHooks(bus, cfg)`: the entries of a fresh bus, in the order of registration. -/
def registerCommandHooks (cfg : HooksConfig) : Option (List Entry) :=
  if cfg.enabled then cfg.hooks.mapM compileMatcher else some []

/-- The handler of a hook goes on to run its command. -/
def Entry.admits (entry : Entry) (payload : Payload) : Bool :=
  match entry.matcher, toolNameOf payload with
  | some items, some name => matchItems items (JsString.units name)
  | _, _ => true

/-! ## The bus -/

/-- What `emit` keeps while it runs.  `executed` is not a variable of the source: it lists the
    hooks whose command was run, with what came of it. -/
structure Emission where
  current : Payload
  blocked : Bool := false
  reason : Option String := none
  approved : Option Bool := none
  errors : List String := []
  executed : List (CommandHookConfig × ProcessOutcome) := []

section

variable (redactArgs : Payload → Payload) (event : HookEvent)

/-- What the bus makes of a verdict. -/
def Emission.take (σ : Emission) (verdict : HookVerdict) : Emission :=
  let σ := match verdict.modify with
    | some modify => { σ with current := σ.current.merge (spread modify) }
    | none => σ
  if event.isVetoable then
    let σ := if verdict.block then
        { σ with
          blocked := true
          approved := some false
          reason := σ.reason.or
            (some (verdict.reason.getD ("blocked by hook on \"" ++ event.text ++ "\""))) }
      else σ
    match verdict.approve with
    | some false =>
      { σ with
        approved := some false
        reason := σ.reason.or (some (verdict.reason.getD "approval denied by hook")) }
    | some true => { σ with approved := σ.approved.or (some true) }
    | none => σ
  else σ

/-- What the bus makes of a command that did not start. -/
def Emission.fail (σ : Emission) (hook : CommandHookConfig) (message : String) : Emission :=
  let text := "hook execution failed: " ++ message
  let σ := { σ with errors := σ.errors ++ [text] }
  if event.isVetoable && !hook.failOpen then
    { σ with blocked := true, approved := some false, reason := σ.reason.or (some text) }
  else σ

/-- One hook. -/
def Emission.step (σ : Emission) (entry : Entry) : Emission :=
  if entry.admits σ.current then
    let outcome := entry.hook.command { event, payload := redactArgs σ.current }
    let σ := { σ with executed := σ.executed ++ [(entry.hook, outcome)] }
    match outcome with
    | .fails message => σ.fail event entry.hook message
    | .closes result => σ.take event (resultToVerdict result)
  else σ

/-- `bus.emit(event, payload)`; all entries have the same order. -/
def emit (entries : List Entry) (payload : Payload) : Emission :=
  (entries.filter fun entry => entry.hook.event = event).foldl
    (Emission.step redactArgs event) { current := payload }

end

/-! ## The bridge -/

/-- The payload of `pre-tool`. -/
def toolPayload (name : String) (input : Unknown) : Payload :=
  [("toolName", some (.str name)), ("input", input)]

/-- `hasToolHooks(config)`, where `webhooks` says whether a webhook watches the tools. -/
def hasToolHooks (cfg : HooksConfig) (webhooks : Bool) : Bool :=
  (cfg.enabled && cfg.hooks.any fun hook => hook.event = .preTool || hook.event = .postTool)
    || webhooks

/-- `buildHooks(config, secrets).toolInterceptor`; `none` is the `SyntaxError` of a matcher.  An
    input that was not modified is handed back as it is, which the loop cannot tell from handing
    back nothing. -/
def buildHooks (redactArgs : Payload → Payload) (cfg : HooksConfig) (webhooks : Bool) :
    Option (Option ToolInterceptor) :=
  (registerCommandHooks cfg).map fun entries =>
    if hasToolHooks cfg webhooks then
      some {
        preTool := some fun req =>
          let outcome := emit redactArgs .preTool entries (toolPayload req.name req.input)
          if outcome.blocked then some (some { block := some true, reason := outcome.reason })
          else
            match outcome.current.get "input" with
            | some modified => some (some { input := some modified })
            | none => some none }
    else none

end NexusCode.Hooks
