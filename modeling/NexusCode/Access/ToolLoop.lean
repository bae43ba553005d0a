/-
  The native tool loop with the hooks and the enterprise authorization in front of a tool.

  Three layers decide whether a tool runs: `composeInterceptors` asks the hooks and then the
  authorization, the authorization denies by a verdict, and the loop asks whatever interceptor it
  was given, the handoff guard and the permission gate.  The loop takes an interceptor that throws
  for one without a verdict.

    1. `authorizeAndAudit`, `enterpriseToolInterceptor` — the authorization of one call.
    2. `composeInterceptors`, `executeToolCall`         — the call.
    3. `ran_iff`                                        — when a tool runs.
    4. **`runs_authorized_iff`**                        — and when only authorized ones do.

  Whatever throws is `none`.  The observers behind the tool (`postTool`) change nothing and are left
  out.
-/
import NexusCode.Access.Policy
import NexusCode.Audit.HashChain

namespace NexusCode.Access

open Lib Shared

/-! ## Tools -/

/-- `ToolPermission`. -/
inductive ToolPermission where
  | read
  | write
  | exec
  | network
deriving DecidableEq

/-- `ToolResult`. -/
structure ToolResult where
  ok : Bool
  content : List ContentBlock
  isError : Option Bool := none

/-- `errText(text)`. -/
def errText (text : String) : ToolResult where
  ok := false
  content := [.text text]
  isError := some true

/-- `Tool`; `run` is what `runTool` makes of it, or the message of the error it throws. -/
structure Tool where
  name : String
  permission : ToolPermission
  permissionFor : Option (Unknown → Option ToolPermission) := none
  run : Unknown → Except String ToolResult

/-- `ToolRegistry`. -/
structure ToolRegistry where
  get : String → Option Tool

/-- `PendingToolCall`. -/
structure PendingToolCall where
  id : String
  name : String
  input : Unknown

/-! ## Interceptors -/

/-- `ToolInterceptRequest`. -/
structure ToolInterceptRequest where
  name : String
  input : Unknown

/-- `ToolInterceptVerdict`. -/
structure ToolInterceptVerdict where
  block : Option Bool := none
  reason : Option String := none
  input : Option Json := none

/-- `ToolInterceptor`: a verdict, none, or an exception. -/
structure ToolInterceptor where
  preTool : Option (ToolInterceptRequest → Option (Option ToolInterceptVerdict)) := none

/-- `composeInterceptors(first, second)`. -/
def composeInterceptors : Option ToolInterceptor → Option ToolInterceptor → Option ToolInterceptor
  | none, second => second
  | some first, none => some first
  | some first, some second => some
    { preTool := some fun req => do
        let verdict ← match first.preTool with
          | some preTool => preTool req
          | none => some none
        match verdict with
        | some v =>
          if v.block = some true ∨ v.input.isSome then some (some v)
          else match second.preTool with
            | some preTool => preTool req
            | none => some none
        | none => match second.preTool with
          | some preTool => preTool req
          | none => some none }

/-! ## Authorization -/

/-- `actionForToolPermission(permission)`. -/
def actionForToolPermission : Option ToolPermission → String
  | some .read => "read"
  | some .write => "write"
  | some .exec => "execute"
  | some .network => "use"
  | none => "use"

/-- `EnterpriseServices`: the authorizer, the host's time, and whether an append to the audit log
    returns. -/
structure EnterpriseServices where
  authorizer : Authorizer
  time : HostTime
  appends : Audit.AuditInput → Bool

namespace EnterpriseServices

variable (services : EnterpriseServices)

/-- `authorize(principal, action, resource, context)`. -/
def authorize (principal : Principal) (action resource : String)
    (context : Option AuthorizationContext) : Option AuthorizationDecision :=
  services.authorizer.authorize services.time { principal, action, resource, context }

/-- `authorizeAndAudit(principal, action, resource, context, extra)`. -/
def authorizeAndAudit (principal : Principal) (action resource : String)
    (context : Option AuthorizationContext) (sessionId : Option String)
    (details : List (String × Json)) : Option AuthorizationDecision := do
  let result ← services.authorize principal action resource context
  let input : Audit.AuditInput :=
    { actor := principal.id
      action := if result.source = .policy then .policyDecision else .rbacDecision
      role := principal.roles.head?
      resource := some resource
      decision := some (if result.allowed then .allow else .deny)
      details := some ([("action", .str action), ("reason", .str result.reason)] ++ details)
      sessionId }
  if services.appends input then some result else none

end EnterpriseServices

/-- The action of a call: that of the tool's permission, if there is such a tool. -/
def toolAction (registry : ToolRegistry) (name : String) : String :=
  actionForToolPermission ((registry.get name).map (·.permission))

/-- `enterpriseToolInterceptor(services, principal, toolRegistry, sessionId)`. -/
def enterpriseToolInterceptor (services : EnterpriseServices) (principal : Principal)
    (registry : ToolRegistry) (sessionId : Option String) : ToolInterceptor where
  preTool := some fun req => do
    let decision ← services.authorizeAndAudit principal (toolAction registry req.name)
      ("tool:" ++ req.name) none (sessionId.filter (· ≠ "")) [("via", .str "agent-tool-loop")]
    if decision.allowed then some none
    else some (some { block := some true, reason := some decision.reason })

/-! ## The call -/

/-- `ProviderActionGuardDecision`. -/
structure GuardDecision where
  blocked : Bool
  reason : Option String := none

/-- `PermissionDecision`. -/
structure PermissionDecision where
  allowed : Bool
  reason : String

/-- What a call meets: the tools, the interceptor, the guard of a handoff and the gate. -/
structure ToolLoop where
  tools : ToolRegistry
  toolInterceptor : Option ToolInterceptor := none
  actionGuard : Option (PendingToolCall → Unknown → ToolPermission → Option GuardDecision) := none
  check : Tool → Unknown → Option PermissionDecision

/-- A reason behind a colon, unless it is empty. -/
def because (reason : Option String) : String :=
  match reason.filter (· ≠ "") with
  | some reason => ": " ++ reason
  | none => ""

/-- The permission of a tool for this input. -/
def Tool.permissionOf (tool : Tool) (input : Unknown) : ToolPermission :=
  match tool.permissionFor with
  | some permissionFor => (permissionFor input).getD tool.permission
  | none => tool.permission

/-- The error text of the handoff guard, if it blocks the call. -/
def ToolLoop.guarded (loop : ToolLoop) (call : PendingToolCall) (tool : Tool) (input : Unknown) :
    Option String :=
  match loop.actionGuard with
  | none => none
  | some actionGuard =>
    let permission := tool.permissionOf input
    match actionGuard call input permission with
    | some decision =>
      if decision.blocked then
        some ("tool " ++ call.name ++ " blocked by provider handoff guard" ++ because decision.reason)
      else none
    | none =>
      if permission ≠ .read then
        some ("tool " ++ call.name ++ " blocked because the handoff guard failed")
      else none

/-- What becomes of a call: the input its tool was run with, if it was, and the result. -/
structure Executed where
  ran : Option Unknown := none
  result : Option ToolResult

/-- The call behind the interceptor, with the input it left. -/
def ToolLoop.proceed (loop : ToolLoop) (call : PendingToolCall) (tool : Tool) (input : Unknown) :
    Executed :=
  match loop.guarded call tool input with
  | some text => { result := some (errText text) }
  | none =>
    match loop.check tool input with
    | none => { result := none }
    | some decision =>
      if decision.allowed then
        { ran := some input
          result := match tool.run input with
            | .ok result => some result
            | .error message => some (errText ("tool " ++ call.name ++ " failed: " ++ message)) }
      else
        { result := some (errText ("permission denied for " ++ call.name ++ ": " ++ decision.reason)) }

/-- `executeToolCall(opts, call, …)`. -/
def ToolLoop.executeToolCall (loop : ToolLoop) (call : PendingToolCall) : Executed :=
  match loop.tools.get call.name with
  | none => { result := some (errText ("no such tool: " ++ call.name)) }
  | some tool =>
    match loop.toolInterceptor.bind (·.preTool) with
    | none => loop.proceed call tool call.input
    | some preTool =>
      -- an interceptor that throws has no verdict
      match (preTool { name := call.name, input := call.input }).join with
      | none => loop.proceed call tool call.input
      | some verdict =>
        if verdict.block = some true then
          { result := some (errText ("tool " ++ call.name ++ " blocked by hook" ++
              because verdict.reason)) }
        else loop.proceed call tool (verdict.input <|> call.input)

/-! ## When a tool runs -/

/-- Neither the guard nor the gate is in the way. -/
def ToolLoop.Passes (loop : ToolLoop) (call : PendingToolCall) (tool : Tool) (input : Unknown) :
    Prop :=
  loop.guarded call tool input = none ∧
    ∃ decision, loop.check tool input = some decision ∧ decision.allowed = true

theorem proceed_ran {loop : ToolLoop} {call : PendingToolCall} {tool : Tool} {input : Unknown} :
    (loop.proceed call tool input).ran.isSome ↔ loop.Passes call tool input := by
  unfold ToolLoop.proceed ToolLoop.Passes
  cases loop.guarded call tool input with
  | some text => exact ⟨nofun, fun h => nomatch h.1⟩
  | none =>
    dsimp only
    cases loop.check tool input with
    | none => exact ⟨nofun, fun ⟨_, _, h, _⟩ => nomatch h⟩
    | some decision =>
      dsimp only
      split
      · rename_i hallowed
        exact ⟨fun _ => ⟨rfl, decision, rfl, hallowed⟩, fun _ => rfl⟩
      · rename_i hdenied
        refine ⟨nofun, fun ⟨_, d, hd, hallowed⟩ => ?_⟩
        obtain rfl := Option.some.inj hd
        exact absurd hallowed hdenied

/-- A tool that is run went through the gate with the input it is run with. -/
theorem proceed_ran_input {loop : ToolLoop} {call : PendingToolCall} {tool : Tool}
    {input input' : Unknown} (h : (loop.proceed call tool input).ran = some input') :
    input' = input ∧ ∃ decision, loop.check tool input = some decision ∧
      decision.allowed = true := by
  unfold ToolLoop.proceed at h
  split at h
  · exact nomatch h
  · split at h
    · exact nomatch h
    · rename_i decision hcheck
      split at h
      · rename_i hallowed
        exact ⟨(Option.some.inj h).symm, decision, hcheck, hallowed⟩
      · exact nomatch h

/-- What a verdict leaves of a call: nothing, or the input to go on with. -/
def leftBy (call : PendingToolCall) : Option ToolInterceptVerdict → Option Unknown
  | none => some call.input
  | some verdict => if verdict.block = some true then none else some (verdict.input <|> call.input)

/-- What the interceptor leaves of a call. -/
def ToolLoop.left (loop : ToolLoop) (call : PendingToolCall) : Option Unknown :=
  leftBy call ((loop.toolInterceptor.bind (·.preTool)).bind fun preTool =>
    (preTool { name := call.name, input := call.input }).join)

/-- **A tool runs** if there is such a tool, the interceptor leaves an input, and neither the guard
    nor the gate is in its way. -/
theorem ran_iff {loop : ToolLoop} {call : PendingToolCall} :
    (loop.executeToolCall call).ran.isSome ↔ ∃ tool input, loop.tools.get call.name = some tool ∧
      loop.left call = some input ∧ loop.Passes call tool input := by
  unfold ToolLoop.executeToolCall ToolLoop.left leftBy
  cases loop.tools.get call.name with
  | none => exact ⟨nofun, fun ⟨_, _, h, _⟩ => nomatch h⟩
  | some tool =>
    have hgo : ∀ input, (loop.proceed call tool input).ran.isSome ↔
        ∃ tool' input', some tool = some tool' ∧ some input = some input' ∧
          loop.Passes call tool' input' := by
      intro input
      rw [proceed_ran]
      constructor
      · exact fun h => ⟨tool, input, rfl, rfl, h⟩
      · rintro ⟨_, _, htool, hinput, h⟩
        obtain rfl := Option.some.inj htool
        obtain rfl := Option.some.inj hinput
        exact h
    dsimp only
    cases loop.toolInterceptor.bind (·.preTool) with
    | none => exact hgo call.input
    | some preTool =>
      dsimp only [Option.bind_some]
      cases (preTool { name := call.name, input := call.input }).join with
      | none => exact hgo call.input
      | some verdict =>
        dsimp only
        split
        · exact ⟨nofun, fun ⟨_, _, _, h, _⟩ => nomatch h⟩
        · exact hgo _

/-! ## The hooks and the authorization -/

/-- What the hooks say to a call. -/
inductive HookSays where
  | nothing
  | veto
  | rewrite (input : Json)
  | throws

/-- The hooks' verdict on a call; a veto goes before a rewritten input. -/
def hookSays (hooks : Option ToolInterceptor) (call : PendingToolCall) : HookSays :=
  match hooks.bind (·.preTool) with
  | none => .nothing
  | some preTool =>
    match preTool { name := call.name, input := call.input } with
    | none => .throws
    | some none => .nothing
    | some (some verdict) =>
      if verdict.block = some true then .veto
      else match verdict.input with
        | some input => .rewrite input
        | none => .nothing

/-- The input the hooks leave. -/
def afterHooks (hooks : Option ToolInterceptor) (call : PendingToolCall) : Unknown :=
  match hookSays hooks call with
  | .rewrite input => some input
  | _ => call.input

section Enterprise

variable (services : EnterpriseServices) (principal : Principal) (sessionId : Option String)
variable (hooks : Option ToolInterceptor)

/-- The loop with the hooks and the authorization installed. -/
def ToolLoop.authorized (loop : ToolLoop) : ToolLoop :=
  { loop with
    toolInterceptor := composeInterceptors hooks
      (some (enterpriseToolInterceptor services principal loop.tools sessionId)) }

/-- The authorizer allows the principal the tool's action on the tool. -/
def Authorized (registry : ToolRegistry) (call : PendingToolCall) : Prop :=
  ∃ decision, services.authorize principal (toolAction registry call.name) ("tool:" ++ call.name)
    none = some decision ∧ decision.allowed = true

/-- The decision on a call, if the authorizer makes one and it is recorded. -/
def recorded (registry : ToolRegistry) (call : PendingToolCall) : Option AuthorizationDecision :=
  services.authorizeAndAudit principal (toolAction registry call.name) ("tool:" ++ call.name) none
    (sessionId.filter (· ≠ "")) [("via", .str "agent-tool-loop")]

end Enterprise

section Runs

variable {services : EnterpriseServices} {principal : Principal} {sessionId : Option String}
variable {hooks : Option ToolInterceptor}

theorem allowed_of_recorded {registry : ToolRegistry} {call : PendingToolCall}
    {decision : AuthorizationDecision}
    (h : recorded services principal sessionId registry call = some decision) :
    Authorized services principal registry call ↔ decision.allowed = true := by
  have hauthorize : services.authorize principal (toolAction registry call.name)
      ("tool:" ++ call.name) none = some decision := by
    unfold recorded EnterpriseServices.authorizeAndAudit at h
    obtain ⟨result, hresult, hrest⟩ := Option.bind_eq_some_iff.mp h
    rw [hresult]
    exact (Option.ite_none_right_eq_some.mp hrest).2
  constructor
  · rintro ⟨d, hd, hallowed⟩
    rw [hauthorize] at hd
    rw [Option.some.inj hd]
    exact hallowed
  · exact fun hallowed => ⟨decision, hauthorize, hallowed⟩

/-- **What is left of a call**: the hooks' veto ends it, their rewriting and their exceptions go
    around the authorization, and so does a decision that is not made or not recorded. -/
theorem left_authorized (loop : ToolLoop) (call : PendingToolCall) :
    (loop.authorized services principal sessionId hooks).left call =
      match hookSays hooks call with
      | .veto => none
      | .rewrite input => some (some input)
      | .throws => some call.input
      | .nothing =>
        match recorded services principal sessionId loop.tools call with
        | some decision => if decision.allowed then some call.input else none
        | none => some call.input := by
  have hasked : leftBy call ((recorded services principal sessionId loop.tools call).bind fun decision =>
      if decision.allowed then some none
      else some (some { block := some true, reason := some decision.reason })).join =
      match recorded services principal sessionId loop.tools call with
      | some decision => if decision.allowed then some call.input else none
      | none => some call.input := by
    cases recorded services principal sessionId loop.tools call with
    | none => rfl
    | some decision =>
      dsimp only [Option.bind_some]
      cases decision.allowed <;> rfl
  unfold hookSays
  cases hooks with
  | none => exact hasked
  | some first =>
    cases hpre : first.preTool with
    | none =>
      dsimp only [Option.bind_some]
      rw [hpre]
      refine Eq.trans ?_ hasked
      unfold ToolLoop.left ToolLoop.authorized composeInterceptors
      dsimp only [Option.bind_some]
      rw [hpre]
      rfl
    | some preTool =>
      dsimp only [Option.bind_some]
      rw [hpre]
      dsimp only
      have hleft : (loop.authorized services principal sessionId (some first)).left call =
          leftBy call ((preTool { name := call.name, input := call.input }).bind fun verdict =>
            match verdict with
            | some v =>
              if v.block = some true ∨ v.input.isSome then some (some v)
              else (recorded services principal sessionId loop.tools call).bind fun decision =>
                if decision.allowed then some none
                else some (some { block := some true, reason := some decision.reason })
            | none => (recorded services principal sessionId loop.tools call).bind fun decision =>
                if decision.allowed then some none
                else some (some { block := some true, reason := some decision.reason })).join := by
        unfold ToolLoop.left ToolLoop.authorized composeInterceptors
        dsimp only [Option.bind_some]
        rw [hpre]
        rfl
      rw [hleft]
      cases preTool { name := call.name, input := call.input } with
      | none => rfl
      | some verdict =>
        cases verdict with
        | none => exact hasked
        | some v =>
          dsimp only [Option.bind_some]
          by_cases hblock : v.block = some true
          · rw [if_pos (Or.inl hblock), if_pos hblock]
            exact if_pos hblock
          · rw [if_neg hblock]
            cases hinput : v.input with
            | none =>
              rw [if_neg (by rintro (h | h); exacts [hblock h, nomatch h])]
              exact hasked
            | some input =>
              rw [if_pos (show v.block = some true ∨ (some input).isSome = true from Or.inr rfl)]
              refine (if_neg hblock).trans ?_
              rw [hinput]
              rfl

/-- **No tool runs without authorization**, exactly as long as for every call that is not
    authorized there is no such tool, or the hooks veto, or they say nothing and the denial is
    recorded, or the guard or the gate is in the way. -/
theorem runs_authorized_iff (loop : ToolLoop) (call : PendingToolCall) :
    (((loop.authorized services principal sessionId hooks).executeToolCall call).ran.isSome →
      Authorized services principal loop.tools call) ↔
    (Authorized services principal loop.tools call ∨
      (∀ tool, loop.tools.get call.name = some tool →
        ¬ loop.Passes call tool (afterHooks hooks call)) ∨
      hookSays hooks call = .veto ∨
      hookSays hooks call = .nothing ∧
        (recorded services principal sessionId loop.tools call).isSome) := by
  rw [ran_iff, left_authorized]
  by_cases hauth : Authorized services principal loop.tools call
  · exact ⟨fun _ => .inl hauth, fun _ _ => hauth⟩
  rw [or_iff_right hauth]
  have hruns : ∀ input, afterHooks hooks call = input →
      (((∃ tool input', loop.tools.get call.name = some tool ∧ some input = some input' ∧
        loop.Passes call tool input') → Authorized services principal loop.tools call) ↔
      ∀ tool, loop.tools.get call.name = some tool →
        ¬ loop.Passes call tool (afterHooks hooks call)) := by
    rintro _ rfl
    refine ⟨fun h tool htool hpass => hauth (h ⟨tool, _, htool, rfl, hpass⟩), ?_⟩
    rintro h ⟨tool, input, htool, hinput, hpass⟩
    obtain rfl := Option.some.inj hinput
    exact absurd hpass (h tool htool)
  have hended : (∃ tool input, loop.tools.get call.name = some tool ∧ none = some input ∧
      loop.Passes call tool input) → Authorized services principal loop.tools call := by
    rintro ⟨_, _, _, hnone, _⟩
    nomatch hnone
  cases hread : hookSays hooks call with
  | veto => exact ⟨fun _ => .inr (.inl rfl), fun _ => hended⟩
  | rewrite input =>
    refine (hruns (some input) (by unfold afterHooks; rw [hread])).trans (or_iff_left ?_).symm
    rintro (h | h)
    · nomatch h
    · nomatch h.1
  | throws =>
    refine (hruns call.input (by unfold afterHooks; rw [hread])).trans (or_iff_left ?_).symm
    rintro (h | h)
    · nomatch h
    · nomatch h.1
  | nothing =>
    cases hrecorded : recorded services principal sessionId loop.tools call with
    | none =>
      refine (hruns call.input (by unfold afterHooks; rw [hread])).trans (or_iff_left ?_).symm
      rintro (h | h)
      · nomatch h
      · nomatch h.2
    | some decision =>
      dsimp only
      rw [if_neg fun hallowed => hauth ((allowed_of_recorded hrecorded).mpr hallowed)]
      exact ⟨fun _ => .inr (.inr ⟨rfl, rfl⟩), fun _ => hended⟩

end Runs

/-! ## A call nobody allowed -/

namespace Unallowed

/-- Nobody has a role. -/
def services (appends : Bool) : EnterpriseServices where
  authorizer := { roleStore := { roles := .empty, defaultRole := "default" } }
  time := { now := 0, minutesOfDay := fun _ => some 0 }
  appends _ := appends

def guest : Principal := { id := "guest", roles := [] }

/-- A tool that runs commands. -/
def shell : Tool where
  name := "shell_exec"
  permission := .exec
  run _ := .ok { ok := true, content := [] }

/-- Everything is approved. -/
def loop : ToolLoop where
  tools := { get := fun name => if name = "shell_exec" then some shell else none }
  check _ _ := some { allowed := true, reason := "approved" }

def call : PendingToolCall := { id := "c1", name := "shell_exec", input := some (.str "ls") }

/-- Hooks that put something in front of every command. -/
def wrapping : ToolInterceptor where
  preTool := some fun _ => some (some { input := some (.str "time ls") })

theorem denied (appends : Bool) : ¬ Authorized (services appends) guest loop.tools call := by
  rintro ⟨decision, hdecision, hallowed⟩
  have hdenies : ((services appends).authorize guest (toolAction loop.tools call.name)
      ("tool:" ++ call.name) none).map (·.allowed) = some false := by
    cases appends <;> decide +kernel
  rw [hdecision] at hdenies
  exact absurd hallowed (Bool.eq_false_iff.mp (Option.some.inj hdenies))

end Unallowed

open Unallowed in
/-- Hooks that rewrite the input go around the authorization; so does a denial that cannot be
    recorded. -/
theorem denied_call_runs :
    (¬ ∀ (services : EnterpriseServices) (principal : Principal) (sessionId : Option String)
      (hooks : Option ToolInterceptor) (loop : ToolLoop) (call : PendingToolCall),
      (∀ input, services.appends input = true) →
      ((loop.authorized services principal sessionId hooks).executeToolCall call).ran.isSome →
        Authorized services principal loop.tools call) ∧
    (¬ ∀ (services : EnterpriseServices) (principal : Principal) (sessionId : Option String)
      (loop : ToolLoop) (call : PendingToolCall),
      ((loop.authorized services principal sessionId none).executeToolCall call).ran.isSome →
        Authorized services principal loop.tools call) := by
  constructor
  · exact fun hclaim => denied true
      (hclaim (services true) guest none (some wrapping) loop call (fun _ => rfl) rfl)
  · exact fun hclaim => denied false
      (hclaim (services false) guest none loop call (by decide +kernel))

end NexusCode.Access
