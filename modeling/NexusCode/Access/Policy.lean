/-
  Policy rules, and the authorizer that falls through to the roles.

  A request is decided by rules that match its subject, action and resource.  Their conditions have
  three outcomes, read differently by the two effects: an allow needs them satisfied, a deny only
  fails to apply when they are unsatisfied.

    1. `evaluateConditions`, `structuralMatch` — one rule.
    2. `PolicyEvaluator.evaluate`              — the rules, in order.
    3. `Authorizer.authorize`                  — rules, then roles.

  A check is `none` where compiling a pattern raises an error.
-/
import NexusCode.Access.Roles
import NexusCode.Lib.JsNumber

namespace NexusCode.Access

open Lib

/-! ## Rules and requests -/

/-- `PolicyEffect`. -/
inductive PolicyEffect where
  | allow
  | deny
deriving DecidableEq

/-- `PolicySubjects`. -/
structure PolicySubjects where
  roles : Option (List String) := none
  principals : Option (List String) := none

/-- `TimeWindow`. -/
structure TimeWindow where
  start : String
  «end» : String

/-- `PolicyConditions`. -/
structure PolicyConditions where
  maxCostUsd : Option JsNumber := none
  timeWindow : Option TimeWindow := none
  dataClass : Option (List String) := none

/-- `PolicyRule`. -/
structure PolicyRule where
  id : Option String := none
  effect : PolicyEffect
  subjects : Option PolicySubjects := none
  actions : Option (List String) := none
  resources : Option (List String) := none
  conditions : Option PolicyConditions := none
  description : Option String := none

/-- `AuthorizationContext`; a date is its time value. -/
structure AuthorizationContext where
  costUsd : Option JsNumber := none
  now : Option JsNumber := none
  dataClass : Option String := none

/-- `AuthorizationRequest`. -/
structure AuthorizationRequest where
  principal : Principal
  action : String
  resource : String
  context : Option AuthorizationContext := none

/-- What the host says about time: the clock, and the minutes since local midnight at a time
    value, if it is one. -/
structure HostTime where
  now : JsNumber
  minutesOfDay : JsNumber → Option Nat

/-! ## One rule -/

/-- `subjectMatches(rule, req)`. -/
def subjectMatches (rule : PolicyRule) (req : AuthorizationRequest) : Bool :=
  let roles := (rule.subjects.bind (·.roles)).getD []
  let principals := (rule.subjects.bind (·.principals)).getD []
  if roles.isEmpty && principals.isEmpty then true
  else decide (req.principal.id ∈ principals) || req.principal.roles.any (· ∈ roles)

/-- `listMatches(list, value)`. -/
def listMatches (list : Option (List String)) (value : String) : Option Bool :=
  match list with
  | none => some true
  | some [] => some true
  | some (pattern :: rest) => includesOrMatches (pattern :: rest) value

/-- `parseClock(hhmm)`. -/
def parseClock (hhmm : String) : Option Nat :=
  let number := fun (ds : List Char) => ds.foldl (fun n c => 10 * n + (c.toNat - 48)) 0
  let clock := fun (hours minutes : List Char) =>
    if (hours ++ minutes).all Char.isDigit then
      if 23 < number hours || 59 < number minutes then none
      else some (number hours * 60 + number minutes)
    else none
  match hhmm.toList with
  | [h, ':', m, m'] => clock [h] [m, m']
  | [h, h', ':', m, m'] => clock [h, h'] [m, m']
  | _ => none

/-- `withinWindow(win, now)`. -/
def withinWindow (time : HostTime) (win : TimeWindow) (now : JsNumber) : Bool :=
  match parseClock win.start, parseClock win.end, time.minutesOfDay now with
  | some start, some «end», some cur =>
    if start ≤ «end» then start ≤ cur && cur ≤ «end» else start ≤ cur || cur ≤ «end»
  | _, _, _ => false

/-- `ConditionOutcome`. -/
inductive ConditionOutcome where
  | satisfied
  | unsatisfied
  | unknown
deriving DecidableEq

/-- `evaluateConditions(conditions, req)`. -/
def evaluateConditions (time : HostTime) (conditions : Option PolicyConditions)
    (req : AuthorizationRequest) : ConditionOutcome :=
  match conditions with
  | none => .satisfied
  | some conditions =>
    let ctx := req.context.getD {}
    let overBudget := match conditions.maxCostUsd, ctx.costUsd with
      | some cap, some cost => cap.lt cost
      | _, _ => false
    let offHours := match conditions.timeWindow with
      | some win => !withinWindow time win (ctx.now.getD time.now)
      | none => false
    let otherClass := match conditions.dataClass, ctx.dataClass with
      | some classes, some dataClass => !decide (dataClass ∈ classes)
      | _, _ => false
    let sawUnknown := conditions.maxCostUsd.isSome && ctx.costUsd.isNone ||
      conditions.dataClass.isSome && ctx.dataClass.isNone
    if overBudget then .unsatisfied
    else if offHours then .unsatisfied
    else if otherClass then .unsatisfied
    else if sawUnknown then .unknown
    else .satisfied

/-- `structuralMatch(rule, req)`. -/
def structuralMatch (rule : PolicyRule) (req : AuthorizationRequest) : Option Bool :=
  if subjectMatches rule req then do
    if ← listMatches rule.actions req.action then listMatches rule.resources req.resource
    else some false
  else some false

/-! ## The rules -/

/-- `PolicyDecision`. -/
structure PolicyDecision where
  allowed : Bool
  reason : String
  matchedRule : Option PolicyRule := none

/-- A text that is not empty. -/
def truthy (text : Option String) : Option String := text.filter (· ≠ "")

/-- `describe(rule, kind)`. -/
def describe (rule : PolicyRule) (kind : String) : String :=
  let label := match truthy rule.id with
    | some id => "rule \"" ++ id ++ "\""
    | none => "policy rule"
  let note := match truthy rule.description with
    | some description => " — " ++ description
    | none => ""
  label ++ ": " ++ kind ++ note

/-- The decision of a deny rule whose conditions have this outcome. -/
def explicitDeny (rule : PolicyRule) (outcome : ConditionOutcome) : PolicyDecision where
  allowed := false
  reason := describe rule (if outcome = .unknown then
    "explicit deny (conditions unverifiable — fail closed)" else "explicit deny")
  matchedRule := some rule

/-- The decision after all rules. -/
def afterRules : Option PolicyRule → PolicyDecision
  | some rule =>
    { allowed := true, reason := describe rule "allow", matchedRule := some rule }
  | none =>
    { allowed := false, reason := "default deny: no matching policy rule (fail closed)" }

/-- The loop of `evaluate`, with the first allow so far. -/
def evaluateFrom (time : HostTime) (request : AuthorizationRequest) :
    Option PolicyRule → List PolicyRule → Option PolicyDecision
  | firstAllow, [] => some (afterRules firstAllow)
  | firstAllow, rule :: rest => do
    if ← structuralMatch rule request then
      let outcome := evaluateConditions time rule.conditions request
      match rule.effect with
      | .deny =>
        if outcome = .unsatisfied then evaluateFrom time request firstAllow rest
        else some (explicitDeny rule outcome)
      | .allow =>
        if outcome = .satisfied then evaluateFrom time request (firstAllow <|> some rule) rest
        else evaluateFrom time request firstAllow rest
    else evaluateFrom time request firstAllow rest

/-- `PolicyEvaluator`. -/
structure PolicyEvaluator where
  rules : List PolicyRule := []

/-- `evaluate(request)`. -/
def PolicyEvaluator.evaluate (evaluator : PolicyEvaluator) (time : HostTime)
    (request : AuthorizationRequest) : Option PolicyDecision :=
  evaluateFrom time request none evaluator.rules

/-! ## The authorizer -/

/-- `DecisionSource`. -/
inductive DecisionSource where
  | policy
  | rbac
deriving DecidableEq

/-- `AuthorizationDecision`. -/
structure AuthorizationDecision where
  allowed : Bool
  reason : String
  source : DecisionSource
  matchedRule : Option PolicyRule := none

/-- `Authorizer`. -/
structure Authorizer where
  roleStore : RoleStore
  evaluator : PolicyEvaluator := {}

/-- The decision after the policy's: a rule that matched settles it, otherwise the roles do. -/
def Authorizer.settle (authorizer : Authorizer) (request : AuthorizationRequest)
    (policy : PolicyDecision) : Option AuthorizationDecision :=
  let effect := policy.matchedRule.map (·.effect)
  if effect = some .deny then
    some { allowed := false, reason := policy.reason, source := .policy
           matchedRule := policy.matchedRule }
  else if effect = some .allow && policy.allowed then
    some { allowed := true, reason := policy.reason, source := .policy
           matchedRule := policy.matchedRule }
  else
    (authorizer.roleStore.explain request.principal request.action request.resource).map fun rbac =>
      { allowed := rbac.allowed, reason := rbac.reason, source := .rbac }

/-- `authorize(request)`. -/
def Authorizer.authorize (authorizer : Authorizer) (time : HostTime)
    (request : AuthorizationRequest) : Option AuthorizationDecision :=
  (authorizer.evaluator.evaluate time request).bind (authorizer.settle request)

end NexusCode.Access
