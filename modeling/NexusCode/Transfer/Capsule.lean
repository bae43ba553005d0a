/-
  `createHandoffCapsule`: an input is read, redacted, ordered, compressed until it fits, signed and
  validated.

  * `normalizePayload` reads any object: what is not of the type is replaced, entries that are no
    objects are left out, and every list is sorted by the key of its entries.
  * `compressCapsule` shortens the texts of the entries, entry by entry.
  * `createHandoffCapsule` compresses at most twice, `serializeHandoffCapsule` prints.

  The members of an object stand in the order of the source; a member without a value is left out.
  Texts have no lone surrogates: a pair that a cut would split is left out whole.
-/
import NexusCode.Lib.JsMap
import NexusCode.Lib.JsonRecord
import NexusCode.Transfer.Integrity

namespace NexusCode.Transfer

open Lib Shared

/-! ## The capsule -/

/-- `HandoffMode`. -/
inductive HandoffMode where
  | full
  | consult
deriving DecidableEq

def HandoffMode.text : HandoffMode → String
  | full => "full"
  | consult => "consult"

/-- `CapsuleCompressionPolicy`. -/
inductive CapsuleCompressionPolicy where
  | semantic
  | truncateMiddle
deriving DecidableEq

def CapsuleCompressionPolicy.text : CapsuleCompressionPolicy → String
  | semantic => "semantic"
  | truncateMiddle => "truncateMiddle"

/-- `WorkStatus`. -/
inductive WorkStatus where
  | pending
  | inProgress
  | completed
  | blocked
  | cancelled
deriving DecidableEq

def WorkStatus.text : WorkStatus → String
  | pending => "pending"
  | inProgress => "in-progress"
  | completed => "completed"
  | blocked => "blocked"
  | cancelled => "cancelled"

/-- `OutcomeStatus`. -/
inductive OutcomeStatus where
  | pending
  | inProgress
  | success
  | partially
  | failure
deriving DecidableEq

def OutcomeStatus.text : OutcomeStatus → String
  | pending => "pending"
  | inProgress => "in-progress"
  | success => "success"
  | partially => "partial"
  | failure => "failure"

/-- The statuses of a test run. -/
inductive TestStatus where
  | passed
  | failed
  | partially
  | notRun
deriving DecidableEq

def TestStatus.text : TestStatus → String
  | passed => "passed"
  | failed => "failed"
  | partially => "partial"
  | notRun => "not-run"

/-- The kinds of a constraint. -/
inductive ConstraintKind where
  | must
  | should
  | mustNot
deriving DecidableEq

def ConstraintKind.text : ConstraintKind → String
  | must => "must"
  | should => "should"
  | mustNot => "must-not"

/-- The sources of a constraint. -/
inductive ConstraintSource where
  | user
  | system
  | project
  | inferred
deriving DecidableEq

def ConstraintSource.text : ConstraintSource → String
  | user => "user"
  | system => "system"
  | project => "project"
  | inferred => "inferred"

/-- The statuses of a modified file. -/
inductive FileStatus where
  | added
  | modified
  | deleted
  | renamed
  | untracked
deriving DecidableEq

def FileStatus.text : FileStatus → String
  | added => "added"
  | modified => "modified"
  | deleted => "deleted"
  | renamed => "renamed"
  | untracked => "untracked"

/-- `inclusion`. -/
inductive Inclusion where
  | included
  | dropped
deriving DecidableEq

def Inclusion.text : Inclusion → String
  | included => "included"
  | dropped => "dropped"

/-- `CapsuleGoal`. -/
structure CapsuleGoal where
  objective : String
  currentGoal : String
  successCriteria : List String

/-- `CapsuleTask`. -/
structure CapsuleTask where
  id : String
  title : String
  status : WorkStatus
  details : Option String
  blockers : List String
  relatedFiles : List String

/-- `CapsuleDecision`. -/
structure CapsuleDecision where
  id : String
  decision : String
  rationale : String
  alternatives : List String

/-- `CapsuleAssumption`. -/
structure CapsuleAssumption where
  id : String
  statement : String
  riskIfWrong : Option String

/-- `CapsuleConstraint`. -/
structure CapsuleConstraint where
  id : String
  kind : ConstraintKind
  statement : String
  source : ConstraintSource

/-- `CapsuleQuestion`. -/
structure CapsuleQuestion where
  id : String
  question : String
  blocker : Bool

/-- `CapsuleModifiedFile`. -/
structure CapsuleModifiedFile where
  path : String
  status : FileStatus
  summary : Option String
  diff : Option String
deriving DecidableEq

/-- `CapsuleCommand`. -/
structure CapsuleCommand where
  id : String
  command : String
  status : OutcomeStatus
  cwd : Option String
  exitCode : Option JsNumber
  summary : Option String
  output : Option String

/-- `CapsuleTestRun`. -/
structure CapsuleTestRun where
  id : String
  command : String
  status : TestStatus
  summary : String
  output : Option String

/-- `CapsuleToolOutcome`. -/
structure CapsuleToolOutcome where
  actionId : String
  tool : String
  status : OutcomeStatus
  summary : String
  output : Option String
  partialEffect : Option String
  idempotent : Bool
  turn : JsNumber

/-- `CapsulePendingApproval`. -/
structure CapsulePendingApproval where
  actionId : String
  description : String
  requestedBy : String

/-- `CapsuleContextEntry`. -/
structure CapsuleContextEntry where
  id : String
  kind : String
  source : String
  inclusion : Inclusion
  reason : String
  tokens : Option JsNumber
  content : Option String

/-- `CapsuleCheckpoint`. -/
structure CapsuleCheckpoint where
  id : String
  offset : JsNumber
  summary : String
  completedActionIds : List String

/-- `CapsulePartialResponse`. -/
@[ext]
structure CapsulePartialResponse where
  text : String
  finishReason : Option String
  continuationHint : Option String
  checkpoints : List CapsuleCheckpoint

/-- `HandoffCapsulePayload["source"]`. -/
structure CapsuleSource where
  sessionId : String
  runId : String
  turn : JsNumber
  providerId : String
  modelId : Option String

/-- `HandoffCapsulePayload["target"]`. -/
structure CapsuleTarget where
  providerId : String
  modelId : Option String

/-- `HandoffCapsulePayload["workspace"]`. -/
@[ext]
structure CapsuleWorkspace where
  modifiedFiles : List CapsuleModifiedFile
  commands : List CapsuleCommand
  tests : List CapsuleTestRun

/-- `HandoffCapsulePayload["tools"]`. -/
@[ext]
structure CapsuleTools where
  outcomes : List CapsuleToolOutcome
  pendingApprovals : List CapsulePendingApproval

/-- `HandoffCapsulePayload`. -/
@[ext]
structure HandoffCapsulePayload where
  source : CapsuleSource
  target : CapsuleTarget
  goal : CapsuleGoal
  plan : List CapsuleTask
  decisions : List CapsuleDecision
  assumptions : List CapsuleAssumption
  constraints : List CapsuleConstraint
  unresolvedQuestions : List CapsuleQuestion
  workspace : CapsuleWorkspace
  tools : CapsuleTools
  contextManifest : List CapsuleContextEntry
  doNotRepeatActionIds : List String
  partialResponse : Option CapsulePartialResponse

/-- `Omit<HandoffCapsule, "integrity">`. -/
@[ext]
structure UnsignedCapsule where
  createdAt : String
  mode : HandoffMode
  preventRetryWindow : JsNumber
  policy : CapsuleCompressionPolicy
  compressed : Bool
  omissions : List String
  payload : HandoffCapsulePayload

/-- `HandoffCapsule`. -/
structure HandoffCapsule where
  unsigned : UnsignedCapsule
  algorithm : String
  hash : String

/-! ## As a value -/

/-- An array of strings. -/
def texts (values : List String) : Json := .arr (values.map .str)

/-- An array of entries. -/
def entries {τ : Type} (toJson : τ → Json) (values : List τ) : Json := .arr (values.map toJson)

def CapsuleTask.toJson (t : CapsuleTask) : Json := .record [
  ("id", some (.str t.id)), ("title", some (.str t.title)), ("status", some (.str t.status.text)),
  ("details", t.details.map .str), ("blockers", some (texts t.blockers)),
  ("relatedFiles", some (texts t.relatedFiles))]

def CapsuleDecision.toJson (d : CapsuleDecision) : Json := .record [
  ("id", some (.str d.id)), ("decision", some (.str d.decision)),
  ("rationale", some (.str d.rationale)), ("alternatives", some (texts d.alternatives))]

def CapsuleAssumption.toJson (a : CapsuleAssumption) : Json := .record [
  ("id", some (.str a.id)), ("statement", some (.str a.statement)),
  ("riskIfWrong", a.riskIfWrong.map .str)]

def CapsuleConstraint.toJson (c : CapsuleConstraint) : Json := .record [
  ("id", some (.str c.id)), ("kind", some (.str c.kind.text)),
  ("statement", some (.str c.statement)), ("source", some (.str c.source.text))]

def CapsuleQuestion.toJson (q : CapsuleQuestion) : Json := .record [
  ("id", some (.str q.id)), ("question", some (.str q.question)),
  ("blocker", some (.bool q.blocker))]

def CapsuleModifiedFile.toJson (f : CapsuleModifiedFile) : Json := .record [
  ("path", some (.str f.path)), ("status", some (.str f.status.text)),
  ("summary", f.summary.map .str), ("diff", f.diff.map .str)]

def CapsuleCommand.toJson (c : CapsuleCommand) : Json := .record [
  ("id", some (.str c.id)), ("command", some (.str c.command)),
  ("status", some (.str c.status.text)), ("cwd", c.cwd.map .str), ("exitCode", c.exitCode.map .num),
  ("summary", c.summary.map .str), ("output", c.output.map .str)]

def CapsuleTestRun.toJson (t : CapsuleTestRun) : Json := .record [
  ("id", some (.str t.id)), ("command", some (.str t.command)),
  ("status", some (.str t.status.text)), ("summary", some (.str t.summary)),
  ("output", t.output.map .str)]

def CapsuleToolOutcome.toJson (o : CapsuleToolOutcome) : Json := .record [
  ("actionId", some (.str o.actionId)), ("tool", some (.str o.tool)),
  ("status", some (.str o.status.text)), ("summary", some (.str o.summary)),
  ("output", o.output.map .str), ("partialEffect", o.partialEffect.map .str),
  ("idempotent", some (.bool o.idempotent)), ("turn", some (.num o.turn))]

def CapsulePendingApproval.toJson (p : CapsulePendingApproval) : Json := .record [
  ("actionId", some (.str p.actionId)), ("description", some (.str p.description)),
  ("requestedBy", some (.str p.requestedBy))]

def CapsuleContextEntry.toJson (e : CapsuleContextEntry) : Json := .record [
  ("id", some (.str e.id)), ("kind", some (.str e.kind)), ("source", some (.str e.source)),
  ("inclusion", some (.str e.inclusion.text)), ("reason", some (.str e.reason)),
  ("tokens", e.tokens.map .num), ("content", e.content.map .str)]

def CapsuleCheckpoint.toJson (c : CapsuleCheckpoint) : Json := .record [
  ("id", some (.str c.id)), ("offset", some (.num c.offset)), ("summary", some (.str c.summary)),
  ("completedActionIds", some (texts c.completedActionIds))]

def CapsulePartialResponse.toJson (r : CapsulePartialResponse) : Json := .record [
  ("text", some (.str r.text)), ("finishReason", r.finishReason.map .str),
  ("continuationHint", r.continuationHint.map .str),
  ("checkpoints", some (entries CapsuleCheckpoint.toJson r.checkpoints))]

def CapsuleSource.toJson (s : CapsuleSource) : Json := .record [
  ("sessionId", some (.str s.sessionId)), ("runId", some (.str s.runId)),
  ("turn", some (.num s.turn)), ("providerId", some (.str s.providerId)),
  ("modelId", s.modelId.map .str)]

def CapsuleTarget.toJson (t : CapsuleTarget) : Json := .record [
  ("providerId", some (.str t.providerId)), ("modelId", t.modelId.map .str)]

def CapsuleGoal.toJson (g : CapsuleGoal) : Json := .record [
  ("objective", some (.str g.objective)), ("currentGoal", some (.str g.currentGoal)),
  ("successCriteria", some (texts g.successCriteria))]

def CapsuleWorkspace.toJson (w : CapsuleWorkspace) : Json := .record [
  ("modifiedFiles", some (entries CapsuleModifiedFile.toJson w.modifiedFiles)),
  ("commands", some (entries CapsuleCommand.toJson w.commands)),
  ("tests", some (entries CapsuleTestRun.toJson w.tests))]

def CapsuleTools.toJson (t : CapsuleTools) : Json := .record [
  ("outcomes", some (entries CapsuleToolOutcome.toJson t.outcomes)),
  ("pendingApprovals", some (entries CapsulePendingApproval.toJson t.pendingApprovals))]

/-- The members of the payload. -/
def HandoffCapsulePayload.members (p : HandoffCapsulePayload) : List (String × Option Json) := [
  ("source", some p.source.toJson), ("target", some p.target.toJson), ("goal", some p.goal.toJson),
  ("plan", some (entries CapsuleTask.toJson p.plan)),
  ("decisions", some (entries CapsuleDecision.toJson p.decisions)),
  ("assumptions", some (entries CapsuleAssumption.toJson p.assumptions)),
  ("constraints", some (entries CapsuleConstraint.toJson p.constraints)),
  ("unresolvedQuestions", some (entries CapsuleQuestion.toJson p.unresolvedQuestions)),
  ("workspace", some p.workspace.toJson), ("tools", some p.tools.toJson),
  ("contextManifest", some (entries CapsuleContextEntry.toJson p.contextManifest)),
  ("doNotRepeatActionIds", some (texts p.doNotRepeatActionIds)),
  ("partialResponse", p.partialResponse.map CapsulePartialResponse.toJson)]

/-- `handoff`. -/
def UnsignedCapsule.handoff (u : UnsignedCapsule) : Json := .record [
  ("mode", some (.str u.mode.text)), ("preventRetryWindow", some (.num u.preventRetryWindow)),
  ("canExecuteActions", some (.bool (u.mode = .full)))]

/-- `compression`. -/
def UnsignedCapsule.compression (u : UnsignedCapsule) : Json := .record [
  ("policy", some (.str u.policy.text)), ("compressed", some (.bool u.compressed)),
  ("omissions", some (texts u.omissions))]

/-- The members of the capsule before it is signed. -/
def UnsignedCapsule.members (u : UnsignedCapsule) : List (String × Option Json) :=
  [("schema", some (.str handoffCapsuleSchema)), ("createdAt", some (.str u.createdAt)),
    ("handoff", some u.handoff), ("compression", some u.compression)] ++ u.payload.members

def UnsignedCapsule.toJson (u : UnsignedCapsule) : Json := .record u.members

/-- `integrity`. -/
def HandoffCapsule.integrity (c : HandoffCapsule) : Json := .record [
  ("algorithm", some (.str c.algorithm)), ("hash", some (.str c.hash))]

def HandoffCapsule.toJson (c : HandoffCapsule) : Json :=
  .record (c.unsigned.members ++ [("integrity", some c.integrity)])

/-! ## Reading an input -/

/-- The value, when it is a string. -/
def stringOf : Unknown → Option String
  | some (.str s) => some s
  | _ => none

/-- The value, when it is a number. -/
def numberOf : Unknown → Option JsNumber
  | some (.num x) => some x
  | _ => none

/-- The items, when it is an array. -/
def itemsOf : Unknown → List Json
  | some (.arr items) => items
  | _ => []

/-- `compare(a, b)`. -/
def compare (a b : String) : ℚ :=
  if JsString.ltUnits a b then -1 else if JsString.ltUnits b a then 1 else 0

/-- `values.sort((a, b) => compare(key(a), key(b)))`, as `sortById(values)` does with the ids. -/
def sortByKey {τ : Type} (key : τ → String) (values : List τ) : List τ :=
  sortBy (fun a b => compare (key a) (key b)) values

/-- `new Set(values)`. -/
def setOf (values : List String) : List String :=
  values.foldl (fun set value => JsSet.add value set) []

/-- `uniqueSorted(values)`. -/
def uniqueSorted (values : List String) : List String := sortByKey id (setOf values)

/-- `safeInteger(value)`. -/
def safeInteger (value : Unknown) : JsNumber :=
  if isIntegerFrom 0 value then (numberOf value).getD 0 else 0

/-- `workStatus(value)`. -/
def workStatus (value : Unknown) : WorkStatus :=
  match stringOf value with
  | some "in-progress" => .inProgress
  | some "completed" => .completed
  | some "blocked" => .blocked
  | some "cancelled" => .cancelled
  | _ => .pending

/-- `outcomeStatus(value)`. -/
def outcomeStatus (value : Unknown) : OutcomeStatus :=
  match stringOf value with
  | some "in-progress" => .inProgress
  | some "success" => .success
  | some "partial" => .partially
  | some "failure" => .failure
  | _ => .pending

/-- `testStatus(value)`. -/
def testStatus (value : Unknown) : TestStatus :=
  match stringOf value with
  | some "passed" => .passed
  | some "failed" => .failed
  | some "partial" => .partially
  | _ => .notRun

/-- `constraintKind(value)`. -/
def constraintKind (value : Unknown) : ConstraintKind :=
  match stringOf value with
  | some "should" => .should
  | some "must-not" => .mustNot
  | _ => .must

/-- `constraintSource(value)`. -/
def constraintSource (value : Unknown) : ConstraintSource :=
  match stringOf value with
  | some "system" => .system
  | some "project" => .project
  | some "inferred" => .inferred
  | _ => .user

/-- `fileStatus(value)`. -/
def fileStatus (value : Unknown) : FileStatus :=
  match stringOf value with
  | some "added" => .added
  | some "deleted" => .deleted
  | some "renamed" => .renamed
  | some "untracked" => .untracked
  | _ => .modified

/-- `typeof value === "number" && Number.isInteger(value)`: the number, or nothing. -/
def exitCodeOf (value : Unknown) : Option JsNumber := (numberOf value).filter (·.isInteger)

/-- `Math.max(0, Math.ceil(value))` of a finite number. -/
def tokensOf (value : Unknown) : Option JsNumber :=
  match numberOf value with
  | some (.fin q) => some (.fin ((max 0 ⌈q⌉ : ℤ) : ℚ))
  | _ => none

section Reading

variable (redact : String → String)

/-- `safe(value)`. -/
def safe (value : Unknown) : String := redact ((stringOf value).getD "")

/-- `stringList(value)`. -/
def stringList (value : Unknown) : List String :=
  uniqueSorted (((itemsOf value).filterMap fun v => stringOf (some v)).map redact)

/-- `array(value, map)`. -/
def array {τ : Type} (value : Unknown) (map : Unknown → τ) : List τ :=
  ((itemsOf value).filter fun entry => isRecord (some entry)).map fun entry => map (some entry)

/-- `opt(value).value`: no text if it is empty. -/
def opt (value : Unknown) : Option String :=
  if (safe redact value).isEmpty then none else some (safe redact value)

def taskOf (entry : Unknown) : CapsuleTask where
  id := safe redact (property "id" entry)
  title := safe redact (property "title" entry)
  status := workStatus (property "status" entry)
  details := opt redact (property "details" entry)
  blockers := stringList redact (property "blockers" entry)
  relatedFiles := stringList redact (property "relatedFiles" entry)

def decisionOf (entry : Unknown) : CapsuleDecision where
  id := safe redact (property "id" entry)
  decision := safe redact (property "decision" entry)
  rationale := safe redact (property "rationale" entry)
  alternatives := stringList redact (property "alternatives" entry)

def assumptionOf (entry : Unknown) : CapsuleAssumption where
  id := safe redact (property "id" entry)
  statement := safe redact (property "statement" entry)
  riskIfWrong := opt redact (property "riskIfWrong" entry)

def constraintOf (entry : Unknown) : CapsuleConstraint where
  id := safe redact (property "id" entry)
  kind := constraintKind (property "kind" entry)
  statement := safe redact (property "statement" entry)
  source := constraintSource (property "source" entry)

def questionOf (entry : Unknown) : CapsuleQuestion where
  id := safe redact (property "id" entry)
  question := safe redact (property "question" entry)
  blocker := isFlag true (property "blocker" entry)

def modifiedFileOf (entry : Unknown) : CapsuleModifiedFile where
  path := safe redact (property "path" entry)
  status := fileStatus (property "status" entry)
  summary := opt redact (property "summary" entry)
  diff := opt redact (property "diff" entry)

def commandOf (entry : Unknown) : CapsuleCommand where
  id := safe redact (property "id" entry)
  command := safe redact (property "command" entry)
  status := outcomeStatus (property "status" entry)
  cwd := opt redact (property "cwd" entry)
  exitCode := exitCodeOf (property "exitCode" entry)
  summary := opt redact (property "summary" entry)
  output := opt redact (property "output" entry)

def testRunOf (entry : Unknown) : CapsuleTestRun where
  id := safe redact (property "id" entry)
  command := safe redact (property "command" entry)
  status := testStatus (property "status" entry)
  summary := safe redact (property "summary" entry)
  output := opt redact (property "output" entry)

def toolOutcomeOf (entry : Unknown) : CapsuleToolOutcome where
  actionId := safe redact (property "actionId" entry)
  tool := safe redact (property "tool" entry)
  status := outcomeStatus (property "status" entry)
  summary := safe redact (property "summary" entry)
  output := opt redact (property "output" entry)
  partialEffect := opt redact (property "partialEffect" entry)
  idempotent := isFlag true (property "idempotent" entry)
  turn := safeInteger (property "turn" entry)

def pendingApprovalOf (entry : Unknown) : CapsulePendingApproval where
  actionId := safe redact (property "actionId" entry)
  description := safe redact (property "description" entry)
  requestedBy := safe redact (property "requestedBy" entry)

def contextEntryOf (entry : Unknown) : CapsuleContextEntry where
  id := safe redact (property "id" entry)
  kind := safe redact (property "kind" entry)
  source := safe redact (property "source" entry)
  inclusion := if isText "included" (property "inclusion" entry) then .included else .dropped
  reason := safe redact (property "reason" entry)
  tokens := tokensOf (property "tokens" entry)
  content := opt redact (property "content" entry)

def checkpointOf (entry : Unknown) : CapsuleCheckpoint where
  id := safe redact (property "id" entry)
  offset := safeInteger (property "offset" entry)
  summary := safe redact (property "summary" entry)
  completedActionIds := stringList redact (property "completedActionIds" entry)

/-- The key by which the context manifest is sorted. -/
def CapsuleContextEntry.key (e : CapsuleContextEntry) : String := e.inclusion.text ++ ":" ++ e.id

def partialResponseOf (value : Unknown) : CapsulePartialResponse where
  text := safe redact (property "text" value)
  finishReason := opt redact (property "finishReason" value)
  continuationHint := opt redact (property "continuationHint" value)
  checkpoints := sortByKey CapsuleCheckpoint.id
    (array (property "checkpoints" value) (checkpointOf redact))

/-- `normalizePayload(input, redact)`.  Reading a member of something that is not an object gives
    `undefined`, as reading it of an empty object does. -/
def normalizePayload (input : Unknown) : HandoffCapsulePayload :=
  let source := property "source" input
  let target := property "target" input
  let goal := property "goal" input
  let workspace := property "workspace" input
  let tools := property "tools" input
  let partialResponse := property "partialResponse" input
  { source := {
      sessionId := safe redact (property "sessionId" source)
      runId := safe redact (property "runId" source)
      turn := safeInteger (property "turn" source)
      providerId := safe redact (property "providerId" source)
      modelId := opt redact (property "modelId" source) }
    target := {
      providerId := safe redact (property "providerId" target)
      modelId := opt redact (property "modelId" target) }
    goal := {
      objective := safe redact (property "objective" goal)
      currentGoal := safe redact (property "currentGoal" goal)
      successCriteria := stringList redact (property "successCriteria" goal) }
    plan := sortByKey CapsuleTask.id (array (property "plan" input) (taskOf redact))
    decisions := sortByKey CapsuleDecision.id
      (array (property "decisions" input) (decisionOf redact))
    assumptions := sortByKey CapsuleAssumption.id
      (array (property "assumptions" input) (assumptionOf redact))
    constraints := sortByKey CapsuleConstraint.id
      (array (property "constraints" input) (constraintOf redact))
    unresolvedQuestions := sortByKey CapsuleQuestion.id
      (array (property "unresolvedQuestions" input) (questionOf redact))
    workspace := {
      modifiedFiles := sortByKey CapsuleModifiedFile.path
        (array (property "modifiedFiles" workspace) (modifiedFileOf redact))
      commands := sortByKey CapsuleCommand.id
        (array (property "commands" workspace) (commandOf redact))
      tests := sortByKey CapsuleTestRun.id
        (array (property "tests" workspace) (testRunOf redact)) }
    tools := {
      outcomes := sortByKey CapsuleToolOutcome.actionId
        (array (property "outcomes" tools) (toolOutcomeOf redact))
      pendingApprovals := sortByKey CapsulePendingApproval.actionId
        (array (property "pendingApprovals" tools) (pendingApprovalOf redact)) }
    contextManifest := sortByKey CapsuleContextEntry.key
      (array (property "contextManifest" input) (contextEntryOf redact))
    doNotRepeatActionIds := stringList redact (property "doNotRepeatActionIds" input)
    partialResponse :=
      if isRecord partialResponse then some (partialResponseOf redact partialResponse) else none }

end Reading

/-! ## Compression -/

/-- The characters after the first `n` code units. -/
def dropUnits : Nat → List Char → List Char
  | _, [] => []
  | n, c :: cs => if n = 0 then c :: cs else dropUnits (n - (JsString.unitsOf c).length) cs

/-- `s.slice(n)`. -/
def sliceFrom (n : Nat) (s : String) : String := String.ofList (dropUnits n s.toList)

/-- The marker of a policy. -/
def CapsuleCompressionPolicy.marker : CapsuleCompressionPolicy → String
  | semantic => "\n… <semantic detail omitted> …\n"
  | truncateMiddle => "\n… <middle omitted> …\n"

/-- `truncate(value, maxChars, policy)`. -/
def truncate (value : String) (maxChars : Nat) (policy : CapsuleCompressionPolicy) : String :=
  if JsString.length16 value ≤ maxChars then value
  else if maxChars < 32 then JsString.sliceTo maxChars value
  else
    let remaining := maxChars - JsString.length16 policy.marker
    let head := (remaining + 1) / 2
    JsString.sliceTo head value ++ policy.marker ++
      sliceFrom (JsString.length16 value - (remaining - head)) value

/-- `"large" | "small"`. -/
inductive CompressionLevel where
  | large
  | small
deriving DecidableEq

namespace CompressionLevel

def text : CompressionLevel → String
  | large => "large"
  | small => "small"

/-- `limit`. -/
def limit : CompressionLevel → Nat
  | large => 2048
  | small => 384

/-- The limit of the text of a partial response. -/
def responseLimit : CompressionLevel → Nat
  | large => 8192
  | small => 1024

end CompressionLevel

section Compression

variable (policy : CapsuleCompressionPolicy) (level : CompressionLevel)

/-- `truncate(value, limit, policy)`. -/
def cut (value : String) : String := truncate value level.limit policy

/-- `optionalText(text(value), key)`: no text if nothing is left of it. -/
def optionalText (value : Option String) : Option String :=
  ((value.map (cut policy level)).map (cut policy level)).filter fun next => !next.isEmpty

/-- `...(!semantic ? optionalText(text(value), key) : {})`. -/
def rawText (value : Option String) : Option String :=
  if policy = .semantic then none else optionalText policy level value

def compressTask (entry : CapsuleTask) : CapsuleTask :=
  { entry with
    details := (optionalText policy level entry.details).or entry.details
    blockers := if level = .small then entry.blockers.map (cut policy level) else entry.blockers }

def compressDecision (entry : CapsuleDecision) : CapsuleDecision :=
  { entry with
    rationale := cut policy level entry.rationale
    alternatives :=
      if level = .small then entry.alternatives.map (cut policy level) else entry.alternatives }

def compressAssumption (entry : CapsuleAssumption) : CapsuleAssumption :=
  { entry with
    riskIfWrong := (optionalText policy level entry.riskIfWrong).or entry.riskIfWrong }

def compressModifiedFile (entry : CapsuleModifiedFile) : CapsuleModifiedFile :=
  { entry with
    summary := optionalText policy level entry.summary
    diff := rawText policy level entry.diff }

def compressCommand (entry : CapsuleCommand) : CapsuleCommand :=
  { entry with
    summary := optionalText policy level entry.summary
    output := rawText policy level entry.output }

def compressTestRun (entry : CapsuleTestRun) : CapsuleTestRun :=
  { entry with
    summary := cut policy level entry.summary
    output := rawText policy level entry.output }

def compressToolOutcome (entry : CapsuleToolOutcome) : CapsuleToolOutcome :=
  { entry with
    summary := cut policy level entry.summary
    output := rawText policy level entry.output
    partialEffect := optionalText policy level entry.partialEffect }

def compressPendingApproval (entry : CapsulePendingApproval) : CapsulePendingApproval :=
  { entry with description := cut policy level entry.description }

def compressContextEntry (entry : CapsuleContextEntry) : CapsuleContextEntry :=
  { entry with
    reason := cut policy level entry.reason
    content := rawText policy level entry.content }

def compressCheckpoint (entry : CapsuleCheckpoint) : CapsuleCheckpoint :=
  { entry with summary := cut policy level entry.summary }

def compressPartialResponse (response : CapsulePartialResponse) : CapsulePartialResponse :=
  { response with
    text := truncate response.text level.responseLimit policy
    checkpoints := response.checkpoints.map (compressCheckpoint policy level) }

def compressPayload (p : HandoffCapsulePayload) : HandoffCapsulePayload :=
  { p with
    plan := p.plan.map (compressTask policy level)
    decisions := p.decisions.map (compressDecision policy level)
    assumptions := p.assumptions.map (compressAssumption policy level)
    workspace := {
      modifiedFiles := p.workspace.modifiedFiles.map (compressModifiedFile policy level)
      commands := p.workspace.commands.map (compressCommand policy level)
      tests := p.workspace.tests.map (compressTestRun policy level) }
    tools := {
      outcomes := p.tools.outcomes.map (compressToolOutcome policy level)
      pendingApprovals := p.tools.pendingApprovals.map (compressPendingApproval policy level) }
    contextManifest := p.contextManifest.map (compressContextEntry policy level)
    partialResponse := p.partialResponse.map (compressPartialResponse policy level) }

/-- What a compression notes as left out. -/
def noted : List String :=
  (policy.text ++ ":" ++ level.text) ::
    if policy = .semantic then
      ["workspace.raw-diffs", "command-test-tool.raw-output", "context.raw-content"]
    else []

/-- `compressCapsule(capsule, policy, level)`. -/
def compressCapsule (capsule : UnsignedCapsule) : UnsignedCapsule :=
  { capsule with
    policy := policy
    compressed := true
    omissions := uniqueSorted (capsule.omissions ++ noted policy level)
    payload := compressPayload policy level capsule.payload }

end Compression

/-! ## Creating a capsule -/

/-- What the package takes from its platform, and the patterns it redacts by: the digests are
    hexadecimal. -/
structure CapsuleHost extends Platform where
  /-- `new Date().toISOString()`. -/
  now : String
  /-- `new Date(Date.parse(value)).toISOString()`, where `Date.parse(value)` is finite. -/
  toISOString : String → String
  /-- The built-in patterns of `createRedactor`. -/
  scan : String → String
  digest_sha256 : ∀ text, isDigest ("sha256:" ++ sha256 text) = true
  digest_hmac : ∀ key text, isDigest ("hmac-sha256:" ++ hmacSha256 key text) = true

/-- `HandoffCapsuleInput`: any object. -/
structure HandoffCapsuleInput where
  fields : List (String × Json)
  isValue : Json.IsValue (.obj fields)

def HandoffCapsuleInput.value (input : HandoffCapsuleInput) : Json := .obj input.fields

/-- A value of type `number`. -/
abbrev NumberValue := { x : JsNumber // Json.IsValue (.num x) }

/-- `TransferCapsuleConfig`. -/
structure TransferCapsuleConfig where
  compressionPolicy : CapsuleCompressionPolicy
  validationStrictness : CapsuleValidationStrictness
  mode : HandoffMode
  preventRetryWindow : NumberValue

/-- `HandoffCapsuleOptions`. -/
structure HandoffCapsuleOptions where
  config : Option TransferCapsuleConfig := none
  compressionPolicy : Option CapsuleCompressionPolicy := none
  validationStrictness : Option CapsuleValidationStrictness := none
  mode : Option HandoffMode := none
  preventRetryWindow : Option NumberValue := none
  maxBytes : Option JsNumber := none
  maxTokens : Option JsNumber := none
  estimateTokens : Option (String → JsNumber) := none
  secrets : List String := []
  redact : Option (String → String) := none
  integrityKey : Option IntegrityKey := none
  createdAt : Option String := none

/-- `ResolvedOptions`. -/
structure ResolvedOptions where
  compressionPolicy : CapsuleCompressionPolicy
  validationStrictness : CapsuleValidationStrictness
  mode : HandoffMode
  preventRetryWindow : NumberValue
  maxBytes : JsNumber
  maxTokens : JsNumber
  estimateTokens : String → JsNumber

/-- `DEFAULT_PREVENT_RETRY_WINDOW`. -/
def defaultPreventRetryWindow : NumberValue := ⟨5, JsNumber.isDouble_natCast (by decide)⟩

/-- `Number.isInteger(value) && value > 0`. -/
def isPositiveInteger (value : JsNumber) : Bool := value.isInteger && JsNumber.lt 0 value

/-- The options with their defaults. -/
def HandoffCapsuleOptions.resolved (options : HandoffCapsuleOptions) : ResolvedOptions where
  compressionPolicy :=
    (options.compressionPolicy.or (options.config.map (·.compressionPolicy))).getD .semantic
  validationStrictness :=
    (options.validationStrictness.or (options.config.map (·.validationStrictness))).getD .strict
  mode := (options.mode.or (options.config.map (·.mode))).getD .full
  preventRetryWindow :=
    (options.preventRetryWindow.or (options.config.map (·.preventRetryWindow))).getD
      defaultPreventRetryWindow
  maxBytes := options.maxBytes.getD (.fin 262144)
  maxTokens := options.maxTokens.getD 48000
  estimateTokens := options.estimateTokens.getD defaultEstimateTokens

/-- `resolveOptions(options)`: the first bound that is no positive integer is reported. -/
def resolveOptions (options : HandoffCapsuleOptions) : Except CapsuleError ResolvedOptions :=
  let resolved := options.resolved
  let bounds := [("preventRetryWindow", resolved.preventRetryWindow.1),
    ("maxBytes", resolved.maxBytes), ("maxTokens", resolved.maxTokens)]
  match bounds.find? fun bound => !isPositiveInteger bound.2 with
  | some (name, _) => .error (.validation [name ++ " must be a positive integer"])
  | none => .ok resolved

/-- `validateInput(input)`. -/
def validateInput (input : Unknown) : List String :=
  if !isRecord input then ["input must be an object"]
  else
    validateEndpoint (property "source" input) "source" true ++
      validateEndpoint (property "target" input) "target" false ++
      validateGoal (property "goal" input)

variable (host : CapsuleHost)

/-- `createRedactor(options)`. -/
def createRedactor (options : HandoffCapsuleOptions) (text : String) : String :=
  let secrets := options.secrets.filter fun secret => 6 ≤ JsString.length16 secret
  let out := secrets.foldl (fun out secret => "<redacted>".intercalate (out.splitOn secret)) text
  options.redact.getD id (host.scan out)

/-- `normalizeCreatedAt(value, strictness)`. -/
def normalizeCreatedAt (value : Option String) (strictness : CapsuleValidationStrictness) :
    Except CapsuleError String :=
  match value with
  | none => .ok host.now
  | some value =>
    if host.isDate value then .ok (host.toISOString value)
    else if strictness = .strict then .error (.validation ["createdAt must be an ISO timestamp"])
    else .ok "1970-01-01T00:00:00.000Z"

/-- `signCapsule(unsigned, integrityKey)`. -/
def signCapsule (unsigned : UnsignedCapsule) (integrityKey : Option IntegrityKey) :
    HandoffCapsule :=
  match integrityKey with
  | some key => ⟨unsigned, "hmac-sha256",
      authenticatedIntegrityHash host.toPlatform unsigned.toJson key⟩
  | none => ⟨unsigned, "sha256", integrityHash host.toPlatform unsigned.toJson⟩

/-- `fitsBudget(capsule, options)`. -/
def fitsBudget (capsule : HandoffCapsule) (options : ResolvedOptions) : Bool :=
  let serialized := canonicalStringify capsule.toJson
  JsNumber.le (.fin (byteLength serialized : Nat)) options.maxBytes &&
    JsNumber.le (options.estimateTokens serialized) options.maxTokens

/-- The compressions of `createHandoffCapsule`: a second one where the first was not enough. -/
def compressToFit (fits : UnsignedCapsule → Bool) (policy : CapsuleCompressionPolicy)
    (unsigned : UnsignedCapsule) : UnsignedCapsule :=
  let once := if fits unsigned then unsigned else compressCapsule policy .large unsigned
  if fits once then once else compressCapsule policy .small once

/-- The end of `createHandoffCapsule`: the capsule is compressed, measured, validated and issued. -/
def issueCapsule (options : HandoffCapsuleOptions) (resolved : ResolvedOptions)
    (unsigned : UnsignedCapsule) : Except CapsuleError HandoffCapsule :=
  let fits := fun unsigned => fitsBudget (signCapsule host unsigned options.integrityKey) resolved
  let capsule := signCapsule host (compressToFit fits resolved.compressionPolicy unsigned)
    options.integrityKey
  let serialized := canonicalStringify capsule.toJson
  let result := validateHandoffCapsule host.isDate resolved.validationStrictness (some capsule.toJson)
  if !fitsBudget capsule resolved then
    .error (.budget (byteLength serialized) (resolved.estimateTokens serialized))
  else if !result.valid then .error (.validation result.errors)
  else .ok capsule

/-- `createHandoffCapsule(input, options)`. -/
def createHandoffCapsule (input : HandoffCapsuleInput) (options : HandoffCapsuleOptions) :
    Except CapsuleError HandoffCapsule := do
  let resolved ← resolveOptions options
  let inputIssues := validateInput (some input.value)
  if resolved.validationStrictness = .strict ∧ inputIssues ≠ [] then
    throw (.validation inputIssues)
  let payload := normalizePayload (createRedactor host options) (some input.value)
  let createdAt ← normalizeCreatedAt host options.createdAt resolved.validationStrictness
  issueCapsule host options resolved {
    createdAt := createdAt
    mode := resolved.mode
    preventRetryWindow := resolved.preventRetryWindow.1
    policy := resolved.compressionPolicy
    compressed := false
    omissions := []
    payload := payload }

/-- `serializeHandoffCapsule(capsule, options)`. -/
def serializeHandoffCapsule (capsule : Json) (integrityKey : Option IntegrityKey) :
    Except CapsuleError String :=
  let validation := validateHandoffCapsule host.isDate .strict (some capsule)
  if !validation.valid then .error (.validation validation.errors)
  else
    match verifyHandoffCapsuleIntegrity host.toPlatform capsule integrityKey with
    | .error e => .error e
    | .ok () => .ok (canonicalStringify capsule)

/-- The options of `deserializeHandoffCapsule` among those of `createHandoffCapsule`. -/
def HandoffCapsuleOptions.reading (options : HandoffCapsuleOptions) : DeserializeOptions where
  validationStrictness := options.validationStrictness
  maxBytes := options.maxBytes
  maxTokens := options.maxTokens
  estimateTokens := options.estimateTokens
  integrityKey := options.integrityKey

end NexusCode.Transfer
