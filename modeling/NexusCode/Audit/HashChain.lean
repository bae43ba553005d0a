/-
  The records of the audit log, and what is hashed of them.

  HMAC-SHA256 under the log's key is an arbitrary function from texts to hexadecimal texts, and so
  are the two patterns of the redaction.  A record is the JSON object that is written; `undefined`
  properties of an event's details are left out, as they are when it is printed.

  `sortDeep` fills a fresh object in key order, so a member called `__proto__` is lost.
-/
import NexusCode.Lib.JsonValue
import NexusCode.Shared.Stream

namespace NexusCode.Audit

open Lib Shared

/-! ## Canonical text -/

/-- `GENESIS_HASH`. -/
def genesisHash : String := String.ofList (List.replicate 64 '0')

mutual

/-- `sortDeep(value)`. -/
def sortDeep : Json → Json
  | .arr items => .arr (sortItems items)
  | .obj fields => .obj (Json.sortedEntries (sortFields fields))
  | v => v

def sortItems : List Json → List Json
  | [] => []
  | v :: rest => sortDeep v :: sortItems rest

def sortFields : List (String × Json) → List (String × Json)
  | [] => []
  | (k, v) :: rest => (k, sortDeep v) :: sortFields rest

end

/-- `canonicalize(value)`. -/
def canonicalize (value : Json) : String := Json.stringify (sortDeep value)

/-- `computeHash(rec, key)`; a `TypeError` where `prevHash` is no string. -/
def computeHash (hmac : String → String) (rec : Json) : Option String :=
  match rec.get? "prevHash" with
  | some (.str prevHash) => some (hmac (prevHash ++ canonicalize rec))
  | _ => none

/-! ## Events -/

/-- `AuditAction`. -/
inductive AuditAction where
  | authLogin
  | authLogout
  | authToken
  | runStart
  | runEnd
  | toolCall
  | toolApproval
  | configChange
  | policyDecision
  | rbacDecision
  | providerKeyAccess
deriving DecidableEq

/-- The wire name of an action. -/
def AuditAction.text : AuditAction → String
  | authLogin => "auth.login"
  | authLogout => "auth.logout"
  | authToken => "auth.token"
  | runStart => "run.start"
  | runEnd => "run.end"
  | toolCall => "tool.call"
  | toolApproval => "tool.approval"
  | configChange => "config.change"
  | policyDecision => "policy.decision"
  | rbacDecision => "rbac.decision"
  | providerKeyAccess => "provider.key_access"

/-- `AuditDecision`. -/
inductive AuditDecision where
  | allow
  | deny
  | success
  | failure
  | info
deriving DecidableEq

/-- The wire name of a decision. -/
def AuditDecision.text : AuditDecision → String
  | allow => "allow"
  | deny => "deny"
  | success => "success"
  | failure => "failure"
  | info => "info"

/-- `AuditInput`. -/
structure AuditInput where
  actor : String
  action : AuditAction
  role : Option String := none
  resource : Option String := none
  decision : Option AuditDecision := none
  details : Option (List (String × Json)) := none
  sessionId : Option String := none
  ts : Option JsNumber := none

/-- An event and the clock's reading: the numbers in it are numbers of the language, and no object
    has a key twice. -/
structure AuditEvent where
  input : AuditInput
  now : JsNumber
  isValue : (∀ fields ∈ input.details, (Json.obj fields).IsValue) ∧
    (Json.num (input.ts.getD now)).IsValue

/-! ## Redaction -/

/-- The name of a secret, and the masking of what looks like one in a text. -/
structure Redaction where
  secretKey : String → Bool
  redactSecrets : String → String

variable (redaction : Redaction)

mutual

/-- `redactArgs(value, depth)`. -/
def redactArgs (depth : Nat) : Json → Json
  | .str s => if 8 < depth then .str "[…]" else .str (redaction.redactSecrets s)
  | .arr items => if 8 < depth then .str "[…]" else .arr (redactItems depth 1000 items)
  | .obj fields =>
    if 8 < depth then .str "[…]"
    else .obj ((Json.enumerate (redactFields depth fields)).filter fun f => f.1 ≠ "__proto__")
  | v => if 8 < depth then .str "[…]" else v

/-- The first items. -/
def redactItems (depth : Nat) : Nat → List Json → List Json
  | n + 1, v :: rest => redactArgs (depth + 1) v :: redactItems depth n rest
  | _, _ => []

def redactFields (depth : Nat) : List (String × Json) → List (String × Json)
  | [] => []
  | (k, v) :: rest =>
    (k, if redaction.secretKey k then .str "[REDACTED]" else redactArgs (depth + 1) v) ::
      redactFields depth rest

end

/-! ## Records -/

/-- `base` in `append`: a record without its hash. -/
def baseRecord (seq : Nat) (prevHash : String) (event : AuditEvent) : List (String × Json) :=
  let input := event.input
  let optional := fun (key : String) (value : Option String) =>
    (value.map fun text => (key, Json.str (redaction.redactSecrets text))).toList
  [("v", .num 2),
    ("seq", .num (.fin seq)),
    ("ts", .num (input.ts.getD event.now)),
    ("actor", .str (redaction.redactSecrets input.actor)),
    ("action", .str input.action.text),
    ("decision", .str (input.decision.getD .info).text),
    ("prevHash", .str prevHash)] ++
  optional "role" input.role ++
  optional "resource" input.resource ++
  optional "sessionId" input.sessionId ++
  (input.details.map fun fields => ("details", redactArgs redaction 0 (.obj fields))).toList

/-- `{ ...base, hash }`. -/
def withHash (base : List (String × Json)) (hash : String) : Json :=
  .obj (base ++ [("hash", .str hash)])

end NexusCode.Audit
