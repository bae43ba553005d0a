/-
  `validateHandoffCapsule`: the schema of a handoff capsule, checked on any value.

  A check answers with its errors in the order in which the source pushes them, so that the
  errors of a whole value are the errors of its parts, one after the other.  A value is accepted
  when there are none.  Reading a property that is not there gives `undefined` (`none`).
-/
import NexusCode.Shared.Stream

namespace NexusCode.Transfer

open Lib Shared

/-! ## Readings -/

/-- `isRecord(value)`. -/
def isRecord : Unknown → Bool
  | some (.obj _) => true
  | _ => false

/-- `Array.isArray(value)`. -/
def isArray : Unknown → Bool
  | some (.arr _) => true
  | _ => false

/-- `typeof value === "boolean"`. -/
def isBoolean : Unknown → Bool
  | some (.bool _) => true
  | _ => false

/-- `value === text`. -/
def isText (text : String) : Unknown → Bool
  | some (.str s) => s == text
  | _ => false

/-- `value === flag`. -/
def isFlag (flag : Bool) : Unknown → Bool
  | some (.bool b) => b == flag
  | _ => false

/-- `value[key]`. -/
def property (key : String) (value : Unknown) : Unknown := value.bind (Json.get? key)

/-- `Number.isInteger(value)` and `value` is at least `least`. -/
def isIntegerFrom (least : JsNumber) : Unknown → Bool
  | some (.num x) => x.isInteger && !JsNumber.lt x least
  | _ => false

/-- An error, unless the test holds. -/
def require (test : Bool) (error : String) : List String := if test then [] else [error]

/-- A path in front of a key. -/
def dotted (path key : String) : String := if path.isEmpty then key else path ++ "." ++ key

/-! ## The checks -/

/-- Is the value a string that is not blank? -/
def isNonEmptyString : Unknown → Bool
  | some (.str s) => !JsString.isBlank s
  | _ => false

/-- `requiredString(value, key, errors, prefix)`. -/
def requiredString (value : Unknown) (key path : String) : List String :=
  require (isNonEmptyString (property key value)) (dotted path key ++ " must be a non-empty string")

/-- `validateEndpoint(value, path, errors, source)`. -/
def validateEndpoint (value : Unknown) (path : String) (source : Bool) : List String :=
  if !isRecord value then [path ++ " must be an object"]
  else
    requiredString value "providerId" path ++
      if source then
        requiredString value "sessionId" path ++ requiredString value "runId" path ++
          require (isIntegerFrom 0 (property "turn" value))
            (path ++ ".turn must be a non-negative integer")
      else []

/-- `validateGoal(value, errors)`. -/
def validateGoal (value : Unknown) : List String :=
  if !isRecord value then ["goal must be an object"]
  else
    requiredString value "objective" "goal" ++ requiredString value "currentGoal" "goal" ++
      require (isArray (property "successCriteria" value)) "goal.successCriteria must be an array"

/-- `validateHandoff(value, errors)`. -/
def validateHandoff (value : Unknown) : List String :=
  if !isRecord value then ["handoff must be an object"]
  else
    let mode := property "mode" value
    let canExecuteActions := property "canExecuteActions" value
    require (isText "full" mode || isText "consult" mode) "handoff.mode is invalid" ++
    require (isIntegerFrom 1 (property "preventRetryWindow" value))
      "handoff.preventRetryWindow must be a positive integer" ++
    require (isBoolean canExecuteActions) "handoff.canExecuteActions must be boolean" ++
    require (!((isText "consult" mode && !isFlag false canExecuteActions) ||
        (isText "full" mode && !isFlag true canExecuteActions)))
      "handoff.canExecuteActions does not match mode"

/-- `validateCompression(value, errors)`. -/
def validateCompression (value : Unknown) : List String :=
  if !isRecord value then ["compression must be an object"]
  else
    let policy := property "policy" value
    require (isText "semantic" policy || isText "truncateMiddle" policy)
      "compression.policy is invalid" ++
    require (isBoolean (property "compressed" value)) "compression.compressed must be boolean" ++
    require (isArray (property "omissions" value)) "compression.omissions must be an array"

/-- `path[index]`. -/
def indexed (path : String) (index : Nat) : String := path ++ "[" ++ toString index ++ "]"

/-- The errors of one entry of `validateEntityArray`. -/
def validateEntity (path idKey : String) (requiredFields : List String) (entry : Json)
    (index : Nat) : List String :=
  if !isRecord (some entry) then [indexed path index ++ " must be an object"]
  else (idKey :: requiredFields).flatMap fun key =>
    requiredString (some entry) key (indexed path index)

/-- `validateEntityArray(value, path, idKey, requiredFields, errors)`. -/
def validateEntityArray (value : Unknown) (path idKey : String) (requiredFields : List String) :
    List String :=
  match value with
  | some (.arr entries) =>
    entries.zipIdx.flatMap fun (entry, index) => validateEntity path idKey requiredFields entry index
  | _ => []

/-- `validateStringArray(value, path, errors)`. -/
def validateStringArray (value : Unknown) (path : String) : List String :=
  match value with
  | some (.arr entries) => entries.zipIdx.flatMap fun (entry, index) =>
    match entry with
    | .str s => require (0 < JsString.length16 s)
        (indexed path index ++ " must be a non-empty string")
    | _ => [indexed path index ++ " must be a non-empty string"]
  | _ => []

/-- The ids of the entries of an array that have one. -/
def idsOf (key : String) (entries : List Json) : List String :=
  entries.filterMap fun entry =>
    match property key (some entry) with
    | some (.str id) => some id
    | _ => none

/-- One location of `collectDuplicateIds(value, errors)`. -/
def duplicateIds (value : Unknown) (path key : String) : List String :=
  match value with
  | some (.arr entries) =>
    require (decide (idsOf key entries).Nodup)
      (path ++ " contains duplicate " ++ key ++ " values")
  | _ => []

/-- `collectDuplicateIds(value, errors)`.  Reading a member of something that is not an object
    finds no array, as skipping the location does. -/
def collectDuplicateIds (value : Unknown) : List String :=
  let workspace := property "workspace" value
  let tools := property "tools" value
  duplicateIds (property "plan" value) "plan" "id" ++
  duplicateIds (property "decisions" value) "decisions" "id" ++
  duplicateIds (property "assumptions" value) "assumptions" "id" ++
  duplicateIds (property "constraints" value) "constraints" "id" ++
  duplicateIds (property "unresolvedQuestions" value) "unresolvedQuestions" "id" ++
  duplicateIds (property "contextManifest" value) "contextManifest" "id" ++
  duplicateIds (property "commands" workspace) "workspace.commands" "id" ++
  duplicateIds (property "tests" workspace) "workspace.tests" "id" ++
  duplicateIds (property "outcomes" tools) "tools.outcomes" "actionId" ++
  duplicateIds (property "pendingApprovals" tools) "tools.pendingApprovals" "actionId"

/-- `ROOT_KEYS`. -/
def rootKeys : List String :=
  ["schema", "createdAt", "handoff", "compression", "source", "target", "goal", "plan",
    "decisions", "assumptions", "constraints", "unresolvedQuestions", "workspace", "tools",
    "contextManifest", "partialResponse", "doNotRepeatActionIds", "integrity"]

/-- `Object.keys(value)`. -/
def keysOf : Unknown → List String
  | some (.obj fields) => Json.ownKeys fields
  | _ => []

/-- `collectUnknownRootKeys(value, errors)`. -/
def collectUnknownRootKeys (value : Unknown) : List String :=
  ((keysOf value).filter (· ∉ rootKeys)).map ("unknown root field: " ++ ·)

/-! ## The whole capsule -/

/-- `HANDOFF_CAPSULE_SCHEMA`. -/
def handoffCapsuleSchema : String := "nexus.handoff-capsule/v1"

/-- `CapsuleValidationStrictness`. -/
inductive CapsuleValidationStrictness where
  | strict
  | relaxed
deriving DecidableEq

/-- `CapsuleValidationResult`. -/
structure CapsuleValidationResult where
  valid : Bool
  errors : List String
  warnings : List String

/-- The text of an undefined or JSON value in a template. -/
def textOfUnknown : Unknown → String
  | some v => Json.text v
  | none => "undefined"

/-- The checks of `schema` and `createdAt`; `isDate` says whether `Date.parse` is finite. -/
def validateHead (isDate : String → Bool) (value : Unknown) : List String :=
  let schema := property "schema" value
  let createdAt := property "createdAt" value
  requiredString value "schema" "" ++
  require (isText handoffCapsuleSchema schema) ("unsupported schema: " ++ textOfUnknown schema) ++
  requiredString value "createdAt" "" ++
  match createdAt with
  | some (.str s) => require (isDate s) "createdAt must be an ISO timestamp"
  | _ => []

/-- The root arrays, in the order in which they are checked. -/
def rootArrays : List String :=
  ["plan", "decisions", "assumptions", "constraints", "unresolvedQuestions", "contextManifest",
    "doNotRepeatActionIds"]

/-- The checks of the arrays at the root. -/
def validateArrays (value : Unknown) : List String :=
  (rootArrays.flatMap fun key =>
    require (isArray (property key value)) (key ++ " must be an array")) ++
  validateEntityArray (property "plan" value) "plan" "id" ["title"] ++
  validateEntityArray (property "decisions" value) "decisions" "id" ["decision", "rationale"] ++
  validateEntityArray (property "assumptions" value) "assumptions" "id" ["statement"] ++
  validateEntityArray (property "constraints" value) "constraints" "id" ["statement"] ++
  validateEntityArray (property "unresolvedQuestions" value) "unresolvedQuestions" "id"
    ["question"] ++
  validateEntityArray (property "contextManifest" value) "contextManifest" "id"
    ["kind", "source", "reason"] ++
  validateStringArray (property "doNotRepeatActionIds" value) "doNotRepeatActionIds"

/-- The checks of `workspace`. -/
def validateWorkspace (workspace : Unknown) : List String :=
  if !isRecord workspace then ["workspace must be an object"]
  else
    (["modifiedFiles", "commands", "tests"].flatMap fun key =>
      require (isArray (property key workspace)) ("workspace." ++ key ++ " must be an array")) ++
    validateEntityArray (property "modifiedFiles" workspace) "workspace.modifiedFiles" "path" [] ++
    validateEntityArray (property "commands" workspace) "workspace.commands" "id" ["command"] ++
    validateEntityArray (property "tests" workspace) "workspace.tests" "id" ["command", "summary"]

/-- The checks of `tools`. -/
def validateTools (tools : Unknown) : List String :=
  if !isRecord tools then ["tools must be an object"]
  else
    require (isArray (property "outcomes" tools)) "tools.outcomes must be an array" ++
    require (isArray (property "pendingApprovals" tools))
      "tools.pendingApprovals must be an array" ++
    validateEntityArray (property "outcomes" tools) "tools.outcomes" "actionId"
      ["tool", "summary"] ++
    validateEntityArray (property "pendingApprovals" tools) "tools.pendingApprovals" "actionId"
      ["description", "requestedBy"]

/-- The checks of `partialResponse`, which may be left out. -/
def validatePartialResponse (partialResponse : Unknown) : List String :=
  match partialResponse with
  | none => []
  | some (.obj fields) =>
    let response := some (.obj fields)
    (match property "text" response with
      | some (.str _) => []
      | _ => ["partialResponse.text must be a string"]) ++
    require (isArray (property "checkpoints" response))
      "partialResponse.checkpoints must be an array" ++
    validateEntityArray (property "checkpoints" response) "partialResponse.checkpoints" "id"
      ["summary"]
  | _ => ["partialResponse must be an object"]

/-- `/^(?:sha256|hmac-sha256):[a-f0-9]{64}$/`. -/
def isDigest (hash : String) : Bool :=
  let isHex := fun (digits : List Char) =>
    digits.length == 64 && digits.all fun c => c.isDigit || ('a' ≤ c && c ≤ 'f')
  ["sha256:", "hmac-sha256:"].any fun name =>
    name.toList.isPrefixOf hash.toList && isHex (hash.toList.drop name.toList.length)

/-- The checks of `integrity`. -/
def validateIntegrity (integrity : Unknown) : List String :=
  if !isRecord integrity then ["integrity must be an object"]
  else
    let algorithm := property "algorithm" integrity
    require (isText "sha256" algorithm || isText "hmac-sha256" algorithm)
      "integrity.algorithm must be sha256 or hmac-sha256" ++
    match property "hash" integrity with
    | some (.str hash) =>
      require (isDigest hash) "integrity.hash must be a sha256 or hmac-sha256 digest"
    | _ => ["integrity.hash must be a sha256 or hmac-sha256 digest"]

/-- The errors of `validateHandoffCapsule(value, options)` for an object. -/
def capsuleErrors (isDate : String → Bool) (strictness : CapsuleValidationStrictness)
    (value : Unknown) : List String :=
  validateHead isDate value ++
  validateHandoff (property "handoff" value) ++
  validateCompression (property "compression" value) ++
  validateEndpoint (property "source" value) "source" true ++
  validateEndpoint (property "target" value) "target" false ++
  validateGoal (property "goal" value) ++
  validateArrays value ++
  validateWorkspace (property "workspace" value) ++
  validateTools (property "tools" value) ++
  validatePartialResponse (property "partialResponse" value) ++
  validateIntegrity (property "integrity" value) ++
  collectDuplicateIds value ++
  match strictness with
  | .strict => collectUnknownRootKeys value
  | .relaxed => []

/-- `validateHandoffCapsule(value, options)`. -/
def validateHandoffCapsule (isDate : String → Bool) (strictness : CapsuleValidationStrictness)
    (value : Unknown) : CapsuleValidationResult :=
  if !isRecord value then ⟨false, ["capsule must be an object"], []⟩
  else
    let errors := capsuleErrors isDate strictness value
    let ignored := strictness = .relaxed ∧ (keysOf value).any (· ∉ rootKeys)
    ⟨errors.isEmpty, errors,
      if ignored then ["unknown root fields were ignored by relaxed validation"] else []⟩

end NexusCode.Transfer
