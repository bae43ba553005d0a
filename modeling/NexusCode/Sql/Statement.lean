/-
  `tools-db`: which SQL statements are taken for writes, and what is done with those.

  Texts are lists of characters; an expression is the scanner it describes.  Of lower-casing only
  what the expressions here can see is kept: the letters of ASCII, and the two other characters
  whose lower case begins with one of them.

    1. `stripSqlComments`, `isMutation` — the classifier.
    2. `parseConnection`, `dbQuery`     — the tool up to the call of the driver.
    3. `queryPermissionFor`             — what the permission gate is told.
-/
import NexusCode.Lib.Json

namespace NexusCode.Sql

open Lib

/-- A text. -/
abbrev Text := List Char

/-! ## Comments -/

/-- `*/` occurs. -/
def closes : Text → Bool
  | [] => false
  | c :: cs => (c = '*' && cs.head? = some '/') || closes cs

/-- Where the scanner for block comments is: outside, before the second character of an opener,
    inside, or before the second character of a closer. -/
inductive Block where
  | out
  | opening
  | inside
  | closing
deriving DecidableEq

/-- Every match of `\/\*[\s\S]*?\*\/` gives way to a space. -/
def stripBlocks : Block → Text → Text
  | _, [] => []
  | .out, c :: cs =>
    if c = '/' && cs.head? = some '*' && closes cs.tail then ' ' :: stripBlocks .opening cs
    else c :: stripBlocks .out cs
  | .opening, _ :: cs => stripBlocks .inside cs
  | .inside, c :: cs =>
    if c = '*' && cs.head? = some '/' then stripBlocks .closing cs else stripBlocks .inside cs
  | .closing, _ :: cs => stripBlocks .out cs

/-- `[\n\r]`. -/
def endsLine (c : Char) : Bool := c = '\n' || c = '\r'

/-- Every match of `--[^\n\r]*` gives way to a space; outside of a comment, or in one. -/
def stripLines : Bool → Text → Text
  | _, [] => []
  | false, c :: cs =>
    if c = '-' && cs.head? = some '-' then ' ' :: stripLines true cs else c :: stripLines false cs
  | true, c :: cs => if endsLine c then c :: stripLines false cs else stripLines true cs

/-- `stripSqlComments(sql)`. -/
def stripSqlComments (sql : Text) : Text := stripLines false (stripBlocks .out sql)

/-! ## The classifier -/

/-- The lower case of a character. -/
def lowerChar (c : Char) : Text :=
  if c = Char.ofNat 0x130 then ['i', Char.ofNat 0x307]
  else if c = Char.ofNat 0x212A then ['k']
  else [c.toLower]

/-- `.toLowerCase()`. -/
def lowered (text : Text) : Text := text.flatMap lowerChar

/-- `READ_LEADERS`. -/
def READ_LEADERS : List Text :=
  ["select".toList, "explain".toList, "show".toList, "describe".toList, "desc".toList,
    "values".toList, "table".toList, "pragma".toList]

/-- The words of `MUTATION_KEYWORDS`. -/
def MUTATION_KEYWORDS : List Text :=
  ["insert".toList, "update".toList, "delete".toList, "merge".toList, "create".toList,
    "drop".toList, "alter".toList, "truncate".toList, "replace".toList, "grant".toList,
    "revoke".toList, "call".toList, "attach".toList, "detach".toList, "vacuum".toList]

/-- `\w`. -/
def isRegexWord (c : Char) : Bool := c.isAlphanum || c = '_'

/-- `[a-z_]`. -/
def isLetter (c : Char) : Bool := c.isLower || c = '_'

/-- `\b(word)\b` matches, behind a character that is `\w` or not. -/
def hasWord (word : Text) : Bool → Text → Bool
  | _, [] => false
  | behind, c :: cs =>
    (!behind && word.isPrefixOf (c :: cs) && !((c :: cs).drop word.length).head?.any isRegexWord) ||
      hasWord word (isRegexWord c) cs

/-- `MUTATION_KEYWORDS.test(s)`. -/
def hasMutationKeyword (s : Text) : Bool := MUTATION_KEYWORDS.any fun word => hasWord word false s

/-- `isMutation(sql)`, on what is left of it. -/
def classify (s : Text) : Bool :=
  if s.isEmpty then false
  else if s.takeWhile isLetter = "with".toList then hasMutationKeyword s
  else if s.takeWhile isLetter ∈ READ_LEADERS then
    s.takeWhile isLetter = "pragma".toList && s.contains '='
  else true

/-- `isMutation(sql)`. -/
def isMutation (sql : Text) : Bool := classify (lowered (JsString.trimList (stripSqlComments sql)))

/-! ## The tool -/

/-- `VALID_DRIVERS`. -/
def VALID_DRIVERS : List String := ["sqlite", "postgres", "mysql", "snowflake", "bigquery"]

/-- `DEFAULT_MAX_ROWS`. -/
def DEFAULT_MAX_ROWS : JsNumber := 1000

/-- `asObject(input, what)`. -/
def asObject (input : Option Json) (what : String) : Except String (List (String × Json)) :=
  match input with
  | some (.obj fields) => .ok fields
  | _ => .error ("expected an object " ++ what)

/-- What a field of a connection has to be. -/
inductive FieldKind where
  | str
  | num
  | bool
deriving DecidableEq

/-- The check of a field, and what the message says it must be. -/
def FieldKind.check : FieldKind → Json → Except String Unit
  | .str, .str _ => .ok ()
  | .str, _ => .error "must be a string"
  | .num, .num x => if x.isFinite then .ok () else .error "must be a number"
  | .num, _ => .error "must be a number"
  | .bool, .bool _ => .ok ()
  | .bool, _ => .error "must be a boolean"

/-- The recognized fields of a connection. -/
def connectionFields : List (String × FieldKind) :=
  [("file", .str), ("readonly", .bool), ("connectionString", .str), ("host", .str), ("port", .num),
    ("user", .str), ("password", .str), ("database", .str), ("ssl", .bool), ("account", .str),
    ("warehouse", .str), ("role", .str), ("schema", .str), ("projectId", .str),
    ("keyFilename", .str), ("location", .str)]

/-- The recognized fields that are there, after their checks. -/
def checkFields (o : List (String × Json)) :
    List (String × FieldKind) → Except String (List (String × Json))
  | [] => .ok []
  | (k, kind) :: rest =>
    match Json.field? k o with
    | none => checkFields o rest
    | some v =>
      match kind.check v with
      | .error must => .error ("\"connection." ++ k ++ "\" " ++ must)
      | .ok () => do
        let fields ← checkFields o rest
        return (k, v) :: fields

/-- `parseConnection(raw)`. -/
def parseConnection (raw : Option Json) : Except String (List (String × Json)) := do
  let o ← asObject raw "connection"
  match Json.field? "driver" o with
  | some (.str driver) =>
    if driver ∈ VALID_DRIVERS then do
      let fields ← checkFields o connectionFields
      return ("driver", .str driver) :: fields
    else .error ("\"connection.driver\" must be one of: " ++ ", ".intercalate VALID_DRIVERS)
  | _ => .error ("\"connection.driver\" must be one of: " ++ ", ".intercalate VALID_DRIVERS)

/-- `parseParams(raw)`. -/
def parseParams : Option Json → Except String (List Json)
  | none => .ok []
  | some (.arr items) => .ok items
  | some _ => .error "\"params\" must be an array"

/-- What the driver is called with. -/
structure Request where
  connection : List (String × Json)
  sql : Text
  params : List Json
  maxRows : JsNumber

/-- What the tool does: refuse, or call the driver. -/
inductive Outcome where
  | refused (text : String)
  | run (request : Request)

/-- The `sql` field. -/
def sqlField (o : List (String × Json)) : Except String Text :=
  match Json.field? "sql" o with
  | some (.str sql) =>
    if (JsString.trimList sql.toList).isEmpty then .error "\"sql\" must be a non-empty string"
    else .ok sql.toList
  | _ => .error "\"sql\" must be a non-empty string"

/-- The `write` field. -/
def writeField (o : List (String × Json)) : Except String Bool :=
  match Json.field? "write" o with
  | none => .ok false
  | some (.bool write) => .ok write
  | some _ => .error "\"write\" must be a boolean"

/-- The `maxRows` field. -/
def maxRowsField (o : List (String × Json)) : Except String JsNumber :=
  match Json.field? "maxRows" o with
  | none => .ok DEFAULT_MAX_ROWS
  | some (.num x) => if x.isFinite then .ok x else .error "\"maxRows\" must be a finite number"
  | some _ => .error "\"maxRows\" must be a finite number"

/-- `run(input, ctx)` of `db_query`, up to the driver. -/
def dbQuery (input : Json) : Except String Outcome := do
  let o ← asObject (some input) "argument"
  let connection ← parseConnection (Json.field? "connection" o)
  let sql ← sqlField o
  let params ← parseParams (Json.field? "params" o)
  let write ← writeField o
  let maxRows ← maxRowsField o
  if isMutation sql && !write then
    return .refused ("refusing to run a mutating statement without `write: true`. " ++
      "Set write:true to allow INSERT/UPDATE/DELETE/DDL.")
  else return .run { connection, sql, params, maxRows }

/-! ## Permissions -/

/-- `ToolPermission`, as far as it is used here. -/
inductive Permission where
  | read
  | write
  | network
deriving DecidableEq

/-- `driverOf(input)`. -/
def driverOf (input : Json) : Option String :=
  match (input.get? "connection").bind (·.get? "driver") with
  | some (.str driver) => some driver
  | _ => none

/-- `queryPermissionFor(input)`. -/
def queryPermissionFor (input : Json) : Permission :=
  if driverOf input = some "sqlite" then
    let sql := match input.get? "sql" with
      | some (.str sql) => sql.toList
      | _ => []
    let write := match input.get? "write" with
      | some (.bool write) => write
      | _ => false
    if write && !sql.isEmpty && isMutation sql then .write else .read
  else .network

end NexusCode.Sql
