/-
  The file-backed audit log: chain file, signed anchor, and the log object of one process.

  A text template (`${…}`) raises a `TypeError` for an object with an own `toString`, which
  `JSON.parse` can produce; `template` is `none` there.  The checks of `verifyFile` read whatever
  the files hold, so they work on arbitrary JSON values, and `none` is an exception that escapes.

    1. `verifyChain`, `verifyFile` — the checks.
    2. `AuditLog.load`, `append`   — a process starts; an event is committed.
    3. `auditMachine`              — processes one after the other on the same files.

  A log without a file is left out.
-/
import NexusCode.Lib.Machine
import NexusCode.Lib.Lines
import NexusCode.Audit.HashChain

namespace NexusCode.Audit

open Lib Shared

/-! ## Values of unknown type -/

mutual

/-- `String(value)` succeeds. -/
def printable : Json → Bool
  | .arr items => printableItems items
  | .obj fields => (Json.field? "toString" fields).isNone
  | _ => true

def printableItems : List Json → Bool
  | [] => true
  | v :: rest => printable v && printableItems rest

end

/-- `${value}`. -/
def template : Unknown → Option String
  | none => some "undefined"
  | some value => if printable value then some value.text else none

/-- `a === b`; two objects that were read are never the same one. -/
def strictEq : Unknown → Unknown → Bool
  | none, none => true
  | some .null, some .null => true
  | some (.bool a), some (.bool b) => a == b
  | some (.num (.fin a)), some (.num (.fin b)) => a == b
  | some (.num (.inf a)), some (.num (.inf b)) => a == b
  | some (.str a), some (.str b) => a == b
  | _, _ => false

/-- The digits of an integer in base `2 ^ k`. -/
def radixValue (base : Nat) (digits : List Char) : Option Nat :=
  digits.foldlM (fun n c => (Json.hexDigit? c).bind fun d =>
    if d < base then some (base * n + d) else none) 0

/-- `Number(text)`. -/
def numberOfText (text : String) : JsNumber :=
  let decimalOf := fun (s : List Char) (negative : Bool) =>
    let ip := s.takeWhile Char.isDigit
    let (fp, rest) := match s.dropWhile Char.isDigit with
      | '.' :: t => (t.takeWhile Char.isDigit, t.dropWhile Char.isDigit)
      | t => ([], t)
    if s = "Infinity".toList then .inf negative
    else if (ip ++ fp).isEmpty then .nan
    else match Json.exponentOf rest with
      | some (e, []) =>
        let q := JsNumber.decimalValue (Json.decimal (ip ++ fp)) e fp.length
        JsNumber.round (if negative then -q else q)
      | _ => .nan
  let radix := fun (base : Nat) (digits : List Char) =>
    if digits.isEmpty then .nan
    else ((radixValue base digits).map fun n => JsNumber.round n).getD .nan
  match JsString.trimList text.toList with
  | [] => 0
  | '0' :: 'x' :: t => radix 16 t
  | '0' :: 'X' :: t => radix 16 t
  | '0' :: 'o' :: t => radix 8 t
  | '0' :: 'O' :: t => radix 8 t
  | '0' :: 'b' :: t => radix 2 t
  | '0' :: 'B' :: t => radix 2 t
  | '+' :: t => decimalOf t false
  | '-' :: t => decimalOf t true
  | t => decimalOf t false

/-- `Number(value)`. -/
def toNumber : Unknown → JsNumber
  | none => .nan
  | some .null => 0
  | some (.bool b) => if b then 1 else 0
  | some (.num x) => x
  | some (.str s) => numberOfText s
  | some value => numberOfText value.text

/-- `Math.max(a, b)`. -/
def maxNumber (a b : JsNumber) : JsNumber :=
  if a = .nan ∨ b = .nan then .nan else if a.lt b then b else a

/-- `x - 1`. -/
def decrement : JsNumber → JsNumber
  | .fin q => JsNumber.round (q - 1)
  | x => x

/-- A number that counts. -/
def count (n : Nat) : Unknown := some (.num (.fin n))

/-! ## Findings -/

/-- The reason of an `AuditTamper`. -/
inductive TamperReason where
  | hashMismatch
  | prevHashMismatch
  | seqMismatch
  | genesisMismatch
  | anchorMismatch
deriving DecidableEq

/-- `AuditTamper`. -/
structure AuditTamper where
  seq : Unknown
  reason : TamperReason
  detail : String

/-- `AuditVerifyResult`. -/
structure AuditVerifyResult where
  ok : Bool
  count : Nat
  tampered : List AuditTamper

/-! ## The chain -/

section Chain

variable (hmac : String → String)

/-- The value is `null`, whose properties cannot be read. -/
def isNull : Json → Bool
  | .null => true
  | _ => false

/-- `{ hash, ...hashable }` of an object. -/
def hashable (fields : List (String × Json)) : Json := .obj (fields.filter fun f => f.1 ≠ "hash")

/-- `computeHash(hashable, key)`: other values than objects have no `prevHash`. -/
def recomputed : Json → Option String
  | .obj fields => computeHash hmac (hashable fields)
  | _ => none

/-- One finding of the chain, unless the test holds. -/
def finding (test : Bool) (seq : Unknown) (reason : TamperReason) (detail : Option String) :
    Option (List AuditTamper) :=
  if test then some [] else detail.map fun detail => [{ seq, reason, detail }]

/-- The round of the loop for the record at `i`, after a record with the hash `prev`. -/
def checkRecord (i : Nat) (prev : Unknown) (r : Json) : Option (List AuditTamper) := do
  if isNull r then none
  let seq := r.get? "seq"
  let prevHash := r.get? "prevHash"
  let outOfOrder ← finding (strictEq seq (count i)) seq .seqMismatch do
    some ("record at index " ++ toString i ++ " has seq " ++ (← template seq))
  let genesis ← finding (i ≠ 0 || strictEq prevHash (some (.str genesisHash))) seq .genesisMismatch do
    some ("first record prevHash is " ++ (← template prevHash) ++ ", expected genesis")
  let unlinked ← finding (strictEq prevHash prev) seq .prevHashMismatch do
    some ("prevHash " ++ (← template prevHash) ++ " does not link to prior hash " ++
      (← template prev))
  let expected ← recomputed hmac r
  let changed ← finding (strictEq (some (.str expected)) (r.get? "hash")) seq .hashMismatch
    (some ("record content does not match its hash (recomputed " ++ expected ++ ")"))
  some (outOfOrder ++ genesis ++ unlinked ++ changed)

/-- The loop from the record at `i` on. -/
def checkFrom : Nat → Unknown → List Json → Option (List AuditTamper)
  | _, _, [] => some []
  | i, prev, r :: rest => do
    let found ← checkRecord hmac i prev r
    let more ← checkFrom (i + 1) (r.get? "hash") rest
    some (found ++ more)

/-- `verifyChain(records, key)`. -/
def verifyChain (records : List Json) : Option AuditVerifyResult :=
  (checkFrom hmac 0 (some (.str genesisHash)) records).map fun tampered =>
    { ok := tampered.isEmpty, count := records.length, tampered }

end Chain

/-! ## The files -/

/-- What `readNdjsonTolerant` returns. -/
structure Loaded where
  records : List Json := []
  malformedLines : List Nat := []

/-- The lines from the `n`-th on. -/
def readLines : Nat → List (List Char) → Loaded
  | _, [] => {}
  | n, line :: rest =>
    let loaded := readLines (n + 1) rest
    let trimmed := JsString.trimList line
    if trimmed.isEmpty then loaded
    else match Json.parse (String.ofList trimmed) with
      | some r => { loaded with records := r :: loaded.records }
      | none => { loaded with malformedLines := n :: loaded.malformedLines }

/-- `readNdjsonTolerant(file)`. -/
def readNdjsonTolerant (text : String) : Loaded := readLines 1 (lines text.toList)

/-- The names of the two files. -/
structure AuditPaths where
  file : String
  anchorFile : String

/-- The two files; `none` where there is no such file. -/
structure Disk where
  file : Option String := none
  anchor : Option String := none

section Log

variable (hmac : String → String) (paths : AuditPaths)

/-- `signAnchor(count, head)`. -/
def signAnchor (count head : Unknown) : Option String := do
  some (hmac ((← template count) ++ ":" ++ (← template head)))

/-- The anchor that is written. -/
def anchorText (count : Nat) (head : String) : String :=
  Json.stringify (.obj [("count", .num (.fin count)), ("head", .str head),
    ("sig", .str (hmac ((Json.num (.fin count)).text ++ ":" ++ head)))])

/-- Is the signature of the anchor the one its count and head should have? -/
def anchorSigned (anchor : Json) : Option Bool := do
  if isNull anchor then none
  let sig ← signAnchor hmac (anchor.get? "count") (anchor.get? "head")
  some (strictEq (some (.str sig)) (anchor.get? "sig"))

/-- `readAnchor()`: every exception is caught. -/
def readAnchor (disk : Disk) : Option Json := do
  let text ← disk.anchor
  let anchor ← Json.parse text
  if (anchorSigned hmac anchor).getD false then some anchor else none

/-- A finding about the anchor. -/
def anchorMismatch (seq : JsNumber) (detail : String) : Option AuditTamper :=
  some { seq := some (.num seq), reason := .anchorMismatch, detail }

/-- `Math.max(0, n - 1)`. -/
def lastSeq (n : Nat) : JsNumber := .fin (n - 1 : Nat)

/-- `checkAnchor(records, { fileMissing })`. -/
def checkAnchor (disk : Disk) (records : List Json) (fileMissing : Bool) :
    Option (Option AuditTamper) :=
  match disk.anchor with
  | none =>
    some (if 0 < records.length then
      anchorMismatch (lastSeq records.length) ("expected a signed head anchor at " ++
        paths.anchorFile ++ " (missing — possible truncation or rollback)")
    else none)
  | some text =>
    match Json.parse text with
    | none => some (anchorMismatch (lastSeq records.length) "head anchor file is not valid JSON")
    | some anchor => do
      let signed ← anchorSigned hmac anchor
      let expected := anchor.get? "count"
      if !signed then
        some (anchorMismatch (maxNumber 0 (decrement (toNumber expected)))
          "head anchor signature does not match (forged or corrupted)")
      else if !strictEq expected (count records.length) then do
        let found := if fileMissing then "the chain file " ++ paths.file ++ " is MISSING (deleted)"
          else "the file has " ++ toString records.length
        let extra := if JsNumber.lt (.fin records.length) (toNumber expected) then "truncated"
          else "extra/unanchored records"
        some (anchorMismatch
          (decrement (maxNumber (toNumber expected) (.fin (max records.length 1 : Nat))))
          ("head anchor expects " ++ (← template expected) ++ " record(s) but " ++ found ++
            " (" ++ extra ++ ")"))
      else
        let expectedHead := match records.getLast? with
          | some r => r.get? "hash"
          | none => some (.str genesisHash)
        some (if strictEq (anchor.get? "head") expectedHead then none
          else anchorMismatch (lastSeq records.length)
            "head anchor hash does not match the file's actual tail (rewritten without the key?)")

/-- The finding for an unparseable line. -/
def malformedLine (records : List Json) (line : Nat) : AuditTamper :=
  { seq := some (.num (lastSeq records.length))
    reason := .hashMismatch
    detail := "line " ++ toString line ++
      " of the chain file is not valid JSON (corrupted or spliced)" }

/-- What the chain file holds. -/
def Disk.loaded (disk : Disk) : Loaded :=
  match disk.file with
  | none => {}
  | some text => readNdjsonTolerant text

/-- `verifyFile()`. -/
def verifyFile (disk : Disk) : Option AuditVerifyResult := do
  let parsed := disk.loaded
  let result ← verifyChain hmac parsed.records
  let anchorTamper ← checkAnchor hmac paths disk parsed.records disk.file.isNone
  let tampered := result.tampered ++ parsed.malformedLines.map (malformedLine parsed.records) ++
    anchorTamper.toList
  some { ok := result.ok && parsed.malformedLines.isEmpty && anchorTamper.isNone
         count := result.count
         tampered }

/-! ## The log of a process -/

/-- `AuditLog`. -/
structure AuditLog where
  records : List Json := []
  malformedLines : List Nat := []
  anchorFrozen : Bool := false

/-- `new AuditLog({ file, key })`. -/
def AuditLog.load (disk : Disk) : AuditLog :=
  let loaded := disk.loaded
  { records := loaded.records
    malformedLines := loaded.malformedLines
    anchorFrozen := match readAnchor hmac disk with
      | some anchor => JsNumber.lt (.fin loaded.records.length) (toNumber (anchor.get? "count"))
      | none => false }

/-- `!value`. -/
def isFalsy : Json → Bool
  | .null => true
  | .bool b => !b
  | .num x => x = 0 ∨ x = .nan
  | .str s => s == ""
  | _ => false

/-- `headHash`. -/
def AuditLog.headHash (log : AuditLog) : Unknown :=
  match log.records.getLast? with
  | some last => if isFalsy last then some (.str genesisHash) else last.get? "hash"
  | none => some (.str genesisHash)

/-- The longest an array can get. -/
def maxArrayLength : Nat := 4294967295

variable (redaction : Redaction)

/-- The record `append` builds, and its hash; a `TypeError` where the head hash is no string. -/
def AuditLog.record (log : AuditLog) (event : AuditEvent) : Option (Json × String) :=
  match log.headHash with
  | some (.str prevHash) => do
    let base := baseRecord redaction log.records.length prevHash event
    let hash ← computeHash hmac (.obj base)
    some (withHash base hash, hash)
  | _ => none

/-- `persist(record)`, with `persistAnchor`. -/
def persist (log : AuditLog) (disk : Disk) (record : Json) (hash : String) : Disk where
  file := some (disk.file.getD "" ++ record.stringify ++ "\n")
  anchor := if log.anchorFrozen then disk.anchor
    else some (anchorText hmac (log.records.length + 1) hash)

/-- `append(input)`: the committed record, or `none` where it throws, with what is left of the log
    and the files. -/
def append (log : AuditLog) (disk : Disk) (event : AuditEvent) : Option Json × AuditLog × Disk :=
  match log.record hmac redaction event with
  | none => (none, log, disk)
  | some (record, hash) =>
    let disk := persist hmac log disk record hash
    if log.records.length < maxArrayLength then
      (some record, { log with records := log.records ++ [record] }, disk)
    else (none, log, disk)

/-! ## Processes one after the other -/

/-- What can be done with the log. -/
inductive Call where
  | restart
  | append (event : AuditEvent)
  | verifyFile

/-- The answer to a call. -/
inductive Answer where
  | restarted
  | appended (record : Option Json)
  | verified (result : Option AuditVerifyResult)

/-- The log of the process that is running, and the files. -/
structure State where
  log : AuditLog := {}
  disk : Disk := {}

/-- The log under one key on one pair of files. -/
def auditMachine : Machine State Call Answer where
  step s
    | .restart => (.restarted, { s with log := AuditLog.load hmac s.disk })
    | .append event =>
      let (record, log, disk) := append hmac redaction s.log s.disk event
      (.appended record, { log, disk })
    | .verifyFile => (.verified (verifyFile hmac paths s.disk), s)

end Log

end NexusCode.Audit
