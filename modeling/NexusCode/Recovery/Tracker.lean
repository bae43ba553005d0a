/-
  The partial-recovery tracker: what a provider has visibly done when it fails half-way.

  The tracker reads the canonical chunks of one response.  It keeps the text, and for each action
  (a tool call, a file edit, an approval) a record with its risk and its status; an action whose
  events do not fit together becomes `ambiguous`.

  Every method changes the records in one of three ways: it sets one record, computed from the
  record it finds under the id; it sets a second one (a file edit settles its approval); or it
  aborts everything in flight.  The record-level functions (`restart`, `finishInput`, `complete`,
  `conflict`, `applyEdit`) are therefore separate, so that what a method does to a record can be
  said without the tracker around it.
-/
import NexusCode.Lib.JsMap
import NexusCode.Lib.Machine
import NexusCode.Shared.Stream

namespace NexusCode.Recovery

open Lib Shared

/-! ## Actions -/

/-- `RecoveryActionRisk`. -/
inductive RecoveryActionRisk where
  | readOnly
  | mutating
  | unknown
deriving DecidableEq

/-- `RecoveryActionStatus`. -/
inductive RecoveryActionStatus where
  | inFlight
  | completed
  | aborted
  | ambiguous
deriving DecidableEq

/-- The wire name of a risk. -/
def RecoveryActionRisk.text : RecoveryActionRisk → String
  | readOnly => "read_only"
  | mutating => "mutating"
  | unknown => "unknown"

/-- The wire name of a status. -/
def RecoveryActionStatus.text : RecoveryActionStatus → String
  | inFlight => "in_flight"
  | completed => "completed"
  | aborted => "aborted"
  | ambiguous => "ambiguous"

/-- `RecoveryAction`. -/
structure RecoveryAction where
  id : String
  name : String
  risk : RecoveryActionRisk
  status : RecoveryActionStatus

/-- `TrackedAction`; its id is the key it is held under. -/
structure TrackedAction where
  name : String
  risk : RecoveryActionRisk
  status : RecoveryActionStatus
  ended : Bool
  inputSignature : Option String := none

/-- What the runtime supplies: the hexadecimal SHA-256 of a text, and the collation
    `a.localeCompare(b) ≤ 0`. -/
structure Runtime where
  sha256 : String → String
  localeLe : String → String → Bool

/-- `PartialRecoveryTrackerOptions`.  A classifier that throws, or answers something that is not a
    risk, answers `none`. -/
structure TrackerOptions where
  enabled : Bool := false
  classifyAction : Option (String → Unknown → Option RecoveryActionRisk) := none
  maxPartialContextCodePoints : Option JsNumber := none

/-- `classifySafely(classify, name, input)`. -/
def classifySafely (classify : Option (String → Unknown → Option RecoveryActionRisk))
    (name : String) (input : Unknown) : RecoveryActionRisk :=
  match classify with
  | none => .unknown
  | some classify => (classify name input).getD .unknown

/-- `refineRisk(current, next)`: a classifier that changes its mind leaves the risk unknown. -/
def refineRisk (current next : RecoveryActionRisk) : RecoveryActionRisk :=
  if current = .unknown then next
  else if next = .unknown ∨ next = current then current
  else .unknown

/-! ## Input signatures -/

mutual

/-- `canonicalize(value)`: object keys sorted, numbers without a JSON text spelled out. -/
def canonicalize : Json → Json
  | .num x => if x.isFinite then .num x else .str (String.ofList x.toChars)
  | .arr items => .arr (canonicalizeItems items)
  | .obj fields => .obj (Json.sortedEntries (canonicalizeFields fields))
  | v => v

/-- The items of an array. -/
def canonicalizeItems : List Json → List Json
  | [] => []
  | v :: rest => canonicalize v :: canonicalizeItems rest

/-- The members of an object. -/
def canonicalizeFields : List (String × Json) → List (String × Json)
  | [] => []
  | (k, v) :: rest => (k, canonicalize v) :: canonicalizeFields rest

end

/-- `inputSignature(value)`; `undefined` is signed as the word. -/
def inputSignature (rt : Runtime) (value : Unknown) : String :=
  rt.sha256 (Json.stringify ((value.map canonicalize).getD (.str "undefined")))

/-! ## What the events do to one record -/

namespace TrackedAction

/-- A second start of an action: harmless only while nothing has happened since the first. -/
def restart (name : String) (risk : RecoveryActionRisk) (current : TrackedAction) :
    TrackedAction :=
  { current with
    status := if current.name ≠ name ∨ current.ended = true ∨ current.status ≠ .inFlight then
      .ambiguous else current.status
    risk := refineRisk current.risk risk }

/-- The end of the input of an action, with the input's signature and classification. -/
def finishInput (signature : String) (refined : RecoveryActionRisk) (current : TrackedAction) :
    TrackedAction :=
  let current := { current with risk := refineRisk current.risk refined }
  if current.ended then
    if current.inputSignature ≠ some signature then { current with status := .ambiguous }
    else current
  else { current with ended := true, inputSignature := some signature }

/-- The result of an action. -/
def complete (current : TrackedAction) : TrackedAction :=
  if current.status = .completed then current
  else if current.status ≠ .inFlight ∨ current.ended = false then
    { current with status := .ambiguous }
  else { current with status := .completed }

/-- A record given again through the explicit seam. -/
def record (action : RecoveryAction) (current : TrackedAction) : TrackedAction :=
  if current.name ≠ action.name ∨
      (current.risk ≠ action.risk ∧ current.risk ≠ .unknown ∧ action.risk ≠ .unknown) ∨
      current.status ≠ action.status then
    { current with status := .ambiguous, risk := refineRisk current.risk action.risk }
  else current

/-- A file edit that finds its record in another state than a pending edit of that file. -/
def conflictsWith (name : String) (current : TrackedAction) : Bool :=
  current.name ≠ name || current.risk = .readOnly || current.status ≠ .inFlight

/-- A proposed or applied edit on the record of its action. -/
def edit (applied : Bool) (name : String) (current : TrackedAction) : TrackedAction :=
  if current.conflictsWith name then { current with status := .ambiguous }
  else if applied then { current with status := .completed, ended := true }
  else current

/-- A cancelled edit on the record of its action. -/
def cancelEdit (name : String) (current : TrackedAction) : TrackedAction :=
  { current with name, risk := .readOnly, status := .aborted, ended := true }

/-- An applied edit on the record of the approval that asked for it. -/
def approve (current : TrackedAction) : TrackedAction :=
  if current.status = .inFlight then { current with status := .completed, ended := true }
  else current

/-- The end of the provider on a record. -/
def abort (current : TrackedAction) : TrackedAction :=
  if current.status = .inFlight then { current with status := .aborted } else current

end TrackedAction

/-! ## The tracker -/

/-- The state of a `PartialRecoveryTracker`. -/
structure Tracker where
  actions : JsMap String TrackedAction := .empty
  duplicateActionIds : List String := []
  assistantText : String := ""
  reasoning : String := ""
  fileEditOrdinal : Nat := 0
  activeFileEdits : JsMap String String := .empty

/-- An optional text as a condition: the empty text counts as absent. -/
def truthy (s : Option String) : Option String := s.filter (· ≠ "")

namespace Tracker

/-- `this.duplicateActionIds.add(id)`. -/
def addDuplicate (id : String) (t : Tracker) : Tracker :=
  { t with duplicateActionIds :=
      if id ∈ t.duplicateActionIds then t.duplicateActionIds else t.duplicateActionIds ++ [id] }

/-- `this.actions.set(id, action)`. -/
def setAction (id : String) (action : TrackedAction) (t : Tracker) : Tracker :=
  { t with actions := t.actions.set id action }

/-- `startAction(id, name, risk)`. -/
def startAction (id name : String) (risk : RecoveryActionRisk) (t : Tracker) : Tracker :=
  match t.actions.get? id with
  | none => t.setAction id { name, risk, status := .inFlight, ended := false }
  | some current => (t.addDuplicate id).setAction id (current.restart name risk)

/-- `endAction(id, input)`. -/
def endAction (rt : Runtime) (options : TrackerOptions) (id : String) (input : Unknown)
    (t : Tracker) : Tracker :=
  let signature := inputSignature rt input
  match t.actions.get? id with
  | none => t.setAction id
      { name := "", risk := .unknown, status := .ambiguous, ended := true,
        inputSignature := some signature }
  | some current =>
    let refined := classifySafely options.classifyAction current.name input
    (if current.ended then t.addDuplicate id else t).setAction id
      (current.finishInput signature refined)

/-- `completeAction(id)`. -/
def completeAction (id : String) (t : Tracker) : Tracker :=
  match t.actions.get? id with
  | none => t.setAction id { name := "", risk := .unknown, status := .ambiguous, ended := true }
  | some current =>
    (if current.status = .completed then t.addDuplicate id else t).setAction id current.complete

/-- The key of a file in one run. -/
def fileKey (runId : String) (edit : FileEdit) : String := runId ++ "\x00" ++ edit.path

/-- The id of the action a file edit is about. -/
def editId (runId : String) (edit : FileEdit) (t : Tracker) : String :=
  match truthy edit.approvalId with
  | some approvalId => "file-edit:" ++ approvalId
  | none => (t.activeFileEdits.get? (fileKey runId edit)).getD
      ("file-edit:" ++ runId ++ ":" ++ edit.path ++ ":" ++ toString t.fileEditOrdinal)

/-- The tracker once that id is settled: a new one uses up an ordinal, and is remembered for the
    file while the edit is only proposed. -/
def openEdit (runId : String) (edit : FileEdit) (t : Tracker) : Tracker :=
  match truthy edit.approvalId, t.activeFileEdits.get? (fileKey runId edit) with
  | none, none =>
    { t with
      fileEditOrdinal := t.fileEditOrdinal + 1
      activeFileEdits := if edit.status = .proposed then
        t.activeFileEdits.set (fileKey runId edit) (t.editId runId edit) else t.activeFileEdits }
  | _, _ => t

/-- The edit is no longer open. -/
def closeEdit (runId : String) (edit : FileEdit) (t : Tracker) : Tracker :=
  { t with activeFileEdits := t.activeFileEdits.delete (fileKey runId edit) }

/-- An applied file edit also resolves its pending approval. -/
def resolveApproval (edit : FileEdit) (t : Tracker) : Tracker :=
  match truthy edit.approvalId with
  | none => t
  | some approvalId =>
    match t.actions.get? ("approval:" ++ approvalId) with
    | some approval =>
      if edit.status = .applied then t.setAction ("approval:" ++ approvalId) approval.approve
      else t
    | none => t

/-- `observeFileEdit(chunk)`. -/
def observeFileEdit (runId : String) (edit : FileEdit) (t : Tracker) : Tracker :=
  let id := t.editId runId edit
  let name := "file-edit:" ++ edit.path
  let applied : Bool := edit.status = .applied
  let t := t.openEdit runId edit
  if edit.status = .cancelled then
    match t.actions.get? id with
    | some current => (t.setAction id (current.cancelEdit name)).closeEdit runId edit
    | none =>
      (t.setAction id { name, risk := .readOnly, status := .aborted, ended := true }).closeEdit
        runId edit
  else
    match t.actions.get? id with
    | some current =>
      let t := t.setAction id (current.edit applied name)
      if current.conflictsWith name then t
      else (if applied then t.closeEdit runId edit else t).resolveApproval edit
    | none =>
      let t := t.setAction id
        { name, risk := .mutating, status := if applied then .completed else .inFlight,
          ended := applied }
      (if applied then t.closeEdit runId edit else t).resolveApproval edit

/-- `abortOpenActions()`. -/
def abortOpenActions (t : Tracker) : Tracker :=
  { t with actions := t.actions.mapValues TrackedAction.abort }

/-- `recordAction(action)`. -/
def recordAction (action : RecoveryAction) (t : Tracker) : Tracker :=
  match t.actions.get? action.id with
  | none => t.setAction action.id
      { name := action.name, risk := action.risk, status := action.status,
        ended := action.status ≠ .inFlight }
  | some current => (t.addDuplicate action.id).setAction action.id (current.record action)

/-- `observe(chunk)`. -/
def observe (rt : Runtime) (options : TrackerOptions) (chunk : StreamChunk) (t : Tracker) :
    Tracker :=
  match chunk.body with
  | .textDelta text channel =>
    if channel = some .reasoning then { t with reasoning := t.reasoning ++ text }
    else { t with assistantText := t.assistantText ++ text }
  | .reasoningDelta text => { t with reasoning := t.reasoning ++ text }
  | .toolCallStart id name =>
    t.startAction id name (classifySafely options.classifyAction name none)
  | .toolCallEnd id input => t.endAction rt options id input
  | .toolResult toolCallId _ _ => t.completeAction toolCallId
  | .fileEdit edit => t.observeFileEdit chunk.runId edit
  | .approvalRequest approvalId kind _ =>
    t.startAction ("approval:" ++ approvalId) ("approval:" ++ kind.text) .mutating
  | .error _ _ => t.abortOpenActions
  | _ => t

end Tracker

/-! ## Runs -/

/-- A call that changes a tracker. -/
inductive Op where
  | observe (chunk : StreamChunk)
  | recordAction (action : RecoveryAction)
  | abortOpenActions

/-- One call. -/
def Tracker.perform (rt : Runtime) (options : TrackerOptions) (t : Tracker) : Op → Tracker
  | .observe chunk => t.observe rt options chunk
  | .recordAction action => t.recordAction action
  | .abortOpenActions => t.abortOpenActions

/-- The tracker as a machine; its calls answer nothing. -/
def machine (rt : Runtime) (options : TrackerOptions) : Machine Tracker Op Unit where
  step := fun t op => ((), t.perform rt options op)

end NexusCode.Recovery
