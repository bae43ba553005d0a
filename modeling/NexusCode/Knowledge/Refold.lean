/-
  Folding a delta into the tables, and folding it again.

  1. `fold` — what each of the seven deltas does to the tables.
  2. `refold` — the delta is read back from the payload of its entry in the log and folded, and the
     entry is marked.
  3. `fold_twice_iff` — a delta that is neither a supersession nor draws an id changes nothing the
     second time but the creation times of nodes and edges.
  4. **`refold_twice_iff`** — the second refold leaves everything unchanged exactly if the delta is
     no supersession of an item that is there, and no event without an id of its own.
  5. **`supersession_counts_twice`** — a superseded item gets a new revision each time.
-/
import NexusCode.Knowledge.Store

namespace NexusCode.Knowledge

open Lib List

/-! ## Deltas -/

/-- `Delta`.  The fields of an event are the parsed object. -/
inductive Delta where
  | upsertItem (item : KnowledgeItem)
  | supersedeItem (id byId sessionId : String)
  | putNode (node : GraphNode) (sessionId : String)
  | putEdge (edge : GraphEdge) (sessionId : String)
  | executionEvent (sessionId : String) (subId : Option String) (lamportTs : Rat)
      (actionId entityId : String) (fields : Json) (title body : String)
  | capture (sessionId : String) (subId : Option String) (lamportTs : Rat) (payload : String)
  | handoff (sessionId : String) (subId : Option String) (lamportTs : Rat)
      (fromProvider toProvider reason : String)

/-- What a fold takes from its surroundings: the clock, the id it would draw, and lower case. -/
structure Moment where
  now : Rat
  ulid : String
  toLowerCase : String → String

/-- `${value}`, `undefined` included. -/
def shown (value : Option Json) : String := (value.map Json.text).getD "undefined"

/-- `makeEmbeddingKey({ title, body, tags })`. -/
def makeEmbeddingKey (m : Moment) (title body : String) (tags : List String) : String :=
  m.toLowerCase (title ++ " " ++ body ++ " " ++ "" ++ " " ++ " ".intercalate tags)

/-- `buildExecutionEventItem(id, title, body, fields)`. -/
def buildExecutionEventItem (m : Moment) (id title body : String) (fields : Json) :
    KnowledgeItem where
  id := if id = "" then m.ulid else id
  kind := .executionEvent
  scope := .session
  title := title
  body := body
  whyGloss := none
  rationale := none
  importance := 3 / 10
  confidence := 7 / 10
  staleness := 0
  status := .active
  revision := 1
  supersededBy := none
  createdAt := m.now
  updatedAt := m.now
  lastVerifiedAt := m.now
  ttlMs := none
  links := .arr []
  tags := .arr [.str ("result:" ++ shown (fields.get? "result")),
    .str ("action:" ++ shown (fields.get? "action"))]
  embeddingKey := makeEmbeddingKey m title body ["result:" ++ shown (fields.get? "result")]
  source := Json.record [("origin", some (.str "provider")), ("ref", fields.get? "runId")]
  verification := none

/-- `fold(db, store, delta)`. -/
def fold (m : Moment) (delta : Delta) (s : Tables) : Tables :=
  match delta with
  | .upsertItem item => s.put item
  | .supersedeItem id byId _ => s.supersede m.now id byId
  | .putNode node _ => s.putNode m.now node
  | .putEdge edge _ => s.putEdge m.now edge
  | .executionEvent _ _ _ _ entityId fields title body =>
    let item := buildExecutionEventItem m entityId title body fields
    (s.put item).putFields item.id fields
  | .capture .. => s
  | .handoff .. => s

/-! ## The log -/

/-- `WalEntry`, with the reference of its payload. -/
structure WalEntry where
  sessionId : String
  lamportTs : Rat
  opType : String
  entityId : String
  payload : String

/-- A row of `zlcts_wal`: the columns a refold looks at. -/
structure WalRow where
  seq : Nat
  session_id : String
  lamport_ts : Rat
  op_type : String
  entity_id : String
  folded : Bool

/-- The tables with the log. -/
structure Database where
  tables : Tables
  wal : List WalRow

/-- The row an entry stands for: the one with the number, or the unfolded ones with its keys. -/
def WalEntry.marks (entry : WalEntry) (seq : Option Nat) (row : WalRow) : Bool :=
  match seq with
  | some seq => row.seq == seq
  | none => row.session_id == entry.sessionId && row.lamport_ts == entry.lamportTs &&
      row.op_type == entry.opType && row.entity_id == entry.entityId && !row.folded

/-- Why a refold throws. -/
inductive RefoldError where
  /-- `refold: payload blob missing for entity ${entry.entityId}` -/
  | payloadMissing (entityId : String)
  /-- the text of the payload does not parse -/
  | payloadUnreadable

/-- `refold(db, blobs, entry, seq)`; `blobs` reads a blob and parses its text. -/
def refold (blobs : String → Option (Option Delta)) (m : Moment) (entry : WalEntry)
    (seq : Option Nat) (db : Database) : Except RefoldError Database :=
  match blobs entry.payload with
  | none => .error (.payloadMissing entry.entityId)
  | some none => .error .payloadUnreadable
  | some (some delta) => .ok {
      tables := fold m delta db.tables
      wal := db.wal.map fun row => if entry.marks seq row then { row with folded := true } else row }

/-! ## Folding again -/

/-- The same stable fields of all items, the same nodes and the same edges. -/
def SameKnowledge (s s' : Tables) : Prop :=
  s.items.entries.map (fun e => ItemRow.stableFields e.1 e.2) =
    s'.items.entries.map (fun e => ItemRow.stableFields e.1 e.2) ∧
  s.nodes.entries.map (fun e => deserializeNode e.1 e.2) =
    s'.nodes.entries.map (fun e => deserializeNode e.1 e.2) ∧
  s.edges.entries.map (fun e => deserializeEdge e.1 e.2) =
    s'.edges.entries.map (fun e => deserializeEdge e.1 e.2)

theorem SameKnowledge.refl (s : Tables) : SameKnowledge s s := ⟨rfl, rfl, rfl⟩

/-- An event that names its item leaves nothing for a second one to write. -/
theorem fold_event_again (m m' : Moment) (sessionId : String) (subId : Option String)
    (lamportTs : Rat) (actionId : String) {entityId : String} (hid : entityId ≠ "") (fields : Json)
    (title body : String) (s : Tables) :
    let event := Delta.executionEvent sessionId subId lamportTs actionId entityId fields title body
    fold m' event (fold m event s) = fold m event s := by
  let item (m : Moment) := buildExecutionEventItem m entityId title body fields
  have hitem : ∀ m, (item m).id = entityId := fun m => if_neg hid
  have hone : readNumber 1 = 1 := by
    exact_mod_cast readNumber_natCast (n := 1) (by decide)
  obtain ⟨row, hrow, hwins⟩ := Tables.kept_put (item m) (item m') s
    ((hitem m').trans (hitem m).symm) rfl rfl hone
  rw [hitem] at hrow
  -- the row that the first event leaves has the rank of the item or a higher one
  have hfields : (s.put (item m)).putFields entityId fields = { s.put (item m) with
      items := (s.put (item m)).items.set entityId { row with
        fields_json := some fields.stringify } } := by
    rw [Tables.putFields, hrow]
  have hkept : ((s.put (item m)).putFields entityId fields).Kept (item m') := by
    refine ⟨{ row with fields_json := some fields.stringify }, ?_, hwins⟩
    rw [hfields, hitem]
    exact JsMap.get?_set_self (s.put (item m)).items entityId _
  show (((s.put (item m)).putFields (item m).id fields).put (item m')).putFields (item m').id fields
    = (s.put (item m)).putFields (item m).id fields
  rw [hitem, hitem, Tables.put_of_kept hkept, hfields, Tables.putFields, JsMap.get?_set_self]
  show ({ s.put (item m) with
    items := ((s.put (item m)).items.set entityId _).set entityId _ } : Tables) = _
  rw [JsMap.set_set]

theorem putNode_again (now now' : Rat) (node : GraphNode) (s : Tables) :
    SameKnowledge (s.putNode now node) ((s.putNode now node).putNode now' node) := by
  refine ⟨rfl, ?_, rfl⟩
  simp only [Tables.putNode, JsMap.delete_replace, JsMap.entries_replace, map_append]
  rfl

theorem putEdge_again (now now' : Rat) (edge : GraphEdge) (s : Tables) :
    SameKnowledge (s.putEdge now edge) ((s.putEdge now edge).putEdge now' edge) := by
  refine ⟨rfl, rfl, ?_⟩
  simp only [Tables.putEdge, JsMap.delete_replace, JsMap.entries_replace, map_append]
  rfl

theorem supersede_again (now now' : Rat) {id : String} (byId : String) {s : Tables} {row : ItemRow}
    (hrow : s.items.get? id = some row) :
    SameKnowledge (s.supersede now id byId) ((s.supersede now id byId).supersede now' id byId) ↔
      numberText (row.revision + 1) = numberText (row.revision + 2) := by
  have hfirst : s.supersede now id byId = { s with items := s.items.set id { row with
      status := .superseded, superseded_by := some byId, revision := row.revision + 1,
      updated_at := now } } := by
    rw [Tables.supersede, hrow]
  have hsecond : (s.supersede now id byId).supersede now' id byId = { s with
      items := s.items.set id { row with
        status := .superseded, superseded_by := some byId, revision := row.revision + 1 + 1,
        updated_at := now' } } := by
    rw [hfirst, Tables.supersede, JsMap.get?_set_self]
    show ({ s with items := (s.items.set id _).set id _ } : Tables) = _
    rw [JsMap.set_set]
  have htwo : row.revision + 2 = row.revision + 1 + 1 := by ring
  rw [hsecond, hfirst, htwo, SameKnowledge, JsMap.map_set_iff]
  refine (and_iff_left ⟨rfl, rfl⟩).trans ?_
  exact stableFields_revision id { row with
    status := .superseded, superseded_by := some byId, updated_at := now } _ _

theorem fold_drawn_again {m : Moment} {s : Tables} (hfresh : m.ulid ∉ s.items.keys)
    (sessionId : String) (subId : Option String) (lamportTs : Rat) (actionId : String)
    (fields : Json) (title body : String) : ¬ SameKnowledge s
      (fold m (.executionEvent sessionId subId lamportTs actionId "" fields title body) s) := by
  let item := buildExecutionEventItem m "" title body fields
  have hid : item.id = m.ulid := rfl
  have hput : s.put item = { s with items := s.items.set m.ulid (.written item) } := by
    rw [Tables.put, hid, (s.items.get?_eq_none _).mpr hfresh]
  have hfold : ((s.put item).putFields item.id fields).items = s.items.set m.ulid
      { ItemRow.written item with fields_json := some fields.stringify } := by
    rw [hid, hput, Tables.putFields, JsMap.get?_set_self]
    show (s.items.set m.ulid _).set m.ulid _ = _
    rw [JsMap.set_set]
  intro h
  have hlength : (s.items.entries.map _).length =
    (((s.put item).putFields item.id fields).items.entries.map _).length := congrArg List.length h.1
  have hset : ∀ row, (s.items.set m.ulid row).entries = s.items.entries ++ [(m.ulid, row)] :=
    fun row => JsMap.put_of_fresh row hfresh
  rw [hfold, hset, length_map, length_map, length_append] at hlength
  exact absurd hlength (by simp)

/-- The deltas whose second fold leaves everything as it is: a supersession of an item that is not
    there, or so large a revision that the next one is written alike; an event that has an id. -/
def Repeatable (s : Tables) : Delta → Prop
  | .supersedeItem id _ _ => ∀ row, s.items.get? id = some row →
      numberText (row.revision + 1) = numberText (row.revision + 2)
  | .executionEvent _ _ _ _ entityId _ _ _ => entityId ≠ ""
  | _ => True

theorem fold_twice_iff {m m' : Moment} {delta : Delta} {s : Tables}
    (hfresh : m'.ulid ∉ (fold m delta s).items.keys) :
    SameKnowledge (fold m delta s) (fold m' delta (fold m delta s)) ↔ Repeatable s delta := by
  cases delta with
  | upsertItem item =>
    refine iff_of_true ?_ trivial
    show SameKnowledge (s.put item) ((s.put item).put item)
    rw [Tables.put_put]
    exact .refl _
  | supersedeItem id byId sessionId =>
    cases hrow : s.items.get? id with
    | none =>
      refine iff_of_true ?_ fun row h => ?_
      · have hnone : ∀ now, s.supersede now id byId = s := fun now => by
          rw [Tables.supersede, hrow]
        show SameKnowledge (s.supersede m.now id byId)
          ((s.supersede m.now id byId).supersede m'.now id byId)
        rw [hnone, hnone]
        exact .refl _
      · rw [hrow] at h
        nomatch h
    | some row =>
      refine (supersede_again m.now m'.now byId hrow).trans
        ⟨fun h row' hrow' => ?_, fun h => h row hrow⟩
      rw [hrow] at hrow'
      obtain rfl := Option.some.inj hrow'
      exact h
  | putNode node sessionId => exact iff_of_true (putNode_again ..) trivial
  | putEdge edge sessionId => exact iff_of_true (putEdge_again ..) trivial
  | executionEvent sessionId subId lamportTs actionId entityId fields title body =>
    by_cases hid : entityId = ""
    · subst hid
      exact iff_of_false (fold_drawn_again hfresh _ _ _ _ _ _ _) fun h => h rfl
    · refine iff_of_true ?_ hid
      rw [fold_event_again m m' sessionId subId lamportTs actionId hid fields title body s]
      exact .refl _
  | capture => exact iff_of_true (.refl _) trivial
  | handoff => exact iff_of_true (.refl _) trivial

/-- **Folding a delta again changes nothing exactly if it is repeatable**; the ids that would be drawn
    are new. -/
theorem refold_twice_iff (blobs : String → Option (Option Delta)) (entry : WalEntry) {delta : Delta}
    (hdelta : blobs entry.payload = some (some delta)) (seq : Option Nat) (m m' : Moment)
    (db : Database) (hfresh : m'.ulid ∉ (fold m delta db.tables).items.keys) :
    ∃ db₁ db₂, refold blobs m entry seq db = .ok db₁ ∧ refold blobs m' entry seq db₁ = .ok db₂ ∧
      (SameKnowledge db₁.tables db₂.tables ↔ Repeatable db.tables delta) := by
  refine ⟨_, _, by rw [refold, hdelta], by rw [refold, hdelta], ?_⟩
  exact fold_twice_iff hfresh

/-- A supersession of an item in its first revision. -/
def supersession : Delta := .supersedeItem "decision-1" "decision-2" "s"

/-- The entry it was logged under. -/
def supersessionEntry : WalEntry where
  sessionId := "s"
  lamportTs := 7
  opType := "supersede-item"
  entityId := "decision-1"
  payload := "blob_1"

/-- The item to be superseded. -/
def firstDecision : KnowledgeItem where
  id := "decision-1"
  kind := .decision
  scope := .project
  title := "t"
  body := "b"
  whyGloss := none
  rationale := none
  importance := 1 / 2
  confidence := 1 / 2
  staleness := 0
  status := .active
  revision := 1
  supersededBy := none
  createdAt := 1
  updatedAt := 1
  lastVerifiedAt := 1
  ttlMs := none
  links := .arr []
  tags := .arr []
  embeddingKey := "t b"
  source := .obj []
  verification := none

/-- The database that holds the item and the unfolded entry. -/
def beforeSupersession : Database where
  tables := Tables.put firstDecision ⟨.empty, .empty, .empty⟩
  wal := [⟨1, "s", 7, "supersede-item", "decision-1", false⟩]

/-- A moment of recovery. -/
def recoveryAt (now : Rat) : Moment := ⟨now, "01J00000000000000000000000", id⟩

/-- **A supersession replayed twice** counts the item's revision up twice. -/
theorem supersession_counts_twice :
    ∃ db₁ db₂, refold (fun _ => some (some supersession)) (recoveryAt 10) supersessionEntry (some 1)
        beforeSupersession = .ok db₁ ∧
      refold (fun _ => some (some supersession)) (recoveryAt 11) supersessionEntry (some 1) db₁ =
        .ok db₂ ∧ ¬ SameKnowledge db₁.tables db₂.tables := by
  refine ⟨_, _, rfl, rfl, fun h => ?_⟩
  have hrow : beforeSupersession.tables.items.get? "decision-1" = some (.written firstDecision) :=
    JsMap.get?_set_self JsMap.empty "decision-1" _
  have htexts := (supersede_again 10 11 "decision-2" hrow).mp h
  have htwo : (ItemRow.written firstDecision).revision + 1 = ((2 : ℕ) : ℚ) := by
    show (1 : ℚ) + 1 = _
    norm_num
  have hthree : (ItemRow.written firstDecision).revision + 2 = ((3 : ℕ) : ℚ) := by
    show (1 : ℚ) + 2 = _
    norm_num
  rw [htwo, hthree] at htexts
  exact absurd (numberText_inj (by decide) (by decide) htexts) (by decide)

theorem refold_supersession : ∃ db₁ db₂,
    refold (fun _ => some (some supersession)) (recoveryAt 10) supersessionEntry none
      beforeSupersession = .ok db₁ ∧
    refold (fun _ => some (some supersession)) (recoveryAt 11) supersessionEntry none db₁ =
      .ok db₂ ∧
    (SameKnowledge db₁.tables db₂.tables ↔ Repeatable beforeSupersession.tables supersession) :=
  refold_twice_iff (fun _ => some (some supersession)) supersessionEntry rfl none (recoveryAt 10)
    (recoveryAt 11) beforeSupersession (by decide)

end NexusCode.Knowledge
