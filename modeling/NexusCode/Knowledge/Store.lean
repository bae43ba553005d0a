/-
  The tables of the knowledge core and the item store over them.

  A table is a map from its primary key to the other columns, in the order of its rows: an `UPDATE`
  keeps a row's place, `INSERT OR REPLACE` moves it to the end.  Structured members of an item are
  kept as JSON texts and read back with a fallback.

  1. `put` — an item is written if it is new, or wins over the row by revision, then by confidence.
     `kept_put`: after it, an item of the same rank loses.
  2. `supersede`, `putNode`, `putEdge` — an item retired; a node or an edge replaced.
  3. `stableFieldsOf` — the text an item is known by.  `stableFields_revision`: rows that differ in
     their revision alone have the same text if the revisions are written alike, which small ones
     never are (`numberText_inj`).
-/
import NexusCode.Lib.JsMap
import NexusCode.Lib.JsonRecord
import NexusCode.Transfer.Integrity

namespace NexusCode.Knowledge

open Lib Transfer

/-! ## Items, nodes and edges -/

/-- `ItemKind`. -/
inductive ItemKind where
  | architecture | «module» | api | dataModel | businessConcept | fileFact | test | service
  | convention | insight | task | workDone | decision | failure | assumption | constraint
  | intent | todo | reasoning | openQuestion | executionEvent | rollbackInfo
deriving DecidableEq

/-- The text of a kind. -/
def ItemKind.text : ItemKind → String
  | .architecture => "architecture"
  | .module => "module"
  | .api => "api"
  | .dataModel => "data-model"
  | .businessConcept => "business-concept"
  | .fileFact => "file-fact"
  | .test => "test"
  | .service => "service"
  | .convention => "convention"
  | .insight => "insight"
  | .task => "task"
  | .workDone => "work-done"
  | .decision => "decision"
  | .failure => "failure"
  | .assumption => "assumption"
  | .constraint => "constraint"
  | .intent => "intent"
  | .todo => "todo"
  | .reasoning => "reasoning"
  | .openQuestion => "open-question"
  | .executionEvent => "execution-event"
  | .rollbackInfo => "rollback-info"

/-- `Scope`. -/
inductive Scope where
  | working | session | project | permanent
deriving DecidableEq

/-- `ItemStatus`. -/
inductive ItemStatus where
  | active | superseded | refuted | stale | quarantined | archived
deriving DecidableEq

/-- The text of a status. -/
def ItemStatus.text : ItemStatus → String
  | .active => "active"
  | .superseded => "superseded"
  | .refuted => "refuted"
  | .stale => "stale"
  | .quarantined => "quarantined"
  | .archived => "archived"

/-- `EdgeKind`. -/
inductive EdgeKind where
  | dependsOn | blocks | supersedes | refutes | implements | partOf | causedBy | evidenceFor
  | alternativeTo | related | calls | imports | defines | tests | produces | consumes | contains
  | references | contradicts
deriving DecidableEq

/-- `GraphNode["type"]`. -/
inductive NodeType where
  | file | «module» | «class» | function | api | table | service | concept | test | dep
deriving DecidableEq

/-- `GraphNode["coverage"]`. -/
inductive Coverage where
  | full
  | part
deriving DecidableEq

/-- `KnowledgeItem`.  A rationale, a source, a verification and the links are JSON values. -/
structure KnowledgeItem where
  id : String
  kind : ItemKind
  scope : Scope
  title : String
  body : String
  whyGloss : Option Json
  rationale : Option Json
  importance : Rat
  confidence : Rat
  staleness : Rat
  status : ItemStatus
  revision : Rat
  supersededBy : Option String
  createdAt : Rat
  updatedAt : Rat
  lastVerifiedAt : Rat
  ttlMs : Option Rat
  links : Json
  tags : Json
  embeddingKey : String
  source : Json
  verification : Option Json

/-- `GraphNode`. -/
structure GraphNode where
  id : String
  type : NodeType
  label : String
  attrs : Json
  itemRefs : Json
  version : Rat
  supersededBy : Option String
  coverage : Option Coverage

/-- `GraphEdge`. -/
structure GraphEdge where
  edgeId : String
  «from» : String
  «to» : String
  kind : EdgeKind
  w : Option Rat
  confidence : Option Rat
  version : Rat
  supersededBy : Option String
  verified : Bool
deriving DecidableEq

/-! ## Rows -/

/-- A row of `zlcts_items` without its key. -/
structure ItemRow where
  kind : ItemKind
  scope : Scope
  title : String
  body : String
  why_gloss : Option String
  rationale_json : Option String
  fields_json : Option String
  importance : Rat
  confidence : Rat
  staleness : Rat
  status : ItemStatus
  revision : Rat
  superseded_by : Option String
  created_at : Rat
  updated_at : Rat
  last_verified_at : Rat
  ttl_ms : Option Rat
  tags : String
  links_json : String
  embedding_key : String
  source_json : String
  verification_json : Option String

/-- A row of `zlcts_graph_nodes` without its key; `created_at` is the time the text stands for. -/
structure NodeRow where
  type : NodeType
  label : Option String
  attrs_json : Option String
  item_refs_json : Option String
  created_at : Rat
  superseded_by : Option String
  coverage : Option Coverage

/-- A row of `zlcts_graph_edges` without its key. -/
structure EdgeRow where
  from_node : String
  to_node : String
  kind : EdgeKind
  w : Option Rat
  confidence : Option Rat
  verified : Bool
  created_at : Rat
  superseded_by : Option String
deriving DecidableEq

/-- The tables of items, nodes and edges. -/
structure Tables where
  items : JsMap String ItemRow
  nodes : JsMap (String × Rat) NodeRow
  edges : JsMap (String × Rat) EdgeRow

/-- A text that is not falsy. -/
def nonempty (text : Option String) : Option String := text.filter (· ≠ "")

/-- `safeParse(s, fallback)`. -/
def safeParse (s : Option String) (fallback : Json) : Json :=
  match nonempty s with
  | none => fallback
  | some text => (Json.parse text).getD fallback

/-- A column of the number type, read as a double. -/
def readNumber (n : Rat) : Rat :=
  match JsNumber.round n with
  | .fin x => x
  | _ => n

/-- `emptyReasoning()`. -/
def emptyReasoning : Json :=
  .obj [("why", .str ""), ("alternatives", .arr []), ("assumptionsHeld", .arr []),
    ("evidence", .arr []), ("origin", .str "unavailable"), ("confidence", .num 0)]

/-- `deserializeItem(row)`. -/
def deserializeItem (id : String) (row : ItemRow) : KnowledgeItem where
  id := id
  kind := row.kind
  scope := row.scope
  title := row.title
  body := row.body
  whyGloss := (nonempty row.why_gloss).map fun s => safeParse (some s) (.arr [])
  rationale := (nonempty row.rationale_json).map fun s => safeParse (some s) emptyReasoning
  importance := row.importance
  confidence := row.confidence
  staleness := row.staleness
  status := row.status
  revision := readNumber row.revision
  supersededBy := nonempty row.superseded_by
  createdAt := row.created_at
  updatedAt := row.updated_at
  lastVerifiedAt := row.last_verified_at
  ttlMs := row.ttl_ms
  links := safeParse (some row.links_json) (.arr [])
  tags := safeParse (some row.tags) (.arr [])
  embeddingKey := row.embedding_key
  source := safeParse (some row.source_json)
    (.obj [("origin", .str "inferred"), ("ref", .str "")])
  verification := (nonempty row.verification_json).map fun s =>
    safeParse (some s) (.obj [("lastChecked", .num 0), ("drift", .num 0)])

/-- `deserializeNode(row)`. -/
def deserializeNode (key : String × Rat) (row : NodeRow) : GraphNode where
  id := key.1
  version := key.2
  type := row.type
  label := row.label.getD ""
  attrs := safeParse row.attrs_json (.obj [])
  itemRefs := safeParse row.item_refs_json (.arr [])
  supersededBy := nonempty row.superseded_by
  coverage := row.coverage

/-- `deserializeEdge(row)`. -/
def deserializeEdge (key : String × Rat) (row : EdgeRow) : GraphEdge where
  edgeId := key.1
  «from» := row.from_node
  «to» := row.to_node
  kind := row.kind
  version := key.2
  verified := row.verified
  w := row.w
  confidence := row.confidence
  supersededBy := nonempty row.superseded_by

/-! ## The item store -/

/-- The columns `put` writes. -/
def ItemRow.written (item : KnowledgeItem) : ItemRow where
  kind := item.kind
  scope := item.scope
  title := item.title
  body := item.body
  why_gloss := item.whyGloss.map Json.stringify
  rationale_json := item.rationale.map Json.stringify
  fields_json := none
  importance := item.importance
  confidence := item.confidence
  staleness := item.staleness
  status := item.status
  revision := item.revision
  superseded_by := item.supersededBy
  created_at := item.createdAt
  updated_at := item.updatedAt
  last_verified_at := item.lastVerifiedAt
  ttl_ms := item.ttlMs
  tags := item.tags.stringify
  links_json := item.links.stringify
  embedding_key := item.embeddingKey
  source_json := item.source.stringify
  verification_json := item.verification.map Json.stringify

/-- `incomingWins`. -/
def incomingWins (item : KnowledgeItem) (existing : ItemRow) : Bool :=
  item.revision > readNumber existing.revision ||
    (item.revision == readNumber existing.revision && item.confidence > existing.confidence)

namespace Tables

/-- `put(item)`. -/
def put (item : KnowledgeItem) (s : Tables) : Tables :=
  match s.items.get? item.id with
  | some existing =>
    if incomingWins item existing then
      { s with items := s.items.set item.id (.written item) }
    else s
  | none => { s with items := s.items.set item.id (.written item) }

/-- `supersede(id, byId)`. -/
def supersede (now : Rat) (id byId : String) (s : Tables) : Tables :=
  match s.items.get? id with
  | none => s
  | some row =>
    { s with items := s.items.set id { row with
        status := .superseded, superseded_by := some byId, revision := row.revision + 1,
        updated_at := now } }

/-- `putNode(node)`. -/
def putNode (now : Rat) (node : GraphNode) (s : Tables) : Tables :=
  { s with nodes := (s.nodes.delete (node.id, node.version)).set (node.id, node.version) {
      type := node.type
      label := some node.label
      attrs_json := some node.attrs.stringify
      item_refs_json := some node.itemRefs.stringify
      created_at := now
      superseded_by := node.supersededBy
      coverage := some (node.coverage.getD .full) } }

/-- `putEdge(edge)`. -/
def putEdge (now : Rat) (edge : GraphEdge) (s : Tables) : Tables :=
  { s with edges := (s.edges.delete (edge.edgeId, edge.version)).set (edge.edgeId, edge.version) {
      from_node := edge.«from»
      to_node := edge.«to»
      kind := edge.kind
      w := edge.w
      confidence := edge.confidence
      verified := edge.verified
      created_at := now
      superseded_by := edge.supersededBy } }

/-- `store_putFields(db, id, fields)`. -/
def putFields (id : String) (fields : Json) (s : Tables) : Tables :=
  match s.items.get? id with
  | none => s
  | some row =>
    { s with items := s.items.set id { row with fields_json := some fields.stringify } }

end Tables

/-! ## What a put leaves -/

namespace Tables

/-- The item has a row, and does not win over it. -/
def Kept (item : KnowledgeItem) (s : Tables) : Prop :=
  ∃ row, s.items.get? item.id = some row ∧ incomingWins item row = false

theorem put_of_kept {item : KnowledgeItem} {s : Tables} (h : s.Kept item) : s.put item = s := by
  obtain ⟨row, hrow, hwins⟩ := h
  rw [put, hrow]
  exact if_neg (ne_true_of_eq_false hwins)

theorem put_cases (item : KnowledgeItem) (s : Tables) :
    s.Kept item ∨ s.put item = { s with items := s.items.set item.id (.written item) } := by
  rw [put]
  cases hrow : s.items.get? item.id with
  | none => exact .inr rfl
  | some row =>
    cases hwins : incomingWins item row with
    | true => exact .inr (if_pos hwins)
    | false => exact .inl ⟨row, hrow, hwins⟩

theorem incomingWins_written {item item' : KnowledgeItem} (hrevision : item'.revision = item.revision)
    (hconfidence : item'.confidence = item.confidence)
    (hread : readNumber item.revision = item.revision) :
    incomingWins item' (.written item) = false := by
  show (decide (readNumber item.revision < item'.revision) ||
    (item'.revision == readNumber item.revision && decide (item.confidence < item'.confidence)))
      = false
  rw [hread, hrevision, hconfidence]
  simp

theorem kept_put (item item' : KnowledgeItem) (s : Tables) (hid : item'.id = item.id)
    (hrevision : item'.revision = item.revision) (hconfidence : item'.confidence = item.confidence)
    (hread : readNumber item.revision = item.revision) : (s.put item).Kept item' := by
  rcases s.put_cases item with hkept | hput
  · rw [put_of_kept hkept]
    obtain ⟨row, hrow, hwins⟩ := hkept
    refine ⟨row, by rw [hid]; exact hrow, ?_⟩
    rw [← hwins]
    unfold incomingWins
    rw [hrevision, hconfidence]
  · rw [hput]
    refine ⟨.written item, ?_, incomingWins_written hrevision hconfidence hread⟩
    rw [hid]
    exact JsMap.get?_set_self ..

theorem put_put (item : KnowledgeItem) (s : Tables) : (s.put item).put item = s.put item := by
  rcases s.put_cases item with hkept | hput
  · rw [put_of_kept hkept, put_of_kept hkept]
  · rw [hput]
    rcases put_cases item { s with items := s.items.set item.id (.written item) } with hkept | hput
    · exact put_of_kept hkept
    · rw [hput]
      show ({ s with items := (s.items.set item.id _).set item.id _ } : Tables) = _
      rw [JsMap.set_set]

end Tables

/-! ## Stable fields -/

/-- A value that is falsy. -/
def falsy : Json → Bool
  | .null => true
  | .bool b => !b
  | .num x => x == 0 || x == .nan
  | .str s => s == ""
  | _ => false

/-- `stableRationaleOf(r)`. -/
def stableRationaleOf (r : Option Json) : Json :=
  match r.filter (!falsy ·) with
  | none => .null
  | some r => Json.record [
      ("why", r.get? "why"), ("alternatives", r.get? "alternatives"),
      ("assumptionsHeld", r.get? "assumptionsHeld"), ("evidence", r.get? "evidence"),
      ("origin", r.get? "origin"), ("whyRaw", r.get? "whyRaw"),
      ("predecessorId", r.get? "predecessorId"), ("inferredBy", r.get? "inferredBy")]

/-- `stableFieldsOf(item)`. -/
def stableFieldsOf (item : KnowledgeItem) : String :=
  canonicalStringify (.obj [
    ("id", .str item.id), ("kind", .str item.kind.text), ("body", .str item.body),
    ("rationale", stableRationaleOf item.rationale), ("links", item.links),
    ("status", .str item.status.text), ("revision", .num (.fin item.revision)),
    ("supersededBy", (item.supersededBy.map Json.str).getD .null), ("source", item.source)])

/-- The stable fields of a row. -/
def ItemRow.stableFields (id : String) (row : ItemRow) : String :=
  stableFieldsOf (deserializeItem id row)

/-- The text of a stored number. -/
def numberText (n : Rat) : List Char := Json.chars (.num (.fin (readNumber n)))

/-- Nothing else but the revision distinguishes two revisions of a row. -/
theorem stableFields_revision (id : String) (row : ItemRow) (n m : Rat) :
    ItemRow.stableFields id { row with revision := n } =
      ItemRow.stableFields id { row with revision := m } ↔ numberText n = numberText m := by
  -- the members before and after the revision
  let pre : List (String × Json) := [("id", .str id), ("kind", .str row.kind.text),
    ("body", .str row.body),
    ("rationale", canonicalValue (stableRationaleOf (deserializeItem id row).rationale)),
    ("links", canonicalValue (deserializeItem id row).links), ("status", .str row.status.text)]
  let post : List (String × Json) := [
    ("supersededBy", canonicalValue (((nonempty row.superseded_by).map Json.str).getD .null)),
    ("source", canonicalValue (deserializeItem id row).source)]
  have htext : ∀ k, ItemRow.stableFields id { row with revision := k } = String.ofList
      (Json.chars (.obj (Json.sortedEntries
        (pre ++ ("revision", .num (.fin (readNumber k))) :: post)))) := fun _ => rfl
  rw [htext, htext, String.ofList_inj]
  refine Json.chars_member_iff (k := "revision") ?_ ?_ (by decide) ?_
  · show "revision" ∉ ["id", "kind", "body", "rationale", "links", "status"]
    decide
  · show "revision" ∉ ["supersededBy", "source"]
    decide
  · show ∀ k ∈ ["id", "kind", "body", "rationale", "links", "status", "supersededBy", "source"],
      Json.arrayIndex? k = none
    decide

theorem readNumber_natCast {n : ℕ} (h : n ≤ 2 ^ 53) : readNumber n = n := by
  have hround : JsNumber.round n = .fin n := JsNumber.isDouble_natCast h
  rw [readNumber, hround]

/-- **Revisions below `2⁵³` have texts of their own.** -/
theorem numberText_inj {n m : ℕ} (hn : n ≤ 2 ^ 53) (hm : m ≤ 2 ^ 53)
    (h : numberText n = numberText m) : n = m := by
  unfold numberText at h
  rw [readNumber_natCast hn, readNumber_natCast hm] at h
  have harranged := Json.stringify_inj (v := .num (.fin n)) (w := .num (.fin m))
    (Json.reads_double (JsNumber.isDouble_natCast hn))
    (Json.reads_double (JsNumber.isDouble_natCast hm)) (congrArg String.ofList h)
  have hcast : (n : ℚ) = m := JsNumber.fin.inj (Json.num.inj harranged)
  exact_mod_cast hcast

end NexusCode.Knowledge
