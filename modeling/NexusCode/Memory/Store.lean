/-
  The memory store: one map of items for each of three tiers.

  Items are put under ids of the caller's or under drawn ones.  An id is looked up in the short tier
  first, then in the long one, then in the knowledge; putting looks only at the tier it is given.
  The short tier lives in the process, the other two are written to a file after each change and read
  back when a store is opened.  Lists are sorted by the time of creation and then by id.

  A tier carries the proof that each item is held under its own id.  `machine` runs the operations
  one after another; each is given what the clock and `randomUUID()` answer in it.
-/
import NexusCode.Lib.JsMap
import NexusCode.Lib.JsonValue
import NexusCode.Lib.Machine

namespace NexusCode.Memory

open Lib

/-! ## Items -/

/-- `MemoryTier`. -/
inductive MemoryTier where
  | short
  | long
  | knowledge
deriving DecidableEq

/-- `MemoryItem`. -/
structure MemoryItem where
  id : String
  tier : MemoryTier
  kind : String
  text : String
  tags : Option (List String) := none
  source : Option String := none
  createdAt : Rat
  updatedAt : Rat
deriving DecidableEq

/-- `MemoryPut`. -/
structure MemoryPut where
  tier : MemoryTier
  kind : String
  text : String
  tags : Option (List String) := none
  source : Option String := none
  id : Option String := none

/-- `MemoryPatch`. -/
structure MemoryPatch where
  kind : Option String := none
  text : Option String := none
  tags : Option (List String) := none
  source : Option String := none

/-- `MemoryFilter`. -/
structure MemoryFilter where
  tier : Option MemoryTier := none
  kind : Option String := none
  tag : Option String := none
  source : Option String := none

/-- The tiers, in the order in which they are searched. -/
def searched : List MemoryTier := [.short, .long, .knowledge]

theorem mem_searched (t : MemoryTier) : t ∈ searched := by
  cases t <;> decide

/-- `DURABLE_TIERS.includes(tier)`. -/
def isDurable : MemoryTier → Bool
  | .short => false
  | .long | .knowledge => true

/-- `SCRATCHPAD_ID`. -/
def scratchpadId : String := "short:scratchpad"

/-- `byCreatedThenId(a, b)`. -/
def byCreatedThenId (a b : MemoryItem) : Rat :=
  orNext (a.createdAt - b.createdAt)
    (if JsString.ltUnits a.id b.id then -1 else if JsString.ltUnits b.id a.id then 1 else 0)

/-- What was created at `created` under `id` may stand before what was created at `created'` under
    `id'`. -/
def Before (created : Rat) (id : String) (created' : Rat) (id' : String) : Prop :=
  created < created' ∨ created = created' ∧ JsString.ltUnits id' id = false

theorem byCreatedThenId_nonpos_iff (a b : MemoryItem) :
    byCreatedThenId a b ≤ 0 ↔ Before a.createdAt a.id b.createdAt b.id := by
  rw [byCreatedThenId, orNext_nonpos_iff, Json.compareKeys_nonpos_iff, Json.keyLe,
    Bool.not_eq_true']
  rfl

theorem byCreatedThenId_lawful : Lawful byCreatedThenId :=
  (Json.compareKeys_lawful MemoryItem.id).next (k := MemoryItem.createdAt)

/-! ## Tiers -/

/-- A `Map<string, MemoryItem>` that holds each item under its own id. -/
structure Tier where
  map : JsMap String MemoryItem
  keyed : ∀ {k x}, map.get? k = some x → x.id = k

namespace Tier

/-- `new Map()`. -/
def empty : Tier := ⟨JsMap.empty, nofun⟩

/-- `map.set(item.id, item)`. -/
def set (m : Tier) (x : MemoryItem) : Tier where
  map := m.map.set x.id x
  keyed := by
    intro k y hy
    rw [JsMap.get?_set] at hy
    split at hy
    · rename_i hk
      rw [← Option.some.inj hy, hk]
    · exact m.keyed hy

/-- `map.delete(id)`. -/
def delete (m : Tier) (id : String) : Tier where
  map := m.map.delete id
  keyed := by
    intro k y hy
    rw [JsMap.get?_delete] at hy
    split at hy
    · nomatch hy
    · exact m.keyed hy

/-- `for (const item of items) map.set(item.id, item)`. -/
def load (items : List MemoryItem) : Tier := items.foldl set empty

/-- `map.get(id)`. -/
def get? (m : Tier) (id : String) : Option MemoryItem := m.map.get? id

/-- `[...map.values()]`. -/
def values (m : Tier) : List MemoryItem := m.map.values

@[ext] theorem ext {m m' : Tier} (h : m.map = m'.map) : m = m' := by
  cases m
  cases m'
  congr

theorem get?_set (m : Tier) (x : MemoryItem) (id : String) :
    (m.set x).get? id = if x.id = id then some x else m.get? id := m.map.get?_set x.id id x

theorem get?_delete (m : Tier) (id id' : String) :
    (m.delete id).get? id' = if id = id' then none else m.get? id' := m.map.get?_delete id id'

/-- **Loading what was saved** gives the tier back. -/
theorem load_values (m : Tier) : load m.values = m := by
  have hmap : ∀ (items : List MemoryItem) (m₀ : Tier),
      (items.foldl set m₀).map = JsMap.setAll MemoryItem.id m₀.map items := by
    intro items
    induction items with
    | nil => exact fun _ => rfl
    | cons x items ih => exact fun m₀ => ih (m₀.set x)
  refine ext ((hmap m.values empty).trans ?_)
  exact m.map.setAll_values fun k x hx => m.keyed hx

theorem values_ids (m : Tier) : m.values.map MemoryItem.id = m.map.keys := by
  unfold values JsMap.values JsMap.keys
  rw [List.map_map]
  exact List.map_congr_left fun e he => m.keyed ((m.map.mem_entries e.1 e.2).mp he)

theorem nodup_ids (m : Tier) : (m.values.map MemoryItem.id).Nodup := by
  rw [values_ids]
  exact m.map.nodup

theorem mem_ids_iff (m : Tier) (id : String) :
    id ∈ m.values.map MemoryItem.id ↔ ∃ x, m.get? id = some x := by
  rw [values_ids]
  exact m.map.mem_keys id

end Tier

/-! ## The store -/

/-- `MemoryFileShape`. -/
structure MemoryFileShape where
  long : List MemoryItem
  knowledge : List MemoryItem

/-- What the options of a store settle: whether there is a file, and the session's id. -/
structure MemoryStoreOptions where
  onDisk : Bool
  sessionId : String := "session"

/-- A `MemoryStore`, and the file it writes, once there is one. -/
structure MemoryStore where
  tiers : MemoryTier → Tier
  file : Option MemoryFileShape

namespace MemoryStore

/-- One tier exchanged. -/
def setTier (s : MemoryStore) (tier : MemoryTier) (m : Tier) : MemoryStore :=
  { s with tiers := fun t => if t = tier then m else s.tiers t }

/-- `get(id)`. -/
def get (s : MemoryStore) (id : String) : Option MemoryItem :=
  searched.findSome? fun tier => (s.tiers tier).get? id

/-- `tierOf(id)`. -/
def tierOf (s : MemoryStore) (id : String) : Option MemoryTier :=
  searched.find? fun tier => ((s.tiers tier).get? id).isSome

/-- The clauses of a filter but that of the tier. -/
def passes (filter : MemoryFilter) (item : MemoryItem) : Bool :=
  filter.kind.all (fun kind => item.kind = kind) &&
  filter.source.all (fun source => item.source = some source) &&
  filter.tag.all (fun tag => (item.tags.getD []).contains tag)

/-- `list(filter)`. -/
def list (s : MemoryStore) (filter : MemoryFilter) : List MemoryItem :=
  let tiers := filter.tier.elim searched fun tier => [tier]
  sortBy byCreatedThenId ((tiers.flatMap fun tier => (s.tiers tier).values).filter (passes filter))

/-- `turns()`. -/
def turns (s : MemoryStore) : List MemoryItem :=
  s.list { tier := some .short, kind := some "conversation" }

end MemoryStore

section Operations

variable (opts : MemoryStoreOptions)

namespace MemoryStore

/-- `save()`. -/
def save (s : MemoryStore) : MemoryStore :=
  if opts.onDisk then
    { s with file := some ⟨(s.tiers .long).values, (s.tiers .knowledge).values⟩ }
  else s

/-- `persistIfDurable(tier)`. -/
def persistIfDurable (s : MemoryStore) (tier : MemoryTier) : MemoryStore :=
  if isDurable tier then s.save opts else s

/-- The id an input is put under. -/
def idOf (input : MemoryPut) (uuid : String) : String := input.id.getD ("mem_" ++ uuid)

/-- `existing?.createdAt ?? ts`. -/
def createdAt (s : MemoryStore) (tier : MemoryTier) (id : String) (ts : Rat) : Rat :=
  ((s.tiers tier).get? id).elim ts MemoryItem.createdAt

/-- `put(input)`: the item, and the store that holds it. -/
def put (s : MemoryStore) (input : MemoryPut) (ts : Rat) (uuid : String) :
    MemoryItem × MemoryStore :=
  let id := idOf input uuid
  let item : MemoryItem :=
    { id, tier := input.tier, kind := input.kind, text := input.text, tags := input.tags,
      source := input.source, createdAt := s.createdAt input.tier id ts, updatedAt := ts }
  (item, (s.setTier input.tier ((s.tiers input.tier).set item)).persistIfDurable opts input.tier)

/-- An item with a patch on it. -/
def patched (cur : MemoryItem) (patch : MemoryPatch) (ts : Rat) : MemoryItem :=
  { cur with
    updatedAt := ts
    kind := patch.kind.getD cur.kind
    text := patch.text.getD cur.text
    tags := patch.tags.or cur.tags
    source := patch.source.or cur.source }

/-- `update(id, patch)`. -/
def update (s : MemoryStore) (id : String) (patch : MemoryPatch) (ts : Rat) :
    Except String MemoryItem × MemoryStore :=
  match s.tierOf id with
  | none => (.error ("memory: no item with id \"" ++ id ++ "\""), s)
  | some tier =>
    match (s.tiers tier).get? id with
    | none => (.error ("memory: no item with id \"" ++ id ++ "\""), s)
    | some cur =>
      let next := patched cur patch ts
      (.ok next, (s.setTier tier ((s.tiers tier).set next)).persistIfDurable opts tier)

/-- `delete(id)`. -/
def delete (s : MemoryStore) (id : String) : Bool × MemoryStore :=
  match s.tierOf id with
  | none => (false, s)
  | some tier => (true, (s.setTier tier ((s.tiers tier).delete id)).persistIfDurable opts tier)

/-- `clear(tier)`. -/
def clear (s : MemoryStore) (tier : Option MemoryTier) : MemoryStore :=
  (tier.elim searched fun tier => [tier]).foldl
    (fun s t => (s.setTier t Tier.empty).persistIfDurable opts t) s

/-- `recordTurn(role, text)`. -/
def recordTurn (s : MemoryStore) (role text : String) (ts : Rat) (uuid : String) :
    MemoryItem × MemoryStore :=
  s.put opts
    { tier := .short, kind := "conversation", text, tags := some ["role:" ++ role],
      source := some opts.sessionId } ts uuid

/-- `setScratchpad(text)`. -/
def setScratchpad (s : MemoryStore) (text : String) (ts : Rat) (uuid : String) :
    MemoryItem × MemoryStore :=
  s.put opts
    { tier := .short, kind := "scratchpad", text, id := some scratchpadId,
      source := some opts.sessionId } ts uuid

end MemoryStore

/-- What `load()` reads of the file. -/
def readFile (file : Option MemoryFileShape) : MemoryTier → List MemoryItem
  | .short => []
  | .long => if opts.onDisk then file.elim [] MemoryFileShape.long else []
  | .knowledge => if opts.onDisk then file.elim [] MemoryFileShape.knowledge else []

/-- `openMemory()` over what is in the file. -/
def openMemory (file : Option MemoryFileShape) : MemoryStore where
  tiers tier := Tier.load (readFile opts file tier)
  file

/-- An operation with what the clock and `randomUUID()` answer in it. -/
inductive Operation where
  | put (input : MemoryPut) (ts : Rat) (uuid : String)
  | update (id : String) (patch : MemoryPatch) (ts : Rat)
  | delete (id : String)
  | clear (tier : Option MemoryTier)
  | recordTurn (role text : String) (ts : Rat) (uuid : String)
  | setScratchpad (text : String) (ts : Rat) (uuid : String)
  | reopen

/-- What an operation returns. -/
inductive Answer where
  | item (x : MemoryItem)
  | removed (found : Bool)
  | thrown (message : String)
  | done

/-- Operations one after another. -/
def machine : Machine MemoryStore Operation Answer where
  step
    | s, .put input ts uuid => (s.put opts input ts uuid).map .item id
    | s, .update id patch ts =>
      (s.update opts id patch ts).map (fun r => match r with
        | .ok x => .item x
        | .error message => .thrown message) fun s => s
    | s, .delete id => (s.delete opts id).map .removed fun s => s
    | s, .clear tier => (.done, s.clear opts tier)
    | s, .recordTurn role text ts uuid => (s.recordTurn opts role text ts uuid).map .item id
    | s, .setScratchpad text ts uuid => (s.setScratchpad opts text ts uuid).map .item id
    | s, .reopen => (.done, openMemory opts s.file)

end Operations

end NexusCode.Memory
