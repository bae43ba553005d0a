/-
  The task store: tasks with dependencies and parents, kept in memory and saved to one file.

  What the store asks of its host is given with each operation: the clock at the points where it
  may be read, the identifier drawn, and whether saving works (`Host`).  Saving replaces the file
  as a whole or leaves it.  The file is kept as the tasks that were saved; that reading back the
  text gives them is the round trip of JSON.

    1. `Task`, `TaskStore`              — the data; `save`, `load`.
    2. `dependsOnTransitively`, `wouldCloseParentCycle` — the two checks against cycles.
    3. `create` … `removeDependency`    — the operations, as steps of a machine.
    4. `readyTasks`, `topoOrder`        — what a scheduler reads.
-/
import NexusCode.Lib.JsMap
import NexusCode.Lib.JsonValue
import NexusCode.Lib.Kahn
import NexusCode.Lib.Machine
import NexusCode.Lib.Worklist

namespace NexusCode.Tasks

open Lib

/-! ## Tasks -/

/-- `TaskStatus`. -/
inductive TaskStatus where
  | todo
  | in_progress
  | blocked
  | done
  | cancelled
deriving DecidableEq

/-- `TASK_STATUSES`, with the texts. -/
def taskStatuses : List (String × TaskStatus) :=
  [("todo", .todo), ("in_progress", .in_progress), ("blocked", .blocked), ("done", .done),
    ("cancelled", .cancelled)]

/-- `assertStatus(status)`. -/
def assertStatus (status : String) : Except String TaskStatus :=
  match taskStatuses.lookup status with
  | some s => .ok s
  | none => .error ("tasks: invalid status \"" ++ status ++ "\"")

/-- The status that is given, once it is checked; else the default. -/
def checkedStatus (status : Option String) (default : TaskStatus) : Except String TaskStatus :=
  match status with
  | some status => assertStatus status
  | none => .ok default

/-- `Task`. -/
structure Task where
  id : String
  title : String
  status : TaskStatus
  parentId : Option String := none
  deps : List String
  notes : Option String := none
  createdAt : Rat
  updatedAt : Rat

/-- `TaskInput`. -/
structure TaskInput where
  title : String
  status : Option String := none
  parentId : Option String := none
  deps : Option (List String) := none
  notes : Option String := none
  id : Option String := none

/-- `TaskPatch`; the inner `none` is `null`. -/
structure TaskPatch where
  title : Option String := none
  status : Option String := none
  parentId : Option (Option String) := none
  notes : Option (Option String) := none

/-- `byCreatedThenId(a, b)`. -/
def byCreatedThenId (a b : Task) : Rat :=
  if a.createdAt - b.createdAt ≠ 0 then a.createdAt - b.createdAt
  else if JsString.ltUnits a.id b.id then -1
  else if JsString.ltUnits b.id a.id then 1
  else 0

/-- Sorting by `byCreatedThenId` may leave `a` before `b`. -/
def Older (a b : Task) : Prop := byCreatedThenId a b ≤ 0

instance : DecidableRel Older := fun a b => inferInstanceAs (Decidable (byCreatedThenId a b ≤ 0))

/-! ## The store -/

/-- What the host answers during one operation. -/
structure Host where
  /-- `now()`, at the points of the operation where it may be called. -/
  now : Nat → Rat
  /-- `randomUUID()`. -/
  uuid : String
  /-- Saving does not raise. -/
  saves : Bool

/-- What an operation raises: an error of its own, or one of the file system. -/
inductive Failure where
  | error (message : String)
  | io

/-- The map of the tasks. -/
abbrev TaskMap := JsMap String Task

/-- `TaskStore`, with its file: `durable` is that there is a file path, `file` what was saved. -/
structure TaskStore where
  tasks : TaskMap
  durable : Bool
  file : Option (List Task)

/-- `save()`. -/
def TaskStore.save (store : TaskStore) (host : Host) : Except Failure TaskStore :=
  if !store.durable then .ok store
  else if host.saves then .ok { store with file := some store.tasks.values }
  else .error .io

/-- `load()` into an empty map. -/
def load (durable : Bool) (file : Option (List Task)) : TaskMap :=
  if !durable then .empty else JsMap.setAll Task.id .empty (file.getD [])

/-- `new TaskStore(…)` on the file. -/
def TaskStore.reopen (store : TaskStore) : TaskStore :=
  { store with tasks := load store.durable store.file }

/-- A store where there is no file yet. -/
def TaskStore.opened (durable : Bool) : TaskStore := ⟨.empty, durable, none⟩

/-- `requireExists(id, label)`. -/
def requireExists (tasks : TaskMap) (id label : String) : Except String Task :=
  match tasks.get? id with
  | some t => .ok t
  | none => .error ("tasks: no " ++ label ++ " with id \"" ++ id ++ "\"")

/-! ## The checks against cycles -/

/-- The dependencies of a task; none where there is no such task. -/
def depsOf (tasks : TaskMap) (id : String) : List String :=
  ((tasks.get? id).map Task.deps).getD []

/-- The graph of the dependencies. -/
def depsGraph (tasks : TaskMap) : Worklist.Graph String where
  nodes := tasks.keys
  successors id := some (depsOf tasks id)
  mem_nodes id ws h hne := by
    obtain rfl := Option.some.inj h
    rw [JsMap.mem_keys]
    cases ht : tasks.get? id with
    | none =>
      rw [depsOf, ht] at hne
      exact absurd rfl hne
    | some t => exact ⟨t, rfl⟩

/-- `dependsOnTransitively(from, target)`. -/
def dependsOnTransitively (tasks : TaskMap) (start target : String) : Bool :=
  (Worklist.search (fun _ cur => some (depsOf tasks cur)) (fun cur => cur = target)
    ((depsGraph tasks).budget [start] []) [start] []).1

/-- The parent of a task. -/
def parentOf (tasks : TaskMap) (id : String) : Option String := (tasks.get? id).bind Task.parentId

/-- The loop of `wouldCloseParentCycle` over the parents. -/
def climb (tasks : TaskMap) (id : String) : Nat → Option String → List String → Bool
  | 0, _, _ => false
  | _ + 1, none, _ => false
  | n + 1, some cur, seen =>
    if cur = id then true
    else if cur ∈ seen then false
    else climb tasks id n (parentOf tasks cur) (seen ++ [cur])

/-- `wouldCloseParentCycle(id, newParent)`; a task is passed once. -/
def wouldCloseParentCycle (tasks : TaskMap) (id newParent : String) : Bool :=
  climb tasks id (tasks.keys.length + 1) (some newParent) []

/-! ## The operations -/

/-- What an operation returns or raises. -/
inductive Answer where
  | task (t : Task)
  | flag (b : Bool)
  | nothing
  | failed (f : Failure)

/-- The end of an operation that has changed the map: save, then return. -/
def TaskStore.settle (store : TaskStore) (host : Host) (answer : Answer) : Answer × TaskStore :=
  match store.save host with
  | .ok store' => (answer, store')
  | .error f => (.failed f, store)

/-- `addDependency(taskId, dependsOnId, { persist: false })`: the new map, or none where the edge
    is there already. -/
def linkDependency (tasks : TaskMap) (taskId dependsOnId : String) (now : Rat) :
    Except String (Option TaskMap) := do
  let task ← requireExists tasks taskId "task"
  let _ ← requireExists tasks dependsOnId "dependency"
  if taskId = dependsOnId then throw ("tasks: \"" ++ taskId ++ "\" cannot depend on itself")
  if dependsOnId ∈ task.deps then return none
  if dependsOnTransitively tasks dependsOnId taskId then
    throw ("tasks: adding dependency \"" ++ taskId ++ "\" → \"" ++ dependsOnId ++
      "\" forms a cycle")
  return some (tasks.set taskId { task with deps := task.deps ++ [dependsOnId], updatedAt := now })

/-- `addDependency(taskId, dependsOnId)`. -/
def addDependency (store : TaskStore) (host : Host) (taskId dependsOnId : String) :
    Answer × TaskStore :=
  match linkDependency store.tasks taskId dependsOnId (host.now 0) with
  | .error message => (.failed (.error message), store)
  | .ok none => (.nothing, store)
  | .ok (some tasks) => { store with tasks }.settle host .nothing

/-- The loop of `create` over the dependencies: the map, and the error that ended it. -/
def linkAll (host : Host) (id : String) : Nat → List String → TaskMap → TaskMap × Option String
  | _, [], tasks => (tasks, none)
  | k, dep :: deps, tasks =>
    match linkDependency tasks id dep (host.now k) with
    | .error message => (tasks, some message)
    | .ok none => linkAll host id (k + 1) deps tasks
    | .ok (some tasks') => linkAll host id (k + 1) deps tasks'

/-- The checks of `create` and the task it starts with. -/
def newTask (tasks : TaskMap) (host : Host) (input : TaskInput) : Except String Task := do
  let id := input.id.getD ("task_" ++ host.uuid)
  if (tasks.get? id).isSome then throw ("tasks: id \"" ++ id ++ "\" already exists")
  let status ← checkedStatus input.status .todo
  if let some parentId := input.parentId then
    let _ ← requireExists tasks parentId "parent"
  return { id, title := input.title, status, parentId := input.parentId, deps := []
           notes := input.notes, createdAt := host.now 0, updatedAt := host.now 0 }

/-- `create(input)`. -/
def create (store : TaskStore) (host : Host) (input : TaskInput) : Answer × TaskStore :=
  match newTask store.tasks host input with
  | .error message => (.failed (.error message), store)
  | .ok task =>
    match linkAll host task.id 1 (input.deps.getD []) (store.tasks.set task.id task) with
    -- roll back the partial task
    | (tasks, some message) =>
      (.failed (.error message), { store with tasks := tasks.delete task.id })
    | (tasks, none) =>
      { store with tasks }.settle host (.task ((tasks.get? task.id).getD task))

/-- `addSubtask(parentId, input)`. -/
def addSubtask (store : TaskStore) (host : Host) (parentId : String) (input : TaskInput) :
    Answer × TaskStore :=
  match requireExists store.tasks parentId "parent" with
  | .error message => (.failed (.error message), store)
  | .ok _ => create store host { input with parentId := some parentId }

/-- The parent that `update` gives a task. -/
def newParent (tasks : TaskMap) (cur : Task) (id : String) :
    Option (Option String) → Except String (Option String)
  | none => .ok cur.parentId
  | some none => .ok none
  | some (some parentId) => do
    let _ ← requireExists tasks parentId "parent"
    if wouldCloseParentCycle tasks id parentId then
      throw ("tasks: reparenting \"" ++ id ++ "\" under \"" ++ parentId ++ "\" forms a cycle")
    return some parentId

/-- The checks of `update` and the task it writes. -/
def patched (tasks : TaskMap) (host : Host) (id : String) (patch : TaskPatch) :
    Except String Task := do
  let cur ← requireExists tasks id "task"
  let status ← checkedStatus patch.status cur.status
  let parentId ← newParent tasks cur id patch.parentId
  return { cur with
    updatedAt := host.now 0
    title := patch.title.getD cur.title
    status
    parentId
    notes := patch.notes.getD cur.notes }

/-- `update(id, patch)`. -/
def update (store : TaskStore) (host : Host) (id : String) (patch : TaskPatch) :
    Answer × TaskStore :=
  match patched store.tasks host id patch with
  | .error message => (.failed (.error message), store)
  | .ok next => { store with tasks := store.tasks.set id next }.settle host (.task next)

/-- What `delete` does to the tasks that stay. -/
def detach (id : String) (t : Task) : Task :=
  { t with
    deps := if id ∈ t.deps then t.deps.filter (· ≠ id) else t.deps
    parentId := if t.parentId = some id then none else t.parentId }

/-- `delete(id)`. -/
def delete (store : TaskStore) (host : Host) (id : String) : Answer × TaskStore :=
  if (store.tasks.get? id).isNone then (.flag false, store)
  else
    { store with tasks := (store.tasks.delete id).mapValues (detach id) }.settle host (.flag true)

/-- `removeDependency(taskId, dependsOnId)`. -/
def removeDependency (store : TaskStore) (host : Host) (taskId dependsOnId : String) :
    Answer × TaskStore :=
  match store.tasks.get? taskId with
  | none => (.flag false, store)
  | some task =>
    if dependsOnId ∉ task.deps then (.flag false, store)
    else
      let next := { task with
        deps := task.deps.filter (· ≠ dependsOnId), updatedAt := host.now 0 }
      { store with tasks := store.tasks.set taskId next }.settle host (.flag true)

/-- One operation on the store. -/
inductive Op where
  | create (input : TaskInput)
  | addSubtask (parentId : String) (input : TaskInput)
  | update (id : String) (patch : TaskPatch)
  | delete (id : String)
  | addDependency (taskId dependsOnId : String)
  | removeDependency (taskId dependsOnId : String)
  | reopen

/-- The store as a machine: each operation comes with what the host answers during it. -/
def machine : Machine TaskStore (Op × Host) Answer where
  step store op :=
    match op with
    | (.create input, host) => create store host input
    | (.addSubtask parentId input, host) => addSubtask store host parentId input
    | (.update id patch, host) => update store host id patch
    | (.delete id, host) => delete store host id
    | (.addDependency taskId dependsOnId, host) => addDependency store host taskId dependsOnId
    | (.removeDependency taskId dependsOnId, host) =>
      removeDependency store host taskId dependsOnId
    | (.reopen, _) => (.nothing, store.reopen)

/-! ## What a scheduler reads -/

/-- `readyTasks()`. -/
def readyTasks (tasks : TaskMap) : List Task :=
  (tasks.values.filter fun t => t.status = .todo ∧
    ∀ d ∈ t.deps, (tasks.get? d).map Task.status = some .done).insertionSort Older

/-- The order of identifiers by the tasks they name. -/
def olderId (tasks : TaskMap) (a b : String) : Bool :=
  match tasks.get? a, tasks.get? b with
  | some t, some u => byCreatedThenId t u ≤ 0
  | none, some _ => false
  | _, none => true

/-- `topoOrder()`. -/
def topoOrder (tasks : TaskMap) : Except String (List Task) :=
  let ids := tasks.keys
  let ordered := (Kahn.order ids (depsOf tasks) fun a b => olderId tasks a b).filterMap tasks.get?
  if ordered.length ≠ ids.length then .error "tasks: dependency graph contains a cycle"
  else .ok ordered

end NexusCode.Tasks
