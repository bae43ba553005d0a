/-
  What the task store lists: all tasks, and the subtree of one.

  `subtree` walks the children, which it collects from the parents of all tasks.  A task is in the
  subtree of `id` exactly if its parents lead to `id`; nothing is listed twice.

    1. `all`, `childrenOf`, `subtree` — the listings.
    2. **`mem_subtree`** — what the walk finds.
    3. **`subtree_perm`** — a task whose children have none: it and its children, in some order.
-/
import NexusCode.Tasks.Graph

namespace NexusCode.Tasks

open Lib Relation List Option

/-- `all()`: every task, oldest first. -/
def all (tasks : TaskMap) : List Task := tasks.values.insertionSort Older

/-- `children.get(id) ?? []`: the tasks with that parent, in the order of the map. -/
def childrenOf (tasks : TaskMap) (id : String) : List String :=
  (tasks.values.filter fun t => t.parentId = some id).map Task.id

/-- The graph of the children. -/
def childGraph (tasks : TaskMap) : Worklist.Graph String where
  nodes := tasks.values.filterMap Task.parentId
  successors id := some (childrenOf tasks id)
  mem_nodes id ws h hne := by
    obtain rfl := some.inj h
    obtain ⟨child, hchild⟩ := List.exists_mem_of_ne_nil _ hne
    obtain ⟨t, ht, -⟩ := List.mem_map.mp hchild
    obtain ⟨hmem, hparent⟩ := List.mem_filter.mp ht
    exact List.mem_filterMap.mpr ⟨t, hmem, of_decide_eq_true hparent⟩

/-- The ids the loop of `subtree` passes, in order. -/
def walk (tasks : TaskMap) (id : String) : List String :=
  (Worklist.search (fun _ cur => some (childrenOf tasks cur)) (fun _ => false)
    ((childGraph tasks).budget [id] []) [id] []).2

/-- `subtree(id)`. -/
def subtree (tasks : TaskMap) (id : String) : Except String (List Task) :=
  (requireExists tasks id "task").map fun _ => (walk tasks id).filterMap tasks.get?

variable {tasks : TaskMap}

theorem requireExists_of_get? {id label : String} {t : Task} (h : tasks.get? id = some t) :
    requireExists tasks id label = .ok t := by
  unfold requireExists
  rw [h]

theorem mem_childrenOf (h : Sound tasks) {id child : String} :
    child ∈ childrenOf tasks id ↔ ChildOf tasks child id := by
  unfold childrenOf ChildOf
  constructor
  · intro hchild
    obtain ⟨t, ht, rfl⟩ := mem_map.mp hchild
    obtain ⟨hmem, hparent⟩ := mem_filter.mp ht
    obtain ⟨k, hk⟩ := (tasks.mem_values t).mp hmem
    rw [h.ids k t hk, parentOf_of_get? hk]
    exact of_decide_eq_true hparent
  · intro hparent
    unfold parentOf at hparent
    obtain ⟨t, ht, hp⟩ := bind_eq_some_iff.mp hparent
    refine mem_map.mpr ⟨t, mem_filter.mpr ⟨?_, decide_eq_true hp⟩, h.ids child t ht⟩
    exact (tasks.mem_values t).mpr ⟨child, ht⟩

theorem mem_walk (h : Sound tasks) {id x : String} :
    x ∈ walk tasks id ↔ ReflTransGen (ChildOf tasks) x id := by
  have hexpand : (childGraph tasks).Expands fun _ cur => some (childrenOf tasks cur) :=
    ⟨fun _ _ => nofun, fun _ v ws h => ⟨ws, h, Nat.le_refl _, fun _ hw => hw,
      fun _ hw => .inl hw⟩⟩
  have hedge : (childGraph tasks).Edge = Function.swap (ChildOf tasks) := by
    funext u w
    refine propext (Iff.trans ?_ (mem_childrenOf h))
    exact ⟨fun ⟨ws, hws, hw⟩ => some.inj hws ▸ hw, fun hw => ⟨_, rfl, hw⟩⟩
  have hentry : (childGraph tasks).successors x ≠ none := some_ne_none _
  unfold walk
  rw [Worklist.mem_search hexpand (Nat.le_refl _), and_iff_right hentry]
  unfold Worklist.Graph.Reaches
  rw [hedge]
  constructor
  · rintro ⟨s, hs, hreach⟩
    obtain rfl := mem_singleton.mp hs
    exact reflTransGen_swap.mp hreach
  · intro hreach
    exact ⟨id, mem_singleton.mpr rfl, reflTransGen_swap.mpr hreach⟩

/-- **What the walk finds**: the tasks whose parents lead to the start. -/
theorem mem_subtree (h : Sound tasks) {id : String} {found : List Task}
    (hfound : subtree tasks id = .ok found) (t : Task) :
    t ∈ found ↔ tasks.get? t.id = some t ∧ ReflTransGen (ChildOf tasks) t.id id := by
  unfold subtree at hfound
  cases hexists : requireExists tasks id "task" with
  | error e => rw [hexists] at hfound; nomatch hfound
  | ok root =>
    rw [hexists] at hfound
    rw [← Except.ok.inj hfound, mem_filterMap]
    constructor
    · rintro ⟨x, hx, ht⟩
      rw [h.ids x t ht]
      exact ⟨ht, (mem_walk h).mp hx⟩
    · rintro ⟨ht, hreach⟩
      exact ⟨t.id, (mem_walk h).mpr hreach, ht⟩

theorem subtree_nodup (h : Sound tasks) {id : String} {found : List Task}
    (hfound : subtree tasks id = .ok found) : (found.map Task.id).Nodup := by
  unfold subtree at hfound
  cases hexists : requireExists tasks id "task" with
  | error e => rw [hexists] at hfound; nomatch hfound
  | ok root =>
    rw [hexists] at hfound
    rw [← Except.ok.inj hfound]
    have hwalk : (walk tasks id).Nodup := Worklist.search_nodup _ _ _ _ _ nodup_nil
    have hids : ((walk tasks id).filterMap tasks.get?).map Task.id =
        (walk tasks id).filter fun x => (tasks.get? x).isSome := by
      generalize walk tasks id = l
      induction l with
      | nil => rfl
      | cons x l ih =>
        cases hx : tasks.get? x with
        | none =>
          rw [filterMap_cons_none hx,
            filter_cons_of_neg (by rw [hx]; exact Bool.false_ne_true)]
          exact ih
        | some t =>
          rw [filterMap_cons_some hx, filter_cons_of_pos (by rw [hx]; rfl), map_cons,
            ih, h.ids x t hx]
    rw [hids]
    exact hwalk.filter _

/-- **The subtree of a task whose children have no children**: it and its children. -/
theorem subtree_perm (h : Sound tasks) {id : String} {children : List String}
    (hnodup : (id :: children).Nodup) (hroot : id ∈ tasks.keys)
    (hchildren : ∀ x, ChildOf tasks x id ↔ x ∈ children)
    (hleaf : ∀ c ∈ children, ∀ x, ¬ ChildOf tasks x c) :
    ∃ found, subtree tasks id = .ok found ∧ (found.map Task.id).Perm (id :: children) := by
  obtain ⟨root, hroot⟩ := (tasks.mem_keys id).mp hroot
  have hok : subtree tasks id = .ok ((walk tasks id).filterMap tasks.get?) := by
    unfold subtree
    rw [requireExists_of_get? hroot]
    rfl
  refine ⟨_, hok, (perm_ext_iff_of_nodup (subtree_nodup h hok) hnodup).mpr fun x => ?_⟩
  have hmem : x ∈ ((walk tasks id).filterMap tasks.get?).map Task.id ↔
      x ∈ tasks.keys ∧ ReflTransGen (ChildOf tasks) x id := by
    rw [List.mem_map, JsMap.mem_keys]
    constructor
    · rintro ⟨t, ht, rfl⟩
      obtain ⟨hget, hreach⟩ := (mem_subtree h hok t).mp ht
      exact ⟨⟨t, hget⟩, hreach⟩
    · rintro ⟨⟨t, ht⟩, hreach⟩
      obtain rfl := h.ids x t ht
      exact ⟨t, (mem_subtree h hok t).mpr ⟨ht, hreach⟩, rfl⟩
  rw [hmem, mem_cons, ← hchildren x]
  constructor
  · rintro ⟨-, hreach⟩
    rcases Relation.ReflTransGen.cases_tail hreach with heq | ⟨c, hxc, hc⟩
    · exact .inl heq.symm
    · -- the child the way passes last has no children itself
      rcases Relation.ReflTransGen.cases_tail hxc with heq | ⟨d, -, hd⟩
      · rw [← heq]
        exact .inr hc
      · exact absurd hd (hleaf c ((hchildren c).mp hc) d)
  · rintro (rfl | hc)
    · exact ⟨mem_keys_of_get? hroot, .refl⟩
    · refine ⟨?_, .single hc⟩
      unfold ChildOf parentOf at hc
      obtain ⟨t, ht, -⟩ := bind_eq_some_iff.mp hc
      exact mem_keys_of_get? ht

theorem mem_all {t : Task} : t ∈ all tasks ↔ ∃ id, tasks.get? id = some t := by
  unfold all
  rw [(perm_insertionSort Older tasks.values).mem_iff]
  exact tasks.mem_values t

end NexusCode.Tasks
