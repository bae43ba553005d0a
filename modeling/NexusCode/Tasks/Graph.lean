/-
  The graphs of the task store keep their shape.

    1. `DependsOn`, `ChildOf`  — the two graphs; what the checks against cycles compute
       (**`dependsOnTransitively_iff`**, **`wouldCloseParentCycle_iff`**).
    2. `Sound`                 — every edge ends at a task, nothing is listed twice, no cycles.
    3. **`Sound.set`**         — one task written; when it makes no cycle.
-/
import NexusCode.Tasks.Store

namespace NexusCode.Tasks

open Lib Relation List Option

variable {tasks tasks' : TaskMap}

/-! ## The two graphs -/

/-- There is a dependency. -/
def DependsOn (tasks : TaskMap) (id d : String) : Prop := d ∈ depsOf tasks id

/-- There is a parent. -/
def ChildOf (tasks : TaskMap) (id p : String) : Prop := parentOf tasks id = some p

theorem depsOf_set (id : String) (t : Task) (x : String) :
    depsOf (tasks.set id t) x = if id = x then t.deps else depsOf tasks x := by
  unfold depsOf
  rw [JsMap.get?_set]
  split <;> rfl

theorem parentOf_set (id : String) (t : Task) (x : String) :
    parentOf (tasks.set id t) x = if id = x then t.parentId else parentOf tasks x := by
  unfold parentOf
  rw [JsMap.get?_set]
  split <;> rfl

variable {id : String} {t : Task}

theorem depsOf_of_get? (h : tasks.get? id = some t) :
    depsOf tasks id = t.deps := by
  unfold depsOf
  rw [h]
  rfl

theorem parentOf_of_get? (h : tasks.get? id = some t) :
    parentOf tasks id = t.parentId := by
  unfold parentOf
  rw [h]
  rfl

theorem mem_keys_of_get? (h : tasks.get? id = some t) :
    id ∈ tasks.keys := (tasks.mem_keys id).mpr ⟨t, h⟩

theorem requireExists_ok {label : String}
    (h : requireExists tasks id label = .ok t) : tasks.get? id = some t := by
  unfold requireExists at h
  cases ht : tasks.get? id with
  | none => rw [ht] at h; nomatch h
  | some u =>
    rw [ht] at h
    rw [Except.ok.inj h]

theorem edge_depsGraph (u w : String) : (depsGraph tasks).Edge u w ↔ DependsOn tasks u w := by
  constructor
  · rintro ⟨ws, hws, hw⟩
    rw [← some.inj hws] at hw
    exact hw
  · exact fun h => ⟨_, rfl, h⟩

/-- **What the search over dependencies computes.** -/
theorem dependsOnTransitively_iff (start target : String) :
    dependsOnTransitively tasks start target = true ↔
      ReflTransGen (DependsOn tasks) start target := by
  have hexpand : (depsGraph tasks).Expands fun _ cur => some (depsOf tasks cur) :=
    ⟨fun _ _ => nofun, fun _ v ws h => ⟨ws, h, Nat.le_refl _, fun _ hw => hw,
      fun _ hw => .inl hw⟩⟩
  have hedge : (depsGraph tasks).Edge = DependsOn tasks :=
    funext fun u => funext fun w => propext (edge_depsGraph u w)
  unfold dependsOnTransitively
  rw [Worklist.search_stops hexpand (Nat.le_refl _)]
  constructor
  · rintro ⟨v, ⟨s, hs, hreach⟩, hv⟩
    rw [← of_decide_eq_true hv, ← mem_singleton.mp hs, ← hedge]
    exact hreach
  · intro h
    rw [← hedge] at h
    exact ⟨target, ⟨start, mem_singleton.mpr rfl, h⟩, decide_eq_true rfl⟩

/-- The graph of the parents. -/
def parentGraph (tasks : TaskMap) : Worklist.Graph String where
  nodes := tasks.keys
  successors id := some (parentOf tasks id).toList
  mem_nodes id ws h hne := by
    obtain rfl := some.inj h
    rw [JsMap.mem_keys]
    cases ht : tasks.get? id with
    | none =>
      rw [parentOf, ht] at hne
      exact absurd rfl hne
    | some t => exact ⟨t, rfl⟩

/-- The loop over the parents is a search whose stack is never longer than one. -/
theorem climb_eq (id : String) : ∀ (n : Nat) (cur : Option String) (seen : List String),
    climb tasks id n cur seen =
      (Worklist.search (fun _ v => some (parentOf tasks v).toList) (fun v => v = id) n cur.toList
        seen).1
  | 0, _, _ => rfl
  | _ + 1, none, _ => rfl
  | n + 1, some cur, seen => by
    rw [climb, toList_some, Worklist.search]
    by_cases htarget : cur = id
    · rw [if_pos htarget, if_pos (decide_eq_true htarget)]
    rw [if_neg htarget, if_neg (fun h => htarget (of_decide_eq_true h))]
    by_cases hseen : cur ∈ seen
    · rw [if_pos hseen, if_pos hseen]
      cases n <;> rfl
    · rw [if_neg hseen, if_neg hseen, climb_eq id n]
      dsimp only
      rw [append_nil]
      cases parentOf tasks cur <;> rfl

theorem budget_parentGraph (start : String) :
    (parentGraph tasks).budget [start] [] ≤ tasks.keys.length + 1 := by
  have hsum : ∀ l : List String,
      (l.map fun v => (((parentGraph tasks).successors v).getD []).length).sum ≤ l.length := by
    intro l
    induction l with
    | nil => exact Nat.le_refl 0
    | cons v l ih =>
      have hone : (((parentGraph tasks).successors v).getD []).length ≤ 1 := by
        show (parentOf tasks v).toList.length ≤ 1
        cases parentOf tasks v <;> simp
      rw [map_cons, sum_cons, length_cons]
      omega
  have hlen := hsum (tasks.keys.filter (· ∉ ([] : List String)))
  have hfilter := length_filter_le (fun v => decide (v ∉ ([] : List String))) tasks.keys
  show 1 + _ ≤ _
  have hnodes : (parentGraph tasks).nodes = tasks.keys := rfl
  rw [hnodes]
  omega

/-- **What the loop over the parents computes.** -/
theorem wouldCloseParentCycle_iff (id newParent : String) :
    wouldCloseParentCycle tasks id newParent = true ↔
      ReflTransGen (ChildOf tasks) newParent id := by
  have hexpand : (parentGraph tasks).Expands fun _ v => some (parentOf tasks v).toList :=
    ⟨fun _ _ => nofun, fun _ v ws h => ⟨ws, h, Nat.le_refl _, fun _ hw => hw,
      fun _ hw => .inl hw⟩⟩
  have hedge : (parentGraph tasks).Edge = ChildOf tasks := by
    funext u w
    refine propext ⟨?_, fun h => ⟨_, rfl, mem_toList.mpr h⟩⟩
    rintro ⟨ws, hws, hw⟩
    rw [← some.inj hws] at hw
    exact mem_toList.mp hw
  unfold wouldCloseParentCycle
  rw [climb_eq, toList_some,
    Worklist.search_stops hexpand (budget_parentGraph newParent)]
  constructor
  · rintro ⟨v, ⟨s, hs, hreach⟩, hv⟩
    rw [← of_decide_eq_true hv, ← mem_singleton.mp hs, ← hedge]
    exact hreach
  · intro h
    rw [← hedge] at h
    exact ⟨id, ⟨newParent, mem_singleton.mpr rfl, h⟩, decide_eq_true rfl⟩

/-! ## The invariant -/

/-- The shape of the two graphs. -/
structure Sound (tasks : TaskMap) : Prop where
  ids : ∀ id t, tasks.get? id = some t → t.id = id
  deps_exist : ∀ id d, DependsOn tasks id d → d ∈ tasks.keys
  deps_nodup : ∀ id, (depsOf tasks id).Nodup
  deps_acyclic : Acyclic (DependsOn tasks)
  parent_exists : ∀ id p, ChildOf tasks id p → p ∈ tasks.keys
  parents_acyclic : Acyclic (ChildOf tasks)

theorem Sound.empty : Sound .empty where
  ids _ _ h := nomatch h
  deps_exist _ _ h := nomatch h
  deps_nodup _ := nodup_nil
  deps_acyclic _ h := by
    obtain ⟨_, hfirst, _⟩ := Relation.TransGen.head'_iff.mp h
    nomatch hfirst
  parent_exists _ _ h := nomatch h
  parents_acyclic _ h := by
    obtain ⟨_, hfirst, _⟩ := Relation.TransGen.head'_iff.mp h
    nomatch hfirst

theorem mem_keys_set (id : String) (t : Task) (x : String) :
    x ∈ (tasks.set id t).keys ↔ x = id ∨ x ∈ tasks.keys := by
  rw [JsMap.mem_keys, JsMap.mem_keys]
  constructor
  · rintro ⟨u, hu⟩
    rw [JsMap.get?_set] at hu
    split at hu
    · rename_i h
      exact .inl h.symm
    · exact .inr ⟨u, hu⟩
  · rintro (rfl | ⟨u, hu⟩)
    · exact ⟨t, tasks.get?_set_self x t⟩
    · by_cases h : id = x
      · rw [h]
        exact ⟨t, tasks.get?_set_self x t⟩
      · exact ⟨u, (tasks.get?_set_of_ne t h).trans hu⟩

/-- **One task written.**  Its edges end at tasks and the two graphs have no cycle. -/
theorem Sound.set (h : Sound tasks) (hid : t.id = id)
    (hdeps : ∀ d ∈ t.deps, d ∈ tasks.keys) (hnodup : t.deps.Nodup)
    (hparent : ∀ p, t.parentId = some p → p ∈ tasks.keys)
    (hacyclic : Acyclic (DependsOn (tasks.set id t)))
    (hacyclic' : Acyclic (ChildOf (tasks.set id t))) : Sound (tasks.set id t) where
  ids x u hu := by
    rw [JsMap.get?_set] at hu
    split at hu
    · rename_i hx
      rw [← some.inj hu, hid, hx]
    · exact h.ids x u hu
  deps_exist x d hd := by
    unfold DependsOn at hd
    rw [depsOf_set] at hd
    refine (mem_keys_set id t d).mpr (Or.inr ?_)
    split at hd
    · exact hdeps d hd
    · exact h.deps_exist x d hd
  deps_nodup x := by
    rw [depsOf_set]
    split
    · exact hnodup
    · exact h.deps_nodup x
  deps_acyclic := hacyclic
  parent_exists x p hp := by
    unfold ChildOf at hp
    rw [parentOf_set] at hp
    refine (mem_keys_set id t p).mpr (Or.inr ?_)
    split at hp
    · exact hparent p hp
    · exact h.parent_exists x p hp
  parents_acyclic := hacyclic'

theorem acyclic_fewer (h : Acyclic (DependsOn tasks))
    (hsub : ∀ d ∈ t.deps, d ∈ depsOf tasks id) : Acyclic (DependsOn (tasks.set id t)) := by
  refine h.mono fun u v huv => ?_
  unfold DependsOn at huv
  rw [depsOf_set] at huv
  split at huv
  · rename_i hu
    rw [← hu]
    exact hsub v huv
  · exact huv

theorem acyclic_sameParent (h : Acyclic (ChildOf tasks))
    (hsame : ∀ p, t.parentId = some p → parentOf tasks id = some p) :
    Acyclic (ChildOf (tasks.set id t)) := by
  refine h.mono fun u v huv => ?_
  unfold ChildOf at huv
  rw [parentOf_set] at huv
  split at huv
  · rename_i hu
    rw [← hu]
    exact hsame v huv
  · exact huv

/-- A parent from which the task is not reached makes no cycle. -/
theorem acyclic_newParent (h : Acyclic (ChildOf tasks)) {p : String}
    (hparent : t.parentId = some p) (hp : ¬ ReflTransGen (ChildOf tasks) p id) :
    Acyclic (ChildOf (tasks.set id t)) := by
  refine h.insert hp fun u v huv => ?_
  unfold ChildOf at huv
  rw [parentOf_set] at huv
  split at huv
  · rename_i hu
    exact .inr ⟨hu.symm, some.inj (huv.symm.trans hparent)⟩
  · exact .inl huv

end NexusCode.Tasks
