/-
  What a scheduler reads of a store whose graphs are sound.

    1. `olderId_total`, `olderId_trans` — the order by creation, then identifier.
    2. **`topoOrder_spec`**             — the topological order holds every task once, after its
       dependencies, the oldest available one first.
    3. **`readyTasks_ne_nil`**          — something is ready while something is left to do.
    4. **`always_schedulable`**         — all of it after every run of operations.
-/
import NexusCode.Tasks.Operations

namespace NexusCode.Tasks

open Lib List

variable {tasks : TaskMap}

/-! ## The order of tasks -/

theorem older_iff (a b : Task) : byCreatedThenId a b ≤ 0 ↔
    a.createdAt < b.createdAt ∨
      a.createdAt = b.createdAt ∧ JsString.ltUnits b.id a.id = false := by
  refine (orNext_nonpos_iff a.createdAt b.createdAt _).trans ?_
  rw [Json.compareKeys_nonpos_iff, Json.keyLe, Bool.not_eq_true']

theorem byCreatedThenId_lawful : Lawful byCreatedThenId :=
  (Json.compareKeys_lawful Task.id).next (k := Task.createdAt)

theorem olderId_total (a b : String) : olderId tasks a b = true ∨ olderId tasks b a = true := by
  unfold olderId
  cases tasks.get? a with
  | none => cases tasks.get? b <;> simp
  | some t =>
    cases tasks.get? b with
    | none => exact .inl rfl
    | some u => exact (byCreatedThenId_lawful.total t u).imp decide_eq_true decide_eq_true

theorem olderId_trans {a b c : String} (hab : olderId tasks a b = true)
    (hbc : olderId tasks b c = true) : olderId tasks a c = true := by
  unfold olderId at hab hbc ⊢
  cases hc : tasks.get? c with
  | none => cases tasks.get? a <;> rfl
  | some w =>
    cases hb : tasks.get? b with
    | none => rw [hb, hc] at hbc; nomatch hbc
    | some u =>
      cases ha : tasks.get? a with
      | none => rw [ha, hb] at hab; nomatch hab
      | some t =>
        rw [ha, hb] at hab
        rw [hb, hc] at hbc
        exact decide_eq_true
          (byCreatedThenId_lawful.trans t u w (of_decide_eq_true hab) (of_decide_eq_true hbc))

/-! ## The topological order -/

/-- Every task once, each after its dependencies, and always the oldest that can come: by its
    creation, then by its identifier. -/
structure TopologicalOrder (tasks : TaskMap) (order : List Task) : Prop where
  perm : order.Perm tasks.values
  after_deps : ∀ pre t post, order = pre ++ t :: post → ∀ d ∈ t.deps, d ∈ pre.map Task.id
  oldest : ∀ pre t post, order = pre ++ t :: post → ∀ u ∈ tasks.values, u ∉ pre →
    (∀ d ∈ u.deps, d ∈ pre.map Task.id) →
    t.createdAt < u.createdAt ∨ t.createdAt = u.createdAt ∧ JsString.ltUnits u.id t.id = false

theorem Sound.schedulable (h : Sound tasks) :
    Kahn.Schedulable tasks.keys (depsOf tasks) fun a b => olderId tasks a b = true where
  nodes_nodup := tasks.nodup
  deps_nodup v _ := h.deps_nodup v
  deps_mem v _ d hd := h.deps_exist v d hd
  acyclic := h.deps_acyclic.mono fun _ _ huv => huv.2
  total := olderId_total
  trans _ _ _ := olderId_trans

theorem Sound.get?_of_mem (h : Sound tasks) {t : Task} (ht : t ∈ tasks.values) :
    tasks.get? t.id = some t := by
  obtain ⟨id, hid⟩ := (tasks.mem_values t).mp ht
  rw [h.ids id t hid]
  exact hid

theorem Sound.map_id (h : Sound tasks) : ∀ {ids : List String}, ids ⊆ tasks.keys →
    (ids.filterMap tasks.get?).map Task.id = ids
  | [], _ => rfl
  | id :: ids, hsub => by
    obtain ⟨t, ht⟩ := (tasks.mem_keys id).mp (hsub mem_cons_self)
    rw [filterMap_cons_some ht, map_cons, h.ids id t ht,
      h.map_id fun x hx => hsub (mem_cons_of_mem id hx)]

/-- **The topological order of a sound store.** -/
theorem topoOrder_spec (h : Sound tasks) :
    ∃ order, topoOrder tasks = .ok order ∧ TopologicalOrder tasks order := by
  have hperm := Kahn.order_perm h.schedulable
  have hgreedy := Kahn.order_greedy h.schedulable
  have hids := h.map_id hperm.subset
  unfold topoOrder
  dsimp only
  revert hperm hgreedy hids
  generalize Kahn.order tasks.keys (depsOf tasks) (fun a b => olderId tasks a b = true) = ids
  intro hperm hgreedy hids
  refine ⟨ids.filterMap tasks.get?, ?_, ?_, ?_, ?_⟩
  · have hlen : (ids.filterMap tasks.get?).length = tasks.keys.length := by
      rw [← length_map (f := Task.id), hids]
      exact hperm.length_eq
    exact if_neg fun hne => hne hlen
  · rw [← tasks.filterMap_get?_keys]
    exact hperm.filterMap _
  all_goals
    intro pre t post heq
    have hsplit : ids = pre.map Task.id ++ t.id :: post.map Task.id := by
      rw [← hids, heq, map_append, map_cons]
    have hmem : ∀ u ∈ pre ++ t :: post, tasks.get? u.id = some u := by
      intro u hu
      rw [← heq] at hu
      obtain ⟨id, -, hid⟩ := mem_filterMap.mp hu
      rw [h.ids id u hid]
      exact hid
    have ht : tasks.get? t.id = some t :=
      hmem t (mem_append_right _ mem_cons_self)
    obtain ⟨⟨-, -, hdeps⟩, hleast⟩ := (hsplit ▸ hgreedy).at_split
    rw [nil_append] at hdeps hleast
  · rw [depsOf_of_get? ht] at hdeps
    exact hdeps
  · intro u hu hnew hudeps
    have hget := h.get?_of_mem hu
    have havailable : Kahn.Available tasks.keys (depsOf tasks) (pre.map Task.id) u.id := by
      refine ⟨mem_keys_of_get? hget, fun hold => hnew ?_, ?_⟩
      · obtain ⟨w, hw, hwid⟩ := mem_map.mp hold
        have hgetw := hmem w (mem_append_left _ hw)
        rw [hwid, hget] at hgetw
        rw [Option.some.inj hgetw]
        exact hw
      · rw [depsOf_of_get? hget]
        exact hudeps
    have holder := hleast u.id havailable
    unfold olderId at holder
    rw [ht, hget] at holder
    exact (older_iff t u).mp (of_decide_eq_true holder)

/-! ## Ready tasks -/

/-- **Something is ready** while everything is to do or done, and something is to do. -/
theorem readyTasks_ne_nil (h : Sound tasks)
    (hall : ∀ t ∈ tasks.values, t.status = .todo ∨ t.status = .done)
    (hsome : ∃ t ∈ tasks.values, t.status = .todo) : readyTasks tasks ≠ [] := by
  obtain ⟨t₀, ht₀, htodo₀⟩ := hsome
  -- among the tasks that are to do, one depends on no other
  let open_ := tasks.values.filter fun t => t.status = .todo
  obtain ⟨id, hid, hmin⟩ := h.deps_acyclic.exists_minimal (l := open_.map Task.id)
    (ne_nil_of_mem (mem_map_of_mem (mem_filter.mpr ⟨ht₀, decide_eq_true htodo₀⟩)))
  obtain ⟨t, ht, rfl⟩ := mem_map.mp hid
  obtain ⟨htmem, htodo⟩ := mem_filter.mp ht
  have hget := h.get?_of_mem htmem
  have hready : ∀ d ∈ t.deps, (tasks.get? d).map Task.status = some .done := by
    intro d hd
    have hdep : DependsOn tasks t.id d := by
      show d ∈ depsOf tasks t.id
      rw [depsOf_of_get? hget]
      exact hd
    obtain ⟨u, hu⟩ := (tasks.mem_keys d).mp (h.deps_exist t.id d hdep)
    have humem : u ∈ tasks.values := (tasks.mem_values u).mpr ⟨d, hu⟩
    rw [hu, Option.map_some]
    rcases hall u humem with hstatus | hstatus
    · refine absurd hdep (hmin d (mem_map.mpr ⟨u, ?_, h.ids d u hu⟩))
      exact mem_filter.mpr ⟨humem, decide_eq_true hstatus⟩
    · rw [hstatus]
  refine ne_nil_of_mem ((mem_insertionSort _).mpr (mem_filter.mpr ⟨htmem, ?_⟩))
  exact decide_eq_true ⟨of_decide_eq_true htodo, hready⟩

/-! ## Every run -/

theorem kept_run (durable : Bool) (ops : List (Op × Host)) :
    Kept (machine.run (.opened durable) ops) :=
  Machine.run_invariant (I := Kept) (fun _ op h => kept_step h op) ops (.opened durable)

/-- **The task graph stays schedulable**, after every run of operations on a store that was
    started empty. -/
theorem always_schedulable (durable : Bool) (ops : List (Op × Host)) :
    let tasks := (machine.run (.opened durable) ops).tasks
    Sound tasks ∧
    (∃ order, topoOrder tasks = .ok order ∧ TopologicalOrder tasks order) ∧
    ((∀ t ∈ tasks.values, t.status = .todo ∨ t.status = .done) →
      (∃ t ∈ tasks.values, t.status = .todo) → readyTasks tasks ≠ []) := by
  have hsound := (kept_run durable ops).tasks
  exact ⟨hsound, topoOrder_spec hsound, readyTasks_ne_nil hsound⟩

end NexusCode.Tasks
