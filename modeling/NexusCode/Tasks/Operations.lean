/-
  Every operation keeps the graphs of the task store sound, whether it fails or not.

    1. `linkDependency_some`, `linkAll_set` — what adding dependencies does to the map.
    2. one lemma per operation; a `create` that is rolled back leaves the store as it was
       (**`create_cases`**).
    3. **`kept_step`** — the step lemma, for the map and for what the file holds.
-/
import NexusCode.Tasks.Graph

namespace NexusCode.Tasks

open Lib Relation List Option

variable {tasks tasks' : TaskMap}

/-! ## Adding dependencies -/

theorem linkDependency_some {taskId dep : String} {now : Rat}
    (h : linkDependency tasks taskId dep now = .ok (some tasks')) :
    ∃ task, tasks.get? taskId = some task ∧ dep ∈ tasks.keys ∧ dep ∉ task.deps ∧
      ¬ ReflTransGen (DependsOn tasks) dep taskId ∧
      tasks' = tasks.set taskId { task with deps := task.deps ++ [dep], updatedAt := now } := by
  unfold linkDependency at h
  cases htask : requireExists tasks taskId "task" with
  | error e => rw [htask] at h; nomatch h
  | ok task =>
    rw [htask] at h
    cases hdep : requireExists tasks dep "dependency" with
    | error e => rw [hdep] at h; nomatch h
    | ok d =>
      rw [hdep] at h
      simp only [bind, Except.bind, pure, Except.pure, throw, throwThe, MonadExceptOf.throw] at h
      by_cases hself : taskId = dep
      · rw [if_pos hself] at h
        nomatch h
      rw [if_neg hself] at h
      by_cases hold : dep ∈ task.deps
      · rw [if_pos hold] at h
        nomatch h
      rw [if_neg hold] at h
      by_cases hcycle : dependsOnTransitively tasks dep taskId = true
      · rw [if_pos hcycle] at h
        nomatch h
      rw [if_neg hcycle] at h
      exact ⟨task, requireExists_ok htask, mem_keys_of_get? (requireExists_ok hdep), hold,
        fun hreach => hcycle ((dependsOnTransitively_iff dep taskId).mpr hreach),
        (some.inj (Except.ok.inj h)).symm⟩

theorem Sound.link (h : Sound tasks) {taskId dep : String} {now : Rat}
    (hlink : linkDependency tasks taskId dep now = .ok (some tasks')) : Sound tasks' := by
  obtain ⟨task, htask, hdep, hold, hreach, rfl⟩ := linkDependency_some hlink
  have hdeps : depsOf tasks taskId = task.deps := depsOf_of_get? htask
  refine h.set (h.ids taskId task htask) ?_ ?_ ?_ ?_ ?_
  · intro d hd
    rcases mem_append.mp hd with hd | hd
    · exact h.deps_exist taskId d (by rw [← hdeps] at hd; exact hd)
    · rw [mem_singleton.mp hd]
      exact hdep
  · refine List.Nodup.append ?_ (nodup_singleton dep) (disjoint_singleton.mpr hold)
    rw [← hdeps]
    exact h.deps_nodup taskId
  · intro p hp
    exact h.parent_exists taskId p ((parentOf_of_get? htask).trans hp)
  · -- the edge is new, and its end does not lead back
    refine h.deps_acyclic.insert hreach fun u v huv => ?_
    unfold DependsOn at huv
    rw [depsOf_set] at huv
    split at huv
    · rename_i hu
      rcases mem_append.mp huv with huv | huv
      · rw [← hdeps, hu] at huv
        exact .inl huv
      · exact .inr ⟨hu.symm, mem_singleton.mp huv⟩
    · exact .inl huv
  · exact acyclic_sameParent h.parents_acyclic fun p hp => (parentOf_of_get? htask).trans hp

theorem Sound.linkAll (host : Host) (id : String) : ∀ (k : Nat) (deps : List String)
    {tasks : TaskMap}, Sound tasks → Sound (linkAll host id k deps tasks).1
  | _, [], _, h => h
  | k, dep :: deps, tasks, h => by
    unfold Tasks.linkAll
    cases hlink : linkDependency tasks id dep (host.now k) with
    | error e => exact h
    | ok result =>
      cases result with
      | none => exact Sound.linkAll host id (k + 1) deps h
      | some tasks' => exact Sound.linkAll host id (k + 1) deps (h.link hlink)

theorem linkAll_set (host : Host) (id : String) : ∀ (k : Nat) (deps : List String) (t : Task),
    ∃ t', (linkAll host id k deps (tasks.set id t)).1 = tasks.set id t'
  | _, [], t => ⟨t, rfl⟩
  | k, dep :: deps, t => by
    unfold linkAll
    cases hlink : linkDependency (tasks.set id t) id dep (host.now k) with
    | error e => exact ⟨t, rfl⟩
    | ok result =>
      cases result with
      | none => exact linkAll_set host id (k + 1) deps t
      | some tasks' =>
        obtain ⟨task, -, -, -, -, rfl⟩ := linkDependency_some hlink
        dsimp only
        rw [JsMap.set_set]
        exact linkAll_set host id (k + 1) deps _

/-! ## Creating -/

theorem newTask_ok {host : Host} {input : TaskInput} {task : Task}
    (h : newTask tasks host input = .ok task) :
    tasks.get? task.id = none ∧ task.deps = [] ∧
      ∀ p, task.parentId = some p → p ∈ tasks.keys := by
  unfold newTask at h
  simp only [bind, Except.bind, pure, Except.pure, throw, throwThe, MonadExceptOf.throw] at h
  by_cases hid : (tasks.get? (input.id.getD ("task_" ++ host.uuid))).isSome = true
  · rw [if_pos hid] at h
    nomatch h
  rw [if_neg hid] at h
  cases hstatus : checkedStatus input.status .todo with
  | error e => rw [hstatus] at h; nomatch h
  | ok status =>
    rw [hstatus] at h
    dsimp only at h
    cases hparent : input.parentId with
    | none =>
      rw [hparent] at h
      obtain rfl := Except.ok.inj h
      exact ⟨not_isSome_iff_eq_none.mp hid, rfl, fun p hp => nomatch hp⟩
    | some parentId =>
      rw [hparent] at h
      dsimp only at h
      cases hexists : requireExists tasks parentId "parent" with
      | error e => rw [hexists] at h; nomatch h
      | ok parent =>
        rw [hexists] at h
        obtain rfl := Except.ok.inj h
        refine ⟨not_isSome_iff_eq_none.mp hid, rfl, fun p hp => ?_⟩
        rw [← some.inj hp]
        exact mem_keys_of_get? (requireExists_ok hexists)

/-- A task that is new and depends on nothing keeps the graphs sound. -/
theorem Sound.add (h : Sound tasks) {task : Task} (hfresh : tasks.get? task.id = none)
    (hdeps : task.deps = []) (hparent : ∀ p, task.parentId = some p → p ∈ tasks.keys) :
    Sound (tasks.set task.id task) := by
  have hnokey : task.id ∉ tasks.keys := (tasks.get?_eq_none task.id).mp hfresh
  refine h.set rfl ?_ ?_ hparent ?_ ?_
  · intro d hd
    rw [hdeps] at hd
    nomatch hd
  · rw [hdeps]
    exact nodup_nil
  · refine acyclic_fewer h.deps_acyclic fun d hd => ?_
    rw [hdeps] at hd
    nomatch hd
  · cases hp : task.parentId with
    | none => exact acyclic_sameParent h.parents_acyclic fun p hp' => nomatch hp.symm.trans hp'
    | some p =>
      refine acyclic_newParent h.parents_acyclic hp fun hreach => ?_
      -- nothing has the new task for a parent
      rcases Relation.ReflTransGen.cases_tail hreach with heq | ⟨c, -, hc⟩
      · exact hnokey (heq ▸ hparent p hp)
      · exact hnokey (h.parent_exists c task.id hc)

variable {store : TaskStore}

/-- **What `create` does**: it fails and leaves the store, or writes a sound map. -/
theorem create_cases (h : Sound store.tasks) (host : Host)
    (input : TaskInput) :
    (∃ message, create store host input = (.failed (.error message), store)) ∨
      ∃ tasks answer, Sound tasks ∧
        create store host input = { store with tasks }.settle host answer := by
  unfold create
  cases hnew : newTask store.tasks host input with
  | error message => exact .inl ⟨message, rfl⟩
  | ok task =>
    obtain ⟨hfresh, hdeps, hparent⟩ := newTask_ok hnew
    have hsound := Sound.linkAll host task.id 1 (input.deps.getD [])
      (h.add hfresh hdeps hparent)
    obtain ⟨t', ht'⟩ := linkAll_set host task.id 1 (input.deps.getD []) task
    cases hlink : linkAll host task.id 1 (input.deps.getD []) (store.tasks.set task.id task) with
    | mk tasks failed =>
      rw [hlink] at hsound ht'
      dsimp only
      rw [hlink]
      cases failed with
      | none => exact .inr ⟨tasks, _, hsound, rfl⟩
      | some message =>
        -- the map before the task was added comes back
        refine .inl ⟨message, ?_⟩
        show (_, { store with tasks := tasks.delete task.id }) = _
        rw [show tasks = store.tasks.set task.id t' from ht',
          JsMap.delete_set_of_fresh _ _ hfresh]

/-! ## Updating and deleting -/

variable {id : String}

theorem newParent_ok {cur : Task} {patch : Option (Option String)}
    {parent : Option String} (h : newParent tasks cur id patch = .ok parent) :
    parent = cur.parentId ∨ parent = none ∨
      ∃ p, parent = some p ∧ p ∈ tasks.keys ∧ ¬ ReflTransGen (ChildOf tasks) p id := by
  cases patch with
  | none => exact .inl (Except.ok.inj h).symm
  | some patch =>
    cases patch with
    | none => exact .inr (.inl (Except.ok.inj h).symm)
    | some p =>
      unfold newParent at h
      simp only [bind, Except.bind, pure, Except.pure, throw, throwThe, MonadExceptOf.throw] at h
      cases hexists : requireExists tasks p "parent" with
      | error e => rw [hexists] at h; nomatch h
      | ok t =>
        rw [hexists] at h
        dsimp only at h
        by_cases hcycle : wouldCloseParentCycle tasks id p = true
        · rw [if_pos hcycle] at h
          nomatch h
        rw [if_neg hcycle] at h
        exact .inr (.inr ⟨p, (Except.ok.inj h).symm,
          mem_keys_of_get? (requireExists_ok hexists),
          fun hreach => hcycle ((wouldCloseParentCycle_iff id p).mpr hreach)⟩)

/-- What `update` writes: the task with its dependencies, and a parent that has been checked. -/
theorem patched_ok {host : Host} {patch : TaskPatch} {next : Task}
    (h : patched tasks host id patch = .ok next) :
    ∃ cur, tasks.get? id = some cur ∧ next.id = cur.id ∧ next.deps = cur.deps ∧
      (next.parentId = cur.parentId ∨ next.parentId = none ∨
        ∃ p, next.parentId = some p ∧ p ∈ tasks.keys ∧
          ¬ ReflTransGen (ChildOf tasks) p id) := by
  unfold patched at h
  cases hcur : requireExists tasks id "task" with
  | error e => rw [hcur] at h; nomatch h
  | ok cur =>
    rw [hcur] at h
    simp only [bind, Except.bind, pure, Except.pure] at h
    cases hstatus : checkedStatus patch.status cur.status with
    | error e => rw [hstatus] at h; nomatch h
    | ok status =>
      rw [hstatus] at h
      dsimp only at h
      cases hparent : newParent tasks cur id patch.parentId with
      | error e => rw [hparent] at h; nomatch h
      | ok parent =>
        rw [hparent] at h
        obtain rfl := Except.ok.inj h
        exact ⟨cur, requireExists_ok hcur, rfl, rfl, newParent_ok hparent⟩

theorem Sound.patch (h : Sound tasks) {host : Host} {patch : TaskPatch}
    {next : Task} (hpatch : patched tasks host id patch = .ok next) :
    Sound (tasks.set id next) := by
  obtain ⟨cur, hcur, hid, hdeps, hparent⟩ := patched_ok hpatch
  have hcurdeps : depsOf tasks id = next.deps := (depsOf_of_get? hcur).trans hdeps.symm
  have hcurparent : parentOf tasks id = cur.parentId := parentOf_of_get? hcur
  refine h.set (hid.trans (h.ids id cur hcur)) ?_ ?_ ?_ ?_ ?_
  · intro d hd
    rw [← hcurdeps] at hd
    exact h.deps_exist id d hd
  · rw [← hcurdeps]
    exact h.deps_nodup id
  · intro p hp
    rcases hparent with hsame | hnone | ⟨q, hq, hmem, -⟩
    · exact h.parent_exists id p (hcurparent.trans (hsame.symm.trans hp))
    · nomatch hnone.symm.trans hp
    · rw [some.inj (hp.symm.trans hq)]
      exact hmem
  · refine acyclic_fewer h.deps_acyclic fun d hd => ?_
    rw [hcurdeps]
    exact hd
  · rcases hparent with hsame | hnone | ⟨q, hq, -, hreach⟩
    · exact acyclic_sameParent h.parents_acyclic fun p hp => hcurparent.trans (hsame.symm.trans hp)
    · exact acyclic_sameParent h.parents_acyclic fun p hp => nomatch hnone.symm.trans hp
    · exact acyclic_newParent h.parents_acyclic hq hreach

theorem get?_detached (id x : String) :
    ((tasks.delete id).mapValues (detach id)).get? x =
      if id = x then none else (tasks.get? x).map (detach id) := by
  rw [JsMap.get?_mapValues, JsMap.get?_delete]
  split <;> rfl

theorem mem_deps_detach {d : String} {t : Task} :
    d ∈ (detach id t).deps ↔ d ∈ t.deps ∧ d ≠ id := by
  show d ∈ (if id ∈ t.deps then t.deps.filter (· ≠ id) else t.deps) ↔ _
  split
  · rw [mem_filter, decide_eq_true_eq]
  · rename_i hid
    refine ⟨fun hd => ⟨hd, ?_⟩, And.left⟩
    rintro rfl
    exact hid hd

theorem parentId_detach {p : String} {t : Task} :
    (detach id t).parentId = some p ↔ t.parentId = some p ∧ p ≠ id := by
  show (if t.parentId = some id then none else t.parentId) = some p ↔ _
  split
  · rename_i hid
    refine ⟨nofun, fun ⟨hp, hne⟩ => ?_⟩
    exact absurd (some.inj (hp.symm.trans hid)) hne
  · rename_i hid
    refine ⟨fun hp => ⟨hp, ?_⟩, And.left⟩
    rintro rfl
    exact hid hp

/-- Deleting keeps the graphs sound: no edge to the deleted task is left. -/
theorem Sound.detached (h : Sound tasks) (id : String) :
    Sound ((tasks.delete id).mapValues (detach id)) := by
  have hmem : ∀ x, x ∈ ((tasks.delete id).mapValues (detach id)).keys ↔
      x ∈ tasks.keys ∧ x ≠ id := by
    intro x
    rw [JsMap.mem_keys, JsMap.mem_keys]
    simp only [get?_detached]
    by_cases hx : id = x
    · simp [hx]
    · simp [hx, Ne.symm hx]
  have hdepends : ∀ x d, DependsOn ((tasks.delete id).mapValues (detach id)) x d →
      DependsOn tasks x d ∧ d ≠ id := by
    intro x d hd
    unfold DependsOn depsOf at hd ⊢
    rw [get?_detached] at hd
    split at hd
    · nomatch hd
    · cases hx : tasks.get? x with
      | none => rw [hx] at hd; nomatch hd
      | some t =>
        rw [hx] at hd
        exact mem_deps_detach.mp hd
  have hchild : ∀ x p, ChildOf ((tasks.delete id).mapValues (detach id)) x p →
      ChildOf tasks x p ∧ p ≠ id := by
    intro x p hp
    unfold ChildOf parentOf at hp ⊢
    rw [get?_detached] at hp
    split at hp
    · nomatch hp
    · cases hx : tasks.get? x with
      | none => rw [hx] at hp; nomatch hp
      | some t =>
        rw [hx] at hp
        exact parentId_detach.mp hp
  constructor
  case ids =>
    intro x u hu
    rw [get?_detached] at hu
    split at hu
    · nomatch hu
    · obtain ⟨t, ht, rfl⟩ := map_eq_some_iff.mp hu
      exact h.ids x t ht
  case deps_exist =>
    intro x d hd
    obtain ⟨hd, hne⟩ := hdepends x d hd
    exact (hmem d).mpr ⟨h.deps_exist x d hd, hne⟩
  case deps_nodup =>
    intro x
    have hold := h.deps_nodup x
    unfold depsOf at hold ⊢
    rw [get?_detached]
    split
    · exact nodup_nil
    · cases hx : tasks.get? x with
      | none => exact nodup_nil
      | some t =>
        rw [hx] at hold
        show (if id ∈ t.deps then t.deps.filter (· ≠ id) else t.deps).Nodup
        split
        · exact hold.filter _
        · exact hold
  case deps_acyclic => exact h.deps_acyclic.mono fun u v huv => (hdepends u v huv).1
  case parent_exists =>
    intro x p hp
    obtain ⟨hp, hne⟩ := hchild x p hp
    exact (hmem p).mpr ⟨h.parent_exists x p hp, hne⟩
  case parents_acyclic => exact h.parents_acyclic.mono fun u v huv => (hchild u v huv).1

theorem Sound.unlink (h : Sound tasks) {taskId dep : String} {task : Task} (now : Rat)
    (htask : tasks.get? taskId = some task) :
    Sound (tasks.set taskId
      { task with deps := task.deps.filter (· ≠ dep), updatedAt := now }) := by
  have hdeps : depsOf tasks taskId = task.deps := depsOf_of_get? htask
  have hold : ∀ d ∈ task.deps.filter (· ≠ dep), d ∈ depsOf tasks taskId := by
    intro d hd
    rw [hdeps]
    exact (mem_filter.mp hd).1
  refine h.set (h.ids taskId task htask) ?_ ?_ ?_ ?_ ?_
  · exact fun d hd => h.deps_exist taskId d (hold d hd)
  · show (task.deps.filter _).Nodup
    rw [← hdeps]
    exact (h.deps_nodup taskId).filter _
  · exact fun p hp => h.parent_exists taskId p ((parentOf_of_get? htask).trans hp)
  · exact acyclic_fewer h.deps_acyclic hold
  · exact acyclic_sameParent h.parents_acyclic fun p hp => (parentOf_of_get? htask).trans hp

/-! ## One operation -/

/-- What holds of the store between operations: the map is sound, and so is what was saved. -/
structure Kept (store : TaskStore) : Prop where
  tasks : Sound store.tasks
  file : ∀ saved, store.file = some saved → ∃ m : TaskMap, Sound m ∧ m.values = saved

theorem Kept.opened (durable : Bool) : Kept (.opened durable) :=
  ⟨Sound.empty, fun _ => nofun⟩

/-- The end of an operation: the sound map is saved, or the file stays. -/
theorem Kept.settle (h : Kept store) {tasks : TaskMap} (hsound : Sound tasks)
    (host : Host) (answer : Answer) :
    Kept ({ store with tasks }.settle host answer).2 := by
  unfold TaskStore.settle TaskStore.save
  by_cases hdurable : store.durable = true
  · rw [if_neg (by rw [hdurable]; exact Bool.false_ne_true)]
    by_cases hsaves : host.saves = true
    · rw [if_pos hsaves]
      refine ⟨hsound, fun saved hsaved => ⟨tasks, hsound, ?_⟩⟩
      exact some.inj hsaved
    · rw [if_neg hsaves]
      exact ⟨hsound, h.file⟩
  · rw [if_pos (by rw [Bool.eq_false_iff.mpr hdurable]; rfl)]
    exact ⟨hsound, h.file⟩

theorem Kept.reopen (h : Kept store) : Kept store.reopen := by
  refine ⟨?_, h.file⟩
  show Sound (load store.durable store.file)
  unfold load
  split
  · exact Sound.empty
  · cases hfile : store.file with
    | none => exact Sound.empty
    | some saved =>
      obtain ⟨m, hm, rfl⟩ := h.file saved hfile
      rw [getD_some, JsMap.setAll_values m hm.ids]
      exact hm

theorem Kept.create (h : Kept store) (host : Host) (input : TaskInput) :
    Kept (create store host input).2 := by
  rcases create_cases h.tasks host input with ⟨message, heq⟩ | ⟨tasks, answer, hsound, heq⟩
  · rw [heq]
    exact h
  · rw [heq]
    exact h.settle hsound host answer

/-- **Every operation keeps the graphs sound**, in memory and in the file. -/
theorem kept_step (h : Kept store) (op : Op × Host) :
    Kept (machine.step store op).2 := by
  obtain ⟨op, host⟩ := op
  cases op with
  | create input => exact h.create host input
  | addSubtask parentId input =>
    show Kept (addSubtask store host parentId input).2
    unfold addSubtask
    split
    · exact h
    · exact h.create host _
  | update id patch =>
    show Kept (update store host id patch).2
    unfold update
    cases hpatch : patched store.tasks host id patch with
    | error message => exact h
    | ok next => exact h.settle (h.tasks.patch hpatch) host _
  | delete id =>
    show Kept (delete store host id).2
    unfold delete
    split
    · exact h
    · exact h.settle (h.tasks.detached id) host _
  | addDependency taskId dep =>
    show Kept (addDependency store host taskId dep).2
    unfold addDependency
    cases hlink : linkDependency store.tasks taskId dep (host.now 0) with
    | error message => exact h
    | ok result =>
      cases result with
      | none => exact h
      | some tasks => exact h.settle (h.tasks.link hlink) host _
  | removeDependency taskId dep =>
    show Kept (removeDependency store host taskId dep).2
    unfold removeDependency
    cases htask : store.tasks.get? taskId with
    | none => exact h
    | some task =>
      dsimp only
      split
      · exact h
      · exact h.settle (h.tasks.unlink (host.now 0) htask) host _
  | reopen => exact h.reopen

end NexusCode.Tasks
