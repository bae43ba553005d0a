/-
  Agent runs on one store stay apart, as long as the names of their recovery tasks do.

    1. `MayName`           — what a run names is not the root or a criterion of another run.
    2. `LiveRun.Ok`      — what holds of a run between two turns; `Ok.bystander`: the turn of
       another run keeps it.
    3. `Ok.finish`, `Ok.plan`, `Ok.reflect`, `Ok.decide` — one lemma for each turn, put together in
       `Ok.advance`.
    4. **`runs_apart`**  — every run of the machine, by induction.
-/
import NexusCode.Agent.SharedPlan
import NexusCode.Tasks.Schedule

namespace NexusCode.Agent

open Lib Tasks List Option

variable {toLowerCase : String → String}

/-! ## What a run names -/

/-- The three forms of names a run gives to tasks. -/
def MayName (run : AgentRun) (id : String) : Prop :=
  id = rootTaskId run.agentRunId ∨ (∃ i, id = criterionTaskId run.agentRunId i) ∨
    ∃ step, id = recoveryTaskId run.role step

theorem MayName.ne {run : AgentRun} {id agentRunId : String} (h : MayName run id)
    (hne : run.agentRunId ≠ agentRunId) :
    id ≠ rootTaskId agentRunId ∧ ∀ i, id ≠ criterionTaskId agentRunId i := by
  rcases h with rfl | ⟨k, rfl⟩ | ⟨step, rfl⟩
  · exact ⟨fun h => hne (rootTaskId_inj.mp h), fun i => rootTaskId_ne_criterion _ _ i⟩
  · exact ⟨(rootTaskId_ne_criterion _ _ k).symm, fun i h => hne (criterionTaskId_inj.mp h).1⟩
  · exact ⟨recoveryTaskId_ne_root _ _ step, recoveryTaskId_ne_criterion _ _ step⟩

theorem subtaskIds_ne_root {p : LiveRun} {id : String} (h : id ∈ p.subtaskIds)
    (agentRunId : String) : id ≠ rootTaskId agentRunId := by
  rcases mem_append.mp h with h | h
  · obtain ⟨i, -, rfl⟩ := mem_map.mp h
    exact (rootTaskId_ne_criterion _ _ i).symm
  · obtain ⟨rec, -, rfl⟩ := mem_map.mp h
    exact recoveryTaskId_ne_root _ _ _

/-! ## What holds of a run between two turns -/

namespace LiveRun

/-- The steps that are recorded, against the counter of the loop. -/
def Counted (p : LiveRun) : Prop :=
  match p.phase with
  | .top | .observed | .acting => p.loop.steps.length = p.step
  | .reflected _ => p.loop.steps.length = p.step + 1
  | _ => True

/-- The children of the root are the subtasks, and these have none. -/
structure Rooted (p : LiveRun) (tasks : TaskMap) : Prop where
  children : ∀ x, ChildOf tasks x (rootTaskId p.run.agentRunId) ↔ x ∈ p.subtaskIds
  leaves : ∀ c ∈ p.subtaskIds, ∀ x, ¬ ChildOf tasks x c

/-- What holds of a run: it created its own tasks and nothing else, below its root; before it has
    planned, nothing is named after it. -/
structure Ok (toLowerCase : String → String) (tasks : TaskMap) (p : LiveRun) : Prop where
  evaluates : p.run.evaluate = fun input => .ok (defaultEvaluate toLowerCase input)
  owned : ∀ id ∈ p.created, id ∈ tasks.keys
  nodup : p.created.Nodup
  unhindered : ∀ message, p.phase ≠ .thrown message
  counted : p.Counted
  unplanned : p.planned = false → p.hasFailed = false →
    p.created = [] ∧ p.rootCreated = false ∧ Unnamed p.run.agentRunId tasks
  plans : p.planned = true → p.hasFailed = false →
    p.rootCreated = true ∧ p.created.Perm p.planIds ∧ p.Rooted tasks
  reported : ∀ result plan, p.phase = .done result plan → (plan.map Task.id).Perm p.planIds

variable {p : LiveRun}

/-- **The turn of another run** keeps what holds of a run. -/
theorem Ok.bystander {tasks tasks' : TaskMap} (h : p.Ok toLowerCase tasks)
    {other : AgentRun} {touched : List String}
    (hgrown : Grown (rootTaskId other.agentRunId) touched tasks tasks')
    (hnames : ∀ id ∈ touched, MayName other id) (hne : other.agentRunId ≠ p.run.agentRunId) :
    p.Ok toLowerCase tasks' := by
  refine { h with owned := ?_, unplanned := ?_, plans := ?_ }
  · exact fun id hid => (hgrown.kept id (h.owned id hid)).1
  · intro hplanned hfailed
    obtain ⟨hcreated, hroot, hunnamed, hcriteria⟩ := h.unplanned hplanned hfailed
    refine ⟨hcreated, hroot, fun hmem => ?_, fun i hmem => ?_⟩
    · exact ((hnames _ (hgrown.mem_touched hmem hunnamed)).ne hne).1 rfl
    · exact ((hnames _ (hgrown.mem_touched hmem (hcriteria i))).ne hne).2 i rfl
  · intro hplanned hfailed
    obtain ⟨hroot, hperm, hrooted⟩ := h.plans hplanned hfailed
    refine ⟨hroot, hperm, fun x => ?_, fun c hc x => ?_⟩
    · rw [hgrown.childOf_iff fun heq => hne (rootTaskId_inj.mp heq).symm]
      exact hrooted.children x
    · rw [hgrown.childOf_iff (subtaskIds_ne_root hc _)]
      exact hrooted.leaves c hc x

/-- What a run has created once it has planned is its root and its subtasks. -/
theorem planIds_of_planned (h : p.planned = true) :
    p.planIds = rootTaskId p.run.agentRunId :: p.subtaskIds := if_pos h

theorem planIds_of_unplanned (h : p.planned = false) : p.planIds = [] :=
  if_neg (by rw [h]; exact Bool.false_ne_true)

/-- **The plan of a result**: the subtree of a run that has planned, or nothing. -/
theorem Ok.planOf {tasks : TaskMap} (h : p.Ok toLowerCase tasks)
    (hsound : Sound tasks) (hfailed : p.hasFailed = false)
    (hempty : p.planned = false → tasks.keys = []) :
    ∃ plan, p.planOf tasks = .ok plan ∧ (plan.map Task.id).Perm p.planIds := by
  unfold LiveRun.planOf
  cases hplanned : p.planned with
  | true =>
    obtain ⟨hroot, hperm, hrooted⟩ := h.plans hplanned hfailed
    rw [hroot, if_pos rfl]
    rw [planIds_of_planned hplanned] at hperm ⊢
    have hmem : rootTaskId p.run.agentRunId ∈ p.created := hperm.mem_iff.mpr mem_cons_self
    exact subtree_perm hsound (hperm.nodup_iff.mp h.nodup) (h.owned _ hmem) hrooted.children
      hrooted.leaves
  | false =>
    obtain ⟨-, hroot, -⟩ := h.unplanned hplanned hfailed
    rw [hroot, if_neg Bool.false_ne_true, planIds_of_unplanned hplanned]
    refine ⟨_, rfl, ?_⟩
    have hnone : all tasks = [] := by
      refine eq_nil_iff_forall_not_mem.mpr fun t ht => ?_
      obtain ⟨id, hid⟩ := mem_all.mp ht
      have := mem_keys_of_get? hid
      rw [hempty hplanned] at this
      nomatch this
    rw [hnone]
    exact List.Perm.nil

end LiveRun

/-! ## What a turn does to the store -/

theorem mem_newIds {before after : TaskMap} {id : String} :
    id ∈ newIds before after ↔ id ∈ after.keys ∧ id ∉ before.keys := by
  unfold newIds
  rw [mem_filter, decide_eq_true_eq]

theorem newIds_nodup (before after : TaskMap) : (newIds before after).Nodup :=
  after.nodup.filter _

theorem newIds_self (tasks : TaskMap) : newIds tasks tasks = [] :=
  filter_eq_nil_iff.mpr fun _ hid hnot => of_decide_eq_true hnot hid

/-- What a turn of a run does: it writes tasks the run may name, of the old ones only its own, and
    what is new counts as created by it. -/
structure Turned (p p' : LiveRun) (tasks tasks' : TaskMap) : Prop where
  touched : ∃ touched, Grown (rootTaskId p.run.agentRunId) touched tasks tasks' ∧
    (∀ id ∈ touched, MayName p.run id) ∧ ∀ id ∈ touched, id ∈ tasks.keys → id ∈ p.created
  created : p'.created = p.created ++ newIds tasks tasks'
  run : p'.run = p.run

namespace Turned

variable {p p' : LiveRun} {tasks tasks' : TaskMap}

theorem still (hcreated : p'.created = p.created) (hrun : p'.run = p.run) :
    Turned p p' tasks tasks where
  touched := ⟨[], .refl, (fun _ => nofun), fun _ => nofun⟩
  created := by rw [newIds_self, append_nil, hcreated]
  run := hrun

/-- What the run created is there, and nothing was created twice. -/
theorem owned (h : Turned p p' tasks tasks') (hok : p.Ok toLowerCase tasks) :
    (∀ id ∈ p'.created, id ∈ tasks'.keys) ∧ p'.created.Nodup := by
  obtain ⟨touched, hgrown, -, -⟩ := h.touched
  rw [h.created]
  constructor
  · intro id hid
    rcases mem_append.mp hid with hold | hnew
    · exact (hgrown.kept id (hok.owned id hold)).1
    · exact (mem_newIds.mp hnew).1
  · refine hok.nodup.append (newIds_nodup _ _) fun id hold hnew => ?_
    exact (mem_newIds.mp hnew).2 (hok.owned id hold)

/-- **What is written was created by the run.** -/
theorem mem_created (h : Turned p p' tasks tasks') {id : String}
    (hchanged : tasks'.get? id ≠ tasks.get? id) : id ∈ p'.created := by
  obtain ⟨touched, hgrown, -, hown⟩ := h.touched
  have htouched : id ∈ touched := by
    by_contra hnot
    exact hchanged (hgrown.same id hnot)
  rw [h.created, mem_append]
  by_cases hold : id ∈ tasks.keys
  · exact .inl (hown id htouched hold)
  · refine .inr (mem_newIds.mpr ⟨?_, hold⟩)
    by_contra hnot
    rw [(tasks.get?_eq_none id).mpr hold, (tasks'.get?_eq_none id).mpr hnot] at hchanged
    exact hchanged rfl

end Turned

namespace LiveRun

variable {p p' : LiveRun} {tasks : TaskMap}

/-! A run in one of its phases. -/

theorem running {phase : Phase} (hphase : p.phase = phase) (hother : phase ≠ .failed) :
    p.hasFailed = false := by
  unfold hasFailed
  split
  · next hfailed => exact absurd (hphase.symm.trans hfailed) hother
  · rfl

theorem planned_of_acting (hphase : p.phase = .acting) : p.planned = true := by
  unfold planned
  rw [hphase]
  rfl

/-- A run that is not acting has planned if it has recorded a step. -/
theorem planned_of_steps {phase : Phase} (hphase : p.phase = phase) (hother : phase ≠ .acting) :
    p.planned = !p.loop.steps.isEmpty := by
  unfold planned
  split
  · next hacting => exact absurd (hphase.symm.trans hacting) hother
  · rfl

/-- Until a step is recorded, the counter of the loop tells the steps before it. -/
theorem Ok.counted_before (h : p.Ok toLowerCase tasks)
    (hphase : p.phase = .top ∨ p.phase = .observed ∨ p.phase = .acting) :
    p.loop.steps.length = p.step := by
  have hcounted := h.counted
  unfold Counted at hcounted
  rcases hphase with hphase | hphase | hphase <;> rw [hphase] at hcounted <;> exact hcounted

/-- A run that stands elsewhere with the same steps and tasks. -/
theorem Ok.restand (h : p.Ok toLowerCase tasks) (hrun : p'.run = p.run)
    (hsteps : p'.loop.steps = p.loop.steps) (hcreated : p'.created = p.created)
    (hroot : p'.rootCreated = p.rootCreated) (hplanned : p'.planned = p.planned)
    (hfailed : p'.hasFailed = false → p.hasFailed = false) (hcounted : p'.Counted)
    (hphase : ∀ message, p'.phase ≠ .thrown message)
    (hreported : ∀ result plan, p'.phase = .done result plan → (plan.map Task.id).Perm p.planIds) :
    p'.Ok toLowerCase tasks := by
  have hsubtasks : p'.subtaskIds = p.subtaskIds := by
    unfold subtaskIds
    rw [hrun, hsteps]
  have hids : p'.planIds = p.planIds := by
    unfold planIds
    rw [hplanned, hsubtasks, hrun]
  refine ⟨?_, ?_, ?_, hphase, hcounted, ?_, ?_, ?_⟩
  · rw [hrun]
    exact h.evaluates
  · rw [hcreated]
    exact h.owned
  · rw [hcreated]
    exact h.nodup
  · rw [hplanned, hcreated, hroot, hrun]
    exact fun hno hrunning => h.unplanned hno (hfailed hrunning)
  · rw [hplanned, hcreated, hroot, hids]
    intro hyes hrunning
    obtain ⟨hroot, hperm, hchildren, hleaves⟩ := h.plans hyes (hfailed hrunning)
    exact ⟨hroot, hperm, by rw [hrun, hsubtasks]; exact hchildren, by rw [hsubtasks]; exact hleaves⟩
  · rw [hids]
    exact hreported

theorem Ok.failing {tasks' : TaskMap} (h : p.Ok toLowerCase tasks)
    (hturned : Turned p p' tasks tasks') (hphase : p'.phase = .failed) :
    p'.Ok toLowerCase tasks' := by
  obtain ⟨howned, hnodup⟩ := hturned.owned h
  have hfailed : p'.hasFailed = true := by
    unfold hasFailed
    rw [hphase]
  refine ⟨?_, howned, hnodup, ?_, ?_, ?_, ?_, ?_⟩
  · rw [hturned.run]
    exact h.evaluates
  · rw [hphase]
    exact fun _ => nofun
  · unfold Counted
    rw [hphase]
    trivial
  · exact fun _ hno => absurd (hfailed.symm.trans hno) (Bool.false_ne_true ∘ Eq.symm)
  · exact fun _ hno => absurd (hfailed.symm.trans hno) (Bool.false_ne_true ∘ Eq.symm)
  · rw [hphase]
    exact fun _ _ => nofun

/-- **The end of a run.** -/
theorem Ok.finish (h : p.Ok toLowerCase tasks) (hsound : Sound tasks)
    (hfailed : p.hasFailed = false) (hplanned : p.planned = !p.loop.steps.isEmpty)
    (hempty : p.loop.steps = [] → tasks.keys = []) (reason : StopReason) :
    (p.finish tasks reason).Ok toLowerCase tasks ∧
      Turned p (p.finish tasks reason) tasks tasks := by
  obtain ⟨plan, hplan, hperm⟩ := h.planOf hsound hfailed fun hno => hempty <| by
    rw [hplanned, Bool.not_eq_false'] at hno
    exact List.isEmpty_iff.mp hno
  have hfinish : p.finish tasks reason =
      { p with phase := .done (p.loop.buildResult reason) plan } := by
    unfold LiveRun.finish
    rw [hplan]
  rw [hfinish]
  refine ⟨h.restand rfl rfl rfl rfl hplanned.symm (fun _ => hfailed) trivial
    (fun _ => nofun) fun result plan' hdone => ?_, .still rfl rfl⟩
  obtain ⟨-, rfl⟩ := Phase.done.inj hdone
  exact hperm

theorem Ok.observe (h : p.Ok toLowerCase tasks) (hsound : Sound tasks) (hphase : p.phase = .top)
    (hfree : p.Free tasks .observe) :
    (p.observe tasks).Ok toLowerCase tasks ∧ Turned p (p.observe tasks) tasks tasks := by
  have hfailed : p.hasFailed = false := running hphase nofun
  have hplanned : p.planned = !p.loop.steps.isEmpty := planned_of_steps hphase nofun
  have hcounted : p.loop.steps.length = p.step := h.counted_before (.inl hphase)
  have hempty : p.loop.steps = [] → (p.aborted = true ∨ p.run.maxSteps = 0) → tasks.keys = [] := by
    unfold Free at hfree
    rw [hphase] at hfree
    exact hfree
  unfold LiveRun.observe
  split
  · split
    · rename_i haborted
      exact h.finish hsound hfailed hplanned (fun hnone => hempty hnone (.inl haborted)) _
    · refine ⟨h.restand rfl rfl rfl rfl ?_ (fun _ => hfailed) hcounted (fun _ => nofun)
        fun _ _ => nofun, .still rfl rfl⟩
      exact hplanned.symm
  · rename_i hover
    refine h.finish hsound hfailed hplanned (fun hnone => hempty hnone (.inr ?_)) _
    rw [hnone] at hcounted
    have : p.step = 0 := hcounted.symm
    omega

theorem Ok.decide {rec : StepRecord} (h : p.Ok toLowerCase tasks) (hsound : Sound tasks)
    (hphase : p.phase = .reflected rec) :
    (p.decide tasks rec).Ok toLowerCase tasks ∧ Turned p (p.decide tasks rec) tasks tasks := by
  have hfailed : p.hasFailed = false := running hphase nofun
  have hplanned : p.planned = !p.loop.steps.isEmpty := planned_of_steps hphase nofun
  have hcounted : p.loop.steps.length = p.step + 1 := by
    have := h.counted
    unfold Counted at this
    rw [hphase] at this
    exact this
  unfold LiveRun.decide
  split
  · refine h.finish hsound hfailed hplanned (fun hnone => ?_) _
    rw [hnone] at hcounted
    nomatch hcounted
  · refine ⟨h.restand rfl rfl rfl rfl ?_ (fun _ => hfailed) hcounted (fun _ => nofun)
      fun _ _ => nofun, .still rfl rfl⟩
    exact hplanned.symm

theorem names_nodup (agentRunId : String) (n : Nat) :
    (rootTaskId agentRunId :: (List.range n).map (criterionTaskId agentRunId)).Nodup := by
  refine nodup_cons.mpr ⟨fun h => ?_, ?_⟩
  · obtain ⟨i, -, hi⟩ := mem_map.mp h
    exact rootTaskId_ne_criterion _ _ i hi.symm
  · exact List.nodup_range.map fun i j h => (criterionTaskId_inj.mp h).2

theorem Ok.firstPlan {tasks' : TaskMap} {touched : List String} (h : p.Ok toLowerCase tasks)
    (hsound : Sound tasks) (hsound' : Sound tasks') (hsteps : p.loop.steps = [])
    (hcreated : p.created = []) (hunnamed : ∀ id ∈ touched, id ∉ tasks.keys)
    (hgrown : Grown (rootTaskId p.run.agentRunId) touched tasks tasks')
    (hadded : ∀ id ∈ touched, id ∈ tasks'.keys)
    (htouched : touched = rootTaskId p.run.agentRunId ::
      (List.range p.run.goal.criteria.length).map (criterionTaskId p.run.agentRunId))
    (hphase : p'.phase = .acting) (hroot : p'.rootCreated = true) (hcounted : p'.Counted)
    (hloop : p'.loop = p.loop) (hturned : Turned p p' tasks tasks') :
    p'.Ok toLowerCase tasks' := by
  have hsubtasks : p'.subtaskIds =
      (List.range p.run.goal.criteria.length).map (criterionTaskId p.run.agentRunId) := by
    unfold subtaskIds
    rw [hturned.run, hloop, hsteps]
    exact append_nil _
  have hplanned : p'.planned = true := planned_of_acting hphase
  have hids : p'.planIds = touched := by
    rw [planIds_of_planned hplanned, hsubtasks, htouched, hturned.run]
  -- what is new is the root and the criteria
  have hnew : ∀ id, id ∈ newIds tasks tasks' ↔ id ∈ touched := by
    intro id
    rw [mem_newIds]
    exact ⟨fun hid => hgrown.mem_touched hid.1 hid.2, fun hid => ⟨hadded id hid, hunnamed id hid⟩⟩
  have hrootNew : rootTaskId p.run.agentRunId ∉ tasks.keys :=
    hunnamed _ (htouched ▸ mem_cons_self)
  obtain ⟨howned, hnodup⟩ := hturned.owned h
  refine ⟨?_, howned, hnodup, ?_, hcounted, ?_, ?_, ?_⟩
  · rw [hturned.run]
    exact h.evaluates
  · rw [hphase]
    exact fun _ => nofun
  · rw [hplanned]
    exact nofun
  · refine fun _ _ => ⟨hroot, ?_, fun x => ?_, fun c hc x hchild => ?_⟩
    · rw [hturned.created, hcreated, nil_append, hids]
      refine (perm_ext_iff_of_nodup (newIds_nodup _ _) ?_).mpr hnew
      rw [htouched]
      exact names_nodup _ _
    · rw [hturned.run]
      by_cases hx : x = rootTaskId p.run.agentRunId
      · subst hx
        refine iff_of_false (fun hself => ?_) fun hmem => subtaskIds_ne_root hmem _ rfl
        exact hsound'.parents_acyclic _ (.single hself)
      · rw [hgrown.childOf_root_iff hx, ← mem_newIds, hnew x, htouched, hsubtasks, mem_cons,
          or_iff_right hx]
        exact or_iff_right fun hold => hrootNew (hsound.parent_exists x _ hold)
    · rw [hgrown.childOf_iff (subtaskIds_ne_root hc _)] at hchild
      refine hunnamed c ?_ (hsound.parent_exists x c hchild)
      rw [htouched, ← hsubtasks]
      exact mem_cons_of_mem _ hc
  · rw [hphase]
    exact fun _ _ => nofun

variable {store : TaskStore}

/-- **Edits of a run** that name nothing of another run: the store throws only where saving fails,
    and otherwise the run goes on. -/
theorem Ok.edit (h : p.Ok toLowerCase store.tasks) (hkept : Kept store)
    (hosts : Nat → Host) {directives : List PlanDirective} {next : TaskMap → LiveRun → LiveRun}
    (hbelow : ∀ d ∈ directives, Below (rootTaskId p.run.agentRunId) d)
    (hroot : rootTaskId p.run.agentRunId ∈ store.tasks.keys ∨ ∃ title notes status,
      directives.head? = some (.add title (some (rootTaskId p.run.agentRunId)) none notes status))
    (hnames : ∀ id ∈ directives.filterMap target, MayName p.run id ∧
      (id ∈ store.tasks.keys → id ∈ p.created))
    (hnext : ∀ tasks q, (next tasks q).created = q.created ∧ (next tasks q).run = q.run)
    (hok : ∀ tasks', Sound tasks' →
      Grown (rootTaskId p.run.agentRunId) (directives.filterMap target) store.tasks tasks' →
      (∀ id ∈ directives.filterMap added, id ∈ tasks'.keys) →
      Turned p (next tasks' (p.edited store.tasks tasks')) store.tasks tasks' →
      (next tasks' (p.edited store.tasks tasks')).Ok toLowerCase tasks') :
    Kept (p.edit store hosts directives next).2 ∧
      (p.edit store hosts directives next).1.Ok toLowerCase
        (p.edit store hosts directives next).2.tasks ∧
      Turned p (p.edit store hosts directives next).1 store.tasks
        (p.edit store hosts directives next).2.tasks := by
  obtain ⟨hgrown, herror, hadded⟩ := applyDirectives_grown hosts 0 directives hbelow hroot
  have hkept' := Kept.applyDirectives hosts 0 directives hkept
  unfold LiveRun.edit
  rcases hedits : applyDirectives hosts 0 directives store with ⟨failure, store'⟩
  rw [hedits] at hgrown herror hadded hkept'
  have hturned : ∀ {p' : LiveRun}, p'.created = (p.edited store.tasks store'.tasks).created →
      p'.run = p.run → Turned p p' store.tasks store'.tasks := fun hcreated hrun =>
    ⟨⟨_, hgrown, fun id hid => (hnames id hid).1, fun id hid => (hnames id hid).2⟩, hcreated, hrun⟩
  cases failure with
  | some f =>
    refine ⟨hkept', ?_, hturned rfl rfl⟩
    cases f with
    | error message => exact absurd rfl (herror message)
    | io => exact h.failing (hturned rfl rfl) rfl
  | none =>
    obtain ⟨hcreated, hrun⟩ := hnext store'.tasks (p.edited store.tasks store'.tasks)
    have hturn := hturned hcreated hrun
    exact ⟨hkept', hok store'.tasks hkept'.tasks hgrown (hadded rfl) hturn, hturn⟩

/-- **The plan of a step.** -/
theorem Ok.plan (h : p.Ok toLowerCase store.tasks) (hkept : Kept store)
    (hphase : p.phase = .observed) (hosts : Nat → Host) :
    Kept (p.plan store hosts).2 ∧
      (p.plan store hosts).1.Ok toLowerCase (p.plan store hosts).2.tasks ∧
      Turned p (p.plan store hosts).1 store.tasks (p.plan store hosts).2.tasks := by
  have hfailed : p.hasFailed = false := running hphase nofun
  have hcounted : p.loop.steps.length = p.step := h.counted_before (.inr (.inl hphase))
  have hplanned : p.planned = !p.loop.steps.isEmpty := planned_of_steps hphase nofun
  unfold LiveRun.plan
  by_cases hstep : p.step = 0
  · have hsteps : p.loop.steps = [] := length_eq_zero_iff.mp (hcounted.trans hstep)
    obtain ⟨hcreated, -, hrootNew, hcriteriaNew⟩ :=
      h.unplanned (by rw [hplanned, hsteps]; rfl) hfailed
    obtain ⟨hbelow, hhead⟩ := defaultPlan_below p.run.goal p.run.agentRunId
    have htargets := defaultPlan_names p.run.goal p.run.agentRunId target fun _ _ _ _ _ => rfl
    have hadds := defaultPlan_names p.run.goal p.run.agentRunId added fun _ _ _ _ _ => rfl
    have hnew : ∀ id ∈ (defaultPlan p.run.goal 0 p.run.agentRunId).filterMap target,
        MayName p.run id ∧ id ∉ store.tasks.keys := by
      intro id hid
      rw [htargets] at hid
      rcases mem_cons.mp hid with rfl | hid
      · exact ⟨.inl rfl, hrootNew⟩
      · obtain ⟨i, -, rfl⟩ := mem_map.mp hid
        exact ⟨.inr (.inl ⟨i, rfl⟩), hcriteriaNew i⟩
    rw [hstep]
    refine h.edit hkept hosts hbelow (.inr hhead)
      (fun id hid => ⟨(hnew id hid).1, fun hold => absurd hold (hnew id hid).2⟩)
      (fun _ _ => ⟨rfl, rfl⟩) fun tasks' hsound' hgrown hadded hturned => ?_
    rw [hadds, ← htargets] at hadded
    refine h.firstPlan hkept.tasks hsound' hsteps hcreated (fun id hid => (hnew id hid).2) hgrown
      hadded htargets rfl ?_ hcounted rfl hturned
    obtain ⟨t, ht⟩ := (tasks'.mem_keys _).mp
      (hadded (rootTaskId p.run.agentRunId) (by rw [htargets]; exact mem_cons_self))
    have hsome : (tasks'.get? (rootTaskId p.run.agentRunId)).isSome = true := by rw [ht]; rfl
    obtain ⟨_, _, _, hfirst⟩ := hhead
    cases hds : defaultPlan p.run.goal 0 p.run.agentRunId with
    | nil => rw [hds] at hfirst; nomatch hfirst
    | cons d ds =>
      show (p.rootCreated || (true && (tasks'.get? (rootTaskId p.run.agentRunId)).isSome)) = true
      rw [hsome]
      exact Bool.or_true _
  · -- later steps plan nothing
    have hcreated : (p.edited store.tasks store.tasks).created = p.created := by
      show p.created ++ newIds store.tasks store.tasks = p.created
      rw [newIds_self, append_nil]
    rw [defaultPlan_of_pos _ hstep]
    refine ⟨hkept, h.restand rfl rfl hcreated (Bool.or_false _) ?_ (fun _ => hfailed) hcounted
      (fun _ => nofun) fun _ _ => nofun, .still hcreated rfl⟩
    rw [hplanned]
    cases hsteps : p.loop.steps with
    | nil =>
      rw [hsteps] at hcounted
      exact absurd hcounted.symm hstep
    | cons => rfl

theorem reflection_retry (rec : StepRecord) : rec.reflection.retry = rec.given.retry := by
  unfold StepRecord.reflection
  split <;> rfl

/-- The recovery task of a step that is retried. -/
def recoveryIds (p : LiveRun) (given : Reflection) : List String :=
  if given.retry then [recoveryTaskId p.run.role p.step] else []

/-- What a run has once a step is recorded and its edits are made. -/
theorem Ok.recorded {tasks' : TaskMap} {touched : List String} (h : p.Ok toLowerCase tasks)
    (record : StepRecord) (hsound : Sound tasks) (hsound' : Sound tasks')
    (hphase : p.phase = .acting)
    (hgrown : Grown (rootTaskId p.run.agentRunId) touched tasks tasks')
    (hstep : record.input.step = p.step)
    (hnew : ∀ id, id ∈ newIds tasks tasks' ↔ id ∈ p.recoveryIds record.given)
    (hphase' : p'.phase = .reflected record) (hroot' : p'.rootCreated = p.rootCreated)
    (hloop : p'.loop.steps = p.loop.steps ++ [record]) (hcount : p'.step = p.step)
    (hturned : Turned p p' tasks tasks') : p'.Ok toLowerCase tasks' := by
  have hfailed : p.hasFailed = false := running hphase nofun
  have hplanned : p.planned = true := planned_of_acting hphase
  have hcounted : p.loop.steps.length = p.step := h.counted_before (.inr (.inr hphase))
  have hsubtasks : p'.subtaskIds = p.subtaskIds ++ p.recoveryIds record.given := by
    unfold subtaskIds recoveryIds
    rw [hturned.run, hloop, filter_append, map_append, append_assoc]
    refine congrArg _ (congrArg _ ?_)
    rw [filter_singleton, reflection_retry]
    cases record.given.retry with
    | true => exact congrArg (fun step => [recoveryTaskId p.run.role step]) hstep
    | false => rfl
  have hplanned' : p'.planned = true := by
    unfold planned
    rw [hloop, isEmpty_eq_false_iff.mpr (concat_ne_nil record p.loop.steps)]
    exact Bool.or_true _
  obtain ⟨hroot, hperm, hchildren, hleaves⟩ := h.plans hplanned hfailed
  obtain ⟨howned, hnodup⟩ := hturned.owned h
  refine ⟨?_, howned, hnodup, ?_, ?_, ?_, ?_, ?_⟩
  · rw [hturned.run]
    exact h.evaluates
  · rw [hphase']
    exact fun _ => nofun
  · unfold Counted
    rw [hphase', hloop, hcount, length_append, hcounted]
    rfl
  · rw [hplanned']
    exact nofun
  · refine fun _ _ => ⟨hroot'.trans hroot, ?_, fun x => ?_, fun c hc x hchild => ?_⟩
    · rw [planIds_of_planned hplanned] at hperm
      rw [hturned.created, planIds_of_planned hplanned', hsubtasks, hturned.run, ← cons_append]
      refine hperm.append ((perm_ext_iff_of_nodup (newIds_nodup _ _) ?_).mpr hnew)
      unfold recoveryIds
      split
      · exact nodup_singleton _
      · exact nodup_nil
    · rw [hturned.run]
      by_cases hx : x = rootTaskId p.run.agentRunId
      · subst hx
        refine iff_of_false (fun hself => ?_) fun hmem => subtaskIds_ne_root hmem _ rfl
        exact hsound'.parents_acyclic _ (.single hself)
      · rw [hgrown.childOf_root_iff hx, ← mem_newIds, hnew x, hchildren x, hsubtasks,
          mem_append]
    · rw [hgrown.childOf_iff (subtaskIds_ne_root hc _)] at hchild
      rw [hsubtasks, mem_append] at hc
      rcases hc with hc | hc
      · exact hleaves c hc x hchild
      · -- the recovery task is new, so nothing had it for a parent
        exact (mem_newIds.mp ((hnew c).mpr hc)).2 (hsound.parent_exists x c hchild)
  · rw [hphase']
    exact fun _ _ => nofun

/-- **The evaluation of a step and its edits.** -/
theorem Ok.reflect (h : p.Ok toLowerCase store.tasks) (hkept : Kept store)
    (hphase : p.phase = .acting) (dispatched : Except String (Outcome × List StepToolResult))
    (turns : Nat → Turn) (hosts : Nat → Host)
    (hfree : p.Free store.tasks (.reflect dispatched turns hosts)) :
    Kept (p.reflect store dispatched turns hosts).2 ∧
      (p.reflect store dispatched turns hosts).1.Ok toLowerCase
        (p.reflect store dispatched turns hosts).2.tasks ∧
      Turned p (p.reflect store dispatched turns hosts).1 store.tasks
        (p.reflect store dispatched turns hosts).2.tasks := by
  have hfailed : p.hasFailed = false := running hphase nofun
  have hplanned : p.planned = true := planned_of_acting hphase
  cases dispatched with
  | error e => exact ⟨hkept, h.failing (.still rfl rfl) rfl, .still rfl rfl⟩
  | ok came =>
    obtain ⟨outcome, toolResults⟩ := came
    let world := p.worldOf (.ok (outcome, toolResults)) turns
    let input := p.inputOf world outcome toolResults
    let given := defaultEvaluate toLowerCase input
    let record := p.run.judge input given world
    have hevaluate : p.run.evaluate input = .ok given := by rw [h.evaluates]
    have hreflect : p.reflect store (.ok (outcome, toolResults)) turns hosts =
        p.edit store hosts (p.editsOf record) fun _ p =>
          { p with phase := .reflected record, loop := AgentRun.recorded p.loop record } := by
      unfold LiveRun.reflect
      dsimp only
      rw [hevaluate]
    obtain ⟨updates, hedits, hupdates, hretry⟩ := defaultEvaluate_edits toLowerCase input
    have hnotThere : given.retry = true → recoveryTaskId p.run.role p.step ∉ store.tasks.keys := by
      intro hgiven
      obtain ⟨hcancelled, hfailure, hleft⟩ := hretry hgiven
      unfold Free at hfree
      rw [hphase] at hfree
      exact hfree hcancelled hfailure hleft
    obtain ⟨hroot, hperm, -⟩ := h.plans hplanned hfailed
    rw [planIds_of_planned hplanned] at hperm
    have hrootOwn : rootTaskId p.run.agentRunId ∈ p.created :=
      hperm.mem_iff.mpr mem_cons_self
    have hcriteria : ∀ id ∈ input.criterionTaskIds,
        (∃ i, id = criterionTaskId p.run.agentRunId i) ∧ id ∈ p.created := by
      intro id hid
      obtain ⟨i, hi, rfl⟩ := mem_map.mp hid
      refine ⟨⟨i, rfl⟩, hperm.mem_iff.mpr (mem_cons_of_mem _ (mem_append_left _ ?_))⟩
      exact mem_map.mpr ⟨i, hi, rfl⟩
    -- the three kinds of edits: updates of criteria, the recovery task, and the root closed
    have hkinds : ∀ d ∈ p.editsOf record,
        (∃ id status notes, d = .update id status notes ∧
          MayName p.run id ∧ id ∈ p.created) ∨
        (given.retry = true ∧ d = recovery input) := by
      intro d hd
      rcases mem_append.mp hd with hd | hd
      · have hd : d ∈ (defaultEvaluate toLowerCase input).planEdits := hd
        rw [hedits] at hd
        rcases mem_append.mp hd with hd | hd
        · obtain ⟨id, status, notes, rfl, hid⟩ := hupdates d hd
          obtain ⟨hname, hown⟩ := hcriteria id hid
          exact .inl ⟨id, status, notes, rfl, .inr (.inl hname), hown⟩
        · split at hd
          · rename_i hgiven
            exact .inr ⟨hgiven, mem_singleton.mp hd⟩
          · nomatch hd
      · split at hd
        · rw [mem_singleton.mp hd]
          exact .inl ⟨_, _, _, rfl, .inl rfl, hrootOwn⟩
        · nomatch hd
    rw [hreflect]
    refine h.edit hkept hosts (fun d hd => ?_) (.inl (h.owned _ hrootOwn)) (fun id hid => ?_)
      (fun _ _ => ⟨rfl, rfl⟩) fun tasks' hsound' hgrown hadded hturned => ?_
    · rcases hkinds d hd with ⟨id, status, notes, rfl, -⟩ | ⟨-, rfl⟩
      · trivial
      · exact .inr ⟨_, rfl, rfl⟩
    · obtain ⟨d, hd, htarget⟩ := mem_filterMap.mp hid
      rcases hkinds d hd with ⟨id', status, notes, rfl, hname, hown⟩ | ⟨hgiven, rfl⟩
      · obtain rfl : id' = id := some.inj htarget
        exact ⟨hname, fun _ => hown⟩
      · obtain rfl : recoveryTaskId p.run.role p.step = id := some.inj htarget
        exact ⟨.inr (.inr ⟨p.step, rfl⟩), fun hold => absurd hold (hnotThere hgiven)⟩
    · refine h.recorded record hkept.tasks hsound' hphase hgrown rfl (fun id => ?_) rfl
        rfl rfl rfl hturned
      show _ ↔ id ∈ if given.retry then [recoveryTaskId p.run.role p.step] else []
      rw [mem_newIds]
      constructor
      · rintro ⟨hthere, hnew⟩
        obtain ⟨d, hd, htarget⟩ := mem_filterMap.mp (hgrown.mem_touched hthere hnew)
        rcases hkinds d hd with ⟨id', status, notes, rfl, -, hown⟩ | ⟨hgiven, rfl⟩
        · obtain rfl : id' = id := some.inj htarget
          exact absurd (h.owned id' hown) hnew
        · rw [if_pos hgiven]
          exact mem_singleton.mpr (some.inj htarget).symm
      · intro hid
        split at hid
        · rename_i hgiven
          obtain rfl := mem_singleton.mp hid
          refine ⟨hadded _ (mem_filterMap.mpr ⟨recovery input, ?_, rfl⟩), hnotThere hgiven⟩
          refine mem_append_left _ ?_
          show recovery input ∈ (defaultEvaluate toLowerCase input).planEdits
          rw [hedits, if_pos hgiven]
          exact mem_append_right _ (mem_singleton.mpr rfl)
        · nomatch hid

/-- **One event of a run.** -/
theorem Ok.advance (h : p.Ok toLowerCase store.tasks) (hkept : Kept store)
    (event : Event) (hfree : p.Free store.tasks event) :
    Kept (p.advance store event).2 ∧
      (p.advance store event).1.Ok toLowerCase (p.advance store event).2.tasks ∧
      Turned p (p.advance store event).1 store.tasks (p.advance store event).2.tasks := by
  have hidle : Kept store ∧ p.Ok toLowerCase store.tasks ∧ Turned p p store.tasks store.tasks :=
    ⟨hkept, h, .still rfl rfl⟩
  cases event with
  | abort =>
    exact ⟨hkept, h.restand rfl rfl rfl rfl rfl id h.counted h.unhindered h.reported,
      .still rfl rfl⟩
  | observe =>
    unfold LiveRun.advance
    split
    case h_2 _ hphase => exact ⟨hkept, h.observe hkept.tasks hphase hfree⟩
    all_goals first | exact hidle | contradiction
  | plan hosts =>
    unfold LiveRun.advance
    split
    case h_3 heq hphase =>
      cases heq
      exact h.plan hkept hphase hosts
    all_goals first | exact hidle | contradiction
  | reflect dispatched turns hosts =>
    unfold LiveRun.advance
    split
    case h_4 heq hphase =>
      cases heq
      exact h.reflect hkept hphase dispatched turns hosts hfree
    all_goals first | exact hidle | contradiction
  | decide =>
    unfold LiveRun.advance
    split
    case h_5 rec _ hphase => exact ⟨hkept, h.decide hkept.tasks hphase⟩
    all_goals first | exact hidle | contradiction

end LiveRun

/-! ## Every run of the machine -/

/-- The invariant: the store is sound, every run is in order, and no two share an id or a task. -/
structure Inv (toLowerCase : String → String) (s : Shared) : Prop where
  kept : Kept s.store
  ok : ∀ p ∈ s.runs, p.Ok toLowerCase s.store.tasks
  apart : ∀ (i j : Nat) (p q : LiveRun), s.runs[i]? = some p → s.runs[j]? = some q → i ≠ j →
    p.run.agentRunId ≠ q.run.agentRunId ∧ ∀ id ∈ p.created, id ∉ q.created

theorem Inv.opened (durable : Bool) (ops : List (Op × Host)) :
    Inv toLowerCase (.opened durable ops) where
  kept := kept_run durable ops
  ok _ h := nomatch h
  apart _ _ _ _ h := nomatch h

theorem Inv.separate {s : Shared} (h : Inv toLowerCase s) : Separate s where
  created p hp hfailed := by
    cases hplanned : p.planned with
    | true => exact ((h.ok p hp).plans hplanned hfailed).2.1
    | false =>
      rw [((h.ok p hp).unplanned hplanned hfailed).1, LiveRun.planIds_of_unplanned hplanned]
  reported p hp := (h.ok p hp).reported
  unhindered p hp := (h.ok p hp).unhindered

/-- A run that starts is in order: nothing is named after it yet. -/
theorem Inv.start {s : Shared} (h : Inv toLowerCase s) {run : AgentRun}
    (hnew : ∀ p ∈ s.runs, p.run.agentRunId ≠ run.agentRunId)
    (hunnamed : Unnamed run.agentRunId s.store.tasks) :
    Inv toLowerCase { s with runs := s.runs ++ [{ run := run.underDefaults toLowerCase }] } where
  kept := h.kept
  ok p hp := by
    rcases mem_append.mp hp with hp | hp
    · exact h.ok p hp
    · obtain rfl := mem_singleton.mp hp
      exact ⟨rfl, (fun _ => nofun), nodup_nil, fun _ => nofun, rfl,
        fun _ _ => ⟨rfl, rfl, hunnamed⟩, nofun, fun _ _ => nofun⟩
  apart i j p q hp hq hne := by
    have hold : ∀ {k : Nat} {r : LiveRun},
        (s.runs ++ [{ run := run.underDefaults toLowerCase }])[k]? = some r →
        s.runs[k]? = some r ∨
          (k = s.runs.length ∧ r = { run := run.underDefaults toLowerCase }) := by
      intro k r hr
      rcases Nat.lt_or_ge k s.runs.length with hk | hk
      · rw [List.getElem?_append_left hk] at hr
        exact .inl hr
      · rw [List.getElem?_append_right hk] at hr
        obtain ⟨hk', rfl⟩ := List.getElem?_eq_some_iff.mp hr
        refine .inr ⟨?_, mem_singleton.mp (getElem_mem hk')⟩
        rw [length_singleton] at hk'
        omega
    rcases hold hp with hp | ⟨hi, rfl⟩ <;> rcases hold hq with hq | ⟨hj, rfl⟩
    · exact h.apart i j p q hp hq hne
    · exact ⟨hnew p (mem_of_getElem? hp), fun _ _ => not_mem_nil⟩
    · exact ⟨(hnew q (mem_of_getElem? hq)).symm, fun _ => nofun⟩
    · exact absurd (hi.trans hj.symm) hne

/-- **One step**: it keeps the invariant and leaves the runs apart. -/
theorem inv_step {s : Shared} {a : Act} (h : Inv toLowerCase s)
    (hmeets : Drawn s a ∧ Unshadowed s a) :
    Apart toLowerCase s a ∧ Inv toLowerCase ((machine toLowerCase).step s a).2 := by
  obtain ⟨hdrawn, hfree⟩ := hmeets
  have hnothing : ∀ {s' : Shared}, s'.store = s.store → OnlyOwn s s' a := fun heq id hid =>
    absurd (by rw [heq]) hid
  cases a with
  | start run =>
    have hinv := h.start hdrawn.1 hdrawn.2
    exact ⟨⟨hinv.separate, hnothing rfl⟩, hinv⟩
  | event i event =>
    unfold Apart machine
    dsimp only
    cases hp : s.runs[i]? with
    | none => exact ⟨⟨h.separate, hnothing rfl⟩, h⟩
    | some p =>
      dsimp only
      have hmem := mem_of_getElem? hp
      obtain ⟨hkept, hok, hturned⟩ := (h.ok p hmem).advance h.kept event (hfree p hp)
      obtain ⟨touched, hgrown, hnames, -⟩ := hturned.touched
      have hi : i < s.runs.length := (List.getElem?_eq_some_iff.mp hp).1
      have hself : (s.runs.set i (p.advance s.store event).1)[i]? =
          some (p.advance s.store event).1 := List.getElem?_set_self hi
      -- what the run created is what it had, or is new; another run has neither
      have hforeign : ∀ j q, j ≠ i → s.runs[j]? = some q →
          ∀ id ∈ (p.advance s.store event).1.created, id ∉ q.created := by
        intro j q hne hq id hid hshared
        rw [hturned.created, mem_append] at hid
        rcases hid with hold | hnew
        · exact (h.apart i j p q hp hq hne.symm).2 id hold hshared
        · exact (mem_newIds.mp hnew).2 ((h.ok q (mem_of_getElem? hq)).owned id hshared)
      have hinv : Inv toLowerCase
          { store := (p.advance s.store event).2
            runs := s.runs.set i (p.advance s.store event).1 } := by
        have hcases : ∀ {j q}, (s.runs.set i (p.advance s.store event).1)[j]? = some q →
            (j = i ∧ q = (p.advance s.store event).1) ∨ (j ≠ i ∧ s.runs[j]? = some q) := by
          intro j q hq
          by_cases hj : j = i
          · subst hj
            exact .inl ⟨rfl, some.inj (hq.symm.trans hself)⟩
          · rw [List.getElem?_set_ne (Ne.symm hj)] at hq
            exact .inr ⟨hj, hq⟩
        refine ⟨hkept, fun q hq => ?_, fun j k q r hq hr hne => ?_⟩
        · obtain ⟨j, hj⟩ := mem_iff_getElem?.mp hq
          rcases hcases hj with ⟨-, rfl⟩ | ⟨hji, hj⟩
          · exact hok
          · refine (h.ok q (mem_of_getElem? hj)).bystander hgrown hnames ?_
            exact (h.apart i j p q hp hj (Ne.symm hji)).1
        · rcases hcases hq with ⟨rfl, rfl⟩ | ⟨hji, hq'⟩ <;>
            rcases hcases hr with ⟨rfl, rfl⟩ | ⟨hki, hr'⟩
          · exact absurd rfl hne
          · rw [hturned.run]
            exact ⟨(h.apart _ k p r hp hr' hne).1, hforeign k r hki hr'⟩
          · rw [hturned.run]
            exact ⟨(h.apart j _ q p hq' hp hne).1,
              fun id hid hmine => hforeign j q hji hq' id hmine hid⟩
          · exact h.apart j k q r hq' hr' hne
      refine ⟨⟨hinv.separate, fun id hid => ?_⟩, hinv⟩
      refine ⟨i, event, _, rfl, hself, hturned.mem_created hid, fun j q hne hq => ?_⟩
      rw [List.getElem?_set_ne (Ne.symm hne)] at hq
      exact hforeign j q hne hq id (hturned.mem_created hid)

/-- **Agent runs on one store stay apart**, as long as no recovery task finds its name taken and no
    run ends unplanned on a store with tasks: in every run of the machine, on whatever store, each
    agent run has created and reports exactly its root, its criteria and one recovery task for each
    failed step it retried, and no turn of one writes a task of another. -/
theorem runs_apart (toLowerCase : String → String) (durable : Bool) (ops : List (Op × Host))
    (acts : List Act)
    (hdrawn : (machine toLowerCase).Always Drawn (.opened durable ops) acts)
    (hfree : (machine toLowerCase).Always Unshadowed (.opened durable ops) acts) :
    (machine toLowerCase).Always (Apart toLowerCase) (.opened durable ops) acts :=
  Machine.Always.of_invariant (fun _ _ hinv hmeets => inv_step hinv hmeets) (hdrawn.and hfree)
    (Inv.opened durable ops)

/-! ## Two runs -/

/-- A host whose clock stands still and that saves. -/
def stillHost : Host := { now := fun _ => 0, uuid := "", saves := true }

/-- A run of one step with one criterion. -/
def shipRun (role agentRunId : String) : AgentRun :=
  { role, agentRunId, maxSteps := 1
    goal := { objective := "ship", successCriteria := some ["shipped"] }
    evaluate := fun _ => .error "", verify := none }

/-- The run plans, its step fails and is retried, and the budget of steps is used up. -/
def failedStep (i : Nat) : List (Nat × Event) :=
  [(i, .observe), (i, .plan fun _ => stillHost),
    (i, .reflect (.ok ({ winner := none }, [])) (fun _ => .ok none) fun _ => stillHost),
    (i, .decide), (i, .observe)]

/-- Two runs start, and each fails in its first step. -/
def twoRuns (role role' : String) : List Act :=
  .start (shipRun role "agent_1") :: .start (shipRun role' "agent_2") ::
    (failedStep 0 ++ failedStep 1).map fun e => .event e.1 e.2

theorem always_drawn_events : ∀ (events : List (Nat × Event)) (s : Shared),
    (machine toLowerCase).Always Drawn s (events.map fun e => .event e.1 e.2)
  | [], _ => trivial
  | _ :: events, _ => ⟨trivial, always_drawn_events events _⟩

theorem twoRuns_drawn (role role' : String) :
    (machine toLowerCase).Always Drawn (.opened false []) (twoRuns role role') := by
  have hunnamed : ∀ agentRunId, Unnamed agentRunId .empty :=
    fun _ => ⟨not_mem_nil, fun _ => not_mem_nil⟩
  refine ⟨⟨fun _ => nofun, hunnamed _⟩, ⟨fun p hp => ?_, hunnamed _⟩,
    always_drawn_events _ _⟩
  obtain rfl := mem_singleton.mp hp
  show "agent_1" ≠ "agent_2"
  decide

/-- Two runs of different roles. -/
theorem runs_apart_roles : (machine id).Always (Apart id) (.opened false [])
    (twoRuns "coder" "reviewer") :=
  runs_apart id false [] (twoRuns "coder" "reviewer") (twoRuns_drawn "coder" "reviewer")
    (by decide +kernel)

/-- Two runs of one role: the second asks for a recovery task of the first one's name, gets none,
    and ends with a plan without it. -/
theorem recovery_suppressed : ¬ ∀ (toLowerCase : String → String) (durable : Bool)
    (ops : List (Op × Host)) (acts : List Act),
    (machine toLowerCase).Always Drawn (.opened durable ops) acts →
      (machine toLowerCase).Always (Apart toLowerCase) (.opened durable ops) acts := by
  intro h
  have hall := h id false [] (twoRuns "coder" "coder") (twoRuns_drawn "coder" "coder")
  rw [← dropLast_concat_getLast (l := twoRuns "coder" "coder") (by decide),
    Machine.always_append] at hall
  have hlength := fun p hp hfailed => (hall.2.1.1.created p hp hfailed).length_eq
  revert hlength
  decide +kernel

end NexusCode.Agent
