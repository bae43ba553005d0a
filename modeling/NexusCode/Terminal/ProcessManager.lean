/-
  The manager of the background jobs, and its ceiling.

  The manager counts the jobs it tracks whose child has not ended, and refuses to spawn once there
  are as many as the ceiling.  `remove` takes a job out of tracking and leaves its child alone, so
  that it counts no more, and `killAll` no longer reaches it.

    1. `ProcessManager`, `step`   — the manager with its children, and all that happens to them.
    2. `step_cases`               — one step spawns a child below the ceiling, or adds nothing.
    3. `Watched`, `run_watched`   — what holds along every run.
    4. **`ceiling_of_tracked`**   — the children no `remove` dropped stay below the ceiling, and
       `killAll` reaches them; `removed_child` is one more.
-/
import NexusCode.Lib.Machine
import NexusCode.Terminal.Job
import Mathlib.Data.List.Nodup
import Mathlib.Data.List.Perm.Subperm

namespace NexusCode.Terminal

open Lib Workspace List

/-! ## The manager -/

/-- `DEFAULT_MAX_CONCURRENT_JOBS`. -/
def DEFAULT_MAX_CONCURRENT_JOBS : Nat := 8

/-- `DEFAULT_MAX_OUTPUT_BYTES`. -/
def DEFAULT_MAX_OUTPUT_BYTES : Nat := 8 * 1024 * 1024

/-- The options of a manager. -/
structure ProcessManagerOptions where
  cwd : Option String
  workspaceRoot : Option String
  maxOutputBytes : Option Nat
  maxConcurrentJobs : Option Nat

/-- A manager, and the children it has spawned: a child stands at the place that is its id, and the
    map of the jobs is the list of its keys. -/
structure ProcessManager where
  jobs : List Nat
  defaults : Defaults
  workspaceRoot : String
  maxConcurrentJobs : Nat
  children : List Job

/-- `resolveInWorkspaceSync(root, p)`: the checks of `resolveInWorkspace`, without waiting. -/
def resolveInWorkspaceSync (h : Host) (root p : String) : Except Refusal Place :=
  resolveInWorkspace h root p

namespace ProcessManager

/-- The constructor; `cwd` is the directory of the process. -/
def create (opts : ProcessManagerOptions) (cwd : String) : ProcessManager where
  jobs := []
  defaults := ⟨opts.cwd.getD cwd, opts.maxOutputBytes.getD DEFAULT_MAX_OUTPUT_BYTES⟩
  workspaceRoot := opts.workspaceRoot.getD (opts.cwd.getD cwd)
  maxConcurrentJobs := opts.maxConcurrentJobs.getD DEFAULT_MAX_CONCURRENT_JOBS
  children := []

/-- Has the child of this id not ended? -/
def running (m : ProcessManager) (id : Nat) : Bool := m.children[id]?.any Job.running

/-- The tracked jobs that run. -/
def live (m : ProcessManager) : List Nat := m.jobs.filter m.running

/-- The children whose `close` or `error` event has not arrived. -/
def openChildren (m : ProcessManager) : List Nat :=
  (List.range m.children.length).filter m.running

/-- Something happens to one child. -/
def onChild (m : ProcessManager) (id : Nat) (f : Job → Job) : ProcessManager :=
  { m with children := m.children.modify id f }

/-- What a call answers. -/
inductive Answer where
  | spawned (id : Nat)
  | invalid_argument (message : String)
  | refused (refusal : Refusal)
  | info (job : Option JobInfo)
  | removed (present : Bool)
  | pruned (count : Nat)
  | done

/-- The refusal at the ceiling. -/
def ceilingMessage (m : ProcessManager) : String :=
  "max concurrent background jobs (" ++ toString m.maxConcurrentJobs ++
    ") reached — kill a job first"

/-- `spawn(spec)`: the new id is one that no job has had. -/
def spawn (m : ProcessManager) (h : Host) (spec : JobSpec) (now : Int) (pid : Option Nat) :
    Answer × ProcessManager :=
  if m.maxConcurrentJobs ≤ m.live.length then (.invalid_argument m.ceilingMessage, m)
  else
    match resolveInWorkspaceSync h m.workspaceRoot (spec.cwd.getD m.defaults.cwd) with
    | .error refusal => (.refused refusal, m)
    | .ok cwd =>
      let id := m.children.length
      (.spawned id, { m with
        jobs := m.jobs ++ [id]
        children := m.children ++ [Job.create id spec cwd m.defaults now pid] })

/-- `kill(id, signal)`; the answer is what the job is when the signal has been sent. -/
def kill (m : ProcessManager) (id : Nat) (signal : Signal) : Answer × ProcessManager :=
  if id ∈ m.jobs then
    let m := m.onChild id (·.kill signal)
    (.info (m.children[id]?.map Job.info), m)
  else (.info none, m)

/-- `killAll(signal)`. -/
def killAll (m : ProcessManager) (signal : Signal) : ProcessManager :=
  m.live.foldl (fun m id => m.onChild id (·.kill signal)) m

/-- `remove(id)`. -/
def remove (m : ProcessManager) (id : Nat) : Answer × ProcessManager :=
  (.removed (decide (id ∈ m.jobs)), { m with jobs := m.jobs.filter (· ≠ id) })

/-- `prune()`. -/
def prune (m : ProcessManager) : Answer × ProcessManager :=
  (.pruned (m.jobs.filter fun id => !m.running id).length, { m with jobs := m.live })

/-- The calls, and what happens to the children.  Timers may fire at any time. -/
inductive Event where
  | spawn (h : Host) (spec : JobSpec) (now : Int) (pid : Option Nat)
  | kill (id : Nat) (signal : Signal)
  | killAll (signal : Signal)
  | remove (id : Nat)
  | prune
  | output (id : Nat) (stream : OutputStream) (d : List UInt8)
  /-- The job has outrun its time. -/
  | timeout (id : Nat)
  /-- A grace period is over. -/
  | escalate (id : Nat)
  /-- The abort signal of the job fires, or the job itself is told to stop. -/
  | abort (id : Nat) (signal : Signal)
  | error (id : Nat) (now : Int) (message : String)
  | close (id : Nat) (now : Int) (code : Option Int) (sig : Option Signal)

/-- One step. -/
def step (m : ProcessManager) : Event → Answer × ProcessManager
  | .spawn h spec now pid => m.spawn h spec now pid
  | .kill id signal => m.kill id signal
  | .killAll signal => (.done, m.killAll signal)
  | .remove id => m.remove id
  | .prune => m.prune
  | .output id stream d => (.done, m.onChild id (·.onData stream d))
  | .timeout id => (.done, m.onChild id (·.onRuntimeExceeded))
  | .escalate id => (.done, m.onChild id (·.escalate))
  | .abort id signal => (.done, m.onChild id (·.kill signal))
  | .error id now message => (.done, m.onChild id (·.onError now message))
  | .close id now code sig => (.done, m.onChild id (·.onClose now code sig))

/-- The manager with its children. -/
def machine : Machine ProcessManager Event Answer where
  step := step

/-- The jobs that a step takes out of tracking although their child may run. -/
def droppedBy (m : ProcessManager) : Event → List Nat
  | .remove id => if id ∈ m.jobs then [id] else []
  | _ => []

/-- The jobs that `remove` takes out of tracking in a run. -/
def dropped : ProcessManager → List Event → List Nat
  | _, [] => []
  | m, event :: events => m.droppedBy event ++ dropped (m.step event).2 events

/-! ## What one step can do -/

variable {m : ProcessManager}

theorem running_onChild {id : Nat} {f : Job → Job}
    (hf : ∀ job, (f job).running = true → job.running = true) {id' : Nat}
    (h : (m.onChild id f).running id' = true) : m.running id' = true := by
  unfold running onChild at h
  rw [List.getElem?_modify] at h
  unfold running
  cases hjob : m.children[id']? with
  | none =>
    rw [hjob] at h
    nomatch h
  | some job =>
    rw [hjob] at h
    have hrun : (if id = id' then f job else job).running = true := h
    split at hrun
    · exact hf job hrun
    · exact hrun

/-- A step that spawns nothing: the jobs that run are some of those that ran, and those still
    tracked are some of those that were. -/
structure Shrinks (m m' : ProcessManager) (gone : List Nat) : Prop where
  ceiling : m'.maxConcurrentJobs = m.maxConcurrentJobs
  length : m'.children.length = m.children.length
  jobs : m'.jobs.Sublist m.jobs
  running : ∀ id, m'.running id = true → m.running id = true
  kept : ∀ id ∈ m.jobs, m'.running id = true → id ∈ m'.jobs ∨ id ∈ gone

theorem Shrinks.refl (m : ProcessManager) (gone : List Nat) : Shrinks m m gone :=
  ⟨rfl, rfl, .refl _, fun _ h => h, fun _ h _ => .inl h⟩

variable {gone : List Nat}

theorem Shrinks.trans {m' m'' : ProcessManager} (h : Shrinks m m' gone)
    (h' : Shrinks m' m'' gone) : Shrinks m m'' gone where
  ceiling := h'.ceiling.trans h.ceiling
  length := h'.length.trans h.length
  jobs := h'.jobs.trans h.jobs
  running := fun id hrun => h.running id (h'.running id hrun)
  kept := by
    intro id hid hrun
    rcases h.kept id hid (h'.running id hrun) with hmem | hgone
    · exact h'.kept id hmem hrun
    · exact .inr hgone

theorem shrinks_onChild (m : ProcessManager) (id : Nat) {f : Job → Job}
    (hf : ∀ job, (f job).running = true → job.running = true) (gone : List Nat) :
    Shrinks m (m.onChild id f) gone where
  ceiling := rfl
  length := length_modify _ _ _
  jobs := .refl _
  running := fun _ h => running_onChild hf h
  kept := fun _ h _ => .inl h

theorem running_of_kill (signal : Signal) (job : Job) (h : (job.kill signal).running = true) :
    job.running = true := by
  rwa [Job.running_kill] at h

theorem shrinks_foldl_kill (signal : Signal) (gone : List Nat) : ∀ (ids : List Nat)
    (m : ProcessManager), Shrinks m (ids.foldl (fun m id => m.onChild id (·.kill signal)) m) gone
  | [], m => .refl m gone
  | id :: ids, m =>
    (shrinks_onChild m id (running_of_kill signal) gone).trans
      (shrinks_foldl_kill signal gone ids _)

/-- **A step spawns a child below the ceiling, or none.** -/
theorem step_cases (m : ProcessManager) (event : Event) :
    (m.live.length < m.maxConcurrentJobs ∧ ∃ job : Job, job.running = true ∧
      (m.step event).2 = { m with
        jobs := m.jobs ++ [m.children.length]
        children := m.children ++ [job] }) ∨
      Shrinks m (m.step event).2 (m.droppedBy event) := by
  cases event with
  | spawn h spec now pid =>
    show (_ ∧ ∃ job : Job, _ ∧ (m.spawn h spec now pid).2 = _) ∨
      Shrinks m (m.spawn h spec now pid).2 _
    unfold spawn
    split
    · exact .inr (.refl m _)
    · rename_i hbelow
      split
      · exact .inr (.refl m _)
      · exact .inl ⟨Nat.lt_of_not_le hbelow, _, Job.running_create _ _ _ _ _ _, rfl⟩
  | kill id signal =>
    show _ ∨ Shrinks m (m.kill id signal).2 _
    unfold kill
    split
    · exact .inr (shrinks_onChild m id (running_of_kill signal) _)
    · exact .inr (.refl m _)
  | killAll signal => exact .inr (shrinks_foldl_kill signal _ _ m)
  | remove id =>
    refine .inr ⟨rfl, rfl, filter_sublist, fun _ h => h, ?_⟩
    intro id' hmem _
    by_cases hid : id' = id
    · subst hid
      exact .inr (by rw [droppedBy, if_pos hmem]; exact mem_singleton_self _)
    · exact .inl (mem_filter.mpr ⟨hmem, decide_eq_true hid⟩)
  | prune =>
    exact .inr ⟨rfl, rfl, filter_sublist, fun _ h => h,
      fun id hmem hrun => .inl (mem_filter.mpr ⟨hmem, hrun⟩)⟩
  | output id stream d =>
    exact .inr (shrinks_onChild m id (fun job h => by rwa [Job.running_onData] at h) _)
  | timeout id =>
    exact .inr (shrinks_onChild m id (fun job h => by rwa [Job.running_onRuntimeExceeded] at h) _)
  | escalate id =>
    exact .inr (shrinks_onChild m id (fun job h => by rwa [Job.running_escalate] at h) _)
  | abort id signal => exact .inr (shrinks_onChild m id (running_of_kill signal) _)
  | error id now message =>
    refine .inr (shrinks_onChild m id (fun job h => ?_) _)
    rw [Job.onError, Job.running_settle] at h
    nomatch h
  | close id now code sig =>
    refine .inr (shrinks_onChild m id (fun job h => ?_) _)
    rw [Job.onClose, Job.running_settle] at h
    nomatch h

/-! ## What holds along a run -/

/-- A manager that has let go of some jobs: what it tracks it knows, once; every other child that
    runs it let go of; and the jobs that run stay below the ceiling. -/
structure Watched (m : ProcessManager) (gone : List Nat) : Prop where
  known : ∀ id ∈ m.jobs, id < m.children.length
  nodup : m.jobs.Nodup
  tracked : ∀ id, m.running id = true → id ∈ m.jobs ∨ id ∈ gone
  ceiling : m.live.length ≤ m.maxConcurrentJobs

theorem watched_create (opts : ProcessManagerOptions) (cwd : String) :
    Watched (create opts cwd) [] where
  known := fun _ => nofun
  nodup := nodup_nil
  tracked := fun _ => nofun
  ceiling := Nat.zero_le _

theorem Watched.spawn (h : Watched m gone)
    (hbelow : m.live.length < m.maxConcurrentJobs) {job : Job} (hjob : job.running = true) :
    Watched { m with
      jobs := m.jobs ++ [m.children.length]
      children := m.children ++ [job] } gone := by
  -- the children there were run as before, and the new one runs
  have hold : ∀ id, id < m.children.length →
      running { m with jobs := m.jobs ++ [m.children.length], children := m.children ++ [job] } id =
        m.running id := by
    intro id hid
    exact congrArg (Option.any Job.running) (List.getElem?_append_left hid)
  have hnew : running { m with
      jobs := m.jobs ++ [m.children.length], children := m.children ++ [job] }
      m.children.length = true :=
    (congrArg (Option.any Job.running) List.getElem?_concat_length).trans hjob
  refine ⟨?_, ?_, ?_, ?_⟩
  · intro id hid
    rw [length_append]
    rcases mem_append.mp hid with hid | hid
    · exact Nat.lt_add_right _ (h.known id hid)
    · rw [mem_singleton.mp hid]
      exact Nat.lt_succ_self _
  · refine List.Nodup.append h.nodup (nodup_singleton _) ?_
    exact disjoint_singleton.mpr fun hmem => Nat.lt_irrefl _ (h.known _ hmem)
  · intro id hrun
    by_cases hid : id < m.children.length
    · rw [hold id hid] at hrun
      exact (h.tracked id hrun).imp_left (mem_append_left _)
    · have hlast : id = m.children.length := by
        by_contra hne
        have hnone : (m.children ++ [job])[id]? = none := by
          rw [List.getElem?_eq_none_iff, length_append, length_singleton]
          omega
        unfold running at hrun
        rw [hnone] at hrun
        nomatch hrun
      exact .inl (mem_append_right _ (mem_singleton.mpr hlast))
  · have hlive : live { m with
        jobs := m.jobs ++ [m.children.length], children := m.children ++ [job] } =
          m.live ++ [m.children.length] := by
      unfold live
      rw [filter_append, filter_cons_of_pos hnew]
      exact congrArg (· ++ [m.children.length])
        (filter_congr fun id hid => hold id (h.known id hid))
    rw [hlive, length_append]
    exact hbelow

theorem Watched.shrink {m' : ProcessManager} {gone' : List Nat} (h : Watched m gone)
    (hstep : Shrinks m m' gone') : Watched m' (gone ++ gone') where
  known := by
    intro id hid
    rw [hstep.length]
    exact h.known id (hstep.jobs.subset hid)
  nodup := h.nodup.sublist hstep.jobs
  tracked := by
    intro id hrun
    rcases h.tracked id (hstep.running id hrun) with hmem | hgone
    · exact (hstep.kept id hmem hrun).imp_right (mem_append_right _)
    · exact .inr (mem_append_left _ hgone)
  ceiling := by
    rw [hstep.ceiling]
    refine Nat.le_trans (List.Sublist.length_le ?_) h.ceiling
    exact (hstep.jobs.filter _).trans (monotone_filter_right _ hstep.running)

/-- **Along every run** the manager watches all children but those it let go of. -/
theorem run_watched (events : List Event)
    (h : Watched m gone) : Watched (machine.run m events) (gone ++ dropped m events) ∧
      (machine.run m events).maxConcurrentJobs = m.maxConcurrentJobs := by
  induction events generalizing m gone with
  | nil =>
    rw [dropped, append_nil]
    exact ⟨h, rfl⟩
  | cons event events ih =>
    have hstep : Watched (m.step event).2 (gone ++ m.droppedBy event) ∧
        (m.step event).2.maxConcurrentJobs = m.maxConcurrentJobs := by
      rcases step_cases m event with ⟨hbelow, job, hjob, heq⟩ | hshrinks
      · rw [heq]
        have hspawn := h.spawn hbelow hjob
        refine ⟨{ hspawn with tracked := fun id hrun => ?_ }, rfl⟩
        exact (hspawn.tracked id hrun).imp_right (mem_append_left _)
      · exact ⟨h.shrink hshrinks, hshrinks.ceiling⟩
    obtain ⟨hrest, hmax⟩ := ih hstep.1
    rw [dropped, ← append_assoc]
    exact ⟨hrest, hmax.trans hstep.2⟩

/-! ## The ceiling -/

theorem mem_openChildren (m : ProcessManager) (id : Nat) :
    id ∈ m.openChildren ↔ m.running id = true := by
  unfold openChildren
  rw [mem_filter, mem_range]
  refine and_iff_right_of_imp fun hrun => ?_
  by_contra hge
  have hnone : m.children[id]? = none := List.getElem?_eq_none (by omega)
  unfold running at hrun
  rw [hnone] at hrun
  nomatch hrun

theorem children_foldl_kill_of_notMem (signal : Signal) {id : Nat} : ∀ {ids : List Nat}
    {m : ProcessManager}, id ∉ ids →
    (ids.foldl (fun m id => m.onChild id (·.kill signal)) m).children[id]? = m.children[id]?
  | [], _, _ => rfl
  | id' :: ids, m, h => by
    rw [mem_cons, not_or] at h
    rw [foldl_cons, children_foldl_kill_of_notMem signal h.2]
    exact List.getElem?_modify_ne _ _ (Ne.symm h.1)

theorem children_foldl_kill (signal : Signal) {id : Nat} {job : Job} : ∀ {ids : List Nat}
    {m : ProcessManager}, ids.Nodup → id ∈ ids → m.children[id]? = some job →
    (ids.foldl (fun m id => m.onChild id (·.kill signal)) m).children[id]? =
      some (job.kill signal)
  | id' :: ids, m, hnodup, hmem, hjob => by
    obtain ⟨hnotMem, hnodup⟩ := nodup_cons.mp hnodup
    rw [foldl_cons]
    rcases mem_cons.mp hmem with rfl | hmem
    · rw [children_foldl_kill_of_notMem signal hnotMem]
      show (m.children.modify id _)[id]? = _
      rw [List.getElem?_modify_eq, hjob]
      rfl
    · refine children_foldl_kill signal hnodup hmem ?_
      have hne : id' ≠ id := fun heq => hnotMem (heq ▸ hmem)
      exact (List.getElem?_modify_ne _ _ hne).trans hjob

/-- `killAll` sends its signal to this child. -/
def Reaches (m : ProcessManager) (signal : Signal) (id : Nat) : Prop :=
  ∃ job job', m.children[id]? = some job ∧ (m.killAll signal).children[id]? = some job' ∧
    job'.sent = job.sent ++ [signal]

/-- **The open children that no `remove` dropped** are never more than the ceiling, in every run of
    a manager, and `killAll` reaches each of them. -/
theorem ceiling_of_tracked (opts : ProcessManagerOptions) (cwd : String) (events : List Event) :
    ((machine.run (create opts cwd) events).openChildren.filter
        (· ∉ dropped (create opts cwd) events)).length ≤
        opts.maxConcurrentJobs.getD DEFAULT_MAX_CONCURRENT_JOBS ∧
      ∀ signal, ∀ id ∈ (machine.run (create opts cwd) events).openChildren,
        id ∉ dropped (create opts cwd) events →
        (machine.run (create opts cwd) events).Reaches signal id := by
  obtain ⟨hwatched, hmax⟩ := run_watched events (watched_create opts cwd)
  rw [nil_append] at hwatched
  generalize machine.run (create opts cwd) events = m at hwatched hmax ⊢
  generalize dropped (create opts cwd) events = gone at hwatched ⊢
  have hlive : ∀ id, id ∈ m.openChildren → id ∉ gone → id ∈ m.live := by
    intro id hopen hkept
    have hrun := (mem_openChildren m id).mp hopen
    exact mem_filter.mpr ⟨(hwatched.tracked id hrun).resolve_right hkept, hrun⟩
  constructor
  · have hnodup : (m.openChildren.filter (· ∉ gone)).Nodup := (List.nodup_range.filter _).filter _
    have hsub : m.openChildren.filter (· ∉ gone) ⊆ m.live := by
      intro id hid
      obtain ⟨hopen, hkept⟩ := mem_filter.mp hid
      exact hlive id hopen (of_decide_eq_true hkept)
    calc (m.openChildren.filter (· ∉ gone)).length
        ≤ m.live.length := (hnodup.subperm hsub).length_le
      _ ≤ m.maxConcurrentJobs := hwatched.ceiling
      _ = _ := hmax
  · intro signal id hopen hkept
    have hrun := (mem_openChildren m id).mp hopen
    obtain ⟨job, hjob, hjobRuns⟩ : ∃ job, m.children[id]? = some job ∧ job.running = true := by
      unfold running at hrun
      cases hjob : m.children[id]? with
      | none =>
        rw [hjob] at hrun
        nomatch hrun
      | some job =>
        rw [hjob] at hrun
        exact ⟨job, rfl, hrun⟩
    exact ⟨job, job.kill signal, hjob,
      children_foldl_kill signal (hwatched.nodup.filter _) (hlive id hopen hkept) hjob,
      Job.sent_kill hjobRuns signal⟩

/-- A host with nothing but its root. -/
def bareHost : Host where
  tree := .dir []
  cwd := []
  links := 40
  cwd_ok := ⟨⟨_, rfl⟩, fun _ => nofun⟩

/-- At a ceiling of one: a job is spawned and removed, and another is spawned. -/
theorem removed_child : ¬ ∀ (opts : ProcessManagerOptions) (cwd : String) (events : List Event),
    (machine.run (create opts cwd) events).openChildren.length ≤
        opts.maxConcurrentJobs.getD DEFAULT_MAX_CONCURRENT_JOBS ∧
      ∀ signal, ∀ id ∈ (machine.run (create opts cwd) events).openChildren,
        (machine.run (create opts cwd) events).Reaches signal id := by
  intro hall
  obtain ⟨hceiling, -⟩ := hall ⟨none, none, none, some 1⟩ "/"
    [.spawn bareHost ⟨"sleep", ["60"], none, none, false⟩ 0 (some 7), .remove 0,
      .spawn bareHost ⟨"sleep", ["60"], none, none, false⟩ 1 (some 8)]
  exact absurd hceiling (by decide +kernel)

end ProcessManager

end NexusCode.Terminal
