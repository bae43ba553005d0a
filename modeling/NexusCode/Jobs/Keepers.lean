/-
  Background jobs: processes that share the registry file.

  The keeper of a job records it and updates it when its child ends; any process may kill a job.
  Within one process a call runs to its end before the next event, but calls of different processes
  interleave: each reads the file, and puts what it makes of it in place later.

    1. `ChildEvent.finish`, `goneAt`, `killedBy` — the updates keepers and killers make.
    2. `step`                                   — processes that run in any order.
    3. `Undisturbed`                            — nothing came between, and no second end.
    4. **`no_job_lost`**                        — then no job is lost, and its end is final.

  Calls take no lock, and `finish` has no guard: a child that cannot be spawned emits `error` and
  then `close`, and the status `error` becomes `exited`.
-/
import NexusCode.Jobs.Registry
import NexusCode.Lib.Copies

namespace NexusCode.Jobs

open Lib

/-! ## The updates of keepers and killers -/

/-- What the keeper hears of its child. -/
inductive ChildEvent where
  | close (code : Option Int) (sig : Option String)
  | error

/-- The status `finish` is called with. -/
def ChildEvent.status : ChildEvent → JobRecordStatus
  | .close _ sig => if sig.isSome then .killed else .exited
  | .error => .error

/-- The patch of `finish`. -/
def ChildEvent.finish (event : ChildEvent) (now : Int) : Patch where
  status := some event.status
  exitCode := some (match event with | .close code _ => code | .error => none)
  signal := some (match event with | .close _ sig => sig | .error => none)
  endedAt := some (some now)

/-- `killJob` finds the process gone. -/
def goneAt (now : Int) : Patch where
  status := some .gone
  endedAt := some (some now)

/-- `killJob` after the grace period. -/
def killedBy (signal : String) (now : Int) : Patch where
  status := some .killed
  signal := some (some signal)
  endedAt := some (some now)

/-- What `runDetachedJob` is called with, and where it logs. -/
structure Job where
  id : String
  command : String
  args : List String
  cwd : String
  logFile : String

/-- The first record of a job; `pid` is `child.pid ?? -1`. -/
def Job.running (job : Job) (pid : Option Int) (now : Int) : JobRecord where
  id := job.id
  pid := pid.getD (-1)
  command := job.command
  args := job.args
  cwd := job.cwd
  logFile := job.logFile
  startedAt := now
  status := .running
  exitCode := none
  signal := none
  endedAt := none

/-! ## The processes -/

/-- `jobs.json`; `none` where there is no such file. -/
abbrev RegistryFile := Option (List JobRecord)

/-- `readAll()`. -/
def readAll (file : RegistryFile) : List JobRecord := file.getD []

/-- The file as a cell that calls rewrite from what they have read. -/
def protocol : Copies.Protocol RegistryFile (List JobRecord) Call (List JobRecord) where
  load := readAll
  save := some
  change call jobs := call.onto jobs
  view := id
  effect call jobs := call.onto jobs
  view_change _ _ := rfl
  view_load_save _ := rfl

/-- A call that has read the file; `ends` is the status it gives the job of its keeper. -/
structure Pending where
  call : Call
  ends : Option JobRecordStatus

/-- The file and the processes. -/
structure State where
  registry : Copies.Cell Nat RegistryFile (List JobRecord)
  /-- The call a process is in. -/
  calls : Nat → Option Pending
  /-- The job a process keeps. -/
  keeps : Nat → Option String
  /-- The job a process has sent a signal to, and the signal. -/
  killing : Nat → Option (String × String)
  /-- Seen by no process: the status each keeper last wrote, and all calls that have completed. -/
  ended : Nat → Option JobRecordStatus
  completed : List Call

/-- No file, and no process. -/
def start : State := ⟨⟨none, fun _ => none⟩, fun _ => none, fun _ => none, fun _ => none,
  fun _ => none, []⟩

/-- The records in the file. -/
def State.jobs (s : State) : List JobRecord := readAll s.registry.value

/-- What happens next, and to which process.  `alive` and `same` are what the operating system says
    of the process of a job: that there is one, and that it is the one recorded. -/
inductive Op where
  | record (p : Nat) (rec : JobRecord)
  | update (p : Nat) (id : String) (patch : Patch)
  | runDetachedJob (p : Nat) (job : Job) (pid : Option Int) (now : Int)
  | childEvent (p : Nat) (event : ChildEvent) (now : Int)
  | killJob (p : Nat) (id signal : String) (alive same : Bool) (now : Int)
  | graceOver (p : Nat) (now : Int)
  | rename (p : Nat)

/-- The process of an event. -/
def Op.process : Op → Nat
  | .record p _ | .update p _ _ | .runDetachedJob p _ _ _ | .childEvent p _ _
  | .killJob p _ _ _ _ _ | .graceOver p _ | .rename p => p

/-- A call reads the file, and ends there if it has nothing to write. -/
def State.begins (s : State) (p : Nat) (call : Call) (ends : Option JobRecordStatus) : State :=
  if call.endsEarly s.jobs then { s with completed := s.completed ++ [call] }
  else
    { s with
      registry := (Copies.step protocol s.registry (.read p)).2
      calls := Function.update s.calls p (some ⟨call, ends⟩) }

/-- A call puts what it has made of the file in its place. -/
def State.renames (s : State) (p : Nat) : State :=
  match s.calls p with
  | none => s
  | some pending =>
    { s with
      registry := (Copies.step protocol s.registry (.write p pending.call)).2
      calls := Function.update s.calls p none
      ended := if pending.ends.isSome then Function.update s.ended p pending.ends else s.ended
      completed := s.completed ++ [pending.call] }

/-- What an idle process does. -/
def State.acts (s : State) : Op → State
  | .record p rec => s.begins p (.record rec) none
  | .update p id patch => s.begins p (.update id patch) none
  | .runDetachedJob p job pid now =>
    match s.keeps p with
    | some _ => s
    | none =>
      { s with keeps := Function.update s.keeps p (some job.id) }.begins p
        (.record (job.running pid now)) none
  | .childEvent p event now =>
    match s.keeps p with
    | none => s
    | some id => s.begins p (.update id (event.finish now)) (some event.status)
  | .killJob p id signal alive same now =>
    match get s.jobs id with
    | none => s
    | some rec =>
      if rec.status ≠ .running then s
      else if !alive then s.begins p (.update id (goneAt now)) none
      else if !same then s
      else { s with killing := Function.update s.killing p (some (id, signal)) }
  | .graceOver p now =>
    match s.killing p with
    | none => s
    | some (id, signal) =>
      { s with killing := Function.update s.killing p none }.begins p
        (.update id (killedBy signal now)) none
  | .rename _ => s

/-- One step; a process in a call does nothing else before its rename. -/
def step (s : State) (op : Op) : State :=
  match op with
  | .rename p => s.renames p
  | op => if (s.calls op.process).isSome then s else s.acts op

/-- The processes as a machine. -/
def machine : Machine State Op Unit := ⟨fun s op => ((), step s op)⟩

/-! ## The property -/

/-- All calls have completed. -/
def Idle (s : State) : Prop := ∀ p, s.calls p = none

/-- The status of a job in the file. -/
def State.statusOf (s : State) (id : String) : Option JobRecordStatus :=
  (get s.jobs id).map (·.status)

/-- The rename of a keeper after an event of its child leaves the status the keeper wrote before. -/
def EndIsFinal (s : State) (op : Op) : Prop :=
  ∀ p id pending status, op = .rename p → s.calls p = some pending → pending.ends.isSome →
    s.keeps p = some id → s.ended p = some status → s.statusOf id = some status →
    (step s op).statusOf id = some status

/-- **The condition.**  The file a call replaces is the one it read; a job that is recorded is a new
    one; and the child of a keeper that has ended its job is not heard of again, unless to the same
    end. -/
def Undisturbed (s : State) : Op → Prop
  | .rename p => ∀ pending, s.calls p = some pending →
      s.registry.copies p = some s.jobs ∧
        ∀ r, pending.call = .record r → recordsOf r.id s.jobs = []
  | .childEvent p event _ => ∀ status, s.ended p = some status → event.status = status
  | _ => True

/-! ## The invariant -/

/-- What holds while nothing is disturbed. -/
structure Consistent (s : State) : Prop where
  retained : Retained s.completed s.jobs
  /-- A call that ends a job is an update of the kept job; it ends it as it was ended before. -/
  ends : ∀ p pending status, s.calls p = some pending → pending.ends = some status →
    (∃ id patch, s.keeps p = some id ∧ pending.call = .update id patch ∧
      patch.status = some status) ∧
    ∀ status', s.ended p = some status' → status = status'

variable {s : State}

theorem consistent_begins (hs : Consistent s) {p : Nat} {call : Call}
    {ends : Option JobRecordStatus}
    (hends : ∀ status, ends = some status →
      (∃ id patch, s.keeps p = some id ∧ call = .update id patch ∧ patch.status = some status) ∧
      ∀ status', s.ended p = some status' → status = status') :
    Consistent (s.begins p call ends) := by
  unfold State.begins
  split
  · rename_i hearly
    refine ⟨?_, hs.ends⟩
    have hnew : ∀ r, call = .record r → recordsOf r.id s.jobs = [] := by
      rintro r rfl
      nomatch hearly
    have hkept := records_kept hs.retained hnew
    rw [onto_of_endsEarly hearly] at hkept
    exact hkept
  · refine ⟨hs.retained, fun q pending status hcall hstatus => ?_⟩
    dsimp only at hcall
    rw [Function.update_apply] at hcall
    split at hcall
    · rename_i hq
      obtain rfl := Option.some.inj hcall
      rw [hq]
      exact hends status hstatus
    · exact hs.ends q pending status hcall hstatus

/-- What is in the file after a rename that is not disturbed. -/
theorem renames_jobs {p : Nat} {pending : Pending} (hcall : s.calls p = some pending)
    (hcopy : s.registry.copies p = some s.jobs) :
    (s.renames p).jobs = pending.call.onto s.jobs := by
  unfold State.renames
  rw [hcall]
  exact Copies.seen_write protocol pending.call hcopy

theorem consistent_renames (hs : Consistent s) {p : Nat} (hok : Undisturbed s (.rename p)) :
    Consistent (s.renames p) := by
  cases hcall : s.calls p with
  | none =>
    have hsame : s.renames p = s := by
      unfold State.renames
      rw [hcall]
    rwa [hsame]
  | some pending =>
    obtain ⟨hcopy, hnew⟩ := hok pending hcall
    have hjobs := renames_jobs hcall hcopy
    have hcompleted : (s.renames p).completed = s.completed ++ [pending.call] := by
      unfold State.renames
      rw [hcall]
    have hcalls : (s.renames p).calls = Function.update s.calls p none := by
      unfold State.renames
      rw [hcall]
    have hkeeps : (s.renames p).keeps = s.keeps := by
      unfold State.renames
      rw [hcall]
    have hended : ∀ q, q ≠ p → (s.renames p).ended q = s.ended q := by
      intro q hq
      unfold State.renames
      rw [hcall]
      dsimp only
      split
      · exact Function.update_of_ne hq _ _
      · rfl
    refine ⟨?_, fun q other status hq hstatus => ?_⟩
    · rw [hcompleted, hjobs]
      exact records_kept hs.retained hnew
    · rw [hcalls, Function.update_apply] at hq
      split at hq
      · nomatch hq
      · rename_i hne
        rw [hkeeps, hended q hne]
        exact hs.ends q other status hq hstatus

theorem consistent_acts (hs : Consistent s) {op : Op} (hok : Undisturbed s op) :
    Consistent (s.acts op) := by
  have hnone : ∀ {keeps : Option String} {call : Call} {ended : Option JobRecordStatus} status,
      (none : Option JobRecordStatus) = some status →
      (∃ id patch, keeps = some id ∧ call = .update id patch ∧ patch.status = some status) ∧
      ∀ status', ended = some status' → status = status' := fun _ => nofun
  cases op with
  | record p rec => exact consistent_begins hs hnone
  | update p id patch => exact consistent_begins hs hnone
  | runDetachedJob p job pid now =>
    unfold State.acts
    dsimp only
    split
    · exact hs
    · rename_i hkeeps
      have hkeeper : Consistent { s with keeps := Function.update s.keeps p (some job.id) } := by
        refine ⟨hs.retained, fun q pending status hq hstatus => ?_⟩
        obtain ⟨⟨id, patch, hid, hcall⟩, hlast⟩ := hs.ends q pending status hq hstatus
        refine ⟨⟨id, patch, ?_, hcall⟩, hlast⟩
        have hne : q ≠ p := by
          rintro rfl
          rw [hkeeps] at hid
          nomatch hid
        show Function.update s.keeps p (some job.id) q = some id
        rw [Function.update_of_ne hne, hid]
      exact consistent_begins hkeeper hnone
  | childEvent p event now =>
    unfold State.acts
    dsimp only
    split
    · exact hs
    · rename_i id hkeeps
      refine consistent_begins hs fun status hstatus => ?_
      obtain rfl := Option.some.inj hstatus
      exact ⟨⟨id, event.finish now, hkeeps, rfl, rfl⟩, hok⟩
  | killJob p id signal alive same now =>
    unfold State.acts
    dsimp only
    split
    · exact hs
    · split
      · exact hs
      · split
        · exact consistent_begins hs hnone
        · split
          · exact hs
          · exact ⟨hs.retained, hs.ends⟩
  | graceOver p now =>
    unfold State.acts
    dsimp only
    split
    · exact hs
    · have hkilled : Consistent { s with killing := Function.update s.killing p none } :=
        ⟨hs.retained, hs.ends⟩
      exact consistent_begins hkilled hnone
  | rename p => exact hs

theorem endIsFinal (hs : Consistent s) {op : Op} (hok : Undisturbed s op) : EndIsFinal s op := by
  rintro p id pending status rfl hcall hends hkeeps hended hstatus
  obtain ⟨status', hends⟩ := Option.isSome_iff_exists.mp hends
  obtain ⟨⟨id', patch, hkeeps', hupdate, hpatch⟩, hsame⟩ := hs.ends p pending status' hcall hends
  obtain rfl := Option.some.inj (hkeeps.symm.trans hkeeps')
  obtain rfl := hsame status hended
  have hjobs := renames_jobs hcall (hok pending hcall).1
  show (get (s.renames p).jobs id).map (·.status) = some status'
  unfold State.statusOf at hstatus
  rw [get_eq] at hstatus
  rw [hjobs, hupdate, get_eq]
  show ((recordsOf id (patchFirst id patch s.jobs)).head?).map _ = _
  rw [recordsOf_patchFirst]
  cases hrecords : recordsOf id s.jobs with
  | nil =>
    rw [hrecords] at hstatus
    nomatch hstatus
  | cons job jobs =>
    show some ((job.patched patch).status) = some status'
    unfold JobRecord.patched
    rw [hpatch]
    rfl

/-- **One step.** -/
theorem consistent_step (hs : Consistent s) {op : Op} (hok : Undisturbed s op) :
    Consistent (step s op) := by
  by_cases hrename : ∃ p, op = .rename p
  · obtain ⟨p, rfl⟩ := hrename
    exact consistent_renames hs hok
  · have hstep : step s op = if (s.calls op.process).isSome then s else s.acts op := by
      cases op with
      | rename p => exact absurd ⟨p, rfl⟩ hrename
      | _ => rfl
    rw [hstep]
    split
    · exact hs
    · exact consistent_acts hs hok

theorem consistent_start : Consistent start := by
  refine ⟨fun pre r post h => ?_, fun p pending status h => nomatch h⟩
  nomatch List.append_eq_nil_iff.mp h.symm |>.2

/-- **No job is lost** in a run that nothing disturbs: after every step, each recorded job is in the
    file once, with all later updates of it; and no event of its child changes how its keeper has
    ended it. -/
theorem no_job_lost {ops : List Op} (h : machine.Always Undisturbed start ops) :
    Retained (machine.run start ops).completed (machine.run start ops).jobs ∧
      machine.Always EndIsFinal start ops :=
  ⟨(h.invariant (fun _ _ hs hok => consistent_step hs hok) consistent_start).retained,
    h.of_invariant (fun _ _ hs hok => ⟨endIsFinal hs hok, consistent_step hs hok⟩)
      consistent_start⟩

/-! ## Processes that are not involved -/

theorem begins_calls {p q : Nat} (hne : q ≠ p) (s : State) (call : Call)
    (ends : Option JobRecordStatus) : (s.begins p call ends).calls q = s.calls q := by
  unfold State.begins
  split
  · rfl
  · exact Function.update_of_ne hne _ _

theorem acts_calls {op : Op} {q : Nat} (hne : q ≠ op.process) (s : State) :
    (s.acts op).calls q = s.calls q := by
  cases op with
  | record p rec => exact begins_calls hne s _ _
  | update p id patch => exact begins_calls hne s _ _
  | runDetachedJob p job pid now =>
    unfold State.acts
    dsimp only
    split
    · rfl
    · exact begins_calls hne _ _ _
  | childEvent p event now =>
    unfold State.acts
    dsimp only
    split
    · rfl
    · exact begins_calls hne s _ _
  | killJob p id signal alive same now =>
    unfold State.acts
    dsimp only
    split
    · rfl
    · split
      · rfl
      · split
        · exact begins_calls hne s _ _
        · split <;> rfl
  | graceOver p now =>
    unfold State.acts
    dsimp only
    split
    · rfl
    · exact begins_calls hne _ _ _
  | rename p => rfl

/-- A step leaves the other processes in the calls they are in. -/
theorem step_calls {op : Op} {q : Nat} (hne : q ≠ op.process) (s : State) :
    (step s op).calls q = s.calls q := by
  have hacts : (if (s.calls op.process).isSome then s else s.acts op).calls q = s.calls q := by
    split
    · rfl
    · exact acts_calls hne s
  cases op with
  | rename p =>
    show (s.renames p).calls q = s.calls q
    unfold State.renames
    split
    · rfl
    · exact Function.update_of_ne hne _ _
  | _ => exact hacts

theorem run_calls {ops : List Op} {q : Nat} (hne : ∀ op ∈ ops, q ≠ op.process) (s : State) :
    (machine.run s ops).calls q = s.calls q := by
  induction ops generalizing s with
  | nil => rfl
  | cons op ops ih =>
    obtain ⟨hop, hops⟩ := List.forall_mem_cons.mp hne
    exact (ih hops (step s op)).trans (step_calls hop s)

theorem idle_of {ops : List Op}
    (h : ∀ op ∈ ops, (machine.run start ops).calls op.process = none) :
    Idle (machine.run start ops) := by
  intro p
  by_cases hp : ∃ op ∈ ops, p = op.process
  · obtain ⟨op, hop, rfl⟩ := hp
    exact h op hop
  · exact run_calls (fun op hop hsame => hp ⟨op, hop, hsame⟩) start

/-! ## Two keepers at once, and a child that cannot be spawned -/

/-- A command that runs for a while. -/
def sleeper : Job := ⟨"job_1", "sleep", ["30"], "/srv", "/data/job-logs/job_1.log"⟩

/-- A command that does not exist. -/
def missing : Job := ⟨"job_2", "slep", ["30"], "/srv", "/data/job-logs/job_2.log"⟩

/-- Two keepers start; the second one reads the file before the first has written it. -/
def together : List Op :=
  [.runDetachedJob 1 sleeper (some 501) 1000, .runDetachedJob 2 missing none 1001,
    .rename 1, .rename 2]

/-- One after the other; the second child cannot be spawned. -/
def inTurn : List Op :=
  [.runDetachedJob 1 sleeper (some 501) 1000, .rename 1,
    .runDetachedJob 2 missing none 1001, .rename 2,
    .childEvent 2 .error 1002, .rename 2]

/-- A spawn that fails with ENOENT closes the child, too. -/
def spawnFailure : List Op := inTurn ++ [.childEvent 2 (.close (some (-2)) none) 1003, .rename 2]

/-- **The first record is lost**, and the status `error` does not last: the runs come to rest, one
    without a record of the first job, the other with `exited` where its keeper wrote `error`. -/
theorem record_and_end_lost :
    Idle (machine.run start together) ∧ Idle (machine.run start spawnFailure) ∧
      ¬ Retained (machine.run start together).completed (machine.run start together).jobs ∧
      ¬ machine.Always EndIsFinal start spawnFailure := by
  refine ⟨idle_of (by decide), idle_of (by decide), fun h => ?_, fun h => ?_⟩
  · have hfirst := h [] (sleeper.running (some 501) 1000) [.record (missing.running none 1001)] rfl
    revert hfirst
    decide
  · obtain ⟨-, -, hfinal, -⟩ := (Machine.always_append machine).mp h
    have hstatus := hfinal 2 "job_2" _ .error rfl rfl rfl rfl rfl rfl
    revert hstatus
    decide

/-- The run without the second event is not disturbed. -/
theorem no_job_lost_inTurn :
    machine.Always Undisturbed start inTurn ∧
    Retained (machine.run start inTurn).completed (machine.run start inTurn).jobs ∧
      machine.Always EndIsFinal start inTurn := by
  have hok : machine.Always Undisturbed start inTurn := by
    refine ⟨trivial, fun pending h => ?_, trivial, fun pending h => ?_, fun status h => ?_,
      fun pending h => ?_, trivial⟩
    · obtain rfl := Option.some.inj h
      refine ⟨rfl, fun r hr => ?_⟩
      obtain rfl := Call.record.inj hr
      rfl
    · obtain rfl := Option.some.inj h
      refine ⟨rfl, fun r hr => ?_⟩
      obtain rfl := Call.record.inj hr
      rfl
    · nomatch h
    · obtain rfl := Option.some.inj h
      exact ⟨rfl, fun r hr => nomatch hr⟩
  exact ⟨hok, no_job_lost hok⟩

end NexusCode.Jobs
