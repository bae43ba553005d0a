/-
  The registry of backgrounded jobs: one JSON file with a record for each job.

  `record` appends a record, `update` changes fields of one; both read the whole file and put all of
  it back by a rename.

    1. `JobRecord`, `Patch`, `get`      — the records.
    2. `Call.onto`                      — what a call does to the records it has read.
    3. `JobRecord.after`                — a record with the updates that came after it.
    4. **`records_kept`**               — one call keeps every record and its updates.
-/
import Mathlib.Data.List.Basic
import Mathlib.Tactic.Common

namespace NexusCode.Jobs

open List

/-! ## The records -/

inductive JobRecordStatus where
  | running
  | exited
  | killed
  | error
  | gone
deriving DecidableEq

/-- One backgrounded job, as `jobs.json` has it. -/
structure JobRecord where
  id : String
  pid : Int
  command : String
  args : List String
  cwd : String
  logFile : String
  startedAt : Int
  status : JobRecordStatus
  exitCode : Option Int
  signal : Option String
  endedAt : Option Int
deriving DecidableEq

/-- The fields an update may set; `none` where the patch has no such field. -/
structure Patch where
  status : Option JobRecordStatus := none
  exitCode : Option (Option Int) := none
  signal : Option (Option String) := none
  endedAt : Option (Option Int) := none
  pid : Option Int := none

/-- `{ ...job, ...patch }`. -/
def JobRecord.patched (job : JobRecord) (patch : Patch) : JobRecord :=
  { job with
    status := patch.status.getD job.status
    exitCode := patch.exitCode.getD job.exitCode
    signal := patch.signal.getD job.signal
    endedAt := patch.endedAt.getD job.endedAt
    pid := patch.pid.getD job.pid }

@[simp] theorem patched_id (job : JobRecord) (patch : Patch) : (job.patched patch).id = job.id := rfl

/-- `jobs.find((j) => j.id === id)`. -/
def get (jobs : List JobRecord) (id : String) : Option JobRecord := jobs.find? (·.id = id)

/-- All records of a job. -/
def recordsOf (id : String) (jobs : List JobRecord) : List JobRecord := jobs.filter (·.id = id)

/-- The job is known. -/
def known (id : String) (jobs : List JobRecord) : Bool := (get jobs id).isSome

theorem get_eq (jobs : List JobRecord) (id : String) : get jobs id = (recordsOf id jobs).head? :=
  List.head?_filter.symm

/-- `jobs[idx] = { ...jobs[idx], ...patch }` for the first record of the id, if there is one. -/
def patchFirst (id : String) (patch : Patch) : List JobRecord → List JobRecord
  | [] => []
  | job :: jobs =>
    if job.id = id then job.patched patch :: jobs else job :: patchFirst id patch jobs

theorem recordsOf_append (id : String) (jobs : List JobRecord) (r : JobRecord) :
    recordsOf id (jobs ++ [r]) = recordsOf id jobs ++ if r.id = id then [r] else [] := by
  unfold recordsOf
  rw [filter_append, filter_singleton]
  by_cases h : r.id = id
  · simp [h]
  · simp [h]

theorem recordsOf_cons_self {id : String} {job : JobRecord} (h : job.id = id)
    (jobs : List JobRecord) : recordsOf id (job :: jobs) = job :: recordsOf id jobs :=
  filter_cons_of_pos (by simpa using h)

theorem recordsOf_cons_other {id : String} {job : JobRecord} (h : job.id ≠ id)
    (jobs : List JobRecord) : recordsOf id (job :: jobs) = recordsOf id jobs :=
  filter_cons_of_neg (by simpa using h)

theorem recordsOf_patchFirst (id : String) (patch : Patch) (jobs : List JobRecord) :
    recordsOf id (patchFirst id patch jobs) = (recordsOf id jobs).modifyHead (·.patched patch) := by
  induction jobs with
  | nil => rfl
  | cons job jobs ih =>
    unfold patchFirst
    split
    · rename_i h
      rw [recordsOf_cons_self h, recordsOf_cons_self ((patched_id job patch).trans h)]
      rfl
    · rename_i h
      rw [recordsOf_cons_other h, recordsOf_cons_other h]
      exact ih

theorem recordsOf_patchFirst_other {id other : String} (hne : id ≠ other) (patch : Patch)
    (jobs : List JobRecord) : recordsOf other (patchFirst id patch jobs) = recordsOf other jobs := by
  induction jobs with
  | nil => rfl
  | cons job jobs ih =>
    unfold patchFirst
    split
    · rename_i h
      have hother : job.id ≠ other := fun h' => hne (h.symm.trans h')
      rw [recordsOf_cons_other hother, recordsOf_cons_other (by rwa [patched_id])]
    · by_cases hjob : job.id = other
      · rw [recordsOf_cons_self hjob, recordsOf_cons_self hjob, ih]
      · rw [recordsOf_cons_other hjob, recordsOf_cons_other hjob, ih]

/-! ## Calls -/

/-- A call of `record` or of `update`. -/
inductive Call where
  | record (rec : JobRecord)
  | update (id : String) (patch : Patch)

/-- The records a call writes, from those it has read. -/
def Call.onto (jobs : List JobRecord) : Call → List JobRecord
  | .record rec => jobs ++ [rec]
  | .update id patch => patchFirst id patch jobs

/-- An update of an unknown id returns without writing. -/
def Call.endsEarly (jobs : List JobRecord) : Call → Bool
  | .record _ => false
  | .update id _ => !known id jobs

theorem onto_of_endsEarly {jobs : List JobRecord} {call : Call} (h : call.endsEarly jobs = true) :
    call.onto jobs = jobs := by
  cases call with
  | record rec => nomatch h
  | update id patch =>
    have hall : ∀ job ∈ jobs, job.id ≠ id := by
      simpa [Call.endsEarly, known, get] using h
    show patchFirst id patch jobs = jobs
    clear h
    induction jobs with
    | nil => rfl
    | cons job jobs ih =>
      obtain ⟨hjob, hjobs⟩ := forall_mem_cons.mp hall
      unfold patchFirst
      rw [if_neg hjob, ih hjobs]

/-- A record with what a later call makes of it. -/
def JobRecord.amended (job : JobRecord) : Call → JobRecord
  | .record _ => job
  | .update id patch => if id = job.id then job.patched patch else job

/-- **A record after calls**: every update of it is merged, in order. -/
def JobRecord.after (job : JobRecord) (calls : List Call) : JobRecord :=
  calls.foldl JobRecord.amended job

theorem amended_id (job : JobRecord) (call : Call) : (job.amended call).id = job.id := by
  cases call with
  | record rec => rfl
  | update id patch =>
    unfold JobRecord.amended
    dsimp only
    split
    · exact patched_id job patch
    · rfl

theorem after_append (job : JobRecord) (calls later : List Call) :
    job.after (calls ++ later) = (job.after calls).after later := List.foldl_append

theorem after_id (job : JobRecord) (calls : List Call) : (job.after calls).id = job.id := by
  induction calls generalizing job with
  | nil => rfl
  | cons call calls ih => exact (ih (job.amended call)).trans (amended_id job call)

/-! ## No record is lost -/

/-- Every record that was appended is there once, with all later updates of it. -/
def Retained (calls : List Call) (jobs : List JobRecord) : Prop :=
  ∀ pre r post, calls = pre ++ .record r :: post → recordsOf r.id jobs = [r.after post]

/-- What a call does to the records of one job that has a single one. -/
theorem recordsOf_onto {jobs : List JobRecord} {r : JobRecord} {call : Call}
    (hr : recordsOf r.id jobs = [r])
    (hnew : ∀ r', call = .record r' → recordsOf r'.id jobs = []) :
    recordsOf r.id (call.onto jobs) = [r.amended call] := by
  cases call with
  | record r' =>
    have hother : r'.id ≠ r.id := by
      intro h
      have hnone := hnew r' rfl
      rw [h, hr] at hnone
      nomatch hnone
    show recordsOf r.id (jobs ++ [r']) = [r]
    rw [recordsOf_append, if_neg hother, hr, append_nil]
  | update id patch =>
    show recordsOf r.id (patchFirst id patch jobs) = [if id = r.id then r.patched patch else r]
    by_cases hid : id = r.id
    · rw [hid, recordsOf_patchFirst, hr, if_pos rfl]
      rfl
    · rw [recordsOf_patchFirst_other hid, hr, if_neg hid]

/-- **One call keeps all records**, if a job that is recorded is a new one. -/
theorem records_kept {calls : List Call} {jobs : List JobRecord} {call : Call}
    (h : Retained calls jobs) (hnew : ∀ r, call = .record r → recordsOf r.id jobs = []) :
    Retained (calls ++ [call]) (call.onto jobs) := by
  intro pre r post heq
  rcases eq_nil_or_concat post with rfl | ⟨post, last, rfl⟩
  · obtain ⟨rfl, hcall⟩ := append_inj' heq rfl
    obtain rfl : call = .record r := singleton_inj.mp hcall
    show recordsOf r.id (jobs ++ [r]) = [r]
    rw [recordsOf_append, hnew r rfl, if_pos rfl, nil_append]
  · rw [concat_eq_append, ← cons_append, ← append_assoc] at heq
    obtain ⟨hcalls, hlast⟩ := append_inj' heq rfl
    obtain rfl : call = last := singleton_inj.mp hlast
    have hbefore := h pre r post hcalls
    rw [← after_id r post] at hbefore
    have hafter := recordsOf_onto hbefore hnew
    rw [after_id] at hafter
    rw [hafter, concat_eq_append, after_append]
    rfl

end NexusCode.Jobs
