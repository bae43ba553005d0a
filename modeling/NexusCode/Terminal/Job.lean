/-
  A background job: one child process, what it puts out, and how it ends.

  Output arrives in the data events of the operating system.  Every event is decoded for itself, put
  into the buffers and handed to the streams; past the cap the child is told to stop, and nothing
  more is taken.  A job runs until the first `close` or `error` of its child.

    1. `Feed`                — what a stream hands on: everything pushed before it was closed.
    2. `Job`, `Job.create`   — a job, and a new one.
    3. `onData`, `onRuntimeExceeded`, `kill`, `onError`, `onClose` — what happens to it.
    4. `running_settle` and the like — only the last two end a job.
-/
import NexusCode.Lib.Utf8
import NexusCode.Workspace.Paths

namespace NexusCode.Terminal

open Lib Utf8

/-! ## Streams -/

/-- What was pushed, in order, and whether the stream has been closed.  An iterator starts at the
    first value and ends behind the last. -/
structure Feed (α : Type) where
  values : List α
  closed : Bool

namespace Feed

variable {α : Type}

/-- A new stream. -/
def empty : Feed α := ⟨[], false⟩

/-- `push(value)`; nothing happens once closed. -/
def push (feed : Feed α) (value : α) : Feed α :=
  if feed.closed then feed else { feed with values := feed.values ++ [value] }

/-- `close()`. -/
def close (feed : Feed α) : Feed α := { feed with closed := true }

end Feed

/-- Many iterators, each from the first value on. -/
abbrev AsyncBroadcast := Feed

/-- One iterator. -/
abbrev AsyncQueue := Feed

/-! ## Jobs -/

/-- The name of a signal. -/
abbrev Signal := String

inductive OutputStream where
  | stdout
  | stderr
deriving DecidableEq

/-- One piece of output. -/
structure OutputChunk where
  stream : OutputStream
  data : List Char

inductive JobStatus where
  | running
  | exited
  | killed
  | error
deriving DecidableEq

/-- How to launch a job; `aborted` says that its abort signal has fired already. -/
structure JobSpec where
  command : String
  args : List String
  cwd : Option String
  maxOutputBytes : Option Nat
  aborted : Bool

/-- The options a manager was made with. -/
structure Defaults where
  cwd : String
  maxOutputBytes : Nat

/-- A job; `sent` are the signals its child was sent. -/
structure Job where
  id : Nat
  command : String
  args : List String
  cwd : Place
  pid : Option Nat
  startedAt : Int
  maxOutputBytes : Nat
  broadcast : AsyncBroadcast OutputChunk
  stdoutBuf : List Char
  stderrBuf : List Char
  combinedBuf : List Char
  outputBytes : Nat
  outputCapped : Bool
  timedOut : Bool
  status : JobStatus
  exitCode : Option Int
  exitSignal : Option Signal
  endedAt : Option Int
  spawnError : Option String
  settled : Bool
  sent : List Signal

/-- A snapshot of a job. -/
structure JobInfo where
  id : Nat
  command : String
  args : List String
  pid : Option Nat
  status : JobStatus
  exitCode : Option Int
  signal : Option Signal
  startedAt : Int
  endedAt : Option Int
  outputBytes : Nat
  outputCapped : Bool
  timedOut : Bool
  error : Option String

namespace Job

/-- True while the child is still running. -/
def running (job : Job) : Bool := !job.settled

/-- `info()`. -/
def info (job : Job) : JobInfo where
  id := job.id
  command := job.command
  args := job.args
  pid := job.pid
  status := job.status
  exitCode := job.exitCode
  signal := job.exitSignal
  startedAt := job.startedAt
  endedAt := job.endedAt
  outputBytes := job.outputBytes
  outputCapped := job.outputCapped
  timedOut := job.timedOut
  error := job.spawnError

/-- `kill(signal)`, up to where it waits for the end. -/
def kill (job : Job) (signal : Signal) : Job :=
  if job.settled then job
  else { job with
    status := if job.status = .running then .killed else job.status
    sent := job.sent ++ [signal] }

/-- The constructor: the child is spawned, and killed at once if the abort signal has fired. -/
def create (id : Nat) (spec : JobSpec) (cwd : Place) (defaults : Defaults) (now : Int)
    (pid : Option Nat) : Job :=
  let job : Job := {
    id := id
    command := spec.command
    args := spec.args
    cwd := cwd
    pid := pid
    startedAt := now
    maxOutputBytes := spec.maxOutputBytes.getD defaults.maxOutputBytes
    broadcast := Feed.empty
    stdoutBuf := []
    stderrBuf := []
    combinedBuf := []
    outputBytes := 0
    outputCapped := false
    timedOut := false
    status := .running
    exitCode := none
    exitSignal := none
    endedAt := none
    spawnError := none
    settled := false
    sent := [] }
  if spec.aborted then job.kill "SIGTERM" else job

/-- `onRuntimeExceeded()`, when the job has outrun `maxRuntimeMs`. -/
def onRuntimeExceeded (job : Job) : Job :=
  if job.settled || job.timedOut then job
  else { job with timedOut := true, status := .killed, sent := job.sent ++ ["SIGTERM"] }

/-- The grace period of a kill, a timeout or the cap is over. -/
def escalate (job : Job) : Job :=
  if job.settled then job else { job with sent := job.sent ++ ["SIGKILL"] }

/-- The text of a data event in the buffer of its stream. -/
def buffered (job : Job) (s : List Char) : OutputStream → Job
  | .stdout => { job with stdoutBuf := job.stdoutBuf ++ s }
  | .stderr => { job with stderrBuf := job.stderrBuf ++ s }

/-- `onData(stream, d)`. -/
def onData (job : Job) (stream : OutputStream) (d : List UInt8) : Job :=
  if job.outputCapped || job.timedOut || job.settled then job
  else
    let s := decode d
    let taken : Job := { job.buffered s stream with
      combinedBuf := job.combinedBuf ++ s
      outputBytes := job.outputBytes + (encode s).length
      broadcast := job.broadcast.push ⟨stream, s⟩ }
    if taken.maxOutputBytes < taken.outputBytes then
      { taken with outputCapped := true, status := .killed, sent := taken.sent ++ ["SIGTERM"] }
    else taken

/-- `settle()`. -/
def settle (job : Job) (now : Int) : Job :=
  if job.settled then job
  else { job with settled := true, endedAt := some now, broadcast := job.broadcast.close }

/-- The `error` event of the child. -/
def onError (job : Job) (now : Int) (message : String) : Job :=
  settle { job with spawnError := some message, status := .error } now

/-- The `close` event of the child. -/
def onClose (job : Job) (now : Int) (code : Option Int) (sig : Option Signal) : Job :=
  settle { job with
    exitCode := code
    exitSignal := sig
    status := if job.status = .running then (if sig.isSome then .killed else .exited)
      else job.status } now

/-- `output()`. -/
def output (job : Job) : List Char := job.combinedBuf

/-- `stdout()`. -/
def stdout (job : Job) : List Char := job.stdoutBuf

/-- `stderr()`. -/
def stderr (job : Job) : List Char := job.stderrBuf

/-- Everything an iterator of `stream()` yields, whenever it was opened. -/
def stream (job : Job) : List OutputChunk := job.broadcast.values

/-! ## When a job runs -/

@[simp] theorem running_kill (job : Job) (signal : Signal) :
    (job.kill signal).running = job.running := by
  unfold kill
  split <;> rfl

@[simp] theorem running_create (id : Nat) (spec : JobSpec) (cwd : Place)
    (defaults : Defaults) (now : Int) (pid : Option Nat) :
    (create id spec cwd defaults now pid).running = true := by
  unfold create
  dsimp only
  split
  · rw [running_kill]
    rfl
  · rfl

@[simp] theorem running_onRuntimeExceeded (job : Job) :
    job.onRuntimeExceeded.running = job.running := by
  unfold onRuntimeExceeded
  split <;> rfl

@[simp] theorem running_escalate (job : Job) : job.escalate.running = job.running := by
  unfold escalate
  split <;> rfl

@[simp] theorem running_onData (job : Job) (stream : OutputStream) (d : List UInt8) :
    (job.onData stream d).running = job.running := by
  unfold onData
  split
  · rfl
  · cases stream <;> (dsimp only; split <;> rfl)

@[simp] theorem running_settle (job : Job) (now : Int) : (job.settle now).running = false := by
  unfold settle running
  split
  · rename_i h
    rw [h]
    rfl
  · rfl

theorem sent_kill {job : Job} (h : job.running = true) (signal : Signal) :
    (job.kill signal).sent = job.sent ++ [signal] := by
  have hsettled : job.settled = false := Bool.not_eq_true' _ |>.mp h
  rw [kill, hsettled]
  rfl

end Job

end NexusCode.Terminal
