/-
  `shell_exec`: one child process per call.

  The call keeps what the child puts out in two texts and hands every piece on as an event; past the
  cap the child is told to stop, and nothing more is taken.  Its result is a summary.

    1. `ShellRun`, `step`  — the variables of the call, and the events that change them.
    2. `buildSummary`, `result` — what the call answers in the end.
-/
import NexusCode.Terminal.Job

namespace NexusCode.Terminal

open Lib Utf8

/-- What the call was given. -/
structure ShellInput where
  command : String
  args : List String
  maxOutputBytes : Nat

/-- The variables of a call; `queue` are the texts of its output events, and `sent` the signals its
    child was sent. -/
structure ShellRun where
  queue : AsyncQueue (List Char)
  stdout : List Char
  stderr : List Char
  outputBytes : Nat
  outputCapped : Bool
  exitCode : Option Int
  signalName : Option Signal
  timedOut : Bool
  aborted : Bool
  spawnError : Option String
  settled : Bool
  sent : List Signal

namespace ShellRun

/-- The call before its child has done anything. -/
def initial : ShellRun where
  queue := Feed.empty
  stdout := []
  stderr := []
  outputBytes := 0
  outputCapped := false
  exitCode := none
  signalName := none
  timedOut := false
  aborted := false
  spawnError := none
  settled := false
  sent := []

/-- `settle()`. -/
def settle (run : ShellRun) : ShellRun :=
  if run.settled then run else { run with settled := true, queue := run.queue.close }

/-- The text of a data event behind that of its stream. -/
def buffered (run : ShellRun) (s : List Char) : OutputStream → ShellRun
  | .stdout => { run with stdout := run.stdout ++ s }
  | .stderr => { run with stderr := run.stderr ++ s }

/-- `onData(which, d)`. -/
def onData (input : ShellInput) (run : ShellRun) (which : OutputStream) (d : List UInt8) :
    ShellRun :=
  if run.outputCapped then run
  else
    let s := decode d
    let taken : ShellRun := { run.buffered s which with
      outputBytes := run.outputBytes + (encode s).length
      queue := run.queue.push s }
    if input.maxOutputBytes < taken.outputBytes then
      { taken with outputCapped := true, sent := taken.sent ++ ["SIGTERM"] }
    else taken

/-- What happens while the call waits. -/
inductive Event where
  | data (which : OutputStream) (d : List UInt8)
  /-- The time is up. -/
  | timeout
  /-- `ctx.signal` fires. -/
  | abort
  /-- The grace period after the cap is over. -/
  | escalate
  | error (message : String)
  | close (code : Option Int) (sig : Option Signal)

/-- One event; the timer and the abort signal do nothing once the call has settled. -/
def step (input : ShellInput) (run : ShellRun) : Event → ShellRun
  | .data which d => run.onData input which d
  | .timeout =>
    if run.settled then run else { run with timedOut := true, sent := run.sent ++ ["SIGKILL"] }
  | .abort =>
    if run.settled then run else { run with aborted := true, sent := run.sent ++ ["SIGKILL"] }
  | .escalate => if run.settled then run else { run with sent := run.sent ++ ["SIGKILL"] }
  | .error message => settle { run with spawnError := some message }
  | .close code sig => settle { run with exitCode := code, signalName := sig }

/-- `text.replace(/\n$/, "")`. -/
def withoutLastNewline (text : List Char) : List Char :=
  if text.getLast? = some '\n' then text.dropLast else text

/-- The status in the summary. -/
def statusText (input : ShellInput) (run : ShellRun) : String :=
  match run.spawnError with
  | some message => "spawn error: " ++ message
  | none =>
    if run.outputCapped then
      "output truncated at " ++ toString input.maxOutputBytes ++ " bytes (killed)"
    else if run.timedOut then "timed out (killed)"
    else if run.aborted then "cancelled (killed)"
    else
      match run.signalName with
      | some signal => "killed by " ++ signal
      | none =>
        match run.exitCode with
        | some code => "exit code " ++ toString code
        | none => "exit code unknown"

/-- The part of the summary for a stream. -/
def streamPart (name : String) (text : List Char) : List String :=
  if text.isEmpty then []
  else ["--- " ++ name ++ " ---\n" ++ String.ofList (withoutLastNewline text)]

/-- `buildSummary(o)`. -/
def buildSummary (input : ShellInput) (run : ShellRun) : String :=
  "\n".intercalate (["$ " ++ " ".intercalate (input.command :: input.args),
    "[" ++ run.statusText input ++ "]"] ++ streamPart "stdout" run.stdout ++
    streamPart "stderr" run.stderr)

/-- Did the call fail? -/
def isError (run : ShellRun) : Bool :=
  run.spawnError.isSome || run.timedOut || run.aborted || run.outputCapped ||
    run.signalName.isSome || run.exitCode.any (· != 0)

/-- The result: `ok`, and the summary. -/
def result (input : ShellInput) (run : ShellRun) : Bool × String :=
  (!run.isError, run.buildSummary input)

end ShellRun

end NexusCode.Terminal
