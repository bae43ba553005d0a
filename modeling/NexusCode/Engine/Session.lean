/-
  A session of the engine over its durable transcript.

  A turn owns two sequence numbers: its input is stored at `turnSeq`, its reply at `turnSeq + 1`.
  A later reply of the same turn replaces the earlier one; a turn recorded as failed stores
  nothing at both.  The counter of a resumed session starts at the number of stored messages.

  A `State` is the table, the session that is open on it and the turns of the sessions that were
  closed before; `machine` runs the calls of the callers: new turns, recorded replies, the
  automatic summary of a settled run, a replaced transcript, and closing and resuming.
-/
import NexusCode.Engine.TranscriptStore
import NexusCode.Lib.Machine

namespace NexusCode.Engine

open Lib Shared

/-! ## Sessions -/

/-- `history.maxTokens`: a number, or a callback that is read at every use. -/
inductive Budget where
  | fixed (maxTokens : JsNumber)
  | live

/-- `HistoryOptions` of a session. -/
structure History where
  enabled : Bool := true
  budget : Budget := .fixed 32000

/-- `maxTokensNow()`; `reading` is what the callback answers, `none` if it throws. -/
def maxTokensNow (history : History) (reading : Option JsNumber) : JsNumber :=
  match history.budget, reading with
  | .fixed maxTokens, _ => maxTokens
  | .live, some value =>
    if JsNumber.isFinite value && JsNumber.lt 0 value then value else 32000
  | .live, none => 32000

/-- A turn.  `reply` is not a variable of the source: it is the reply the store was last given for
    the turn. -/
structure Turn where
  turnSeq : Nat
  freshMessages : List Held := []
  rolledBack : Bool := false
  recorded : List Held := []
  reply : List Message := []

/-- An open session. -/
structure Session where
  history : History
  transcript : List Held := []
  seq : Nat := 0
  turns : List Turn := []

/-- The store, the open session, and the turns of the sessions closed before it. -/
structure State where
  table : List Row := []
  session : Session
  closed : List Turn := []
  nextRef : Nat := 0

/-- A new session over an empty store. -/
def State.opened (history : History) : State := { session := { history } }

variable (redact : List ContentBlock → List ContentBlock)

namespace State

/-! ## The operations -/

/-- `session.newTurn(input)`. -/
def newTurn (input : TurnInput) (reading : Option JsNumber) (σ : State) : State :=
  let session := σ.session
  let incoming := toMessages σ.nextRef input
  let turnSeq := session.seq
  if session.history.enabled then
    let threaded := threadedAt incoming session.transcript
    let combined := if threaded.isNone then session.transcript ++ incoming else incoming
    let fresh := incoming.length - threaded.getD 0
    let messages := boundTranscript combined (maxTokensNow session.history reading) fresh
    let freshMessages := messages.drop (messages.length - fresh)
    { σ with
      table := appendTranscript redact turnSeq (freshMessages.map (·.message)) σ.table
      session := { session with
        transcript := messages
        seq := turnSeq + 2
        turns := session.turns ++ [{ turnSeq, freshMessages }] }
      nextRef := σ.nextRef + 1 }
  else
    { σ with
      session := { session with turns := session.turns ++ [{ turnSeq }] }
      nextRef := σ.nextRef + 1 }

/-- `rollbackUnansweredInput()` of the `k`-th turn. -/
def rollbackUnansweredInput (k : Nat) (turn : Turn) (σ : State) : State :=
  let session := σ.session
  if !session.history.enabled || turn.rolledBack then σ
  else
    { σ with
      table := appendTranscript redact (turn.turnSeq + 1) []
        (appendTranscript redact turn.turnSeq [] σ.table)
      session := { session with
        transcript := turn.freshMessages.foldl takeOut session.transcript
        turns := session.turns.set k { turn with rolledBack := true, reply := [] } } }

/-- `recordReply(reply)` of the `k`-th turn. -/
def recordReply (k : Nat) (turn : Turn) (reply : List Held) (reading : Option JsNumber)
    (σ : State) : State :=
  let session := σ.session
  if !session.history.enabled || reply.isEmpty then σ
  else
    let transcript := turn.recorded.foldl takeOut session.transcript ++ reply
    let messages := reply.map (·.message)
    { σ with
      table := appendTranscript redact (turn.turnSeq + 1) messages σ.table
      session := { session with
        transcript := boundTranscript transcript (maxTokensNow session.history reading) 1
        turns := session.turns.set k { turn with recorded := reply, reply := messages } }
      nextRef := σ.nextRef + 1 }

/-- `turn.record(reply)`. -/
def record (k : Nat) (turn : Turn) (reply : TurnReply) (reading : Option JsNumber) (σ : State) :
    State :=
  let normalized := replyMessages σ.nextRef reply
  if !normalized.isEmpty then σ.recordReply redact k turn normalized reading
  else if reply.isObject then σ.rollbackUnansweredInput redact k turn
  else σ

/-- `session.setTranscript(messages)`. -/
def setTranscript (messages : List Held) (reading : Option JsNumber) (σ : State) : State :=
  let history := σ.session.history
  { σ with session.transcript :=
      if history.enabled then boundTranscript messages (maxTokensNow history reading) 1
      else messages }

/-- `session.dispose()`, then `openSession({ resume, history })`. -/
def resume (history : History) (reading : Option JsNumber) (σ : State) : State :=
  let closed := σ.closed ++ σ.session.turns
  if history.enabled then
    let loaded := makeObjects σ.nextRef (loadTranscript σ.table)
    { σ with
      session := {
        history
        transcript := boundTranscript (resumable loaded) (maxTokensNow history reading) 1
        seq := loaded.length }
      closed
      nextRef := σ.nextRef + loaded.length }
  else { σ with session := { history }, closed }

end State

/-! ## Runs -/

/-- What callers do.  Turns are named by their number in the open session. -/
inductive Op where
  | newTurn (input : TurnInput) (reading : Option JsNumber)
  | record (k : Nat) (reply : TurnReply) (reading : Option JsNumber)
  | summarize (k : Nat) (result : RunResult) (reading : Option JsNumber)
  | setTranscript (messages : List Held) (reading : Option JsNumber)
  | resume (history : History) (reading : Option JsNumber)

/-- One call. -/
def State.perform (σ : State) : Op → State
  | .newTurn input reading => σ.newTurn redact input reading
  | .record k reply reading =>
    match σ.session.turns[k]? with
    | some turn => σ.record redact k turn reply reading
    | none => σ
  | .summarize k result reading =>
    match σ.session.turns[k]? with
    | some turn =>
      σ.recordReply redact k turn (replyMessages σ.nextRef (.result result)) reading
    | none => σ
  | .setTranscript messages reading => σ.setTranscript messages reading
  | .resume history reading => σ.resume history reading

/-- The machine of the calls. -/
def machine : Machine State Op Unit := ⟨fun σ op => ((), σ.perform redact op)⟩

/-! ## What the store should hold -/

/-- The input the store was last given for a turn. -/
def Turn.input (turn : Turn) : List Message :=
  if turn.rolledBack then [] else turn.freshMessages.map (·.message)

/-- Was a reply stored, and not rolled back since? -/
def Turn.isAnswered (turn : Turn) : Bool := !turn.reply.isEmpty

/-- What is stored of a turn. -/
def Turn.messages (turn : Turn) : List Message := turn.input ++ turn.reply

/-- The messages of all answered turns, of any session, in the order of the turns. -/
def answeredMessages (σ : State) : List Message :=
  ((σ.closed ++ σ.session.turns).filter (·.isAnswered)).flatMap (·.messages)

end NexusCode.Engine
