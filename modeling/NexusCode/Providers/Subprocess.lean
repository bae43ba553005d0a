/-
  The adapter of a wrapped command-line program.

  `stream` starts the program, reads its standard output line by line, gives each parsed line to
  the handler of the program at hand, and ends with one terminal chunk by fixed rules.  A handler,
  the concatenation of a text, and the report of a failure may throw; what was yielded before stays
  yielded (`Outcome`).

  A chunk carries what the handler put into it: fields that come unchecked from the line are
  parsed values, or `none` for `undefined`.
-/
import NexusCode.Shared.Stream
import NexusCode.Lib.JsValue

namespace NexusCode.Providers

open Lib Shared List

/-- `Partial<Usage>`: its members. -/
abbrev PartialUsage := List (String × Json)

/-- A tool use, as the handler found it. -/
structure ToolUse where
  id : Unknown
  name : Unknown
  input : Unknown

/-- The message of a `run-end` chunk; an empty text is no block. -/
structure AssembledMessage where
  text : String
  toolUses : List ToolUse

/-- A chunk of the adapter. -/
inductive Chunk where
  | runStart (model : String)
  | sessionInit (providerSessionId : Option String) (tools mcpServers : Option (List String))
  | textDelta (text : Json)
  | reasoningDelta (text : Json)
  | toolCallStart (id name : Unknown)
  | toolCallEnd (id input : Unknown)
  | toolResult (toolCallId : Json) (content : List ContentBlock) (isError : Unknown)
  | fileEdit (path : Json) (diff : String) (status : FileEditStatus)
  | usage (usage : PartialUsage)
  | runEnd (message : AssembledMessage) (usage : Option PartialUsage)
      (providerSessionId : Option String)
  | error (error : AdapterError) (retryable : Bool)

namespace Chunk

/-- Is the chunk a `run-start`? -/
def isRunStart : Chunk → Bool
  | runStart _ => true
  | _ => false

/-- A `run-end` or an `error`. -/
def isTerminal : Chunk → Bool
  | runEnd .. => true
  | error .. => true
  | _ => false

end Chunk

/-- `state.terminal`. -/
structure Terminal where
  ok : Bool
  subtype : Unknown := none

/-- `StreamState`. -/
structure StreamState where
  sessionId : String := ""
  emittedContent : Bool := false
  textBuffer : String := ""
  finalText : Option String := none
  toolUses : List ToolUse := []
  finalUsage : Option PartialUsage := none
  terminal : Option Terminal := none

/-- `spec.handleEvent`: the state after an event and the chunks it pushes, or what it throws. -/
abbrev Handler := Json → StreamState → Except TypeError (StreamState × List Chunk)

/-- What a stream gave: the chunks it yielded, and what it threw. -/
structure Outcome where
  chunks : List Chunk
  thrown : Option TypeError := none

/-- How the process ended. -/
structure Exit where
  exitCode : Option Int
  error : Option String := none

/-- What the adapter meets in one call: when the signal was aborted, what preparing and starting
    the program threw, and what the program wrote. -/
structure Process where
  model : String
  abortedAtStart : Bool := false
  prepareError : Option String := none
  spawnError : Option String := none
  stdout : Option (List String)
  stderr : String := ""
  exit : Exit
  abortedAtExit : Bool := false

/-- The configuration the base reads, and the redaction of diagnostics. -/
structure Base where
  providerId : String
  maxOutputLineChars : Option Nat := none
  redactDiagnostic : String → String
  translateFailure : String → Option String := fun _ => none

section Base

variable (base : Base) (handle : Handler)

/-- `state.finalUsage = { ...state.finalUsage, ...usage }`. -/
def mergeUsage (old : Option PartialUsage) (new : PartialUsage) : PartialUsage :=
  new.foldl (fun acc f => Json.setField f.1 f.2 acc) (old.getD [])

/-- What the base records of a chunk before it yields it. -/
def absorb (state : StreamState) : Chunk → Except TypeError StreamState
  | .textDelta text => (Json.toText text).map fun t =>
      { state with emittedContent := true, textBuffer := state.textBuffer ++ t }
  | .reasoningDelta _ => .ok { state with emittedContent := true }
  | .fileEdit .. => .ok { state with emittedContent := true }
  | .usage usage => .ok { state with finalUsage := some (mergeUsage state.finalUsage usage) }
  | _ => .ok state

/-- The loop over the pending chunks: what was yielded, and the state or what was thrown. -/
def yieldAll (state : StreamState) : List Chunk → List Chunk × Except TypeError StreamState
  | [] => ([], .ok state)
  | c :: rest =>
    match absorb state c with
    | .error e => ([], .error e)
    | .ok state' => (c :: (yieldAll state' rest).1, (yieldAll state' rest).2)

/-- `truncate(s, 500)`. -/
def truncate (s : String) : String :=
  if 500 < JsString.length16 s then JsString.sliceTo 500 s ++ "…" else s

/-- What a line of the output is to the loop. -/
inductive Line where
  | blank
  | malformed (diagnostic : String)
  | event (ev : Json)

/-- The reading of one line. -/
def readLine (line : String) : Line :=
  let limit := base.maxOutputLineChars.getD 1000000
  if JsString.isBlank line then .blank
  else if limit < JsString.length16 line then
    .malformed ("stdout NDJSON record exceeded the " ++ toString limit ++
      "-character compatibility limit")
  else match Json.parse line with
    | some ev => .event ev
    | none => .malformed (base.redactDiagnostic (truncate line))

/-- The first malformed line is kept. -/
def keepFirst (first new : String) : String := if first = "" then new else first

/-- The loop over the lines, with the first malformed one. -/
def readLines (state : StreamState) (firstMalformed : String) :
    List String → List Chunk × Except TypeError (StreamState × String)
  | [] => ([], .ok (state, firstMalformed))
  | line :: rest =>
    match readLine base line with
    | .blank => readLines state firstMalformed rest
    | .malformed diagnostic => readLines state (keepFirst firstMalformed diagnostic) rest
    | .event ev =>
      match handle ev state with
      | .error e => ([], .error e)
      | .ok (state', pending) =>
        match yieldAll state' pending with
        | (yielded, .error e) => (yielded, .error e)
        | (yielded, .ok state'') =>
          let (later, result) := readLines state'' firstMalformed rest
          (yielded ++ later, result)

/-- `collectDiagnostic(stderr)`. -/
def collectDiagnostic (stderr : String) : String :=
  base.redactDiagnostic (JsString.trim (JsString.sliceTo 16384 stderr))

/-- `new AdapterError(code, message, { providerId })`. -/
def adapterError (code : AdapterErrorCode) (message : String) : AdapterError :=
  ⟨code, message, { providerId := some base.providerId }⟩

/-- An error chunk that is as retryable as its error. -/
def launchFailure (code : AdapterErrorCode) (message : String) : Chunk :=
  .error (adapterError base code message) (adapterError base code message).retryable

/-- An error chunk of a program that ran. -/
def runFailure (code : AdapterErrorCode) (message : String) : Chunk :=
  .error (adapterError base code message) false

/-- `cliFailureCode(detail, fallback)`. -/
def cliFailureCode (detail : String) (fallback : AdapterErrorCode) : AdapterErrorCode :=
  if looksLikeQuotaExhaustion detail "" then .quotaExhausted else fallback

/-- `translatedDetail(detail)`. -/
def translatedDetail (detail : String) : String := (base.translateFailure detail).getD detail

/-- `a || b` on texts. -/
def firstText (a b : String) : String := if a = "" then b else a

/-- `endChunk(state, usage)`. -/
def endChunk (state : StreamState) : Chunk :=
  .runEnd ⟨state.finalText.getD state.textBuffer, state.toolUses⟩
    (state.finalUsage.map fun u =>
      mergeUsage (some [("inputTokens", .num 0), ("outputTokens", .num 0)]) u)
    (if state.sessionId = "" then none else some state.sessionId)

/-- `redactDiagnostic(subtype || stderr || firstMalformedLine || "cli error")`: only a text has the
    method `replace`. -/
def failureDetail (subtype : Unknown) (stderr firstMalformed : String) :
    Except TypeError String :=
  match subtype with
  | some (.str s) => .ok (base.redactDiagnostic
      (firstText (firstText (firstText s stderr) firstMalformed) "cli error"))
  | some v =>
    if v.truthy then .error .notAFunction
    else .ok (base.redactDiagnostic (firstText (firstText stderr firstMalformed) "cli error"))
  | none => .ok (base.redactDiagnostic (firstText (firstText stderr firstMalformed) "cli error"))

/-- The last chunk, by the completion rules. -/
def finish (p : Process) (state : StreamState) (firstMalformed : String) :
    Except TypeError Chunk :=
  let stderr := collectDiagnostic base p.stderr
  let diagnostic := firstText stderr firstMalformed
  if p.exit.error.isSome ∧ p.abortedAtExit = false then
    .ok (launchFailure base .transport ("spawn failed: " ++ p.exit.error.getD ""))
  else match state.terminal with
  | some terminal =>
    if terminal.ok = false then
      (failureDetail base terminal.subtype stderr firstMalformed).map fun detail =>
        runFailure base (cliFailureCode detail .cliExit) (translatedDetail base detail)
    else if state.emittedContent = false then
      if diagnostic ≠ "" ∧ looksLikeQuotaExhaustion diagnostic "" then
        .ok (runFailure base .quotaExhausted diagnostic)
      else .ok (runFailure base .emptyOutput "completed with no content")
    else .ok (endChunk state)
  | none =>
    let fallback (code : AdapterErrorCode) : AdapterErrorCode :=
      if firstMalformed ≠ "" ∧ stderr = "" then .parse else code
    if p.abortedAtExit then .ok (runFailure base .cancelled "aborted")
    else if p.exit.exitCode ≠ some 0 then
      let detail := firstText diagnostic ("exit " ++ match p.exit.exitCode with
        | some code => toString code
        | none => "null")
      .ok (runFailure base (cliFailureCode detail (fallback .cliExit))
        (translatedDetail base detail))
    else if state.emittedContent = false then
      if diagnostic ≠ "" then
        .ok (runFailure base (cliFailureCode diagnostic (fallback .emptyOutput))
          (translatedDetail base diagnostic))
      else .ok (runFailure base .emptyOutput "exited cleanly with no content")
    else .ok (endChunk state)

/-- `stream(req, ctx)`. -/
def stream (p : Process) : Outcome :=
  let start := Chunk.runStart p.model
  if p.abortedAtStart then ⟨[start, launchFailure base .cancelled "aborted"], none⟩
  else match p.prepareError with
  | some message =>
    ⟨[start, launchFailure base .transport ("failed to prepare launch: " ++ message)], none⟩
  | none =>
    match p.spawnError with
    | some message => ⟨[start, launchFailure base .transport ("spawn failed: " ++ message)], none⟩
    | none =>
      match readLines base handle {} "" (p.stdout.getD []) with
      | (yielded, .error e) => ⟨start :: yielded, some e⟩
      | (yielded, .ok (state, firstMalformed)) =>
        match finish base p state firstMalformed with
        | .error e => ⟨start :: yielded, some e⟩
        | .ok last => ⟨start :: yielded ++ [last], none⟩

end Base

/-! ## What a stream must be -/

/-- A `run-start` first, exactly one terminal chunk, which is the last, and nothing thrown. -/
structure Proper (o : Outcome) : Prop where
  nothingThrown : o.thrown = none
  shape : ∃ start body last, o.chunks = start :: (body ++ [last]) ∧ start.isRunStart = true ∧
    (∀ c ∈ start :: body, c.isTerminal = false) ∧ last.isTerminal = true

variable {base : Base} {handle : Handler}

/-- A handler that leaves the terminal chunk to the base. -/
def LeavesEnd (handle : Handler) : Prop :=
  ∀ ev state state' pending, handle ev state = .ok (state', pending) →
    ∀ c ∈ pending, c.isTerminal = false

theorem yieldAll_subset : ∀ (state : StreamState) (pending : List Chunk),
    ∀ c ∈ (yieldAll state pending).1, c ∈ pending
  | _, [], _, h => nomatch h
  | state, c :: rest, d, h => by
    rw [yieldAll] at h
    cases habsorb : absorb state c with
    | error e =>
      rw [habsorb] at h
      nomatch h
    | ok state' =>
      rw [habsorb] at h
      rcases mem_cons.mp h with rfl | h
      · exact mem_cons_self
      · exact mem_cons_of_mem _ (yieldAll_subset state' rest d h)

theorem readLines_not_terminal (hleaves : LeavesEnd handle) : ∀ (lines : List String)
    (state : StreamState) (first : String), ∀ c ∈ (readLines base handle state first lines).1,
      c.isTerminal = false
  | [], _, _, _, h => nomatch h
  | line :: rest, state, first, c, h => by
    rw [readLines] at h
    cases hline : readLine base line with
    | blank =>
      rw [hline] at h
      exact readLines_not_terminal hleaves rest state first c h
    | malformed diagnostic =>
      rw [hline] at h
      exact readLines_not_terminal hleaves rest state _ c h
    | event ev =>
      rw [hline] at h
      dsimp only at h
      cases hhandle : handle ev state with
      | error e =>
        rw [hhandle] at h
        nomatch h
      | ok r =>
        obtain ⟨state', pending⟩ := r
        rw [hhandle] at h
        dsimp only at h
        have hpending : ∀ d ∈ (yieldAll state' pending).1, d.isTerminal = false := fun d hd =>
          hleaves ev state state' pending hhandle d (yieldAll_subset state' pending d hd)
        cases hyield : yieldAll state' pending with
        | mk yielded result =>
          rw [hyield] at h hpending
          cases result with
          | error e => exact hpending c h
          | ok state'' =>
            rcases mem_append.mp h with h | h
            · exact hpending c h
            · exact readLines_not_terminal hleaves rest state'' first c h

theorem finish_terminal {p : Process} {state : StreamState} {first : String} {last : Chunk}
    (h : finish base p state first = .ok last) : last.isTerminal = true := by
  unfold finish at h
  dsimp only at h
  split at h
  · obtain rfl := Except.ok.inj h
    rfl
  · split at h
    · rename_i terminal _
      split at h
      · cases hdetail : failureDetail base terminal.subtype (collectDiagnostic base p.stderr) first
          with
        | error e =>
          rw [hdetail] at h
          nomatch h
        | ok detail =>
          rw [hdetail] at h
          obtain rfl := Except.ok.inj h
          rfl
      · split_ifs at h <;> (obtain rfl := Except.ok.inj h) <;> rfl
    · split_ifs at h <;> (obtain rfl := Except.ok.inj h) <;> rfl

/-- The stream as a whole is proper exactly if nothing is thrown in it. -/
theorem proper_iff_not_thrown (hleaves : LeavesEnd handle) (p : Process) :
    Proper (stream base handle p) ↔ (stream base handle p).thrown = none := by
  refine ⟨Proper.nothingThrown, fun hnone => ⟨hnone, ?_⟩⟩
  unfold stream at hnone ⊢
  dsimp only at hnone ⊢
  have hstart : ∀ c ∈ [Chunk.runStart p.model], c.isTerminal = false := fun c hc => by
    rw [mem_singleton.mp hc]
    rfl
  by_cases haborted : p.abortedAtStart = true
  · rw [if_pos haborted]
    exact ⟨_, [], _, rfl, rfl, hstart, rfl⟩
  · rw [if_neg haborted] at hnone ⊢
    cases hprepare : p.prepareError with
    | some message => exact ⟨_, [], _, rfl, rfl, hstart, rfl⟩
    | none =>
      cases hspawn : p.spawnError with
      | some message => exact ⟨_, [], _, rfl, rfl, hstart, rfl⟩
      | none =>
        rw [hprepare, hspawn] at hnone
        dsimp only at hnone ⊢
        have hlines := @readLines_not_terminal base handle hleaves (p.stdout.getD []) {} ""
        cases hread : readLines base handle {} "" (p.stdout.getD []) with
        | mk yielded result =>
          rw [hread] at hnone hlines
          cases result with
          | error e => nomatch hnone
          | ok r =>
            obtain ⟨state, first⟩ := r
            dsimp only at hnone ⊢
            cases hfinish : finish base p state first with
            | error e =>
              rw [hfinish] at hnone
              nomatch hnone
            | ok last =>
              refine ⟨_, yielded, last, rfl, rfl, fun c hc => ?_, finish_terminal hfinish⟩
              rcases mem_cons.mp hc with rfl | hc
              · rfl
              · exact hlines c hc

end NexusCode.Providers
