/-
  The daemon's run registry and its cap on running runs.

  `start` checks the cap, waits for its session, and registers the run afterwards; in between other
  calls may pass the same check.

    1. `dispatch`            — what a request body must be like.
    2. `Manager.step`        — the calls of `start`, their sessions, and how runs end.
    3. `occupied_step`       — running runs and admitted starts, over one step.
    4. **`run_cap_holds`**   — with room for the starts that wait, the cap holds.
-/
import NexusCode.Lib.JsMap
import NexusCode.Lib.JsValue
import NexusCode.Lib.Machine
import NexusCode.Shared.Stream

namespace NexusCode.Server

open Lib Shared

/-! ## Requests -/

/-- `RunKind`. -/
inductive RunKind where
  | single
  | compare
  | race
  | consensus
  | chain
  | agent
deriving DecidableEq

/-- The parts of a `RunRequest` that decide whether a run is started. -/
structure RunRequest where
  kind : Unknown := none
  prompt : Unknown := none
  goal : Unknown := none
  providers : Unknown := none
  stages : Unknown := none
  session : Option String := none

/-- How `start` rejects. -/
inductive StartError where
  | tooManyRuns (message : String)
  | badRequest (message : String)
  | failed (message : String)

/-- `str(value, field)`. -/
def str (value : Unknown) (field : String) : Except StartError String :=
  match value with
  | some (.str s) =>
    if s = "" then .error (.badRequest ("\"" ++ field ++ "\" must be a non-empty string"))
    else .ok s
  | _ => .error (.badRequest ("\"" ++ field ++ "\" must be a non-empty string"))

/-- A provider id or `{ provider, model }`. -/
def isBackend : Json → Bool
  | .str s => s ≠ ""
  | v =>
    match v.get? "provider" with
    | some (.str _) => true
    | _ => false

/-- `backends(value)`. -/
def backends (value : Unknown) : Except StartError (List Json) :=
  match value with
  | some (.arr (b :: rest)) =>
    if (b :: rest).all isBackend then .ok (b :: rest)
    else .error (.badRequest
      "each \"providers\" entry must be a provider id or \x7b provider, model \x7d")
  | _ => .error (.badRequest "\"providers\" must be a non-empty array")

/-- `new BadRequestError(...)` for a kind that does not exist. -/
def unknownKind (kind : Json) : StartError :=
  match kind.toText with
  | .ok text => .badRequest ("unknown run kind \"" ++ text ++ "\"")
  | .error _ => .failed "Cannot convert object to primitive value"

/-- A prompt and the backends it goes to. -/
def lanes (kind : RunKind) (body : RunRequest) : Except StartError RunKind := do
  let _ ← str body.prompt "prompt"
  let _ ← backends body.providers
  return kind

/-- The `switch` over the kind, up to the call of the facade. -/
def dispatch (body : RunRequest) : Except StartError RunKind :=
  match Json.withDefault body.kind (.str "single") with
  | .str "single" => do
    let _ ← str body.prompt "prompt"
    return .single
  | .str "compare" => lanes .compare body
  | .str "race" => lanes .race body
  | .str "consensus" => lanes .consensus body
  | .str "chain" =>
    match body.stages with
    | some (.arr (_ :: _)) => .ok .chain
    | _ => .error (.badRequest "\"stages\" must be a non-empty array for a chain run")
  | .str "agent" => do
    let _ ← str body.goal "goal"
    return .agent
  | kind => .error (unknownKind kind)

/-! ## Records -/

/-- `RunState`. -/
inductive RunState where
  | running
  | done
  | error
deriving DecidableEq

/-- `RunRecord`. -/
structure RunRecord where
  kind : RunKind
  sessionId : String
  state : RunState
  errorCode : Option String := none
  error : Option String := none

/-- A result of an outcome: whether its status is `ok`, and the code and message of its error. -/
structure LaneResult where
  ok : Bool
  error : Option (String × String)

/-- How `run.outcome()` settles. -/
inductive Outcome where
  | resolved (runs : List LaneResult)
  | rejected (message : String)

/-- What the settled outcome makes of the record. -/
def RunRecord.settle (rec : RunRecord) : Outcome → RunRecord
  | .resolved runs =>
    if rec.state ≠ .running then rec
    else if runs.any (·.ok) then { rec with state := .done }
    else
      let failed := runs.findSome? (·.error)
      { rec with
        state := .error
        errorCode := some ((failed.map Prod.fst).getD "unknown")
        error := some ((failed.map Prod.snd).getD
          "run completed without a successful provider result") }
  | .rejected message => { rec with state := .error, error := some message }

/-- The record of a run that is counted against the cap. -/
def RunRecord.isRunning (rec : RunRecord) : Bool := rec.state = .running

theorem RunRecord.settle_isRunning (rec : RunRecord) (outcome : Outcome) :
    (rec.settle outcome).isRunning = false := by
  cases outcome with
  | rejected message => rfl
  | resolved runs =>
    unfold RunRecord.settle
    dsimp only
    split
    · rename_i hnot
      exact decide_eq_false hnot
    · split <;> rfl

/-! ## The manager -/

/-- `RunManager`, with the calls of `start` that wait for their session. -/
structure Manager where
  defaultSession : String
  maxConcurrentRuns : Nat
  runs : JsMap String RunRecord := .empty
  sessions : JsMap String (List String)
  starts : JsMap Nat RunRequest := .empty

/-- What happens to the manager. -/
inductive Event where
  /-- `start(body)` is called. -/
  | start (call : Nat) (body : RunRequest)
  /-- The session of a call is found, or its lookup fails; then the facade starts a run, or throws. -/
  | opened (call : Nat) (session : Except String String) (run : Except String String)
  /-- The outcome of a run settles. -/
  | settled (run : String) (outcome : Outcome)
  /-- The time of a run is over: it is cancelled, and its outcome will settle. -/
  | timeout (run : String)

/-- What a step answers. -/
inductive Answer where
  | nothing
  | refused (e : StartError)
  | started (run : String) (rec : RunRecord)

namespace Manager

/-- `new RunManager(nexus, ...)`. -/
def create (defaultSession : String) (maxConcurrentRuns : Nat) : Manager :=
  { defaultSession, maxConcurrentRuns, sessions := JsMap.empty.set defaultSession [] }

/-- `activeRunCount()`. -/
def activeRunCount (m : Manager) : Nat := m.runs.count (·.isRunning)

/-- `ensureSession(id)`. -/
def ensureSession (m : Manager) (id : String) : Manager :=
  match m.sessions.get? id with
  | some _ => m
  | none => { m with sessions := m.sessions.set id [] }

/-- `resolveSession(selector)`, given what opening or resuming a session comes to. -/
def resolveSession (m : Manager) (selector : Option String) (session : Except String String) :
    Except String (String × Manager) :=
  if selector = none ∨ selector = some "" ∨ selector = some m.defaultSession then
    .ok (m.defaultSession, m)
  else session.map fun id => (id, m.ensureSession id)

/-- The record of a new run. -/
def register (m : Manager) (id : String) (kind : RunKind) (sessionId : String) : Manager :=
  let m := { m with runs := m.runs.set id { kind, sessionId, state := .running } }
  let m := m.ensureSession sessionId
  { m with sessions := m.sessions.set sessionId (((m.sessions.get? sessionId).getD []) ++ [id]) }

/-- The rest of `start` once the session is found. -/
def resume (m : Manager) (body : RunRequest) (session run : Except String String) :
    Answer × Manager :=
  match m.resolveSession body.session session with
  | .error message => (.refused (.failed message), m)
  | .ok (sessionId, m) =>
    match dispatch body with
    | .error e => (.refused e, m)
    | .ok kind =>
      match run with
      | .error message => (.refused (.failed message), m)
      | .ok id => (.started id { kind, sessionId, state := .running }, m.register id kind sessionId)

/-- One step. -/
def step (m : Manager) : Event → Answer × Manager
  | .start call body =>
    if m.activeRunCount ≥ m.maxConcurrentRuns then
      (.refused (.tooManyRuns ("too many concurrent runs (limit " ++
        toString m.maxConcurrentRuns ++ "); retry once one completes")), m)
    else (.nothing, { m with starts := m.starts.set call body })
  | .opened call session run =>
    match m.starts.get? call with
    | none => (.nothing, m)
    | some body => { m with starts := m.starts.delete call }.resume body session run
  | .settled run outcome =>
    match m.runs.get? run with
    | none => (.nothing, m)
    | some rec => (.nothing, { m with runs := m.runs.set run (rec.settle outcome) })
  | .timeout _ => (.nothing, m)

end Manager

/-- The manager as a machine. -/
def machine : Machine Manager Event Answer := ⟨Manager.step⟩

/-! ## The cap -/

/-- The body passes the checks of `dispatch`. -/
def wellFormed (body : RunRequest) : Bool := (dispatch body).toBool

namespace Manager

/-- The starts that have passed the check of the cap and may still register a run. -/
def admitted (m : Manager) : Nat := m.starts.count wellFormed

/-- Running runs, and starts that may add to them. -/
def occupied (m : Manager) : Nat := m.activeRunCount + m.admitted

/-- There is room for one more run beside those that are running and those that are being
    started. -/
def HasRoom (m : Manager) : Event → Prop
  | .start _ body => m.activeRunCount < m.maxConcurrentRuns → wellFormed body = true →
      m.occupied < m.maxConcurrentRuns
  | _ => True

instance : ∀ (m : Manager) (event : Event), Decidable (m.HasRoom event)
  | m, .start _ body => inferInstanceAs (Decidable (m.activeRunCount < m.maxConcurrentRuns →
      wellFormed body = true → m.occupied < m.maxConcurrentRuns))
  | _, .opened .. => inferInstanceAs (Decidable True)
  | _, .settled .. => inferInstanceAs (Decidable True)
  | _, .timeout _ => inferInstanceAs (Decidable True)

variable {m : Manager}

@[simp] theorem ensureSession_runs (id : String) : (m.ensureSession id).runs = m.runs := by
  unfold ensureSession
  split <;> rfl

@[simp] theorem ensureSession_starts (id : String) : (m.ensureSession id).starts = m.starts := by
  unfold ensureSession
  split <;> rfl

@[simp] theorem ensureSession_max (id : String) :
    (m.ensureSession id).maxConcurrentRuns = m.maxConcurrentRuns := by
  unfold ensureSession
  split <;> rfl

theorem resolveSession_spec {selector : Option String} {session : Except String String}
    {sessionId : String} {m' : Manager}
    (h : m.resolveSession selector session = .ok (sessionId, m')) :
    m'.runs = m.runs ∧ m'.starts = m.starts ∧ m'.maxConcurrentRuns = m.maxConcurrentRuns := by
  unfold resolveSession at h
  split at h
  · obtain ⟨-, rfl⟩ := Prod.mk.inj (Except.ok.inj h)
    exact ⟨rfl, rfl, rfl⟩
  · cases session with
    | error message => nomatch h
    | ok id =>
      obtain ⟨-, rfl⟩ := Prod.mk.inj (Except.ok.inj h)
      exact ⟨ensureSession_runs id, ensureSession_starts id, ensureSession_max id⟩

/-- Registering a run adds one to those that are running, at most. -/
theorem register_spec (id : String) (kind : RunKind) (sessionId : String) :
    (m.register id kind sessionId).activeRunCount ≤ m.activeRunCount + 1 ∧
      (m.register id kind sessionId).starts = m.starts ∧
      (m.register id kind sessionId).maxConcurrentRuns = m.maxConcurrentRuns := by
  unfold register activeRunCount
  dsimp only
  rw [ensureSession_runs, ensureSession_starts, ensureSession_max]
  refine ⟨?_, rfl, rfl⟩
  have hcount := m.runs.count_set (·.isRunning) id { kind, sessionId, state := .running }
  rw [show RunRecord.isRunning { kind, sessionId, state := .running } = true from rfl,
    if_pos rfl] at hcount
  show (m.runs.set id _).count _ ≤ m.runs.count _ + 1
  omega

/-- The rest of `start` adds a run only for a body that is well formed. -/
theorem resume_spec (body : RunRequest) (session run : Except String String) :
    (m.resume body session run).2.activeRunCount ≤
        m.activeRunCount + (if wellFormed body then 1 else 0) ∧
      (m.resume body session run).2.starts = m.starts ∧
      (m.resume body session run).2.maxConcurrentRuns = m.maxConcurrentRuns := by
  unfold resume
  split
  · exact ⟨Nat.le_add_right _ _, rfl, rfl⟩
  · rename_i sessionId m' hresolve
    obtain ⟨hruns, hstarts, hmax⟩ := resolveSession_spec hresolve
    have hactive : m'.activeRunCount = m.activeRunCount := by rw [activeRunCount, hruns]; rfl
    split
    · exact ⟨by rw [hactive]; exact Nat.le_add_right _ _, hstarts, hmax⟩
    · rename_i kind hdispatch
      have hwell : wellFormed body = true := by
        unfold wellFormed
        rw [hdispatch]
        rfl
      rw [if_pos hwell]
      split
      · exact ⟨by rw [hactive]; exact Nat.le_add_right _ _, hstarts, hmax⟩
      · rename_i id
        obtain ⟨hle, hstarts', hmax'⟩ := register_spec (m := m') id kind sessionId
        exact ⟨by rw [← hactive]; exact hle, hstarts'.trans hstarts, hmax'.trans hmax⟩

theorem step_max (m : Manager) (event : Event) :
    (m.step event).2.maxConcurrentRuns = m.maxConcurrentRuns := by
  cases event with
  | start call body =>
    unfold step
    dsimp only
    split <;> rfl
  | opened call session run =>
    unfold step
    dsimp only
    split
    · rfl
    · rename_i body _
      exact (resume_spec (m := { m with starts := m.starts.delete call }) body session run).2.2
  | settled run outcome =>
    unfold step
    dsimp only
    split <;> rfl
  | timeout run => rfl

/-- **One step** with room keeps running and admitted runs within the cap. -/
theorem occupied_step (event : Event) (hocc : m.occupied ≤ m.maxConcurrentRuns)
    (hroom : m.HasRoom event) : (m.step event).2.occupied ≤ (m.step event).2.maxConcurrentRuns := by
  cases event with
  | start call body =>
    unfold step
    dsimp only
    split
    · exact hocc
    · rename_i hnot
      have hcount := m.starts.count_set wellFormed call body
      show m.activeRunCount + (m.starts.set call body).count wellFormed ≤ m.maxConcurrentRuns
      cases hwell : wellFormed body with
      | false =>
        rw [hwell, if_neg Bool.false_ne_true] at hcount
        unfold occupied admitted at hocc
        omega
      | true =>
        rw [hwell, if_pos rfl] at hcount
        have := hroom (by omega) hwell
        unfold occupied admitted at this
        omega
  | opened call session run =>
    unfold step
    dsimp only
    split
    · exact hocc
    · rename_i body hcall
      have hcount := m.starts.count_delete wellFormed call
      rw [hcall] at hcount
      obtain ⟨hactive, hstarts, hmax⟩ :=
        resume_spec (m := { m with starts := m.starts.delete call }) body session run
      unfold occupied admitted at hocc ⊢
      dsimp only at hactive hstarts hmax ⊢
      rw [hstarts, hmax]
      have hsame : activeRunCount { m with starts := m.starts.delete call } = m.activeRunCount := rfl
      cases hwell : wellFormed body with
      | false =>
        rw [hwell, if_neg Bool.false_ne_true] at hactive
        omega
      | true =>
        rw [Option.filter_some_pos hwell] at hcount
        rw [hwell, if_pos rfl] at hactive
        have hone : (some body).toList.length = 1 := rfl
        omega
  | settled run outcome =>
    unfold step
    dsimp only
    split
    · exact hocc
    · rename_i rec _
      have hcount := m.runs.count_set (·.isRunning) run (rec.settle outcome)
      rw [rec.settle_isRunning outcome, if_neg Bool.false_ne_true] at hcount
      show (m.runs.set run (rec.settle outcome)).count (·.isRunning) + m.admitted ≤
        m.maxConcurrentRuns
      unfold occupied activeRunCount at hocc
      omega
  | timeout run => exact hocc

end Manager

/-- **The run cap holds** in every run in which each start that is admitted still finds room when
    the starts that wait for their session are counted. -/
theorem run_cap_holds (defaultSession : String) (limit : Nat) (events : List Event)
    (h : machine.Always Manager.HasRoom (.create defaultSession limit) events) :
    ∀ pre, pre <+: events →
      (machine.run (.create defaultSession limit) pre).activeRunCount ≤ limit := by
  rintro pre ⟨rest, rfl⟩
  have hpre := (Machine.always_append machine).mp h
  have hkept := hpre.1.invariant
    (I := fun m => m.maxConcurrentRuns = limit ∧ m.occupied ≤ m.maxConcurrentRuns)
    (fun m event hm hroom => ⟨(m.step_max event).trans hm.1, Manager.occupied_step event hm.2 hroom⟩)
    ⟨rfl, Nat.zero_le _⟩
  exact (Nat.le_add_right _ _).trans (hkept.2.trans hkept.1.le)

/-- Two starts one after the other under a cap of two, with their sessions found in the order of the
    calls. -/
def twoStarts : List Event :=
  [.start 0 { prompt := some (.str "first") }, .opened 0 (.error "") (.ok "run-1"),
    .start 1 { prompt := some (.str "second"), session := some "new" },
    .opened 1 (.ok "session-2") (.ok "run-2"), .settled "run-1" (.resolved [⟨true, none⟩])]

theorem twoStarts_within_cap :
    (machine.run (.create "session-1" 2) twoStarts).activeRunCount ≤ 2 :=
  run_cap_holds "session-1" 2 twoStarts (by decide +kernel) twoStarts List.prefix_rfl

/-- Two starts that pass the check before either has registered its run exceed a cap of one. -/
theorem cap_exceeded : ¬ ∀ (defaultSession : String) (limit : Nat) (events : List Event),
    (machine.run (.create defaultSession limit) events).activeRunCount ≤ limit := by
  intro h
  have hover := h "session-1" 1
    [.start 0 { prompt := some (.str "first") }, .start 1 { prompt := some (.str "second") },
      .opened 0 (.error "") (.ok "run-1"), .opened 1 (.error "") (.ok "run-2")]
  revert hover
  decide +kernel

end NexusCode.Server
