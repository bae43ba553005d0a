/-
  The veto of the command hooks in front of a tool.

    1. `course`, `emit_eq`    — the course the hooks of a call take.
    2. `inScope`              — the hooks a call is the business of: no matcher, or one that matches
                                the name, where `*` is any text and any other character itself.
    3. `VetoKept`             — what a tool that is run should have behind it.
    4. **`veto_kept_iff`**    — it has, if no hook in scope is passed over, because an earlier answer
                                has renamed the tool or its pattern means something else, and no
                                other hook has had the last word on the input.
    5. **`renamed_away`**     — one answer that renames the tool switches the next hook off.
-/
import NexusCode.Hooks.CommandHooks

namespace NexusCode.Hooks

open Lib Shared Access List Option

/-! ## The course of the hooks -/

/-- A hook let the call pass: its command ended well, in time, and did not block. -/
def passes : ProcessOutcome → Bool
  | .fails _ => false
  | .closes result =>
    !result.timedOut && result.exitCode = some 0 && !(resultToVerdict result).block

/-- The properties an answer modifies. -/
def modified : ProcessOutcome → List (String × Json)
  | .fails _ => []
  | .closes result => ((resultToVerdict result).modify.map spread).getD []

section

variable (redactArgs : Payload → Payload)

/-- What comes of the command of a hook that is given the payload. -/
def Entry.outcome (entry : Entry) (payload : Payload) : ProcessOutcome :=
  entry.hook.command { event := .preTool, payload := redactArgs payload }

/-- The hooks whose commands are run, with what comes of them. -/
def course : Payload → List Entry → List (CommandHookConfig × ProcessOutcome)
  | _, [] => []
  | payload, entry :: entries =>
    if entry.admits payload then
      (entry.hook, entry.outcome redactArgs payload) ::
        course (payload.merge (modified (entry.outcome redactArgs payload))) entries
    else course payload entries

/-- The payload after a course. -/
def payloadAfter (payload : Payload) (ran : List (CommandHookConfig × ProcessOutcome)) : Payload :=
  ran.foldl (fun payload e => payload.merge (modified e.2)) payload

variable {redactArgs}

theorem course_admitted {entry : Entry} {payload : Payload} (h : entry.admits payload = true)
    (entries : List Entry) : course redactArgs payload (entry :: entries) =
      (entry.hook, entry.outcome redactArgs payload) ::
        course redactArgs (payload.merge (modified (entry.outcome redactArgs payload))) entries :=
  if_pos h

theorem course_passed_over {entry : Entry} {payload : Payload} (h : ¬ entry.admits payload = true)
    (entries : List Entry) : course redactArgs payload (entry :: entries)
      = course redactArgs payload entries :=
  if_neg h

/-- A command that did not end well and in time blocks, and modifies nothing. -/
theorem blocks_of_not_ok {result : CommandHookResult}
    (h : (!result.timedOut && result.exitCode = some 0) = false) :
    (resultToVerdict result).block = true ∧ (resultToVerdict result).modify = none := by
  unfold resultToVerdict
  split
  · exact ⟨rfl, rfl⟩
  · rename_i htimed
    split
    · exact ⟨rfl, rfl⟩
    · rename_i hcode
      rw [Bool.eq_false_iff.mpr htimed, decide_eq_true (not_not.mp hcode)] at h
      exact nomatch h

theorem not_passes_closes (result : CommandHookResult) :
    (!passes (.closes result)) = (resultToVerdict result).block := by
  unfold passes
  dsimp only
  cases hok : (!result.timedOut && result.exitCode = some 0) with
  | true => rw [Bool.true_and, Bool.not_not]
  | false => rw [(blocks_of_not_ok hok).1, Bool.false_and, Bool.not_false]

/-- **One verdict**: the payload, the log and the veto after it. -/
theorem take_eq (σ : Emission) (result : CommandHookResult) :
    (σ.take .preTool (resultToVerdict result)).current
        = σ.current.merge (modified (.closes result)) ∧
      (σ.take .preTool (resultToVerdict result)).executed = σ.executed ∧
      (σ.take .preTool (resultToVerdict result)).blocked
        = (σ.blocked || !passes (.closes result)) := by
  rw [not_passes_closes, show modified (.closes result)
    = ((resultToVerdict result).modify.map spread).getD [] from rfl]
  generalize resultToVerdict result = verdict
  obtain ⟨block, reason, approve, modify⟩ := verdict
  unfold Emission.take
  cases modify <;> cases block <;> rcases approve with _ | _ | _ <;>
    simp [HookEvent.isVetoable, Payload.merge]

/-- **One hook.** -/
theorem step_eq (redactArgs : Payload → Payload) (σ : Emission) (entry : Entry)
    (hclosed : entry.hook.failOpen = false) :
    let ran := if entry.admits σ.current then [(entry.hook, entry.outcome redactArgs σ.current)]
      else []
    (σ.step redactArgs .preTool entry).current = payloadAfter σ.current ran ∧
      (σ.step redactArgs .preTool entry).executed = σ.executed ++ ran ∧
      (σ.step redactArgs .preTool entry).blocked = (σ.blocked || ran.any fun e => !passes e.2) := by
  dsimp only
  unfold Emission.step
  split
  · dsimp only
    have houtcome : entry.hook.command { event := .preTool, payload := redactArgs σ.current }
        = entry.outcome redactArgs σ.current := rfl
    rw [houtcome]
    cases entry.outcome redactArgs σ.current with
    | fails message =>
      unfold Emission.fail
      simp [HookEvent.isVetoable, hclosed, payloadAfter, modified, Payload.merge, passes]
    | closes result =>
      obtain ⟨hcurrent, hexecuted, hblocked⟩ := take_eq
        { σ with executed := σ.executed ++ [(entry.hook, .closes result)] } result
      refine ⟨hcurrent, hexecuted, hblocked.trans ?_⟩
      rw [any_cons, any_nil, Bool.or_false]
  · exact ⟨rfl, (append_nil _).symm, (Bool.or_false _).symm⟩

/-- **The bus follows the course**: the payload it hands on, the hooks it asks, and the veto. -/
theorem emit_eq (redactArgs : Payload → Payload) (entries : List Entry)
    (hclosed : ∀ entry ∈ entries, entry.hook.failOpen = false) :
    ∀ σ : Emission,
      (entries.foldl (Emission.step redactArgs .preTool) σ).current
        = payloadAfter σ.current (course redactArgs σ.current entries) ∧
      (entries.foldl (Emission.step redactArgs .preTool) σ).executed
        = σ.executed ++ course redactArgs σ.current entries ∧
      (entries.foldl (Emission.step redactArgs .preTool) σ).blocked
        = (σ.blocked || (course redactArgs σ.current entries).any fun e => !passes e.2) := by
  induction entries with
  | nil => exact fun σ => ⟨rfl, (append_nil _).symm, (Bool.or_false _).symm⟩
  | cons entry entries ih =>
    intro σ
    obtain ⟨hcurrent, hexecuted, hblocked⟩ :=
      step_eq redactArgs σ entry (hclosed entry mem_cons_self)
    obtain ⟨hcurrent', hexecuted', hblocked'⟩ :=
      ih (fun e he => hclosed e (mem_cons_of_mem entry he))
        (σ.step redactArgs .preTool entry)
    rw [foldl_cons, hcurrent', hexecuted', hblocked', hcurrent, hexecuted, hblocked]
    by_cases hadmits : entry.admits σ.current = true
    · rw [if_pos hadmits, course_admitted hadmits]
      refine ⟨rfl, ?_, ?_⟩
      · rw [append_assoc]
        rfl
      · rw [Bool.or_assoc, ← any_append]
        rfl
    · rw [if_neg hadmits, course_passed_over hadmits]
      refine ⟨rfl, ?_, ?_⟩
      · rw [append_nil]
        rfl
      · rw [any_nil, Bool.or_false]
        rfl

end

/-! ## What the claim promises -/

/-- Does the pattern match the text, where `*` is any text and any other character itself? -/
def globMatches : List Nat → List Nat → Bool
  | [], s => s.isEmpty
  | 42 :: p, s => (List.range (s.length + 1)).any fun n => globMatches p (s.drop n)
  | u :: p, s => s.head? == some u && globMatches p s.tail

/-- A call of this name is the business of the hook. -/
def inScope (name : String) (hook : CommandHookConfig) : Bool :=
  match hook.matcher with
  | none => true
  | some pattern => globMatches (JsString.units pattern) (JsString.units name)

/-- What an answer makes of a property, if it modifies it. -/
def answered (k : String) (outcome : ProcessOutcome) : Unknown :=
  (Payload.merge [] (modified outcome)).get k

/-- An input, rewritten by each answer in turn. -/
def rewritten (input : Unknown) (ran : List (CommandHookConfig × ProcessOutcome)) : Unknown :=
  ran.foldl (fun input e => (answered "input" e.2).or input) input

/-- The hooks in scope among those that ran. -/
def concerned (name : String) (ran : List (CommandHookConfig × ProcessOutcome)) :
    List (CommandHookConfig × ProcessOutcome) :=
  ran.filter fun e => inScope name e.1

/-- **A kept veto**: each hook in scope was asked, once and in turn, and let the call pass, and the
    tool is run with the input as these hooks have rewritten it. -/
structure VetoKept (hooks : List CommandHookConfig) (call : PendingToolCall)
    (ran : List (CommandHookConfig × ProcessOutcome)) (ranWith : Unknown) : Prop where
  asked : (concerned call.name ran).map Prod.fst = hooks.filter (inScope call.name)
  passed : ∀ e ∈ concerned call.name ran, passes e.2 = true
  input : ranWith = rewritten call.input (concerned call.name ran)

/-! ## When a hook is passed over -/

section

variable {redactArgs : Payload → Payload}

/-- Each hook in scope is admitted at its turn, by the name the payload has then. -/
def NoneSkipped (redactArgs : Payload → Payload) (name : String) : Payload → List Entry → Prop
  | _, [] => True
  | payload, entry :: entries =>
    (inScope name entry.hook = true → entry.admits payload = true) ∧
      NoneSkipped redactArgs name
        (if entry.admits payload then
          payload.merge (modified (entry.outcome redactArgs payload)) else payload) entries

/-- The hooks that ran are some of those registered, in their order. -/
theorem course_sublist (redactArgs : Payload → Payload) (entries : List Entry) : ∀ payload :
    Payload, ((course redactArgs payload entries).map Prod.fst).Sublist (entries.map (·.hook)) := by
  induction entries with
  | nil => exact fun _ => List.Sublist.refl _
  | cons entry entries ih =>
    intro payload
    by_cases hadmits : entry.admits payload = true
    · rw [course_admitted hadmits]
      exact (ih _).cons_cons _
    · rw [course_passed_over hadmits]
      exact (ih _).cons _

theorem concerned_map (name : String) (ran : List (CommandHookConfig × ProcessOutcome)) :
    (concerned name ran).map Prod.fst = (ran.map Prod.fst).filter (inScope name) := by
  unfold concerned
  rw [List.filter_map]
  rfl

/-- **Each hook in scope is asked** iff none is skipped. -/
theorem asked_iff (redactArgs : Payload → Payload) (name : String) (entries : List Entry) : ∀
    payload : Payload, (concerned name (course redactArgs payload entries)).map Prod.fst
        = (entries.map (·.hook)).filter (inScope name) ↔
      NoneSkipped redactArgs name payload entries := by
  induction entries with
  | nil => exact fun _ => ⟨fun _ => trivial, fun _ => rfl⟩
  | cons entry entries ih =>
    intro payload
    rw [concerned_map]
    unfold NoneSkipped
    by_cases hadmits : entry.admits payload = true
    · rw [course_admitted hadmits, if_pos hadmits, ← ih, concerned_map, map_cons, map_cons]
      cases hscope : inScope name entry.hook with
      | true =>
        rw [filter_cons_of_pos hscope, filter_cons_of_pos hscope]
        exact ⟨fun h => ⟨fun _ => hadmits, (cons.inj h).2⟩, fun h => congrArg _ h.2⟩
      | false =>
        rw [filter_cons_of_neg (by rw [hscope]; decide),
          filter_cons_of_neg (by rw [hscope]; decide)]
        exact ⟨fun h => ⟨nofun, h⟩, fun h => h.2⟩
    · rw [course_passed_over hadmits, if_neg hadmits, ← ih, concerned_map, map_cons]
      cases hscope : inScope name entry.hook with
      | true =>
        rw [filter_cons_of_pos hscope]
        refine ⟨fun h => ?_, fun h => absurd (h.1 rfl) hadmits⟩
        -- one hook in scope is missing
        have hle := ((course_sublist redactArgs entries payload).filter
          (inScope name)).length_le
        rw [h, length_cons] at hle
        exact absurd hle (by omega)
      | false =>
        rw [filter_cons_of_neg (by rw [hscope]; decide)]
        exact ⟨fun h => ⟨nofun, h⟩, fun h => h.2⟩

/-! ## The input -/

theorem lookup_merge (k : String) (fields : List (String × Json)) : ∀ payload : Payload,
    JsMap.lookup k (payload.merge fields)
      = (JsMap.lookup k (Payload.merge [] fields)).or (JsMap.lookup k payload) := by
  induction fields using List.reverseRecOn with
  | nil => exact fun _ => rfl
  | append_singleton fields f ih =>
    intro payload
    unfold Payload.merge at *
    rw [foldl_append, foldl_append, foldl_cons, foldl_cons, foldl_nil,
      foldl_nil, JsMap.lookup_put, JsMap.lookup_put]
    split
    · rfl
    · exact ih payload

/-- An answer that modifies a property gives the payload a new one. -/
theorem get_merge (k : String) (payload : Payload) (outcome : ProcessOutcome) :
    (payload.merge (modified outcome)).get k = (answered k outcome).or (payload.get k) := by
  unfold answered Payload.get
  rw [lookup_merge]
  have hsome : ∀ fields : List (String × Json),
      JsMap.lookup k (Payload.merge [] fields) ≠ some none := by
    intro fields
    induction fields using List.reverseRecOn with
    | nil => rintro ⟨⟩
    | append_singleton fields f ih =>
      unfold Payload.merge at *
      rw [foldl_append, foldl_cons, foldl_nil, JsMap.lookup_put]
      split
      · rintro ⟨⟩
      · exact ih
  cases hlookup : JsMap.lookup k (Payload.merge [] (modified outcome)) with
  | none => rfl
  | some value =>
    cases value with
    | none => exact absurd hlookup (hsome _)
    | some value => rfl

theorem get_payloadAfter (ran : List (CommandHookConfig × ProcessOutcome)) :
    ∀ payload : Payload,
      (payloadAfter payload ran).get "input" = rewritten (payload.get "input") ran := by
  induction ran with
  | nil => exact fun _ => rfl
  | cons e ran ih =>
    intro payload
    unfold payloadAfter rewritten at *
    rw [foldl_cons, foldl_cons, ih, get_merge]

/-- What is rewritten keeps an input unless an answer replaces it. -/
theorem rewritten_or (input : Unknown) (ran : List (CommandHookConfig × ProcessOutcome)) :
    (rewritten input ran).or input = rewritten input ran := by
  have hsome : ∀ (ran : List (CommandHookConfig × ProcessOutcome)) (input : Unknown),
      input.isSome = true → (rewritten input ran).isSome = true := by
    intro ran
    induction ran with
    | nil => exact fun _ h => h
    | cons e ran ih =>
      intro input h
      refine ih _ ?_
      rw [isSome_or, h, Bool.or_true]
  cases hran : rewritten input ran with
  | some value => rfl
  | none =>
    cases input with
    | none => rfl
    | some value => exact absurd (hsome ran (some value) rfl) (by rw [hran]; decide)

/-! ## The call -/

/-- What the hooks make of a call. -/
def emitFor (redactArgs : Payload → Payload) (entries : List Entry) (call : PendingToolCall) :
    Emission :=
  emit redactArgs .preTool entries (toolPayload call.name call.input)

/-- Only pre-tool hooks that do not fail open. -/
def Closed (hooks : List CommandHookConfig) : Prop :=
  ∀ hook ∈ hooks, hook.event = .preTool ∧ hook.failOpen = false

variable {hooks : List CommandHookConfig} {entries : List Entry}

theorem hooks_of_mapM
    (h : hooks.mapM compileMatcher = some entries) : entries.map (·.hook) = hooks := by
  induction hooks generalizing entries with
  | nil =>
    obtain rfl := some.inj h
    rfl
  | cons hook hooks ih =>
    rw [mapM_cons] at h
    obtain ⟨entry, hentry, h⟩ := bind_eq_some_iff.mp h
    obtain ⟨rest, hrest, h⟩ := bind_eq_some_iff.mp h
    obtain rfl := some.inj h
    rw [map_cons, ih hrest]
    refine congrArg (· :: hooks) ?_
    unfold compileMatcher at hentry
    split at hentry
    · obtain ⟨items, -, rfl⟩ := map_eq_some_iff.mp hentry
      rfl
    · obtain rfl := some.inj hentry
      rfl

theorem mem_hooks_of_mem
    (hregistered : registerCommandHooks ⟨true, hooks⟩ = some entries) {entry : Entry}
    (h : entry ∈ entries) : entry.hook ∈ hooks := by
  have hhooks : entries.map (·.hook) = hooks := hooks_of_mapM hregistered
  rw [← hhooks]
  exact mem_map_of_mem h

theorem emitFor_eq (redactArgs : Payload → Payload) (call : PendingToolCall)
    (hclosed : Closed hooks) (hregistered : registerCommandHooks ⟨true, hooks⟩ = some entries) :
    (emitFor redactArgs entries call).current.get "input"
        = rewritten call.input
            (course redactArgs (toolPayload call.name call.input) entries) ∧
      (emitFor redactArgs entries call).executed
        = course redactArgs (toolPayload call.name call.input) entries ∧
      (emitFor redactArgs entries call).blocked
        = (course redactArgs (toolPayload call.name call.input) entries).any
            fun e => !passes e.2 := by
  have hall : (entries.filter fun entry => entry.hook.event = .preTool) = entries := by
    refine filter_eq_self.mpr fun entry hentry => ?_
    exact decide_eq_true (hclosed _ (mem_hooks_of_mem hregistered hentry)).1
  obtain ⟨hcurrent, hexecuted, hblocked⟩ := emit_eq redactArgs entries
    (fun entry hentry => (hclosed _ (mem_hooks_of_mem hregistered hentry)).2)
    { current := toolPayload call.name call.input }
  unfold emitFor emit
  rw [hall, hcurrent, hexecuted, hblocked, get_payloadAfter]
  refine ⟨?_, rfl, rfl⟩
  have hinput : (toolPayload call.name call.input).get "input" = call.input := by
    unfold Payload.get toolPayload
    rfl
  dsimp only
  rw [hinput]

/-- **What a call is run with**: no hook that was asked has blocked it, and the input is what all
    of these have made of it. -/
theorem ran_with {loop : ToolLoop} {call : PendingToolCall}
    {webhooks : Bool} {interceptor : Option ToolInterceptor}
    {ranWith : Unknown} (hclosed : Closed hooks)
    (hregistered : registerCommandHooks ⟨true, hooks⟩ = some entries)
    (hbuilt : buildHooks redactArgs ⟨true, hooks⟩ webhooks = some interceptor)
    (hran : (({ loop with toolInterceptor := interceptor } : ToolLoop).executeToolCall call).ran
      = some ranWith) :
    (∀ e ∈ course redactArgs (toolPayload call.name call.input) entries, passes e.2 = true) ∧
      ranWith = rewritten call.input
        (course redactArgs (toolPayload call.name call.input) entries) := by
  obtain ⟨hinput, -, hblocked⟩ := emitFor_eq redactArgs call hclosed hregistered
  unfold buildHooks at hbuilt
  rw [hregistered, map_some] at hbuilt
  obtain rfl := some.inj hbuilt
  unfold ToolLoop.executeToolCall at hran
  split at hran
  · cases hran
  · dsimp only at hran
    split at hran
    · -- the loop has no interceptor: there are no hooks
      rename_i hnone
      have hempty : entries = [] := by
        cases hentries : entries with
        | nil => rfl
        | cons entry rest =>
          have hmem : entry ∈ entries := hentries ▸ mem_cons_self
          have hhook := mem_hooks_of_mem hregistered hmem
          have htools : hasToolHooks ⟨true, hooks⟩ webhooks = true := by
            unfold hasToolHooks
            rw [Bool.true_and, any_eq_true.mpr ⟨entry.hook, hhook, ?_⟩, Bool.true_or]
            rw [decide_eq_true (hclosed _ hhook).1]
            rfl
          rw [if_pos htools] at hnone
          cases hnone
      rw [hempty]
      exact ⟨fun e he => absurd he not_mem_nil, (proceed_ran_input hran).1⟩
    · rename_i preTool hsome
      split at hsome
      swap
      · cases hsome
      obtain rfl := some.inj hsome
      have hemit : emit redactArgs .preTool entries (toolPayload call.name call.input) =
          emitFor redactArgs entries call := rfl
      dsimp only at hran
      rw [hemit] at hran
      cases hany : (emitFor redactArgs entries call).blocked with
      | true =>
        rw [hany, if_pos rfl] at hran
        cases hran
      | false =>
        rw [hany, if_neg Bool.false_ne_true, hinput] at hran
        have hpassed : ∀ e ∈ course redactArgs (toolPayload call.name call.input) entries,
            passes e.2 = true := by
          intro e he
          rw [hblocked] at hany
          have hnot := any_eq_false.mp hany e he
          rwa [Bool.not_eq_true', Bool.not_eq_false] at hnot
        refine ⟨hpassed, ?_⟩
        cases hrewritten : rewritten call.input
            (course redactArgs (toolPayload call.name call.input) entries) with
        | none =>
          rw [hrewritten] at hran
          rw [(proceed_ran_input hran).1, ← hrewritten, ← rewritten_or, hrewritten]
          rfl
        | some modified =>
          rw [hrewritten] at hran
          exact (proceed_ran_input hran).1

/-- The condition under which the veto is kept. -/
structure Undisturbed (redactArgs : Payload → Payload) (entries : List Entry)
    (call : PendingToolCall) : Prop where
  noneSkipped : NoneSkipped redactArgs call.name (toolPayload call.name call.input) entries
  lastWord : rewritten call.input
      (course redactArgs (toolPayload call.name call.input) entries)
    = rewritten call.input (concerned call.name
        (course redactArgs (toolPayload call.name call.input) entries))

end

/-- **The veto is kept** for a call whose tool is run iff the hooks are undisturbed: no
    hook in scope is skipped at its turn, and no hook out of scope has changed the input in the
    end. -/
theorem veto_kept_iff (redactArgs : Payload → Payload) (hooks : List CommandHookConfig)
    (webhooks : Bool) (loop : ToolLoop) (call : PendingToolCall) (entries : List Entry)
    (interceptor : Option ToolInterceptor) (hclosed : Closed hooks)
    (hregistered : registerCommandHooks ⟨true, hooks⟩ = some entries)
    (hbuilt : buildHooks redactArgs ⟨true, hooks⟩ webhooks = some interceptor) (ranWith : Unknown)
    (hran : (({ loop with toolInterceptor := interceptor } : ToolLoop).executeToolCall call).ran
      = some ranWith) :
    VetoKept hooks call (emitFor redactArgs entries call).executed ranWith ↔
      Undisturbed redactArgs entries call := by
  obtain ⟨hpassed, hwith⟩ := ran_with hclosed hregistered hbuilt hran
  have hhooks : entries.map (·.hook) = hooks := hooks_of_mapM hregistered
  have hasked := asked_iff redactArgs call.name entries
    (toolPayload call.name call.input)
  rw [(emitFor_eq redactArgs call hclosed hregistered).2.1]
  rw [hhooks] at hasked
  constructor
  · intro h
    exact ⟨hasked.mp h.asked, hwith.symm.trans h.input⟩
  · intro h
    exact ⟨hasked.mpr h.noneSkipped, fun e he => hpassed e (mem_of_mem_filter he),
      hwith.trans h.lastWord⟩

/-! ## A hook that is switched off -/

/-- A hook whose command always answers the same. -/
def answering (matcher : Option String) (stdout : String) (exitCode : Int) : CommandHookConfig where
  event := .preTool
  matcher
  command _ := .closes { exitCode := some exitCode, stdout }

/-- A hook that renames the tool, and a hook that would deny it. -/
def renamingHooks : List CommandHookConfig :=
  [answering none "\x7b\"modify\":\x7b\"toolName\":\"x\"\x7d\x7d" 0,
    answering (some "shell_*") "" 1]

/-- A loop with one tool, which the gate lets run. -/
def shellLoop : ToolLoop where
  tools := ⟨fun name => if name = "shell_exec" then
    some { name, permission := .exec, run := fun _ => .error "" } else none⟩
  check _ _ := some { allowed := true, reason := "" }

/-- A call of the tool. -/
def shellCall : PendingToolCall := { id := "1", name := "shell_exec", input := none }

/-- The interceptor of the two hooks, and what the bus holds. -/
def renamingEntries : List Entry := ((registerCommandHooks ⟨true, renamingHooks⟩).getD [])

def renamingInterceptor : Option ToolInterceptor :=
  (buildHooks id ⟨true, renamingHooks⟩ false).getD none

/-- **The second hook is never asked**: the tool runs, although its command would have exited with
    1. -/
theorem renamed_away :
    registerCommandHooks ⟨true, renamingHooks⟩ = some renamingEntries ∧
    (({ shellLoop with toolInterceptor := renamingInterceptor } : ToolLoop).executeToolCall
      shellCall).ran.isSome = true ∧
    ∀ ranWith, ¬ VetoKept renamingHooks shellCall
      (emitFor id renamingEntries shellCall).executed ranWith := by
  refine ⟨rfl, by decide +kernel, fun ranWith h => ?_⟩
  have hscope : (renamingHooks.filter (inScope shellCall.name)).length = 2 := by decide +kernel
  have hasked : (emitFor id renamingEntries shellCall).executed.length = 1 := by decide +kernel
  have hlen := congrArg List.length h.asked
  have hle : (concerned shellCall.name (emitFor id renamingEntries shellCall).executed).length
      ≤ (emitFor id renamingEntries shellCall).executed.length :=
    length_filter_le _ _
  rw [length_map, hscope] at hlen
  omega

/-- A hook for the shell that lets a call pass. -/
def watchingHooks : List CommandHookConfig := [answering (some "shell_*") "" 0]

def watchingEntries : List Entry := (registerCommandHooks ⟨true, watchingHooks⟩).getD []

def watchingInterceptor : Option ToolInterceptor :=
  (buildHooks id ⟨true, watchingHooks⟩ false).getD none

theorem veto_kept_iff_watched :
    VetoKept watchingHooks shellCall (emitFor id watchingEntries shellCall).executed none ↔
      Undisturbed id watchingEntries shellCall := by
  refine veto_kept_iff id watchingHooks false shellLoop shellCall watchingEntries
    watchingInterceptor ?_ rfl rfl none rfl
  intro hook h
  obtain rfl := mem_singleton.mp h
  exact ⟨rfl, rfl⟩

end NexusCode.Hooks
