/-
  When the stream of a wrapped program is proper.

  The base never ends a stream twice, nor before a `run-start`, so a stream is proper exactly if
  nothing is thrown in it (`proper_iff_not_thrown`).  What may throw is the walk of the handler
  through an event (`Handles`) and the report of a failed result:

  1. `readLines_succeeds_iff` — the lines are read to their end iff each event can be walked;
  2. `readLines_terminal`     — the last result among them decides how the stream ends;
  3. `finish_succeeds_iff`    — the end is reached unless that result fails with a subtype that is
                                neither a text nor falsy.

  For the program at hand the events that can be walked are told by `walkable`: those that are not
  `null`, whose content is iterable and holds no `null`, and whose coerced values are printable.
-/
import NexusCode.Providers.ClaudeCode

namespace NexusCode.Providers

open Lib Shared List Bool

/-! ## Any handler -/

/-- Recording the chunk does not throw. -/
def Chunk.isAbsorbable : Chunk → Bool
  | .textDelta text => Json.isPrintable text
  | _ => true

/-- The events among the lines. -/
def eventsOf (base : Base) (lines : List String) : List Json :=
  lines.filterMap fun line =>
    match readLine base line with
    | .event ev => some ev
    | _ => none

/-- The handler walks through the events of one kind, and sets the terminal of some of them. -/
structure Handles (handle : Handler) (walkable : Json → Bool)
    (terminalOf : Json → Option Terminal) : Prop where
  walks : ∀ ev state, (∃ r, handle ev state = .ok r ∧ ∀ c ∈ r.2, c.isAbsorbable = true) ↔
    walkable ev = true
  terminal : ∀ ev state r, handle ev state = .ok r →
    r.1.terminal = (terminalOf ev).or state.terminal

theorem absorb_succeeds_iff (state : StreamState) (c : Chunk) :
    Succeeds (absorb state c) ↔ c.isAbsorbable = true := by
  cases c with
  | textDelta text =>
    rw [absorb, Succeeds.map_iff]
    exact Json.toText_succeeds_iff text
  | _ => exact iff_of_true (Succeeds.ok _) rfl

theorem absorb_terminal {state state' : StreamState} {c : Chunk} (h : absorb state c = .ok state') :
    state'.terminal = state.terminal := by
  cases c with
  | textDelta text =>
    rw [absorb] at h
    cases htext : Json.toText text with
    | error e =>
      rw [htext] at h
      nomatch h
    | ok t =>
      rw [htext] at h
      obtain rfl := Except.ok.inj h
      rfl
  | _ =>
    obtain rfl := Except.ok.inj h
    rfl

theorem yieldAll_succeeds_iff : ∀ (state : StreamState) (pending : List Chunk),
    Succeeds (yieldAll state pending).2 ↔ ∀ c ∈ pending, c.isAbsorbable = true
  | state, [] => iff_of_true (Succeeds.ok state) fun _ => nofun
  | state, c :: rest => by
    rw [yieldAll, forall_mem_cons, ← absorb_succeeds_iff state c]
    cases absorb state c with
    | error e => exact iff_of_false (Succeeds.not_error e) fun h => Succeeds.not_error e h.1
    | ok state' =>
      rw [← yieldAll_succeeds_iff state' rest]
      exact (and_iff_right (Succeeds.ok state')).symm

theorem yieldAll_terminal : ∀ {state state' : StreamState} {pending : List Chunk},
    (yieldAll state pending).2 = .ok state' → state'.terminal = state.terminal
  | _, _, [], h => by
    obtain rfl := Except.ok.inj h
    rfl
  | state, state', c :: rest, h => by
    rw [yieldAll] at h
    cases habsorb : absorb state c with
    | error e =>
      rw [habsorb] at h
      cases h
    | ok mid =>
      rw [habsorb] at h
      exact (yieldAll_terminal h).trans (absorb_terminal habsorb)

section Handler

variable {base : Base} {handle : Handler} {walkable : Json → Bool}
  {terminalOf : Json → Option Terminal}

theorem readLines_event {line : String} {ev : Json} (hline : readLine base line = .event ev)
    (state : StreamState) (first : String) (rest : List String) :
    (readLines base handle state first (line :: rest)).2 =
      (handle ev state).bind fun r => (yieldAll r.1 r.2).2.bind fun state'' =>
        (readLines base handle state'' first rest).2 := by
  rw [readLines, hline]
  dsimp only
  cases handle ev state with
  | error e => rfl
  | ok r =>
    obtain ⟨state', pending⟩ := r
    dsimp only [Except.bind]
    cases yieldAll state' pending with
    | mk yielded result => cases result <;> rfl

/-- **The lines are read to their end exactly if each event can be walked.** -/
theorem readLines_succeeds_iff (hhandle : Handles handle walkable terminalOf) :
    ∀ (lines : List String) (state : StreamState) (first : String),
      Succeeds (readLines base handle state first lines).2 ↔
        ∀ ev ∈ eventsOf base lines, walkable ev = true
  | [], state, first => iff_of_true (Succeeds.ok (state, first)) fun _ h =>
    absurd h not_mem_nil
  | line :: rest, state, first => by
    cases hline : readLine base line with
    | blank =>
      rw [readLines, eventsOf, filterMap_cons, hline]
      exact readLines_succeeds_iff hhandle rest state first
    | malformed diagnostic =>
      rw [readLines, eventsOf, filterMap_cons, hline]
      exact readLines_succeeds_iff hhandle rest state _
    | event ev =>
      rw [readLines_event hline, eventsOf, filterMap_cons, hline]
      dsimp only
      rw [forall_mem_cons, ← hhandle.walks ev state]
      cases handle ev state with
      | error e =>
        refine iff_of_false (Succeeds.not_error e) ?_
        rintro ⟨⟨_, h, _⟩, _⟩
        cases h
      | ok r =>
        change Succeeds ((yieldAll r.1 r.2).2.bind _) ↔ _
        refine Succeeds.bind_iff ?_ fun state'' _ =>
          readLines_succeeds_iff hhandle rest state'' first
        rw [yieldAll_succeeds_iff]
        constructor
        · intro h
          exact ⟨r, rfl, h⟩
        · rintro ⟨r', hr', h⟩
          obtain rfl := Except.ok.inj hr'
          exact h

/-- The terminal that the last of the events leaves. -/
def lastTerminal (terminalOf : Json → Option Terminal) (events : List Json) : Option Terminal :=
  (events.filterMap terminalOf).getLast?

theorem lastTerminal_cons (ev : Json) (events : List Json) (old : Option Terminal) :
    (lastTerminal terminalOf (ev :: events)).or old =
      (lastTerminal terminalOf events).or ((terminalOf ev).or old) := by
  unfold lastTerminal
  rw [filterMap_cons]
  cases hev : terminalOf ev with
  | none => rfl
  | some t =>
    dsimp only
    rw [List.getLast?_cons]
    cases (events.filterMap terminalOf).getLast? <;> rfl

/-- **The last result among the lines is the one that counts.** -/
theorem readLines_terminal (hhandle : Handles handle walkable terminalOf) :
    ∀ {lines : List String} {state : StreamState} {first : String} {r : StreamState × String},
      (readLines base handle state first lines).2 = .ok r →
        r.1.terminal = (lastTerminal terminalOf (eventsOf base lines)).or state.terminal
  | [], state, first, r, h => by
    obtain rfl := Except.ok.inj h
    rfl
  | line :: rest, state, first, r, h => by
    cases hline : readLine base line with
    | blank =>
      rw [readLines, hline] at h
      rw [eventsOf, filterMap_cons, hline]
      exact readLines_terminal hhandle h
    | malformed diagnostic =>
      rw [readLines, hline] at h
      rw [eventsOf, filterMap_cons, hline]
      exact readLines_terminal hhandle h
    | event ev =>
      rw [readLines_event hline] at h
      obtain ⟨mid, hmid, h⟩ := bind_ok h
      obtain ⟨state'', hyield, h⟩ := bind_ok h
      rw [eventsOf, filterMap_cons, hline]
      dsimp only
      rw [lastTerminal_cons, ← hhandle.terminal ev state mid hmid, ← yieldAll_terminal hyield]
      exact readLines_terminal hhandle h

/-- A failure that can be reported: its subtype is a text, or falsy. -/
def isNameable : Unknown → Bool
  | some (.str _) => true
  | some v => !v.truthy
  | none => true

theorem failureDetail_succeeds_iff (subtype : Unknown) (stderr first : String) :
    Succeeds (failureDetail base subtype stderr first) ↔ isNameable subtype = true := by
  cases subtype with
  | none => exact iff_of_true (Succeeds.ok _) rfl
  | some v =>
    cases v with
    | str s => exact iff_of_true (Succeeds.ok _) rfl
    | _ =>
      unfold failureDetail isNameable
      dsimp only
      split
      · rename_i h
        rw [h]
        exact iff_of_false (Succeeds.not_error _) Bool.false_ne_true
      · rename_i h
        rw [not_eq_true] at h
        rw [h]
        exact iff_of_true (Succeeds.ok _) rfl

/-- **The stream ends** unless the last result fails with a subtype that cannot be reported. -/
theorem finish_succeeds_iff (p : Process) (state : StreamState) (first : String) :
    Succeeds (finish base p state first) ↔
      (p.exit.error.isSome = true ∧ p.abortedAtExit = false) ∨
        ∀ t ∈ state.terminal, t.ok = false → isNameable t.subtype = true := by
  unfold finish
  dsimp only
  by_cases hexit : p.exit.error.isSome = true ∧ p.abortedAtExit = false
  · rw [if_pos hexit]
    exact iff_of_true (Succeeds.ok _) (.inl hexit)
  · rw [if_neg hexit, or_iff_right hexit]
    cases hterminal : state.terminal with
    | none =>
      refine iff_of_true ?_ fun t ht => nomatch ht
      split_ifs <;> exact Succeeds.ok _
    | some t =>
      have hmem : (∀ t' ∈ some t, t'.ok = false → isNameable t'.subtype = true) ↔
          (t.ok = false → isNameable t.subtype = true) := by
        constructor
        · intro h
          exact h t rfl
        · rintro h t' ⟨⟩
          exact h
      rw [hmem]
      dsimp only
      by_cases hok : t.ok = false
      · rw [if_pos hok, Succeeds.map_iff, failureDetail_succeeds_iff]
        exact ⟨fun h _ => h, fun h => h hok⟩
      · rw [if_neg hok]
        refine iff_of_true ?_ fun h => absurd h hok
        split_ifs <;> exact Succeeds.ok _

/-- Nothing is thrown: the program did not run, or its events can be walked and the end of the
    last of its results can be reported. -/
theorem not_thrown_iff (hhandle : Handles handle walkable terminalOf) (p : Process) :
    (stream base handle p).thrown = none ↔
      p.abortedAtStart = true ∨ p.prepareError.isSome = true ∨ p.spawnError.isSome = true ∨
        (∀ ev ∈ eventsOf base (p.stdout.getD []), walkable ev = true) ∧
          ((p.exit.error.isSome = true ∧ p.abortedAtExit = false) ∨
            ∀ t ∈ lastTerminal terminalOf (eventsOf base (p.stdout.getD [])),
              t.ok = false → isNameable t.subtype = true) := by
  unfold stream
  dsimp only
  by_cases haborted : p.abortedAtStart = true
  · rw [if_pos haborted]
    exact iff_of_true rfl (.inl haborted)
  rw [if_neg haborted, or_iff_right haborted]
  cases p.prepareError with
  | some message => exact iff_of_true rfl (.inl rfl)
  | none =>
  rw [or_iff_right (by exact Bool.false_ne_true)]
  cases p.spawnError with
  | some message => exact iff_of_true rfl (.inl rfl)
  | none =>
  rw [or_iff_right (by exact Bool.false_ne_true)]
  dsimp only
  have hread := @readLines_succeeds_iff base handle walkable terminalOf hhandle
    (p.stdout.getD []) {} ""
  have hlast := @readLines_terminal base handle walkable terminalOf hhandle
    (p.stdout.getD []) {} ""
  rw [← hread]
  cases hlines : readLines base handle {} "" (p.stdout.getD []) with
  | mk yielded result =>
    rw [hlines] at hlast
    cases result with
    | error e => exact iff_of_false nofun fun h => Succeeds.not_error e h.1
    | ok r =>
      have hterminal := hlast rfl
      rw [Option.or_none] at hterminal
      rw [← hterminal, ← finish_succeeds_iff p r.1 r.2]
      dsimp only
      rw [and_iff_right (Succeeds.ok r)]
      cases finish base p r.1 r.2 with
      | error e => exact iff_of_false nofun (Succeeds.not_error e)
      | ok last => exact iff_of_true rfl (Succeeds.ok last)

end Handler

/-! ## The program at hand -/

namespace ClaudeCode

/-- `String(value[key] ?? "")` does not throw. -/
def isPrintableAt (v : Json) (key : String) : Bool :=
  Json.isPrintable (Json.withDefault (v.get? key) (.str ""))

/-- An edit whose diff can be written. -/
def isEdit (path : Json) (e : Json) : Bool :=
  match e with
  | .null => false
  | e => isPrintableAt e "old_string" && (isPrintableAt e "new_string" && Json.isPrintable path)

/-- A tool use whose diff can be written, if it is one that edits a file. -/
def isToolUse (block : Json) : Bool :=
  match pathOf block with
  | none => true
  | some path =>
    if isNamed block "Write" then
      isPrintableAt (inputOf block) "content" && Json.isPrintable path
    else if isNamed block "Edit" then isEdit path (inputOf block)
    else if isNamed block "MultiEdit" then (editsOf block).all (isEdit path)
    else true

/-- A block of an assistant message that can be walked. -/
def isAssistantBlock (raw : Json) : Bool :=
  match raw with
  | .null => false
  | raw => if raw.typeIs "tool_use" then isToolUse raw else true

/-- The content of a tool result that can be walked. -/
def isResultContent (content : Unknown) : Bool :=
  match content with
  | some (.arr items) => items.all fun x => if x.typeIs "text" then isPrintableAt x "text" else true
  | some v => Json.isPrintable v
  | none => true

/-- A block of a user message that can be walked. -/
def isUserBlock (raw : Json) : Bool :=
  match raw with
  | .null => false
  | raw => if raw.typeIs "tool_result" then isResultContent (raw.get? "content") else true

/-- A message whose content is absent, `null`, a text, or an array of such blocks. -/
def isContent (isBlock : Json → Bool) (e : Json) : Bool :=
  match (e.get? "message").bind (·.get? "content") with
  | none => true
  | some .null => true
  | some (.str _) => true
  | some (.arr items) => items.all isBlock
  | some _ => false

/-- Tools that have names. -/
def areTools (tools : Unknown) : Bool :=
  match tools with
  | some (.arr items) => Json.arePrintable items
  | _ => true

/-- A first line whose tools have names. -/
def isSystem (e : Json) : Bool :=
  if e.textIs "subtype" "init" then areTools (e.get? "tools") else true

/-- A piece of text that can be appended. -/
def isStreamEvent (e : Json) : Bool :=
  let inner := (e.get? "event").getD .null
  let delta := (inner.get? "delta").getD .null
  if inner.typeIs "content_block_delta" && delta.typeIs "text_delta" then
    isPrintableAt delta "text"
  else true

/-- **The events the handler can walk through.** -/
def walkable (ev : Json) : Bool :=
  match ev with
  | .null => false
  | e =>
    if e.typeIs "system" then isSystem e
    else if e.typeIs "stream_event" then isStreamEvent e
    else if e.typeIs "assistant" then isContent isAssistantBlock e
    else if e.typeIs "user" then isContent isUserBlock e
    else true

/-! ## The walk through an event -/

theorem textAt_succeeds_iff (v : Json) (key : String) :
    Succeeds (textAt v key) ↔ isPrintableAt v key = true :=
  Json.toText_succeeds_iff _

theorem editDiff_succeeds_iff (path e : Json) :
    Succeeds (editDiff path e) ↔ isEdit path e = true := by
  cases e with
  | null => exact iff_of_false (Succeeds.not_error _) Bool.false_ne_true
  | _ =>
    unfold editDiff isEdit
    dsimp only
    rw [and_eq_true, and_eq_true]
    refine Succeeds.bind_iff (textAt_succeeds_iff _ _) fun _ _ => ?_
    refine Succeeds.bind_iff (textAt_succeeds_iff _ _) fun _ _ => ?_
    exact Succeeds.map_iff.trans (Json.toText_succeeds_iff path)

theorem editDiffs_succeeds_iff (path : Json) : ∀ edits : List Json,
    Succeeds (editDiffs path edits) ↔ edits.all (isEdit path) = true
  | [] => iff_of_true (Succeeds.ok _) rfl
  | e :: rest => by
    rw [editDiffs, all_cons, and_eq_true]
    exact Succeeds.bind_iff (editDiff_succeeds_iff path e) fun _ _ =>
      Succeeds.map_iff.trans (editDiffs_succeeds_iff path rest)

/-- A tool use is turned into an edit exactly if its diff can be written. -/
theorem toFileEdit_succeeds_iff (mode : PermissionMode) (block : Json) :
    Succeeds (toFileEdit mode block) ↔ isToolUse block = true := by
  unfold toFileEdit isToolUse
  cases pathOf block with
  | none => exact iff_of_true (Succeeds.ok _) rfl
  | some path =>
    dsimp only
    split
    · rw [and_eq_true]
      exact Succeeds.bind_iff (textAt_succeeds_iff _ _) fun _ _ =>
        Succeeds.map_iff.trans (Json.toText_succeeds_iff path)
    · split
      · exact Succeeds.map_iff.trans (editDiff_succeeds_iff path _)
      · split
        · exact Succeeds.map_iff.trans (editDiffs_succeeds_iff path _)
        · exact iff_of_true (Succeeds.ok _) rfl

theorem resultItems_succeeds_iff : ∀ items : List Json, Succeeds (resultItems items) ↔
    (items.all fun x => if x.typeIs "text" then isPrintableAt x "text" else true) = true
  | [] => iff_of_true (Succeeds.ok _) rfl
  | x :: rest => by
    rw [resultItems, all_cons, and_eq_true]
    refine Succeeds.bind_iff ?_ fun _ _ => Succeeds.map_iff.trans (resultItems_succeeds_iff rest)
    unfold resultItem
    split
    · exact Succeeds.map_iff.trans (textAt_succeeds_iff x "text")
    · exact iff_of_true (Succeeds.ok _) rfl

theorem normalizeToolResult_succeeds_iff (content : Unknown) :
    Succeeds (normalizeToolResult content) ↔ isResultContent content = true := by
  cases content with
  | none => exact iff_of_true (Succeeds.ok _) rfl
  | some v =>
    cases v with
    | null => exact iff_of_true (Succeeds.ok _) rfl
    | str s => exact iff_of_true (Succeeds.ok _) rfl
    | arr items => exact resultItems_succeeds_iff items
    | _ =>
      unfold normalizeToolResult isResultContent
      exact Succeeds.map_iff.trans (Json.toText_succeeds_iff _)

theorem assistantBlock_succeeds_iff (mode : PermissionMode) (acc : StreamState × List Chunk)
    (raw : Json) : Succeeds (assistantBlock mode acc raw) ↔ isAssistantBlock raw = true := by
  have htype : raw.typeIs "text" = true → raw.typeIs "tool_use" = false := fun h =>
    Json.typeIs_false h (by decide)
  cases raw with
  | null => exact iff_of_false (Succeeds.not_error _) Bool.false_ne_true
  | _ =>
    unfold assistantBlock isAssistantBlock
    dsimp only
    split
    · rename_i h
      rw [htype h]
      refine iff_of_true ?_ rfl
      split
      · split <;> exact Succeeds.ok _
      · exact Succeeds.ok _
    · split
      · exact Succeeds.map_iff.trans (toFileEdit_succeeds_iff mode _)
      · exact iff_of_true (Succeeds.ok _) rfl

theorem userBlock_succeeds_iff (acc : StreamState × List Chunk) (raw : Json) :
    Succeeds (userBlock acc raw) ↔ isUserBlock raw = true := by
  cases raw with
  | null => exact iff_of_false (Succeeds.not_error _) Bool.false_ne_true
  | _ =>
    unfold userBlock isUserBlock
    dsimp only
    split
    · exact Succeeds.map_iff.trans (normalizeToolResult_succeeds_iff _)
    · exact iff_of_true (Succeeds.ok _) rfl

theorem content_succeeds_iff {f : StreamState × List Chunk → Json →
    Except TypeError (StreamState × List Chunk)} {isBlock : Json → Bool}
    (hchar : ∀ s, isBlock (.str s) = true)
    (hstep : ∀ acc raw, Succeeds (f acc raw) ↔ isBlock raw = true) (e : Json)
    (acc : StreamState × List Chunk) :
    Succeeds ((contentOf e).bind fun content => content.foldlM f acc) ↔
      isContent isBlock e = true := by
  have hloop : ∀ items : List Json, Succeeds (items.foldlM f acc) ↔ ∀ raw ∈ items,
      isBlock raw = true := fun items => Succeeds.foldlM_iff (fun s raw _ => hstep s raw) acc
  unfold contentOf isContent
  cases (e.get? "message").bind (·.get? "content") with
  | none => exact iff_of_true (Succeeds.ok _) rfl
  | some v =>
    cases v with
    | null => exact iff_of_true (Succeeds.ok _) rfl
    | str s =>
      refine iff_of_true ((hloop _).mpr fun raw hraw => ?_) rfl
      obtain ⟨c, _, rfl⟩ := mem_map.mp hraw
      exact hchar _
    | arr items => exact (hloop items).trans all_eq_true.symm
    | _ => exact iff_of_false (Succeeds.not_error _) Bool.false_ne_true

theorem toTexts_succeeds_iff : ∀ items : List Json,
    Succeeds (toTexts items) ↔ Json.arePrintable items = true
  | [] => iff_of_true (Succeeds.ok _) rfl
  | v :: rest => by
    rw [toTexts, Json.arePrintable, and_eq_true]
    exact Succeeds.bind_iff (Json.toText_succeeds_iff v) fun _ _ =>
      Succeeds.map_iff.trans (toTexts_succeeds_iff rest)

/-! ## What an event gives -/

/-- Blocks leave the terminal alone and push chunks that are recorded without a throw. -/
def Walked (state : StreamState) (r : StreamState × List Chunk) : Prop :=
  r.1.terminal = state.terminal ∧
    ∀ c ∈ r.2, c.isAbsorbable = true ∧ c.isTerminal = false

theorem Walked.start (state : StreamState) : Walked state (state, []) :=
  ⟨rfl, fun _ => nofun⟩

theorem Walked.push {state next : StreamState} {r : StreamState × List Chunk} {chunks : List Chunk}
    (h : Walked state r) (hnext : next.terminal = r.1.terminal)
    (hchunks : ∀ c ∈ chunks, c.isAbsorbable = true ∧ c.isTerminal = false) :
    Walked state (next, r.2 ++ chunks) := by
  refine ⟨hnext.trans h.1, fun c hc => ?_⟩
  rcases mem_append.mp hc with hc | hc
  · exact h.2 c hc
  · exact hchunks c hc

theorem toFileEdit_walked (mode : PermissionMode) (block : Json) :
    Ends (fun edit => ∀ c ∈ edit.toList, c.isAbsorbable = true ∧ c.isTerminal = false)
      (fun _ => True) (toFileEdit mode block) := by
  have hedit : ∀ path diff status, ∀ c ∈ (some (Chunk.fileEdit path diff status)).toList,
      c.isAbsorbable = true ∧ c.isTerminal = false := fun path diff status c hc => by
    obtain rfl := mem_singleton.mp hc
    exact ⟨rfl, rfl⟩
  have hnone : ∀ c ∈ (none : Option Chunk).toList,
      c.isAbsorbable = true ∧ c.isTerminal = false := fun _ => nofun
  unfold toFileEdit
  cases pathOf block with
  | none => exact hnone
  | some path =>
    dsimp only
    split
    · refine Ends.bind (Ends.always _) fun content _ => ?_
      exact (Ends.always _).map fun _ _ => hedit _ _ _
    · split
      · exact (Ends.always _).map fun _ _ => hedit _ _ _
      · split
        · exact (Ends.always _).map fun _ _ => hedit _ _ _
        · exact hnone

theorem assistantBlock_walked (mode : PermissionMode) {state : StreamState}
    {acc : StreamState × List Chunk} (hacc : Walked state acc) (raw : Json) :
    Ends (Walked state) (fun _ => True) (assistantBlock mode acc raw) := by
  cases raw with
  | null => trivial
  | _ =>
    unfold assistantBlock
    dsimp only
    split
    · split
      · split
        · refine hacc.push rfl fun c hc => ?_
          obtain rfl := mem_singleton.mp hc
          exact ⟨rfl, rfl⟩
        · exact hacc
      · exact hacc
    · split
      · refine (toFileEdit_walked mode _).map fun edit hedit => ?_
        rw [append_assoc]
        refine hacc.push rfl fun c hc => ?_
        rcases mem_append.mp hc with hc | hc
        · rcases mem_pair.mp hc with rfl | rfl <;> exact ⟨rfl, rfl⟩
        · exact hedit c hc
      · exact hacc

theorem userBlock_walked {state : StreamState} {acc : StreamState × List Chunk}
    (hacc : Walked state acc) (raw : Json) :
    Ends (Walked state) (fun _ => True) (userBlock acc raw) := by
  cases raw with
  | null => trivial
  | _ =>
    unfold userBlock
    dsimp only
    split
    · refine (Ends.always _).map fun content _ => hacc.push rfl fun c hc => ?_
      obtain rfl := mem_singleton.mp hc
      exact ⟨rfl, rfl⟩
    · exact hacc

theorem content_walked {f : StreamState × List Chunk → Json →
    Except TypeError (StreamState × List Chunk)} {state : StreamState}
    (hstep : ∀ acc, Walked state acc → ∀ raw, Ends (Walked state) (fun _ => True) (f acc raw))
    (e : Json) : Ends (Walked state) (fun _ => True)
      ((contentOf e).bind fun content => content.foldlM f (state, [])) := by
  refine (Ends.always (contentOf e)).bind fun content _ => ?_
  exact Ends.foldlM (fun _ => Walked state) (fun _ raw _ acc _ hacc => hstep acc hacc raw)
    (Walked.start state)

theorem onSystem_walked (e : Json) (state : StreamState) :
    Ends (Walked state) (fun _ => True) (onSystem e state) := by
  unfold onSystem
  split
  · refine (Ends.always _).map fun tools _ => ⟨rfl, fun c hc => ?_⟩
    obtain rfl := mem_singleton.mp hc
    exact ⟨rfl, rfl⟩
  · exact Walked.start state

theorem toolsOf_succeeds_iff (e : Json) :
    Succeeds (toolsOf e) ↔ areTools (e.get? "tools") = true := by
  unfold toolsOf
  cases e.get? "tools" with
  | none => exact iff_of_true (Succeeds.ok _) rfl
  | some v =>
    cases v with
    | arr items => exact Succeeds.map_iff.trans (toTexts_succeeds_iff items)
    | _ => exact iff_of_true (Succeeds.ok _) rfl

theorem onSystem_succeeds_iff (e : Json) (state : StreamState) :
    Succeeds (onSystem e state) ↔ isSystem e = true := by
  unfold onSystem isSystem
  split
  · exact Succeeds.map_iff.trans (toolsOf_succeeds_iff e)
  · exact iff_of_true (Succeeds.ok _) rfl

theorem onStreamEvent_absorbable_iff (e : Json) (state : StreamState) :
    (∀ c ∈ (onStreamEvent e state).2, c.isAbsorbable = true) ↔ isStreamEvent e = true := by
  have hone : ∀ c₀ : Chunk, (∀ c ∈ [c₀], c.isAbsorbable = true) ↔ c₀.isAbsorbable = true :=
    fun c₀ => forall_mem_singleton
  unfold onStreamEvent isStreamEvent
  dsimp only
  cases ((e.get? "event").getD .null).typeIs "content_block_delta" with
  | false => exact iff_of_true (fun _ => nofun) rfl
  | true =>
    cases htext : ((((e.get? "event").getD .null).get? "delta").getD .null).typeIs "text_delta" with
    | true => exact hone _
    | false =>
      cases ((((e.get? "event").getD .null).get? "delta").getD .null).typeIs "thinking_delta" with
      | true => exact iff_of_true ((hone _).mpr rfl) rfl
      | false => exact iff_of_true (fun _ => nofun) rfl

theorem onStreamEvent_leaves (e : Json) (state : StreamState) :
    (onStreamEvent e state).1 = state ∧
      ∀ c ∈ (onStreamEvent e state).2, c.isTerminal = false := by
  unfold onStreamEvent
  dsimp only
  split
  · split
    · refine ⟨rfl, fun c hc => ?_⟩
      obtain rfl := mem_singleton.mp hc
      rfl
    · split
      · refine ⟨rfl, fun c hc => ?_⟩
        obtain rfl := mem_singleton.mp hc
        rfl
      · exact ⟨rfl, fun _ => nofun⟩
  · exact ⟨rfl, fun _ => nofun⟩

theorem onResult_pushes (e : Json) (state : StreamState) :
    ∀ c ∈ (onResult e state).2, c.isAbsorbable = true ∧ c.isTerminal = false := by
  unfold onResult
  dsimp only
  cases mapUsage e with
  | none => exact fun _ => nofun
  | some usage =>
    intro c hc
    obtain rfl := mem_singleton.mp hc
    exact ⟨rfl, rfl⟩

/-- The terminal that an event sets. -/
def resultTerminal (ev : Json) : Option Terminal :=
  if ev.typeIs "result" then some (terminalOf ev) else none

theorem resultTerminal_other {ev : Json} {name : String} (h : ev.typeIs name = true)
    (hne : name ≠ "result") : resultTerminal ev = none :=
  if_neg (by rw [Json.typeIs_false h hne]; exact Bool.false_ne_true)

theorem handleEvent_of_ne_null (mode : PermissionMode) {ev : Json} (state : StreamState)
    (hnull : ev ≠ .null) : handleEvent mode ev state =
      if ev.typeIs "system" then onSystem ev state
      else if ev.typeIs "stream_event" then .ok (onStreamEvent ev state)
      else if ev.typeIs "assistant" then
        (contentOf ev).bind fun content => content.foldlM (assistantBlock mode) (state, [])
      else if ev.typeIs "user" then
        (contentOf ev).bind fun content => content.foldlM userBlock (state, [])
      else if ev.typeIs "result" then .ok (onResult ev state)
      else .ok (state, []) := by
  cases ev with
  | null => exact absurd rfl hnull
  | _ => rfl

theorem walkable_of_ne_null {ev : Json} (hnull : ev ≠ .null) : walkable ev =
    if ev.typeIs "system" then isSystem ev
    else if ev.typeIs "stream_event" then isStreamEvent ev
    else if ev.typeIs "assistant" then isContent isAssistantBlock ev
    else if ev.typeIs "user" then isContent isUserBlock ev
    else true := by
  cases ev with
  | null => exact absurd rfl hnull
  | _ => rfl

/-- The chunks of an event are recorded without a throw, unless it is a piece of text; none is
    terminal; and only a result sets the terminal. -/
theorem handleEvent_ends (mode : PermissionMode) (ev : Json) (state : StreamState) :
    Ends (fun r => r.1.terminal = (resultTerminal ev).or state.terminal ∧
        (∀ c ∈ r.2, c.isTerminal = false) ∧
        (ev.typeIs "stream_event" = false → ∀ c ∈ r.2, c.isAbsorbable = true))
      (fun _ => True) (handleEvent mode ev state) := by
  have hwalked : ∀ {r : StreamState × List Chunk}, Walked state r → resultTerminal ev = none →
      r.1.terminal = (resultTerminal ev).or state.terminal ∧
        (∀ c ∈ r.2, c.isTerminal = false) ∧
        (ev.typeIs "stream_event" = false → ∀ c ∈ r.2, c.isAbsorbable = true) := by
    rintro r ⟨hterminal, hpushed⟩ hnone
    rw [hnone]
    exact ⟨hterminal, fun c hc => (hpushed c hc).2, fun _ c hc => (hpushed c hc).1⟩
  by_cases hnull : ev = .null
  · subst hnull
    trivial
  rw [handleEvent_of_ne_null mode state hnull]
  split
  · rename_i htype
    exact (onSystem_walked ev state).mono
      (fun r hr => hwalked hr (resultTerminal_other htype (by decide))) fun _ h => h
  split
  · rename_i htype
    obtain ⟨hstate, hleaves⟩ := onStreamEvent_leaves ev state
    refine ⟨?_, hleaves, fun h => absurd htype (by rw [h]; exact Bool.false_ne_true)⟩
    rw [hstate, resultTerminal_other htype (by decide)]
    rfl
  split
  · rename_i htype
    exact (content_walked (fun _ hacc raw => assistantBlock_walked mode hacc raw) ev).mono
      (fun r hr => hwalked hr (resultTerminal_other htype (by decide))) fun _ h => h
  split
  · rename_i htype
    exact (content_walked (fun _ hacc raw => userBlock_walked hacc raw) ev).mono
      (fun r hr => hwalked hr (resultTerminal_other htype (by decide))) fun _ h => h
  split
  · rename_i htype
    refine ⟨?_, fun c hc => (onResult_pushes ev state c hc).2, fun _ c hc =>
      (onResult_pushes ev state c hc).1⟩
    rw [resultTerminal, if_pos htype]
    rfl
  · rename_i htype
    exact hwalked (Walked.start state) (if_neg htype)

/-- An event other than a piece of text is walked through exactly if it is walkable. -/
theorem handleEvent_succeeds_iff (mode : PermissionMode) (ev : Json) (state : StreamState)
    (hother : ev.typeIs "stream_event" = false) :
    Succeeds (handleEvent mode ev state) ↔ walkable ev = true := by
  by_cases hnull : ev = .null
  · subst hnull
    exact iff_of_false (Succeeds.not_error _) Bool.false_ne_true
  rw [handleEvent_of_ne_null mode state hnull, walkable_of_ne_null hnull, hother,
    if_neg Bool.false_ne_true, if_neg Bool.false_ne_true]
  split
  · exact onSystem_succeeds_iff ev state
  split
  · exact content_succeeds_iff (fun _ => rfl) (assistantBlock_succeeds_iff mode) ev _
  split
  · exact content_succeeds_iff (fun _ => rfl) userBlock_succeeds_iff ev _
  · refine iff_of_true ?_ rfl
    split <;> exact Succeeds.ok _

/-- **The handler of the program at hand.** -/
theorem handles (mode : PermissionMode) : Handles (handleEvent mode) walkable resultTerminal where
  walks ev state := by
    cases htype : ev.typeIs "stream_event" with
    | true =>
      have hnull : ev ≠ .null := by
        rintro rfl
        exact absurd htype (by decide)
      have hsystem := @Json.typeIs_false ev _ "system" htype (by decide)
      rw [handleEvent_of_ne_null mode state hnull, walkable_of_ne_null hnull, htype, hsystem,
        if_neg Bool.false_ne_true, if_neg Bool.false_ne_true, if_pos rfl, if_pos rfl,
        ← onStreamEvent_absorbable_iff ev state]
      constructor
      · rintro ⟨r, hr, h⟩
        obtain rfl := Except.ok.inj hr
        exact h
      · intro h
        exact ⟨_, rfl, h⟩
    | false =>
      rw [← handleEvent_succeeds_iff mode ev state htype]
      exact Succeeds.and_iff ((handleEvent_ends mode ev state).mono
        (fun r hr => hr.2.2 htype) fun _ h => h)
  terminal ev state r hr := by
    have h := handleEvent_ends mode ev state
    rw [hr] at h
    exact h.1

theorem leavesEnd (mode : PermissionMode) : LeavesEnd (handleEvent mode) := by
  intro ev state state' pending hr
  have h := handleEvent_ends mode ev state
  rw [hr] at h
  exact h.2.1

/-- A result that did not fail, or whose failure has a text, or a subtype that can be reported. -/
def isReportable (e : Json) : Bool :=
  !isErrorResult e || (resultText e).any (· ≠ "") || isNameable (e.get? "subtype")

theorem terminalOf_nameable_iff (e : Json) :
    ((terminalOf e).ok = false → isNameable (terminalOf e).subtype = true) ↔
      isReportable e = true := by
  unfold terminalOf isReportable
  dsimp only
  cases isErrorResult e with
  | false => exact iff_of_true nofun rfl
  | true =>
    rw [if_pos rfl]
    cases resultText e with
    | none => exact ⟨fun h => h rfl, fun h _ => h⟩
    | some s =>
      by_cases hs : s = ""
      · subst hs
        exact ⟨fun h => h rfl, fun h _ => h⟩
      · have hany : (some s).any (· ≠ "") = true := decide_eq_true hs
        rw [hany]
        refine iff_of_true (fun _ => ?_) rfl
        dsimp only
        rw [if_pos hs]
        rfl

theorem lastTerminal_nameable_iff (events : List Json) :
    (∀ t ∈ lastTerminal resultTerminal events, t.ok = false → isNameable t.subtype = true) ↔
      ∀ e ∈ (events.filter (·.typeIs "result")).getLast?, isReportable e = true := by
  have hmap : events.filterMap resultTerminal =
      (events.filter (·.typeIs "result")).map terminalOf := by
    induction events with
    | nil => rfl
    | cons e rest ih =>
      rw [filterMap_cons, filter_cons, resultTerminal]
      by_cases htype : e.typeIs "result" = true
      · rw [if_pos htype, if_pos htype, map_cons, ← ih]
      · rw [if_neg htype, if_neg htype, ← ih]
  rw [lastTerminal, hmap, List.getLast?_map]
  cases (events.filter (·.typeIs "result")).getLast? with
  | none => exact iff_of_true (fun _ => nofun) fun _ => nofun
  | some e =>
    constructor
    · rintro h e' ⟨⟩
      exact (terminalOf_nameable_iff e).mp (h _ rfl)
    · rintro h t ⟨⟩
      exact (terminalOf_nameable_iff e).mpr (h e rfl)

end ClaudeCode

end NexusCode.Providers
