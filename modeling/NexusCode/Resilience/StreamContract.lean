/-
  The validator in front of every provider stream.

  `enforceStreamContract` forwards a stream up to its first terminal chunk, or up to the first
  chunk that breaks the contract, which it replaces by one parse error.  Whatever the source
  sends, what comes out has at most one terminal chunk, at the end, and at most one `run-start`
  (`enforce_shape`).
-/
import NexusCode.Router.Streams

namespace NexusCode.Resilience

open Lib Shared Router

/-! ## The validator -/

/-- `chunk.type`. -/
def chunkType (chunk : StreamChunk) : String :=
  match chunk.body with
  | .runStart .. => "run-start"
  | .sessionInit .. => "session-init"
  | .textDelta .. => "text-delta"
  | .reasoningDelta .. => "reasoning-delta"
  | .toolCallStart .. => "tool-call-start"
  | .toolCallDelta .. => "tool-call-delta"
  | .toolCallEnd .. => "tool-call-end"
  | .toolResult .. => "tool-result"
  | .fileEdit .. => "file-edit"
  | .approvalRequest .. => "approval-request"
  | .usage .. => "usage"
  | .runEnd .. => "run-end"
  | .error .. => "error"

/-- `violation(chunk, message, providerId)`. -/
def violation (chunk : StreamChunk) (message : String) (providerId : Option String := none) :
    StreamChunk :=
  { runId := chunk.runId
    body := .error
      { code := .parse
        message := "provider stream contract violation: " ++ message
        opts := { providerId } }
      false
    raw := some (.obj [("violation", .str message), ("chunkType", .str (chunkType chunk))]) }

/-- `JSON.stringify(text)`. -/
def quoted (text : String) : String := (Json.str text).stringify

/-- The variables of the loop, once it has seen the `run-start`. -/
structure Watch where
  runId : String
  providerId : String
  sawSessionInit : Bool := false
  openTools : List String := []
  closedTools : List String := []

/-- What is wrong with a chunk after the `run-start`, or the variables after it. -/
def Watch.check (w : Watch) (chunk : StreamChunk) : String ⊕ Watch :=
  if chunk.isRunStart then .inl "duplicate run-start"
  else if chunk.runId ≠ w.runId then
    .inl ("runId changed from " ++ quoted w.runId ++ " to " ++ quoted chunk.runId)
  else match chunk.body with
    | .sessionInit .. =>
      if w.sawSessionInit then .inl "duplicate session-init"
      else .inr { w with sawSessionInit := true }
    | .toolCallStart id _ =>
      if w.openTools.contains id || w.closedTools.contains id then
        .inl ("duplicate tool-call-start id " ++ quoted id)
      else .inr { w with openTools := w.openTools ++ [id] }
    | .toolCallDelta id _ =>
      if w.openTools.contains id then .inr w
      else .inl ("tool-call-delta without start for id " ++ quoted id)
    | .toolCallEnd id _ =>
      if w.openTools.contains id then
        .inr { w with
          openTools := w.openTools.filter (· ≠ id), closedTools := w.closedTools ++ [id] }
      else .inl ("tool-call-end without start for id " ++ quoted id)
    | _ => .inr w

/-- The loop of `enforceStreamContract`; before the `run-start` there is nothing to watch. -/
def enforcer : Consumer (Option Watch) StreamChunk StreamChunk Unit where
  step
    | none, chunk => match chunk.body with
      | .error .. => ([chunk], .inr ())
      | .runStart adapterId _ _ =>
        ([chunk], .inl (some { runId := chunk.runId, providerId := adapterId }))
      | _ => ([violation chunk ("expected run-start first, received " ++ chunkType chunk)], .inr ())
    | some w, chunk => match w.check chunk with
      | .inl message => ([violation chunk message (some w.providerId)], .inr ())
      | .inr w => ([chunk], if chunk.isTerminal then .inr () else .inl (some w))
  finish := fun _ => ([], ())

/-- `enforceStreamContract(source)`. -/
def enforceStreamContract (source : List StreamChunk) : List StreamChunk :=
  (enforcer.run none source).1

/-! ## What comes out -/

/-- How many chunks are `run-start`s. -/
def runStarts (l : List StreamChunk) : Nat := l.countP (·.isRunStart)

theorem runStarts_append (l l' : List StreamChunk) :
    runStarts (l ++ l') = runStarts l + runStarts l' := List.countP_append

theorem runStarts_singleton (c : StreamChunk) :
    runStarts [c] = if c.isRunStart then 1 else 0 := List.countP_singleton

theorem noTerminal_nil : NoTerminal [] := fun _ => nofun

theorem noTerminal_append {l l' : List StreamChunk} :
    NoTerminal (l ++ l') ↔ NoTerminal l ∧ NoTerminal l' := List.forall_mem_append

theorem noTerminal_singleton {c : StreamChunk} : NoTerminal [c] ↔ c.isTerminal = false :=
  List.forall_mem_singleton

theorem isRunStart_of_check {w w' : Watch} {chunk : StreamChunk} (h : w.check chunk = .inr w') :
    chunk.isRunStart = false := by
  unfold Watch.check at h
  split at h
  · nomatch h
  · rename_i hstart
    simpa using hstart

/-- **What one chunk can do**: it ends the loop with a terminal chunk, or passes unchanged. -/
theorem enforcer_step (w : Option Watch) (chunk : StreamChunk) :
    (∃ last, enforcer.step w chunk = ([last], .inr ()) ∧ last.isTerminal = true ∧
      last.isRunStart = false) ∨
    (∃ w', enforcer.step w chunk = ([chunk], .inl (some w')) ∧ chunk.isTerminal = false ∧
      (w ≠ none → chunk.isRunStart = false)) := by
  cases w with
  | none =>
    obtain ⟨runId, body, raw⟩ := chunk
    cases body with
    | runStart adapterId model ts => exact .inr ⟨_, rfl, rfl, fun h => absurd rfl h⟩
    | _ => exact .inl ⟨_, rfl, rfl, rfl⟩
  | some w =>
    have hstep : enforcer.step (some w) chunk = match w.check chunk with
      | Sum.inl message => ([violation chunk message (some w.providerId)], Sum.inr ())
      | Sum.inr w => ([chunk], if chunk.isTerminal then Sum.inr () else Sum.inl (some w)) := rfl
    rw [hstep]
    cases hcheck : w.check chunk with
    | inl message => exact .inl ⟨_, rfl, rfl, rfl⟩
    | inr w' =>
      have hstart := isRunStart_of_check hcheck
      cases hterminal : chunk.isTerminal with
      | true => exact .inl ⟨chunk, rfl, hterminal, hstart⟩
      | false => exact .inr ⟨w', rfl, rfl, fun _ => hstart⟩

/-- **The shape of a forwarded stream**: at most one `run-start`, and no terminal chunk but
    possibly the last. -/
theorem enforce_shape (source : List StreamChunk) :
    runStarts (enforceStreamContract source) ≤ 1 ∧
      (NoTerminal (enforceStreamContract source) ∨ OneTerminal (enforceStreamContract source)) := by
  refine enforcer.rule
    (I := fun w out _ => NoTerminal out ∧ runStarts out ≤ 1 ∧ (w = none → out = []))
    (Q := fun out _ => runStarts out ≤ 1 ∧ (NoTerminal out ∨ OneTerminal out))
    none [] source ?_ ?_ ?_ ⟨noTerminal_nil, Nat.zero_le 1, fun _ => rfl⟩
  · -- a chunk that passes, with more to come
    rintro w out chunk rest w' es ⟨hquiet, hstarts, hempty⟩ hstep
    rcases enforcer_step w chunk with ⟨last, hend, -⟩ | ⟨w₁, hpass, hterminal, hstart⟩
    · rw [hend] at hstep
      nomatch hstep
    · rw [hpass] at hstep
      obtain ⟨rfl, hw⟩ := Prod.mk.inj hstep
      obtain rfl := Sum.inl.inj hw
      refine ⟨noTerminal_append.mpr ⟨hquiet, noTerminal_singleton.mpr hterminal⟩, ?_,
        nofun⟩
      by_cases hw : w = none
      · rw [hempty hw]
        exact List.countP_le_length
      · rw [runStarts_append, runStarts_singleton, hstart hw]
        exact hstarts
  · -- the last chunk
    rintro w out chunk rest r es ⟨hquiet, hstarts, -⟩ hstep
    rcases enforcer_step w chunk with ⟨last, hend, hterminal, hstart⟩ | ⟨w₁, hpass, -⟩
    · rw [hend] at hstep
      obtain ⟨rfl, -⟩ := Prod.mk.inj hstep
      refine ⟨?_, .inr (OneTerminal.append hquiet (oneTerminal_singleton hterminal))⟩
      rw [runStarts_append, runStarts_singleton, hstart]
      exact hstarts
    · rw [hpass] at hstep
      nomatch hstep
  · -- the source is done
    rintro w out ⟨hquiet, hstarts, -⟩
    change runStarts (out ++ []) ≤ 1 ∧ (NoTerminal (out ++ []) ∨ OneTerminal (out ++ []))
    rw [List.append_nil]
    exact ⟨hstarts, .inl hquiet⟩

end NexusCode.Resilience
