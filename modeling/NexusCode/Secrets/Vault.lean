/-
  The encrypted-file vault, and calls that update it at the same time.

  The vault is one JSON file with a record for each ref.  A call of `set` or `delete` reads all of
  it, changes one member and writes all of it back, so the file is a cell rewritten from copies.

    1. `assign`, `setRecord`, `removeRecord` — what a call does to the members it has read.
    2. `Vault.step`                          — calls that begin, read and write in any order.
    3. `Consistent`                          — where every record comes from, while calls run.
    4. **`vault_kept`**                      — no update is lost if none is overlooked.

  The members are those of an object with the standard prototype: `__proto__` cannot be assigned,
  and inherited names are never `undefined`.
-/
import NexusCode.Lib.Copies
import NexusCode.Lib.JsMap

namespace NexusCode.Secrets

open Lib

/-! ## The file -/

/-- `VaultRecord`, each part in base64. -/
structure VaultRecord where
  salt : String
  iv : String
  ct : String
  tag : String

/-- The own members of the parsed file. -/
abbrev Members := JsMap String VaultRecord

/-- The file, or its absence. -/
abbrev VaultFile := Option Members

/-- `readAll()`. -/
def readAll (file : VaultFile) : Members := file.getD .empty

/-- The properties every object inherits. -/
def inheritedNames : List String :=
  ["__proto__", "constructor", "hasOwnProperty", "isPrototypeOf", "propertyIsEnumerable",
    "toLocaleString", "toString", "valueOf", "__defineGetter__", "__defineSetter__",
    "__lookupGetter__", "__lookupSetter__"]

/-- `map[ref] === undefined`. -/
def isUndefined (map : Members) (ref : String) : Bool :=
  (map.get? ref).isNone && !inheritedNames.contains ref

/-- `map[ref] = record`; without an own member of that name, `__proto__` sets the prototype. -/
def assign (map : Members) (ref : String) (record : VaultRecord) : Members :=
  if ref = "__proto__" ∧ map.get? ref = none then map else map.set ref record

/-- The rest of `set(ref, value)` once the file is read: the record is assigned, and all is
    written. -/
def setRecord (ref : String) (record : VaultRecord) (file : VaultFile) : VaultFile :=
  some (assign (readAll file) ref record)

/-- The rest of `delete(ref)` for a ref that is not undefined: an empty vault is removed. -/
def removeRecord (ref : String) (file : VaultFile) : VaultFile :=
  let rest := (readAll file).delete ref
  if rest.entries.isEmpty then none else some rest

/-- The record of a ref. -/
def recordOf (file : VaultFile) (ref : String) : Option VaultRecord := (readAll file).get? ref

theorem recordOf_setRecord (ref r : String) (record : VaultRecord) (file : VaultFile) :
    recordOf (setRecord ref record file) r =
      if ref = r ∧ ¬ (ref = "__proto__" ∧ recordOf file ref = none) then some record
      else recordOf file r := by
  show (assign (readAll file) ref record).get? r = _
  unfold assign recordOf
  by_cases hproto : ref = "__proto__" ∧ (readAll file).get? ref = none
  · rw [if_pos hproto, if_neg fun h => h.2 hproto]
  · rw [if_neg hproto, JsMap.get?_set]
    by_cases hr : ref = r
    · rw [if_pos hr, if_pos ⟨hr, hproto⟩]
    · rw [if_neg hr, if_neg fun h => hr h.1]

theorem recordOf_removeRecord (ref r : String) (file : VaultFile) :
    recordOf (removeRecord ref file) r = if ref = r then none else recordOf file r := by
  have hrest : recordOf (removeRecord ref file) r = ((readAll file).delete ref).get? r := by
    unfold removeRecord recordOf
    dsimp only
    split
    · rename_i hempty
      show none = JsMap.lookup r ((readAll file).delete ref).entries
      rw [List.isEmpty_iff.mp hempty]
      rfl
    · rfl
  rw [hrest, JsMap.get?_delete]
  rfl

/-! ## Calls -/

/-- A call; the record of a `set` is encrypted before the file is read. -/
inductive VaultOp where
  | set (ref : String) (record : VaultRecord)
  | delete (ref : String)

namespace VaultOp

/-- The ref of a call. -/
def ref : VaultOp → String
  | set ref _ => ref
  | delete ref => ref

/-- What a call writes, from what it has read. -/
def apply : VaultOp → VaultFile → VaultFile
  | set ref record => setRecord ref record
  | delete ref => removeRecord ref

/-- What a call does to the records. -/
def effect (op : VaultOp) (records : String → Option VaultRecord) : String → Option VaultRecord :=
  fun r =>
    match op with
    | set ref record =>
      if ref = r ∧ ¬ (ref = "__proto__" ∧ records ref = none) then some record else records r
    | delete ref => if ref = r then none else records r

/-- A call that finds nothing to delete ends without a write. -/
def endsEarly (op : VaultOp) (file : VaultFile) : Bool :=
  match op with
  | set _ _ => false
  | delete ref => isUndefined (readAll file) ref

end VaultOp

/-- How far a call is. -/
inductive Phase where
  | started
  | read
  | completed
deriving DecidableEq

/-- A call, with the calls that had completed when it began. -/
structure Call where
  op : VaultOp
  after : List Nat
  phase : Phase

namespace Vault

/-- The file as a cell that calls rewrite from what they have read. -/
def protocol : Copies.Protocol VaultFile VaultFile VaultOp (String → Option VaultRecord) where
  load := id
  save := id
  change := VaultOp.apply
  view := recordOf
  effect := VaultOp.effect
  view_change op file := by
    funext r
    cases op with
    | set ref record => exact recordOf_setRecord ref r record file
    | delete ref => exact recordOf_removeRecord ref r file
  view_load_save _ := rfl

/-- The file and the calls, of one process or several. -/
structure State where
  cell : Copies.Cell Nat VaultFile VaultFile
  calls : Nat → Option Call
  completed : List Nat

/-- What happens to a call. -/
inductive Event where
  | begins (call : Nat) (op : VaultOp)
  | reads (call : Nat)
  | writes (call : Nat)

/-- The file before any call. -/
def start (file : VaultFile) : State := ⟨⟨file, fun _ => none⟩, fun _ => none, []⟩

/-- The file of a state. -/
def State.file (s : State) : VaultFile := s.cell.value

/-- A call goes on to a phase. -/
def State.goesTo (s : State) (i : Nat) (c : Call) (phase : Phase) : State :=
  { s with
    calls := Function.update s.calls i (some { c with phase })
    completed := if phase = .completed then s.completed ++ [i] else s.completed }

/-- One step; an event that does not fit the phase of its call changes nothing. -/
def step (s : State) : Event → State
  | .begins i op =>
    match s.calls i with
    | some _ => s
    | none => { s with calls := Function.update s.calls i (some ⟨op, s.completed, .started⟩) }
  | .reads i =>
    match s.calls i with
    | some c =>
      if c.phase = .started then
        if c.op.endsEarly s.file then s.goesTo i c .completed
        else { s with cell := (Copies.step protocol s.cell (.read i)).2 }.goesTo i c .read
      else s
    | none => s
  | .writes i =>
    match s.calls i with
    | some c =>
      if c.phase = .read then
        { s with cell := (Copies.step protocol s.cell (.write i c.op)).2 }.goesTo i c .completed
      else s
    | none => s

/-- The vault as a machine. -/
def machine : Machine State Event Unit := ⟨fun s event => ((), step s event)⟩

/-- All calls have completed. -/
def Settled (s : State) : Prop := ∀ i c, s.calls i = some c → c.phase = .completed

/-- **No update is lost.**  Every record is that of a `set` which no `delete` of its ref followed (or
    was there at the start, and has not been deleted); a ref is there if some `set` of it began after
    every `delete` of it had completed, or if it was there at the start and nothing deleted it. -/
structure Kept (initial : VaultFile) (s : State) : Prop where
  origin : ∀ ref record, recordOf s.file ref = some record →
    (∃ i c, s.calls i = some c ∧ c.op = .set ref record ∧
      ∀ d c', s.calls d = some c' → c'.op = .delete ref → i ∉ c'.after) ∨
    (recordOf initial ref = some record ∧
      ∀ d c', s.calls d = some c' → c'.op ≠ .delete ref)
  present : ∀ ref,
    (∃ i c record, s.calls i = some c ∧ c.op = .set ref record ∧
      ∀ d c', s.calls d = some c' → c'.op = .delete ref → d ∈ c.after) ∨
    (recordOf initial ref ≠ none ∧ ∀ d c', s.calls d = some c' → c'.op ≠ .delete ref) →
    recordOf s.file ref ≠ none

/-! ## The invariant -/

/-- A call that writes has overlooked nothing: what it has read agrees with the file about all other
    refs.  And what it sets can be set. -/
def Current (s : State) : Event → Prop
  | .writes i => ∀ c, s.calls i = some c → c.phase = .read →
      (∀ copy, s.cell.copies i = some copy → ∀ r, r ≠ c.op.ref → recordOf copy r = recordOf s.file r)
        ∧ ∀ record, c.op ≠ .set "__proto__" record
  | _ => True

/-- What holds while calls run. -/
structure Consistent (initial : VaultFile) (s : State) : Prop where
  /-- Every record is that of a completed `set`, or of the start; a `delete` that has begun later is
      still running. -/
  origin : ∀ ref record, recordOf s.file ref = some record →
    (∃ i c, s.calls i = some c ∧ c.op = .set ref record ∧ c.phase = .completed ∧
      ∀ d c', s.calls d = some c' → c'.op = .delete ref → i ∈ c'.after → c'.phase ≠ .completed) ∨
    (recordOf initial ref = some record ∧
      ∀ d c', s.calls d = some c' → c'.op = .delete ref → c'.phase ≠ .completed)
  present : ∀ ref,
    (∃ i c record, s.calls i = some c ∧ c.op = .set ref record ∧ c.phase = .completed ∧
      ∀ d c', s.calls d = some c' → c'.op = .delete ref → d ∈ c.after) ∨
    (recordOf initial ref ≠ none ∧ ∀ d c', s.calls d = some c' → c'.op ≠ .delete ref) →
    recordOf s.file ref ≠ none
  /-- Completed calls are completed. -/
  completed : ∀ i ∈ s.completed, ∃ c, s.calls i = some c ∧ c.phase = .completed
  after : ∀ d c, s.calls d = some c → ∀ i ∈ c.after, ∃ c', s.calls i = some c' ∧
    c'.phase = .completed
  /-- A call that has read holds a copy. -/
  copies : ∀ i c, s.calls i = some c → c.phase = .read → ∃ copy, s.cell.copies i = some copy

variable {initial : VaultFile} {s s' : State}

/-- How the calls of a state go on while no record changes. -/
structure Progress (s s' : State) : Prop where
  same : recordOf s'.file = recordOf s.file
  kept : ∀ i c, s.calls i = some c → ∃ c', s'.calls i = some c' ∧ c'.op = c.op ∧
    c'.after = c.after ∧ (c.phase = .completed → c'.phase = .completed)
  /-- A call that completes without a write finds nothing to delete; a new call knows what has
      completed. -/
  from_old : ∀ i c', s'.calls i = some c' →
    (∃ c, s.calls i = some c ∧ c'.op = c.op ∧ c'.after = c.after ∧ (c'.phase = .completed →
      c.phase = .completed ∨ ∃ ref, c.op = .delete ref ∧ recordOf s.file ref = none)) ∨
    (c'.phase = .started ∧ c'.after = s.completed)

/-- A record has the origin that `Consistent` asks for. -/
def Originates (initial : VaultFile) (s : State) (ref : String) (record : VaultRecord) : Prop :=
  (∃ i c, s.calls i = some c ∧ c.op = .set ref record ∧ c.phase = .completed ∧
    ∀ d c', s.calls d = some c' → c'.op = .delete ref → i ∈ c'.after → c'.phase ≠ .completed) ∨
  (recordOf initial ref = some record ∧
    ∀ d c', s.calls d = some c' → c'.op = .delete ref → c'.phase ≠ .completed)

/-- A ref must be there. -/
def Outlasts (initial : VaultFile) (s : State) (ref : String) : Prop :=
  (∃ i c record, s.calls i = some c ∧ c.op = .set ref record ∧ c.phase = .completed ∧
    ∀ d c', s.calls d = some c' → c'.op = .delete ref → d ∈ c.after) ∨
  (recordOf initial ref ≠ none ∧ ∀ d c', s.calls d = some c' → c'.op ≠ .delete ref)

/-- The records keep their origin while calls go on without a write. -/
theorem Progress.origin (h : Progress s s') (hs : Consistent initial s) (ref : String)
    (record : VaultRecord) (hrecord : recordOf s'.file ref = some record) :
    Originates initial s' ref record := by
  rw [h.same] at hrecord
  have hrunning : ∀ d c', s'.calls d = some c' → c'.op = .delete ref → c'.phase = .completed →
      ∃ c, s.calls d = some c ∧ c.op = .delete ref ∧ c.after = c'.after ∧
        c.phase = .completed := by
    intro d c' hd hop hphase
    rcases h.from_old d c' hd with ⟨c, hc, hsame, hafter, hdone⟩ | ⟨hstarted, -⟩
    · rcases hdone hphase with hdone | ⟨ref', hdelete, hnone⟩
      · exact ⟨c, hc, hsame ▸ hop, hafter.symm, hdone⟩
      · rw [← hsame, hop] at hdelete
        obtain rfl := VaultOp.delete.inj hdelete
        rw [hrecord] at hnone
        nomatch hnone
    · rw [hphase] at hstarted
      nomatch hstarted
  rcases hs.origin ref record hrecord with ⟨i, c, hi, hop, hphase, hdeletes⟩ | ⟨hinitial, hdeletes⟩
  · obtain ⟨c', hi', hop', -, hphase'⟩ := h.kept i c hi
    refine .inl ⟨i, c', hi', hop'.trans hop, hphase' hphase, fun d e hd hdelete hafter hdone => ?_⟩
    obtain ⟨e', hd', hdelete', hafter', hdone'⟩ := hrunning d e hd hdelete hdone
    exact hdeletes d e' hd' hdelete' (hafter' ▸ hafter) hdone'
  · refine .inr ⟨hinitial, fun d e hd hdelete hdone => ?_⟩
    obtain ⟨e', hd', hdelete', -, hdone'⟩ := hrunning d e hd hdelete hdone
    exact hdeletes d e' hd' hdelete' hdone'

theorem Progress.present (h : Progress s s') (hs : Consistent initial s) (ref : String)
    (href : Outlasts initial s' ref) :
    recordOf s'.file ref ≠ none := by
  rw [h.same]
  refine hs.present ref ?_
  rcases href with ⟨i, c', record, hi, hop, hphase, hdeletes⟩ | ⟨hinitial, hdeletes⟩
  · rcases h.from_old i c' hi with ⟨c, hc, hsame, hafter, hdone⟩ | ⟨hstarted, -⟩
    · have hset : c.op = .set ref record := hsame ▸ hop
      have hcompleted : c.phase = .completed := by
        rcases hdone hphase with hdone | ⟨ref', hdelete, -⟩
        · exact hdone
        · rw [hset] at hdelete
          nomatch hdelete
      refine .inl ⟨i, c, record, hc, hset, hcompleted, fun d e hd hdelete => ?_⟩
      obtain ⟨e', hd', hop', -, -⟩ := h.kept d e hd
      exact hafter ▸ hdeletes d e' hd' (hop'.trans hdelete)
    · rw [hphase] at hstarted
      nomatch hstarted
  · refine .inr ⟨hinitial, fun d e hd hdelete => ?_⟩
    obtain ⟨e', hd', hop', -, -⟩ := h.kept d e hd
    exact hdeletes d e' hd' (hop'.trans hdelete)

theorem Progress.after (h : Progress s s') (hs : Consistent initial s) (d : Nat) (c : Call)
    (hd : s'.calls d = some c) (i : Nat) (hi : i ∈ c.after) :
    ∃ c', s'.calls i = some c' ∧ c'.phase = .completed := by
  have hold : ∃ c', s.calls i = some c' ∧ c'.phase = .completed := by
    rcases h.from_old d c hd with ⟨c', hc', -, hafter, -⟩ | ⟨-, hafter⟩
    · exact hs.after d c' hc' i (hafter ▸ hi)
    · exact hs.completed i (hafter ▸ hi)
  obtain ⟨c', hc', hphase⟩ := hold
  obtain ⟨e, he, -, -, hdone⟩ := h.kept i c' hc'
  exact ⟨e, he, hdone hphase⟩

theorem goesTo_calls (i j : Nat) (c : Call) (phase : Phase) :
    (s.goesTo i c phase).calls j = if j = i then some { c with phase } else s.calls j := by
  show Function.update s.calls i _ j = _
  rw [Function.update_apply]

theorem mem_goesTo_completed {i j : Nat} {c : Call} {phase : Phase}
    (h : j ∈ (s.goesTo i c phase).completed) : j ∈ s.completed ∨ (j = i ∧ phase = .completed) := by
  unfold State.goesTo at h
  dsimp only at h
  split at h
  · rename_i hphase
    rcases List.mem_append.mp h with h | h
    · exact .inl h
    · exact .inr ⟨List.mem_singleton.mp h, hphase⟩
  · exact .inl h

theorem consistent_begins (hs : Consistent initial s) (i : Nat) (op : VaultOp) :
    Consistent initial (step s (.begins i op)) := by
  unfold step
  dsimp only
  split
  · exact hs
  · rename_i hnone
    have hcalls : ∀ j, (Function.update s.calls i (some ⟨op, s.completed, .started⟩)) j =
        if j = i then some ⟨op, s.completed, .started⟩ else s.calls j := fun j =>
      Function.update_apply ..
    have hkept : ∀ j c, s.calls j = some c →
        Function.update s.calls i (some ⟨op, s.completed, .started⟩) j = some c := by
      intro j c hj
      rw [hcalls, if_neg (by rintro rfl; rw [hnone] at hj; nomatch hj), hj]
    have hprogress : Progress s
        { s with calls := Function.update s.calls i (some ⟨op, s.completed, .started⟩) } := by
      refine ⟨rfl, fun j c hj => ⟨c, hkept j c hj, rfl, rfl, id⟩, fun j c hj => ?_⟩
      dsimp only at hj
      rw [hcalls] at hj
      split at hj
      · obtain rfl := Option.some.inj hj
        exact .inr ⟨rfl, rfl⟩
      · exact .inl ⟨c, hj, rfl, rfl, .inl⟩
    refine ⟨hprogress.origin hs, hprogress.present hs, fun j hj => ?_, hprogress.after hs,
      fun j c hj hphase => ?_⟩
    · obtain ⟨c, hc, hphase⟩ := hs.completed j hj
      exact ⟨c, hkept j c hc, hphase⟩
    · dsimp only at hj
      rw [hcalls] at hj
      split at hj
      · obtain rfl := Option.some.inj hj
        nomatch hphase
      · exact hs.copies j c hj hphase

theorem consistent_reads (hs : Consistent initial s) (i : Nat) :
    Consistent initial (step s (.reads i)) := by
  unfold step
  dsimp only
  split
  · rename_i c hc
    split
    · rename_i hstarted
      have hprogress : ∀ (cell : Copies.Cell Nat VaultFile VaultFile) (phase : Phase),
          cell.value = s.cell.value →
          (phase = .completed → ∃ ref, c.op = .delete ref ∧ recordOf s.file ref = none) →
          Progress s ({ s with cell }.goesTo i c phase) := by
        intro cell phase hcell hdone
        refine ⟨?_, fun j e hj => ?_, fun j e hj => ?_⟩
        · show recordOf cell.value = recordOf s.cell.value
          rw [hcell]
        · rw [goesTo_calls]
          by_cases hji : j = i
          · subst hji
            obtain rfl := Option.some.inj (hc.symm.trans hj)
            rw [if_pos rfl]
            refine ⟨_, rfl, rfl, rfl, fun h => ?_⟩
            rw [hstarted] at h
            nomatch h
          · rw [if_neg hji]
            exact ⟨e, hj, rfl, rfl, id⟩
        · rw [goesTo_calls] at hj
          split at hj
          · rename_i hji
            subst hji
            obtain rfl := Option.some.inj hj
            exact .inl ⟨c, hc, rfl, rfl, fun h => .inr (hdone h)⟩
          · exact .inl ⟨e, hj, rfl, rfl, .inl⟩
      have hcompleted : ∀ {cell : Copies.Cell Nat VaultFile VaultFile} {phase : Phase},
          Progress s ({ s with cell }.goesTo i c phase) →
          ∀ j ∈ ({ s with cell }.goesTo i c phase).completed,
            ∃ e, ({ s with cell }.goesTo i c phase).calls j = some e ∧ e.phase = .completed := by
        intro cell phase hgoes j hj
        rcases mem_goesTo_completed hj with hj | ⟨rfl, hphase⟩
        · obtain ⟨e, he, hphase⟩ := hs.completed j hj
          obtain ⟨e', he', -, -, hdone⟩ := hgoes.kept j e he
          exact ⟨e', he', hdone hphase⟩
        · exact ⟨{ c with phase }, by rw [goesTo_calls, if_pos rfl], hphase⟩
      split
      · rename_i hends
        have hgoes := hprogress s.cell .completed rfl fun _ => by
          cases hop : c.op with
          | set ref record =>
            rw [hop] at hends
            nomatch hends
          | delete ref =>
            rw [hop] at hends
            exact ⟨ref, rfl, Option.isNone_iff_eq_none.mp (Bool.and_eq_true _ _ ▸ hends).1⟩
        refine ⟨hgoes.origin hs, hgoes.present hs, hcompleted hgoes, hgoes.after hs,
          fun j e hj hphase => ?_⟩
        rw [goesTo_calls] at hj
        split at hj
        · obtain rfl := Option.some.inj hj
          nomatch hphase
        · exact hs.copies j e hj hphase
      · have hgoes := hprogress (Copies.step protocol s.cell (.read i)).2 .read rfl
          nofun
        refine ⟨hgoes.origin hs, hgoes.present hs, hcompleted hgoes, hgoes.after hs,
          fun j e hj hphase => ?_⟩
        show ∃ copy, Function.update s.cell.copies i _ j = some copy
        rw [Function.update_apply]
        split
        · exact ⟨_, rfl⟩
        · rename_i hji
          rw [goesTo_calls, if_neg hji] at hj
          exact hs.copies j e hj hphase
    · exact hs
  · exact hs

/-- What a current write does to the file: its change, applied to the file itself. -/
theorem recordOf_writes {i : Nat} {c : Call} (hs : Consistent initial s) (hc : s.calls i = some c)
    (hphase : c.phase = .read) (hcurrent : Current s (.writes i)) :
    recordOf (Copies.step protocol s.cell (.write i c.op)).2.value =
      c.op.effect (recordOf s.file) := by
  obtain ⟨copy, hcopy⟩ := hs.copies i c hc hphase
  obtain ⟨hagree, hproto⟩ := hcurrent c hc hphase
  have hwrite : recordOf (Copies.step protocol s.cell (.write i c.op)).2.value =
      c.op.effect (recordOf copy) := Copies.seen_write protocol c.op hcopy
  rw [hwrite]
  funext r
  by_cases hr : r = c.op.ref
  · subst hr
    cases hop : c.op with
    | delete ref =>
      unfold VaultOp.effect VaultOp.ref
      dsimp only
      rw [if_pos rfl, if_pos rfl]
    | set ref record =>
      have hne : ref ≠ "__proto__" := fun h => hproto record (h ▸ hop)
      unfold VaultOp.effect VaultOp.ref
      dsimp only
      rw [if_pos ⟨rfl, fun h => hne h.1⟩, if_pos ⟨rfl, fun h => hne h.1⟩]
  · have hsame := hagree copy hcopy r hr
    cases hop : c.op with
    | delete ref =>
      rw [hop] at hr
      unfold VaultOp.effect
      dsimp only
      rw [if_neg fun h => hr h.symm, if_neg fun h => hr h.symm, hsame]
    | set ref record =>
      rw [hop] at hr
      unfold VaultOp.effect
      dsimp only
      rw [if_neg fun h => hr h.1.symm, if_neg fun h => hr h.1.symm, hsame]

theorem effect_of_ne {op : VaultOp} {r : String} (records : String → Option VaultRecord)
    (h : r ≠ op.ref) : op.effect records r = records r := by
  cases op with
  | set ref record => exact if_neg fun hr => h hr.1.symm
  | delete ref => exact if_neg fun hr => h hr.symm

/-- A call has written: it completes, and its change is made to the file. -/
structure Written (i : Nat) (c : Call) (s s' : State) : Prop where
  call : s.calls i = some c
  reading : c.phase = .read
  settable : ∀ record, c.op ≠ .set "__proto__" record
  records : recordOf s'.file = c.op.effect (recordOf s.file)
  calls : ∀ j, s'.calls j = if j = i then some { c with phase := .completed } else s.calls j

namespace Written

variable {i : Nat} {c : Call}

/-- The call had not completed before, so none began after it. -/
theorem late (h : Written i c s s') (hs : Consistent initial s) {d : Nat} {e : Call}
    (hd : s.calls d = some e) : i ∉ e.after := by
  intro hi
  obtain ⟨c', hc', hdone⟩ := hs.after d e hd i hi
  obtain rfl := Option.some.inj (h.call.symm.trans hc')
  rw [h.reading] at hdone
  nomatch hdone

theorem own (h : Written i c s s') : s'.calls i = some { c with phase := .completed } := by
  rw [h.calls, if_pos rfl]

theorem from_old (h : Written i c s s') {d : Nat} {e : Call} (hd : s'.calls d = some e) :
    ∃ e', s.calls d = some e' ∧ e.op = e'.op ∧ e.after = e'.after ∧
      (d ≠ i → e.phase = e'.phase) := by
  rw [h.calls] at hd
  split at hd
  · rename_i hdi
    subst hdi
    obtain rfl := Option.some.inj hd
    exact ⟨c, h.call, rfl, rfl, fun h => absurd rfl h⟩
  · exact ⟨e, hd, rfl, rfl, fun _ => rfl⟩

theorem kept (h : Written i c s s') {d : Nat} {e : Call} (hd : s.calls d = some e) :
    ∃ e', s'.calls d = some e' ∧ e'.op = e.op := by
  rw [h.calls]
  split
  · rename_i hdi
    subst hdi
    obtain rfl := Option.some.inj (h.call.symm.trans hd)
    exact ⟨_, rfl, rfl⟩
  · exact ⟨e, hd, rfl⟩

theorem completed (h : Written i c s s') {j : Nat}
    (hj : ∃ e, s.calls j = some e ∧ e.phase = .completed) :
    ∃ e, s'.calls j = some e ∧ e.phase = .completed := by
  obtain ⟨e, he, hphase⟩ := hj
  rw [h.calls]
  split
  · exact ⟨_, rfl, rfl⟩
  · exact ⟨e, he, hphase⟩

theorem other (h : Written i c s s') {d : Nat} {e : Call} (hd : s'.calls d = some e)
    (href : e.op.ref ≠ c.op.ref) : d ≠ i := by
  rintro rfl
  obtain ⟨e', hd', hop, -, -⟩ := h.from_old hd
  obtain rfl := Option.some.inj (h.call.symm.trans hd')
  exact href (congrArg VaultOp.ref hop)

theorem recordOf_set (h : Written i c s s') {ref : String} {record : VaultRecord}
    (hop : c.op = .set ref record) : recordOf s'.file ref = some record := by
  have hne : ref ≠ "__proto__" := fun heq => h.settable record (heq ▸ hop)
  rw [h.records, hop]
  exact if_pos ⟨rfl, fun hproto => hne hproto.1⟩

theorem recordOf_delete (h : Written i c s s') {ref : String} (hop : c.op = .delete ref) :
    recordOf s'.file ref = none := by
  rw [h.records, hop]
  exact if_pos rfl

theorem recordOf_other (h : Written i c s s') {ref : String} (href : ref ≠ c.op.ref) :
    recordOf s'.file ref = recordOf s.file ref := by
  rw [h.records]
  exact effect_of_ne _ href

/-- A write becomes the origin of its own record and keeps that of the others. -/
theorem origin (h : Written i c s s') (hs : Consistent initial s) (ref : String)
    (record : VaultRecord) (hrecord : recordOf s'.file ref = some record) :
    Originates initial s' ref record := by
  by_cases href : ref = c.op.ref
  · subst href
    cases hop : c.op with
    | delete ref =>
      rw [hop] at hrecord
      exact nomatch (h.recordOf_delete hop).symm.trans hrecord
    | set ref record' =>
      rw [hop] at hrecord
      obtain rfl := Option.some.inj ((h.recordOf_set hop).symm.trans hrecord)
      refine .inl ⟨i, _, h.own, hop, rfl, fun d e hd _ hi => ?_⟩
      obtain ⟨e', hd', -, hsame, -⟩ := h.from_old hd
      exact absurd (hsame ▸ hi) (h.late hs hd')
  · rw [h.recordOf_other href] at hrecord
    have hdelete : ∀ d e, s'.calls d = some e → e.op = .delete ref →
        ∃ e', s.calls d = some e' ∧ e'.op = .delete ref ∧ e.after = e'.after ∧
          e.phase = e'.phase := by
      intro d e hd hop
      have hdi : d ≠ i := h.other hd (by rw [hop]; exact href)
      obtain ⟨e', hd', hop', hafter, hphase⟩ := h.from_old hd
      exact ⟨e', hd', hop' ▸ hop, hafter, hphase hdi⟩
    rcases hs.origin ref record hrecord with ⟨j, e, hj, hop, hphase, hdeletes⟩ | ⟨hinit, hdeletes⟩
    · have hji : j ≠ i := by
        rintro rfl
        obtain rfl := Option.some.inj (h.call.symm.trans hj)
        rw [hop] at href
        exact href rfl
      refine .inl ⟨j, e, by rw [h.calls, if_neg hji, hj], hop, hphase, fun d e' hd hdel hmem => ?_⟩
      obtain ⟨e'', hd', hop', hafter, hphase'⟩ := hdelete d e' hd hdel
      rw [hphase']
      exact hdeletes d e'' hd' hop' (hafter ▸ hmem)
    · refine .inr ⟨hinit, fun d e' hd hdel => ?_⟩
      obtain ⟨e'', hd', hop', -, hphase'⟩ := hdelete d e' hd hdel
      rw [hphase']
      exact hdeletes d e'' hd' hop'

theorem present (h : Written i c s s') (hs : Consistent initial s) (ref : String)
    (href : Outlasts initial s' ref) :
    recordOf s'.file ref ≠ none := by
  by_cases hown : ref = c.op.ref
  · subst hown
    cases hop : c.op with
    | set ref record =>
      rw [show (VaultOp.set ref record).ref = ref from rfl, h.recordOf_set hop]
      exact Option.some_ne_none record
    | delete ref =>
      -- its `delete` is later than any `set` that has completed
      exfalso
      rw [hop] at href
      rcases href with ⟨j, e, record, hj, -, -, hdeletes⟩ | ⟨-, hdeletes⟩
      · obtain ⟨e', hj', -, hsame, -⟩ := h.from_old hj
        exact h.late hs hj' (hsame ▸ hdeletes i _ h.own hop)
      · exact hdeletes i _ h.own hop
  · rw [h.recordOf_other hown]
    refine hs.present ref ?_
    rcases href with ⟨j, e, record, hj, hset, hphase, hdeletes⟩ | ⟨hinit, hdeletes⟩
    · have hji : j ≠ i := h.other hj (by rw [hset]; exact hown)
      obtain ⟨e', hj', hop, hsame, hphase'⟩ := h.from_old hj
      refine .inl ⟨j, e', record, hj', hop ▸ hset, hphase' hji ▸ hphase, fun d e'' hd hdelete => ?_⟩
      obtain ⟨e₁, hd', hop'⟩ := h.kept hd
      exact hsame ▸ hdeletes d e₁ hd' (hop'.trans hdelete)
    · refine .inr ⟨hinit, fun d e'' hd hdelete => ?_⟩
      obtain ⟨e₁, hd', hop'⟩ := h.kept hd
      exact hdeletes d e₁ hd' (hop'.trans hdelete)

end Written

theorem consistent_writes (hs : Consistent initial s) (i : Nat)
    (hcurrent : Current s (.writes i)) : Consistent initial (step s (.writes i)) := by
  unfold step
  dsimp only
  split
  · rename_i c hc
    split
    · rename_i hread
      have hwritten : Written i c s
          ({ s with cell := (Copies.step protocol s.cell (.write i c.op)).2 }.goesTo i c
            .completed) :=
        ⟨hc, hread, (hcurrent c hc hread).2, recordOf_writes hs hc hread hcurrent,
          fun j => goesTo_calls ..⟩
      refine ⟨hwritten.origin hs, hwritten.present hs, fun j hj => ?_, fun d e hd j hj => ?_,
        fun j e hj hphase => ?_⟩
      · rcases mem_goesTo_completed hj with hj | ⟨rfl, -⟩
        · exact hwritten.completed (hs.completed j hj)
        · exact ⟨_, hwritten.own, rfl⟩
      · obtain ⟨e', hd', -, hsame, -⟩ := hwritten.from_old hd
        exact hwritten.completed (hs.after d e' hd' j (hsame ▸ hj))
      · have hji : j ≠ i := by
          rintro rfl
          rw [hwritten.own] at hj
          obtain rfl := Option.some.inj hj
          nomatch hphase
        rw [hwritten.calls, if_neg hji] at hj
        obtain ⟨copy, hcopy⟩ := hs.copies i c hc hread
        obtain ⟨copy', hcopy'⟩ := hs.copies j e hj hphase
        refine ⟨copy', ?_⟩
        show (Copies.step protocol s.cell (.write i c.op)).2.copies j = some copy'
        rw [Copies.step, hcopy]
        exact (Function.update_of_ne hji _ _).trans hcopy'
    · exact hs
  · exact hs

/-- **One step** keeps the origin of every record, if it overlooks nothing. -/
theorem consistent_step (hs : Consistent initial s) (event : Event) (hcurrent : Current s event) :
    Consistent initial (step s event) := by
  cases event with
  | begins i op => exact consistent_begins hs i op
  | reads i => exact consistent_reads hs i
  | writes i => exact consistent_writes hs i hcurrent

theorem consistent_start (file : VaultFile) : Consistent file (start file) where
  origin _ _ h := .inr ⟨h, fun _ _ => nofun⟩
  present _ h := by
    rcases h with ⟨_, _, _, hi, -⟩ | ⟨hpresent, -⟩
    · nomatch hi
    · exact hpresent
  completed _ h := nomatch h
  after _ _ h := nomatch h
  copies _ _ h := nomatch h

/-- Once all calls have completed, nothing is left of what was running. -/
theorem Consistent.kept (hs : Consistent initial s) (hsettled : Settled s) : Kept initial s := by
  constructor
  · intro ref record hrecord
    rcases hs.origin ref record hrecord with ⟨i, c, hi, hop, -, hdeletes⟩ | ⟨hinit, hdeletes⟩
    · exact .inl ⟨i, c, hi, hop, fun d e hd hdelete hmem =>
        hdeletes d e hd hdelete hmem (hsettled d e hd)⟩
    · exact .inr ⟨hinit, fun d e hd hdelete => hdeletes d e hd hdelete (hsettled d e hd)⟩
  · intro ref href
    refine hs.present ref ?_
    rcases href with ⟨i, c, record, hi, hop, hdeletes⟩ | hinit
    · exact .inl ⟨i, c, record, hi, hop, hsettled i c hi, hdeletes⟩
    · exact .inr hinit

/-- **Vault updates are not lost** in the runs in which every call that writes has overlooked nothing
    since it read the file. -/
theorem vault_kept (file : VaultFile) (events : List Event)
    (h : machine.Always Current (start file) events) :
    ∀ pre, pre <+: events → Settled (machine.run (start file) pre) →
      Kept file (machine.run (start file) pre) := by
  rintro pre ⟨rest, rfl⟩ hsettled
  have hpre := ((Machine.always_append machine).mp h).1
  exact (hpre.invariant (fun s event hs hcurrent => consistent_step hs event hcurrent)
    (consistent_start file)).kept hsettled

/-- A record. -/
def someRecord : VaultRecord := ⟨"c2FsdA==", "aXY=", "Y3Q=", "dGFn"⟩

/-- One call sets a secret while another finds nothing to delete. -/
def setBesideDelete : List Event :=
  [.begins 0 (.set "openai" someRecord), .begins 1 (.delete "gemini"), .reads 0, .reads 1,
    .writes 0]

theorem vault_kept_beside_delete : Kept none (machine.run (start none) setBesideDelete) := by
  refine vault_kept none setBesideDelete ⟨trivial, trivial, trivial, trivial, fun c hc _ => ?_,
    trivial⟩ setBesideDelete List.prefix_rfl ?_
  · obtain rfl := Option.some.inj hc
    constructor
    · intro copy hcopy r _
      obtain rfl := Option.some.inj hcopy
      rfl
    · intro record hop
      nomatch (VaultOp.set.inj hop).1
  · intro i c hc
    match i, hc with
    | 0, hc =>
      obtain rfl := Option.some.inj hc
      rfl
    | 1, hc =>
      obtain rfl := Option.some.inj hc
      rfl
    | _ + 2, hc => nomatch hc

/-- Two providers that store their secrets at the same time: the first secret is missing. -/
theorem secret_missing : ¬ ∀ (file : VaultFile) (events : List Event),
    Settled (machine.run (start file) events) → Kept file (machine.run (start file) events) := by
  intro h
  have hkept := h none [.begins 0 (.set "oauth:openai" someRecord),
    .begins 1 (.set "oauth:gemini" someRecord), .reads 0, .reads 1, .writes 0, .writes 1] ?_
  · refine hkept.present "oauth:openai" (.inl ⟨0, _, someRecord, rfl, rfl, ?_⟩) (by decide)
    intro d c hd hop
    match d, hd with
    | 0, hd =>
      obtain rfl := Option.some.inj hd
      nomatch hop
    | 1, hd =>
      obtain rfl := Option.some.inj hd
      nomatch hop
    | _ + 2, hd => nomatch hd
  · intro i c hc
    match i, hc with
    | 0, hc =>
      obtain rfl := Option.some.inj hc
      rfl
    | 1, hc =>
      obtain rfl := Option.some.inj hc
      rfl
    | _ + 2, hc => nomatch hc

end Vault

end NexusCode.Secrets
