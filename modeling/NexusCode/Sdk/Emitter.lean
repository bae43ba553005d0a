/-
  `sdk/src/emitter.ts`: one stream, replayed to any number of subscribers.

  The pump puts what comes from the source into a buffer, calls the listeners and wakes whoever waits.
  It ends when the source does, but also when a listener throws, and the rest is lost; and what the
  source throws is passed on only if it is truthy.

    1. `State`, `Event`         — the pump and its callers, who are run in any order.
    2. `expected`               — what the n-th call of a caller is to be answered.
    3. `Inv.step`               — what an event keeps, if no listener throws.
    4. **`served_of_quiet`**    — so all of a run is served; `falsy_failure`, where it is not.
-/
import NexusCode.Lib.Machine

namespace NexusCode.Sdk

open Lib List

/-- The answer to `next()`, or to `settled()`, which is given no items. -/
inductive Answer (T E : Type) where
  | item (value : T)
  | ended
  | threw (error : E)

/-- What is called. -/
inductive Kind where
  | subscribe
  | settled
deriving DecidableEq

/-- A generator of `subscribe()`, or a call of `settled()`: its place in the buffer, the calls it has
    yet to answer, whether it waits for the pump, and whether the generator has come to its end. -/
structure Caller (T E : Type) where
  kind : Kind
  i : Nat := 0
  calls : Nat
  parked : Bool := false
  finished : Bool := false
  answers : List (Answer T E) := []

/-- A `Broadcast`, what its source has yet to give, and its callers. -/
structure State (T E : Type) where
  buffer : List T := []
  done : Bool := false
  error : Option E := none
  rest : List T
  callers : List (Caller T E) := []

/-- What happens next: an item of the source, where `thrown` is what a listener throws at it; the end
    of the source; a new caller; a call of `next()`; a caller that runs until it answers or waits. -/
inductive Event (E : Type) where
  | item (thrown : Option E)
  | finish
  | subscribe
  | settled
  | next (caller : Nat)
  | resume (caller : Nat)

section Steps

variable {T E : Type}

/-- `wake()`. -/
def State.wake (s : State T E) : State T E :=
  { s with callers := s.callers.map fun c => { c with parked := false } }

/-- A call is answered. -/
def Caller.answer (c : Caller T E) (a : Answer T E) : Caller T E :=
  { c with calls := c.calls - 1, answers := c.answers ++ [a] }

/-- How a caller ends: with an error, or normally. -/
def final : Option E → Answer T E
  | some error => .threw error
  | none => .ended

variable (truthy : E → Bool)

/-- The loop of `subscribe()` and of `settled()`, up to the next answer or wait. -/
def Caller.resume (s : State T E) (c : Caller T E) : Caller T E :=
  if c.calls = 0 || c.parked then c
  else if c.finished then c.answer .ended
  else match c.kind, s.buffer[c.i]? with
    | .subscribe, some value => { c.answer (.item value) with i := c.i + 1 }
    | _, _ =>
      if s.done then { c.answer (final (s.error.filter truthy)) with finished := c.kind = .subscribe }
      else { c with parked := true }

/-- One caller is changed. -/
def State.change (s : State T E) (j : Nat) (f : Caller T E → Caller T E) : State T E :=
  { s with callers := s.callers.mapIdx fun k c => if k = j then f c else c }

/-- One event; `ending` is what the source throws in the end. -/
def step (ending : Option E) (s : State T E) : Event E → State T E
  | .item thrown =>
    match s.rest with
    | [] => s
    | value :: rest =>
      if s.done then s
      else match thrown with
        | none => { s with buffer := s.buffer ++ [value], rest }.wake
        | some error =>
          { s with buffer := s.buffer ++ [value], rest, error := some error, done := true }.wake
  | .finish =>
    if s.done || !s.rest.isEmpty then s else { s with error := ending, done := true }.wake
  | .subscribe => { s with callers := s.callers ++ [{ kind := .subscribe, calls := 0 }] }
  | .settled => { s with callers := s.callers ++ [{ kind := .settled, calls := 1 }] }
  | .next j => s.change j fun c => if c.kind = .subscribe then { c with calls := c.calls + 1 } else c
  | .resume j => s.change j (Caller.resume truthy s)

/-- The `Broadcast` of a source that ends so. -/
def broadcast (ending : Option E) : Machine (State T E) (Event E) Unit where
  step s event := ((), step truthy ending s event)

/-- A new `Broadcast`. -/
def start (items : List T) : State T E := { rest := items }

end Steps

/-! ## What is promised -/

section Served

variable {T E : Type} (items : List T) (ending : Option E)

/-- The answer to the n-th call: the items of the source, its end, and nothing behind it. -/
def expected : Kind → Nat → Answer T E
  | .settled, _ => final ending
  | .subscribe, n =>
    match items[n]? with
    | some value => .item value
    | none => if n = items.length then final ending else .ended

/-- Every call is answered as it should be, nobody waits for a pump that is done, and whoever is called
    then gives an answer. -/
structure Served (truthy : E → Bool) (s : State T E) : Prop where
  answers : ∀ c ∈ s.callers, c.answers = (range c.answers.length).map (expected items ending c.kind)
  awake : s.done = true → ∀ c ∈ s.callers, c.parked = false
  answered : s.done = true → ∀ c ∈ s.callers, 0 < c.calls →
    (c.resume truthy s).answers.length = c.answers.length + 1

/-- No listener throws, and what the source throws is truthy. -/
def Quiet (truthy : E → Bool) : Event E → Prop
  | .item thrown => thrown = none
  | .finish => ∀ error, ending = some error → truthy error = true
  | _ => True

/-- What is kept of a caller, where the pump has read so many items. -/
structure CallerInv (done : Bool) (read : Nat) (c : Caller T E) : Prop where
  answers : c.answers = (range c.answers.length).map (expected items ending c.kind)
  awake : c.parked = true → done = false
  reading : c.kind = .subscribe → c.finished = false → c.answers.length = c.i ∧ c.i ≤ read
  finished : c.finished = true → c.kind = .subscribe ∧ items.length < c.answers.length

/-- What is kept of a run. -/
structure Inv (truthy : E → Bool) (s : State T E) : Prop where
  items_eq : s.buffer ++ s.rest = items
  ended : s.done = true → s.rest = [] ∧ s.error.filter truthy = ending
  callers : ∀ c ∈ s.callers, CallerInv items ending s.done s.buffer.length c

variable {items ending} {truthy : E → Bool} {s : State T E}

theorem expected_item {n : Nat} {value : T} (h : items[n]? = some value) :
    expected items ending .subscribe n = .item value := by
  simp only [expected, h]

theorem expected_behind {n : Nat} (h : items.length ≤ n) : expected items ending .subscribe n =
    if n = items.length then final ending else .ended := by
  simp only [expected, getElem?_eq_none h]

variable {done : Bool} {read : Nat} {c : Caller T E}

theorem CallerInv.answer (h : CallerInv items ending done read c) {a : Answer T E}
    (ha : a = expected items ending c.kind c.answers.length) :
    c.answers ++ [a] =
      (range (c.answers ++ [a]).length).map (expected items ending c.kind) := by
  rw [length_append, length_singleton, range_succ, map_append, ← h.answers, ha]
  rfl

/-- What a change of the pump keeps of its callers, once they are awake. -/
theorem CallerInv.wake (h : CallerInv items ending done read c) {done' : Bool} {read' : Nat}
    (hread : read ≤ read') : CallerInv items ending done' read' { c with parked := false } where
  answers := h.answers
  awake hparked := nomatch hparked
  reading hkind hopen := (h.reading hkind hopen).imp id fun hle => Nat.le_trans hle hread
  finished := h.finished

/-- **A caller that is run** answers as it should, or waits for a pump that is not done. -/
theorem CallerInv.resume (hs : Inv items ending truthy s)
    (h : CallerInv items ending s.done s.buffer.length c) :
    CallerInv items ending s.done s.buffer.length (c.resume truthy s) := by
  unfold Caller.resume
  split
  · exact h
  rename_i hcalls
  simp only [Bool.or_eq_true, decide_eq_true_eq, not_or, Bool.not_eq_true] at hcalls
  obtain ⟨hcalls, hparked⟩ := hcalls
  have hawake : c.parked = true → s.done = false := fun h => nomatch hparked.symm.trans h
  split
  · -- behind the end
    rename_i hfinished
    obtain ⟨hkind, hbehind⟩ := h.finished hfinished
    refine ⟨h.answer ?_, hawake, fun _ h => (nomatch hfinished.symm.trans h), fun _ => ⟨hkind, ?_⟩⟩
    · rw [hkind, expected_behind (Nat.le_of_lt hbehind), if_neg (by omega)]
    · show items.length < (c.answers ++ [_]).length
      rw [length_append]
      omega
  rename_i hfinished
  rw [Bool.not_eq_true] at hfinished
  split
  · -- the next item of the buffer
    rename_i value hkind hvalue
    obtain ⟨hlength, -⟩ := h.reading hkind hfinished
    have hin := (List.getElem?_eq_some_iff.mp hvalue).1
    have hitem : items[c.i]? = some value := by
      rw [← hs.items_eq, getElem?_append_left hin, hvalue]
    refine ⟨h.answer ?_, hawake, fun _ _ => ⟨?_, hin⟩, fun h => nomatch hfinished.symm.trans h⟩
    · rw [hkind, hlength, expected_item hitem]
    · show (c.answers ++ [_]).length = c.i + 1
      rw [length_append, hlength]
      rfl
  · rename_i hnone
    split
    · -- the end
      rename_i hdone
      obtain ⟨hrest, herror⟩ := hs.ended hdone
      have hbuffer := hs.items_eq
      rw [hrest, append_nil] at hbuffer
      have hlast : c.kind = .subscribe → c.answers.length = items.length := by
        intro hkind
        obtain ⟨hlength, hle⟩ := h.reading hkind hfinished
        rw [hlength, ← hbuffer]
        refine Nat.le_antisymm hle (Nat.le_of_not_lt fun hlt => ?_)
        exact hnone _ hkind (getElem?_eq_getElem hlt)
      refine ⟨h.answer ?_, hawake, fun hkind h => absurd hkind (of_decide_eq_false h), fun h => ?_⟩
      · rw [herror]
        cases hkind : c.kind with
        | settled => rfl
        | subscribe => rw [hlast hkind, expected_behind (Nat.le_refl _), if_pos rfl]
      · have hkind := of_decide_eq_true h
        refine ⟨hkind, ?_⟩
        show items.length < (c.answers ++ [_]).length
        rw [length_append, hlast hkind]
        exact Nat.lt_succ_self _
    · rename_i hdone
      exact ⟨h.answers, fun _ => by simpa using hdone, h.reading, h.finished⟩

theorem Inv.wake {s' : State T E} (hs : Inv items ending truthy s)
    (hcallers : s'.callers = s.callers) (hbuffer : s.buffer.length ≤ s'.buffer.length)
    (hitems : s'.buffer ++ s'.rest = items)
    (hended : s'.done = true → s'.rest = [] ∧ s'.error.filter truthy = ending) :
    Inv items ending truthy s'.wake := by
  refine ⟨hitems, hended, fun c hc => ?_⟩
  change c ∈ s'.callers.map _ at hc
  rw [hcallers] at hc
  obtain ⟨c', hc', rfl⟩ := mem_map.mp hc
  exact (hs.callers c' hc').wake hbuffer

theorem Inv.change (hs : Inv items ending truthy s) (j : Nat) {f : Caller T E → Caller T E}
    (hf : ∀ c ∈ s.callers, CallerInv items ending s.done s.buffer.length (f c)) :
    Inv items ending truthy (s.change j f) := by
  refine ⟨hs.items_eq, hs.ended, fun c hc => ?_⟩
  obtain ⟨k, hk, rfl⟩ := mem_mapIdx.mp hc
  split
  · exact hf _ (getElem_mem hk)
  · exact hs.callers _ (getElem_mem hk)

theorem Inv.join (hs : Inv items ending truthy s)
    (hc : CallerInv items ending s.done s.buffer.length c) :
    Inv items ending truthy { s with callers := s.callers ++ [c] } :=
  ⟨hs.items_eq, hs.ended, forall_mem_append.mpr ⟨hs.callers, forall_mem_singleton.mpr hc⟩⟩

/-- **One event**, if no listener throws. -/
theorem Inv.step (hs : Inv items ending truthy s) {event : Event E}
    (hquiet : Quiet ending truthy event) : Inv items ending truthy (step truthy ending s event) := by
  cases event with
  | item thrown =>
    obtain rfl : thrown = none := hquiet
    cases hrest : s.rest with
    | nil => simpa only [Sdk.step, hrest] using hs
    | cons value rest =>
      simp only [Sdk.step, hrest]
      split
      · exact hs
      · rename_i hdone
        refine hs.wake rfl (by simp) ?_ fun h => absurd h hdone
        show s.buffer ++ [value] ++ rest = items
        rw [append_assoc, singleton_append, ← hrest]
        exact hs.items_eq
  | finish =>
    simp only [Sdk.step]
    split
    · exact hs
    · rename_i hopen
      simp only [Bool.or_eq_true, Bool.not_eq_true', not_or, Bool.not_eq_false, List.isEmpty_iff] at hopen
      refine hs.wake rfl (Nat.le_refl _) hs.items_eq fun _ => ⟨hopen.2, ?_⟩
      show ending.filter truthy = ending
      cases hending : ending with
      | none => rfl
      | some error => exact if_pos (hquiet error hending)
  | subscribe =>
    exact hs.join ⟨rfl, nofun, fun _ _ => ⟨rfl, Nat.zero_le _⟩, nofun⟩
  | settled => exact hs.join ⟨rfl, nofun, nofun, nofun⟩
  | next j =>
    refine hs.change j fun c hc => ?_
    have h := hs.callers c hc
    split
    · exact ⟨h.answers, h.awake, h.reading, h.finished⟩
    · exact h
  | resume j => exact hs.change j fun c hc => (hs.callers c hc).resume hs

theorem Inv.awake (hs : Inv items ending truthy s) (hdone : s.done = true) :
    ∀ c ∈ s.callers, c.parked = false := by
  intro c hc
  cases hparked : c.parked with
  | false => rfl
  | true => nomatch hdone.symm.trans ((hs.callers c hc).awake hparked)

theorem Inv.served (hs : Inv items ending truthy s) : Served items ending truthy s where
  answers c hc := (hs.callers c hc).answers
  awake := hs.awake
  answered hdone c hc hcalls := by
    unfold Caller.resume
    rw [hs.awake hdone c hc, hdone, if_neg (by simp; omega)]
    split
    · exact length_append
    · split <;> exact length_append

end Served

/-- **Everybody is served**, in every state of a run in which no listener throws and the source throws
    nothing falsy. -/
theorem served_of_quiet {T E : Type} (truthy : E → Bool) (items : List T) (ending : Option E)
    (events : List (Event E))
    (hquiet : (broadcast truthy ending).Always (fun _ => Quiet ending truthy)
      (start items : State T E) events) :
    Served items ending truthy ((broadcast truthy ending).run (start items) events) := by
  refine Inv.served (hquiet.invariant (I := Inv items ending truthy) (fun _ _ hs => hs.step) ?_)
  exact ⟨rfl, nofun, nofun⟩

theorem served_of_quiet_one : Served [7] none (· ≠ (0 : Int))
    ((broadcast (fun e : Int => e ≠ 0) none).run (start [7])
      [.subscribe, .next 0, .resume 0, .item none, .finish, .resume 0]) :=
  served_of_quiet _ [7] none _ ⟨trivial, trivial, trivial, rfl, nofun, trivial, trivial⟩

/-- **A source that throws zero** ends normally, for its subscribers. -/
theorem falsy_failure : ¬ ∀ (truthy : Int → Bool) (items : List Int) (ending : Option Int)
    (events : List (Event Int)),
    Served items ending truthy ((broadcast truthy ending).run (start items) events) := by
  intro h
  have hserved := h (· ≠ 0) [] (some 0) [.subscribe, .next 0, .finish, .resume 0]
  nomatch hserved.answers _ mem_cons_self

end NexusCode.Sdk
