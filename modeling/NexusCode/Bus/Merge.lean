/-
  The event bus: chunks are numbered when they arrive, and the lanes are merged into one stream.

  `publish` numbers a chunk when the source of its lane gives it; `mergeAsyncIterables` holds at
  most one promise for each lane, waits for the first to settle and hands its value over; only
  when the consumer asks again is that lane pulled again.  `Promise.race` over promises of which
  some have settled picks the first of them in the order of the map, which is the order of the
  lanes.  The consumer asks for the next value when it has the last one, as `for await` does.

    1. `Lane`, `State`         — what the merge holds; `settle`, `race`.
    2. `machine`               — a lane's source answers, the consumer asks, or a chunk of another
       stream is numbered by the same bus.
    3. **`accounted_run`**     — each lane's chunks are handed over once and in order.
-/
import NexusCode.Lib.Machine

namespace NexusCode.Bus

open Lib List

variable {α : Type}

/-! ## The bus -/

/-- `Labeled<T>`. -/
structure Labeled (α : Type) where
  runId : String
  laneIndex : Nat
  seq : Nat
  chunk : α

/-- `PublishOptions`. -/
structure PublishOptions where
  runId : String
  laneIndex : Option Nat := none

/-- The promise of a lane. -/
inductive Promise (α : Type) where
  /-- The lane has not been pulled, or its value was handed over and it is to be pulled again. -/
  | idle
  | waiting
  | value (labeled : Labeled α)
  /-- It has settled: the source has ended. -/
  | ended
  /-- It was deleted after that. -/
  | gone

/-- A published stream: the chunks its source has still to give, and its promise. -/
structure Lane (α : Type) where
  opts : PublishOptions
  source : List α
  promise : Promise α

/-- The bus's counter, the lanes in the order of the merge, whether the consumer waits, and what
    it was given, with the place of its lane. -/
structure State (α : Type) where
  seq : Nat
  lanes : List (Lane α)
  asked : Bool
  merged : List (Nat × Labeled α)

/-- The source of a lane that was pulled answers: `publish` numbers its chunk. -/
def settle (seq : Nat) (lane : Lane α) : Lane α × Nat :=
  match lane.promise, lane.source with
  | .waiting, [] => ({ lane with promise := .ended }, seq)
  | .waiting, chunk :: rest =>
    ({ lane with
        source := rest
        promise := .value ⟨lane.opts.runId, lane.opts.laneIndex.getD 0, seq, chunk⟩ }, seq + 1)
  | _, _ => (lane, seq)

/-- The lane at a place settles. -/
def settleAt (seq : Nat) : Nat → List (Lane α) → List (Lane α) × Nat
  | _, [] => ([], seq)
  | 0, lane :: lanes => ((settle seq lane).1 :: lanes, (settle seq lane).2)
  | i + 1, lane :: lanes => (lane :: (settleAt seq i lanes).1, (settleAt seq i lanes).2)

/-- `pull(index)` of the lane whose value was handed over; at the start, of every lane. -/
def pull (lane : Lane α) : Lane α :=
  match lane.promise with
  | .idle => { lane with promise := .waiting }
  | _ => lane

/-- `Promise.race(pending.values())` over promises that have settled: the value of the first, and
    its place.  Where a lane has ended, it is deleted and the race runs again. -/
def race : Nat → List (Lane α) → Option (Nat × Labeled α) × List (Lane α)
  | _, [] => (none, [])
  | i, lane :: lanes =>
    match lane.promise with
    | .value labeled => (some (i, labeled), { lane with promise := .idle } :: lanes)
    | .ended => ((race (i + 1) lanes).1, { lane with promise := .gone } :: (race (i + 1) lanes).2)
    | _ => ((race (i + 1) lanes).1, lane :: (race (i + 1) lanes).2)

/-- The loop of the merge until it hands a value over or has to wait. -/
def State.serve (s : State α) : State α :=
  match race 0 s.lanes with
  | (some given, lanes) => { s with lanes, asked := false, merged := s.merged ++ [given] }
  | (none, lanes) => { s with lanes, asked := true }

/-- What happens next. -/
inductive Event where
  /-- The source of the lane at this place answers. -/
  | settles (i : Nat)
  /-- The consumer asks for the next value. -/
  | asks
  /-- A chunk of another stream is published. -/
  | elsewhere

/-- One event. -/
def State.next (s : State α) : Event → State α
  | .settles i =>
    let settled := { s with lanes := (settleAt s.seq i s.lanes).1, seq := (settleAt s.seq i s.lanes).2 }
    if s.asked then settled.serve else settled
  | .asks => if s.asked then s else { s with lanes := s.lanes.map pull }.serve
  | .elsewhere => { s with seq := s.seq + 1 }

/-- The merge as a machine; it answers with what the consumer has been given so far. -/
def machine : Machine (State α) Event (List (Nat × Labeled α)) where
  step s e := ((s.next e).merged, s.next e)

/-- `bus.merge(sources.map(publish))`, before the first pull. -/
def start (seq : Nat) (sources : List (PublishOptions × List α)) : State α where
  seq
  lanes := sources.map fun p => ⟨p.1, p.2, .idle⟩
  asked := false
  merged := []

/-- The merge has ended. -/
def State.finished (s : State α) : Bool := s.lanes.all fun lane =>
  match lane.promise with
  | .gone => true
  | _ => false

/-! ## What was handed over -/

/-- The chunks of the lane at a place that the consumer was given. -/
def delivered (merged : List (Nat × Labeled α)) (i : Nat) : List α :=
  (merged.filter (·.1 = i)).map (·.2.chunk)

/-- The chunk a lane holds. -/
def Promise.held : Promise α → List α
  | .value labeled => [labeled.chunk]
  | _ => []

/-- What a lane has still to hand over. -/
def Lane.left (lane : Lane α) : List α := lane.promise.held ++ lane.source

theorem left_pull (lane : Lane α) : (pull lane).left = lane.left := by
  obtain ⟨opts, source, promise⟩ := lane
  cases promise <;> rfl

theorem left_settle (seq : Nat) (lane : Lane α) : (settle seq lane).1.left = lane.left := by
  obtain ⟨opts, source, promise⟩ := lane
  cases promise with
  | waiting => cases source <;> rfl
  | _ => rfl

theorem left_settleAt (seq : Nat) : ∀ (i : Nat) (lanes : List (Lane α)),
    (settleAt seq i lanes).1.map Lane.left = lanes.map Lane.left
  | i, [] => by cases i <;> rfl
  | 0, lane :: lanes => by
    show (settle seq lane).1.left :: _ = _
    rw [left_settle]
    rfl
  | i + 1, lane :: lanes => by
    show lane.left :: (settleAt seq i lanes).1.map Lane.left = _
    rw [left_settleAt seq i lanes]
    rfl

/-- Where nothing is handed over, every lane has what it had. -/
theorem left_race_none : ∀ {i : Nat} {lanes : List (Lane α)}, (race i lanes).1 = none →
    (race i lanes).2.map Lane.left = lanes.map Lane.left
  | _, [], _ => rfl
  | i, ⟨opts, source, promise⟩ :: lanes, h => by
    cases promise with
    | value labeled => nomatch h
    | _ => exact congrArg (_ :: ·) (left_race_none (i := i + 1) h)

/-- What is handed over is the first chunk that the lane at its place had left. -/
theorem left_race_some : ∀ {i : Nat} {lanes : List (Lane α)} {given : Nat × Labeled α},
    (race i lanes).1 = some given →
    ∃ before rest after, given.1 = i + before.length ∧
      lanes.map Lane.left = before ++ (given.2.chunk :: rest) :: after ∧
      (race i lanes).2.map Lane.left = before ++ rest :: after
  | _, [], _, h => nomatch h
  | i, ⟨opts, source, promise⟩ :: lanes, given, h => by
    cases promise with
    | value labeled =>
      obtain rfl := Option.some.inj h
      exact ⟨[], source, lanes.map Lane.left, rfl, rfl, rfl⟩
    | _ =>
      obtain ⟨before, rest, after, hplace, hleft, hleft'⟩ :=
        left_race_some (i := i + 1) h
      refine ⟨_ :: before, rest, after, ?_, congrArg (_ :: ·) hleft, congrArg (_ :: ·) hleft'⟩
      rw [hplace, length_cons]
      omega

/-- What the consumer was given of a lane, and what the lane has left, are its chunks. -/
def Accounted (sources : List (List α)) (s : State α) : Prop :=
  ∀ i, delivered s.merged i ++ ((s.lanes.map Lane.left)[i]?).getD [] = (sources[i]?).getD []

theorem Accounted.serve {sources : List (List α)} {s : State α} (h : Accounted sources s) :
    Accounted sources s.serve := by
  unfold State.serve
  cases hrace : race 0 s.lanes with
  | mk given lanes =>
    cases given with
    | none =>
      have hleft := left_race_none (i := 0) (by rw [hrace])
      rw [hrace] at hleft
      intro i
      rw [← h i]
      show _ ++ ((lanes.map Lane.left)[i]?).getD [] = _
      rw [hleft]
    | some given =>
      obtain ⟨before, rest, after, hplace, hleft, hleft'⟩ :=
        left_race_some (i := 0) (by rw [hrace])
      rw [hrace] at hleft'
      rw [Nat.zero_add] at hplace
      intro i
      rw [← h i]
      show delivered (s.merged ++ [given]) i ++ ((lanes.map Lane.left)[i]?).getD [] = _
      unfold delivered
      rw [hleft, hleft', filter_append, map_append, append_assoc]
      refine congrArg (_ ++ ·) ?_
      rcases Nat.lt_trichotomy i before.length with hi | hi | hi
      · rw [filter_cons_of_neg (by simp; omega), List.getElem?_append_left hi,
          List.getElem?_append_left hi]
        rfl
      · rw [filter_cons_of_pos (by simp; omega), hi,
          List.getElem?_append_right (Nat.le_refl _), List.getElem?_append_right (Nat.le_refl _),
          Nat.sub_self]
        rfl
      · rw [filter_cons_of_neg (by simp; omega), List.getElem?_append_right (by omega),
          List.getElem?_append_right (by omega)]
        obtain ⟨k, hk⟩ := Nat.exists_eq_add_of_lt hi
        rw [show i - before.length = k + 1 by omega]
        rfl

theorem Accounted.next {sources : List (List α)} {s : State α} (h : Accounted sources s)
    (e : Event) : Accounted sources (s.next e) := by
  cases e with
  | settles i =>
    have hsettled : Accounted sources
        { s with lanes := (settleAt s.seq i s.lanes).1, seq := (settleAt s.seq i s.lanes).2 } := by
      intro j
      show _ ++ (((settleAt s.seq i s.lanes).1.map Lane.left)[j]?).getD [] = _
      rw [left_settleAt]
      exact h j
    unfold State.next
    dsimp only
    split
    · exact hsettled.serve
    · exact hsettled
  | asks =>
    show Accounted sources (if s.asked then s else State.serve { s with lanes := s.lanes.map pull })
    split
    · exact h
    · refine Accounted.serve fun i => ?_
      show _ ++ (((s.lanes.map pull).map Lane.left)[i]?).getD [] = _
      rw [map_map, show Lane.left ∘ pull = Lane.left from funext left_pull]
      exact h i
  | elsewhere => exact h

/-- **Every lane's chunks are handed over once and in order**: what the consumer was given of a
    lane and what the lane has left are the chunks of its source. -/
theorem accounted_run (seq : Nat) (sources : List (PublishOptions × List α)) (es : List Event) :
    Accounted (sources.map Prod.snd) (machine.run (start seq sources) es) := by
  refine Machine.run_invariant (M := machine) (I := Accounted (sources.map Prod.snd))
    (fun _ e h => h.next e) es ?_
  intro i
  show [] ++ (((sources.map fun p => (⟨p.1, p.2, .idle⟩ : Lane α)).map Lane.left)[i]?).getD [] = _
  rw [map_map]
  rfl

/-- A lane that has ended has nothing left. -/
def Lane.Spent (lane : Lane α) : Prop :=
  lane.promise = .ended ∨ lane.promise = .gone → lane.source = []

theorem spent_settleAt {seq : Nat} : ∀ {i : Nat} {lanes : List (Lane α)},
    (∀ lane ∈ lanes, lane.Spent) → ∀ lane ∈ (settleAt seq i lanes).1, lane.Spent
  | i, [], _ => by cases i <;> exact fun _ => nofun
  | 0, lane :: lanes, h => by
    obtain ⟨hlane, hlanes⟩ := forall_mem_cons.mp h
    refine forall_mem_cons.mpr ⟨?_, hlanes⟩
    obtain ⟨opts, source, promise⟩ := lane
    cases promise with
    | waiting =>
      cases source with
      | nil => exact fun _ => rfl
      | cons chunk rest => exact fun hor => hor.elim (nofun) nofun
    | _ => exact hlane
  | i + 1, lane :: lanes, h =>
    forall_mem_cons.mpr ⟨(forall_mem_cons.mp h).1,
      spent_settleAt (forall_mem_cons.mp h).2⟩

theorem spent_race : ∀ {i : Nat} {lanes : List (Lane α)},
    (∀ lane ∈ lanes, lane.Spent) → ∀ lane ∈ (race i lanes).2, lane.Spent
  | _, [], _ => fun _ => nofun
  | i, ⟨opts, source, promise⟩ :: lanes, h => by
    obtain ⟨hlane, hlanes⟩ := forall_mem_cons.mp h
    have ih := spent_race (i := i + 1) hlanes
    cases promise with
    | value labeled =>
      refine forall_mem_cons.mpr ⟨fun hor => ?_, hlanes⟩
      exact hor.elim (nofun) nofun
    | ended => exact forall_mem_cons.mpr ⟨fun _ => hlane (Or.inl rfl), ih⟩
    | idle => exact forall_mem_cons.mpr ⟨hlane, ih⟩
    | waiting => exact forall_mem_cons.mpr ⟨hlane, ih⟩
    | gone => exact forall_mem_cons.mpr ⟨hlane, ih⟩

theorem spent_pull {lane : Lane α} (h : lane.Spent) : (pull lane).Spent := by
  obtain ⟨opts, source, promise⟩ := lane
  cases promise with
  | idle => exact fun hor => hor.elim (nofun) nofun
  | _ => exact h

/-- The lanes after a loop of the merge are those after the race. -/
theorem lanes_serve (s : State α) : s.serve.lanes = (race 0 s.lanes).2 := by
  unfold State.serve
  split <;> rename_i heq <;> rw [heq]

theorem spent_next {s : State α} (h : ∀ lane ∈ s.lanes, lane.Spent) (e : Event) :
    ∀ lane ∈ (s.next e).lanes, lane.Spent := by
  cases e with
  | settles i =>
    unfold State.next
    dsimp only
    split
    · rw [lanes_serve]
      exact spent_race (spent_settleAt h)
    · exact spent_settleAt h
  | asks =>
    show ∀ lane ∈ (if s.asked then s else State.serve { s with lanes := s.lanes.map pull }).lanes, _
    split
    · exact h
    · rw [lanes_serve]
      refine spent_race fun lane hlane => ?_
      obtain ⟨lane', hlane', rfl⟩ := mem_map.mp hlane
      exact spent_pull (h lane' hlane')
  | elsewhere => exact h

theorem left_of_finished (seq : Nat) (sources : List (PublishOptions × List α)) (es : List Event)
    (hfin : (machine.run (start seq sources) es).finished = true) :
    ∀ lane ∈ (machine.run (start seq sources) es).lanes, lane.left = [] := by
  have hspent := Machine.run_invariant (M := machine (α := α))
    (I := fun s => ∀ lane ∈ s.lanes, lane.Spent) (fun _ e h => spent_next h e) es
    (s := start seq sources) (by
      intro lane hlane
      obtain ⟨p, -, rfl⟩ := mem_map.mp hlane
      exact fun hor => hor.elim (nofun) nofun)
  intro lane hlane
  have hgone := all_eq_true.mp hfin lane hlane
  have hsource := hspent lane hlane
  obtain ⟨opts, source, promise⟩ := lane
  cases promise with
  | gone => exact hsource (Or.inr rfl)
  | _ => nomatch hgone

end NexusCode.Bus
