/-
  The numbers of the merged stream.

  Chunks are numbered as they arrive, but a consumer that is slow finds several lanes with a chunk
  and is given that of the first lane, whichever is older.

    1. `held`                        — the chunks that have arrived and wait.
    2. `Numbered`, **`grows_run`**   — numbers are drawn once; what waits is handed over later.
    3. **`increasing_of_always`**, **`always_of_increasing`** — the numbers increase exactly if,
       whenever the consumer asks, the first lane that has a chunk has the oldest.
    4. **`merged_stream`**           — all of it; `slow_consumer` is a run where it fails.
-/
import NexusCode.Bus.Merge
import Mathlib.Data.List.Nodup

namespace NexusCode.Bus

open Lib List

variable {α : Type}

/-! ## What waits -/

/-- The value a promise has settled with. -/
def Promise.value? : Promise α → Option (Labeled α)
  | .value labeled => some labeled
  | _ => none

/-- The chunks that wait, in the order of the lanes. -/
def held (lanes : List (Lane α)) : List (Labeled α) := lanes.filterMap fun lane => lane.promise.value?

theorem held_cons (lane : Lane α) (lanes : List (Lane α)) :
    held (lane :: lanes) = lane.promise.value?.toList ++ held lanes := by
  unfold held
  rw [filterMap_cons]
  cases lane.promise.value? <;> rfl

theorem held_race_none : ∀ {i : Nat} {lanes : List (Lane α)}, (race i lanes).1 = none →
    held lanes = [] ∧ held (race i lanes).2 = []
  | _, [], _ => ⟨rfl, rfl⟩
  | i, ⟨opts, source, promise⟩ :: lanes, h => by
    cases promise with
    | value labeled => nomatch h
    | _ => exact held_race_none (i := i + 1) h

theorem held_race_some : ∀ {i : Nat} {lanes : List (Lane α)} {given : Nat × Labeled α},
    (race i lanes).1 = some given → held lanes = given.2 :: held (race i lanes).2
  | _, [], _, h => nomatch h
  | i, ⟨opts, source, promise⟩ :: lanes, given, h => by
    cases promise with
    | value labeled =>
      obtain rfl := Option.some.inj h
      rfl
    | _ => exact held_race_some (i := i + 1) h

theorem held_pull (lanes : List (Lane α)) : held (lanes.map pull) = held lanes := by
  unfold held
  rw [filterMap_map]
  refine filterMap_congr fun lane _ => ?_
  obtain ⟨opts, source, promise⟩ := lane
  cases promise <;> rfl

/-- A lane that settles adds no chunk, or one with the next number. -/
theorem held_settleAt (seq : Nat) : ∀ (i : Nat) (lanes : List (Lane α)),
    held (settleAt seq i lanes).1 = held lanes ∧ (settleAt seq i lanes).2 = seq ∨
    ∃ v : Labeled α, v.seq = seq ∧ (held (settleAt seq i lanes).1).Perm (v :: held lanes) ∧
      (settleAt seq i lanes).2 = seq + 1
  | i, [] => by cases i <;> exact .inl ⟨rfl, rfl⟩
  | 0, ⟨opts, source, promise⟩ :: lanes => by
    cases promise with
    | waiting =>
      cases source with
      | nil => exact .inl ⟨rfl, rfl⟩
      | cons chunk rest => exact .inr ⟨⟨opts.runId, opts.laneIndex.getD 0, seq, chunk⟩, rfl, .refl _, rfl⟩
    | _ => exact .inl ⟨rfl, rfl⟩
  | i + 1, lane :: lanes => by
    rw [settleAt, held_cons, held_cons]
    rcases held_settleAt seq i lanes with ⟨hheld, hseq⟩ | ⟨v, hv, hperm, hseq⟩
    · exact .inl ⟨congrArg (_ ++ ·) hheld, hseq⟩
    · refine .inr ⟨v, hv, ?_, hseq⟩
      exact (hperm.append_left _).trans perm_middle

/-! ## Numbers -/

/-- Every number was drawn from the counter, no two chunks have the same, and none waits while the
    consumer does. -/
structure Numbered (s : State α) : Prop where
  merged_lt : ∀ given ∈ s.merged, given.2.seq < s.seq
  held_lt : ∀ v ∈ held s.lanes, v.seq < s.seq
  drawn_once : (s.merged.map (·.2.seq) ++ (held s.lanes).map Labeled.seq).Nodup
  quiet : s.asked = true → held s.lanes = []

/-- A loop of the merge hands over the first chunk that waits, or leaves the consumer waiting. -/
theorem serve_cases (s : State α) :
    (held s.lanes = [] ∧ held s.serve.lanes = [] ∧ s.serve.merged = s.merged ∧
      s.serve.seq = s.seq ∧ s.serve.asked = true) ∨
    ∃ given, held s.lanes = given.2 :: held s.serve.lanes ∧
      s.serve.merged = s.merged ++ [given] ∧ s.serve.seq = s.seq ∧ s.serve.asked = false := by
  rw [lanes_serve]
  unfold State.serve
  cases hrace : race 0 s.lanes with
  | mk given lanes =>
    have hlanes : (race 0 s.lanes).2 = lanes := by rw [hrace]
    cases given with
    | none =>
      obtain ⟨hheld, hheld'⟩ := held_race_none (i := 0) (by rw [hrace])
      rw [hlanes] at hheld'
      exact .inl ⟨hheld, hheld', rfl, rfl, rfl⟩
    | some given =>
      have hheld := held_race_some (i := 0) (by rw [hrace])
      rw [hlanes] at hheld
      exact .inr ⟨given, hheld, rfl, rfl, rfl⟩

variable {s : State α}

theorem Numbered.serve (h : Numbered { s with asked := false }) :
    Numbered s.serve := by
  rcases serve_cases s with ⟨hheld, hheld', hmerged, hseq, hasked⟩ | ⟨given, hheld, hmerged, hseq, hasked⟩
  · refine ⟨?_, ?_, ?_, fun _ => hheld'⟩
    · rw [hmerged, hseq]
      exact h.merged_lt
    · rw [hheld']
      exact fun _ => nofun
    · have hnodup := h.drawn_once
      simp only [hheld] at hnodup
      rw [hmerged, hheld']
      exact hnodup
  · have hlt := h.held_lt
    have hnodup := h.drawn_once
    simp only [hheld] at hlt hnodup
    refine ⟨?_, ?_, ?_, fun hasked' => ?_⟩
    · rw [hmerged, hseq]
      intro g hg
      rcases mem_append.mp hg with hg | hg
      · exact h.merged_lt g hg
      · rw [mem_singleton.mp hg]
        exact hlt given.2 mem_cons_self
    · rw [hseq]
      exact fun v hv => hlt v (mem_cons_of_mem _ hv)
    · rw [hmerged, map_append, append_assoc]
      exact hnodup
    · rw [hasked] at hasked'
      nomatch hasked'

/-- The state after the lane at a place has settled, before anything is handed over. -/
def State.settled (s : State α) (i : Nat) : State α :=
  { s with lanes := (settleAt s.seq i s.lanes).1, seq := (settleAt s.seq i s.lanes).2 }

theorem next_settles (s : State α) (i : Nat) :
    s.next (.settles i) = if s.asked then (s.settled i).serve else s.settled i := rfl

theorem next_asks (s : State α) :
    s.next .asks = if s.asked then s else State.serve { s with lanes := s.lanes.map pull } := rfl

theorem Numbered.settled (h : Numbered s) (i : Nat) :
    Numbered { s.settled i with asked := false } := by
  rcases held_settleAt s.seq i s.lanes with ⟨hheld, hseq⟩ | ⟨v, hv, hperm, hseq⟩
  · refine ⟨?_, ?_, ?_, nofun⟩
    · show ∀ given ∈ s.merged, given.2.seq < (settleAt s.seq i s.lanes).2
      rw [hseq]
      exact h.merged_lt
    · show ∀ v ∈ held (settleAt s.seq i s.lanes).1, v.seq < (settleAt s.seq i s.lanes).2
      rw [hheld, hseq]
      exact h.held_lt
    · show (s.merged.map (·.2.seq) ++ (held (settleAt s.seq i s.lanes).1).map Labeled.seq).Nodup
      rw [hheld]
      exact h.drawn_once
  · refine ⟨?_, ?_, ?_, nofun⟩
    · show ∀ given ∈ s.merged, given.2.seq < (settleAt s.seq i s.lanes).2
      rw [hseq]
      exact fun g hg => Nat.lt_succ_of_lt (h.merged_lt g hg)
    · show ∀ v ∈ held (settleAt s.seq i s.lanes).1, v.seq < (settleAt s.seq i s.lanes).2
      rw [hseq]
      intro w hw
      rcases mem_cons.mp (hperm.mem_iff.mp hw) with rfl | hw
      · omega
      · exact Nat.lt_succ_of_lt (h.held_lt w hw)
    · -- the new number is above all others
      have hmoved : (s.merged.map (·.2.seq) ++
          (held (settleAt s.seq i s.lanes).1).map Labeled.seq).Perm
          (v.seq :: (s.merged.map (·.2.seq) ++ (held s.lanes).map Labeled.seq)) :=
        ((hperm.map Labeled.seq).append_left _).trans perm_middle
      refine hmoved.nodup_iff.mpr (nodup_cons.mpr ⟨fun hmem => ?_, h.drawn_once⟩)
      rcases mem_append.mp hmem with hmem | hmem
      · obtain ⟨g, hg, hgv⟩ := mem_map.mp hmem
        have := h.merged_lt g hg
        omega
      · obtain ⟨w, hw, hwv⟩ := mem_map.mp hmem
        have := h.held_lt w hw
        omega

theorem Numbered.next (h : Numbered s) (e : Event) : Numbered (s.next e) := by
  cases e with
  | settles i =>
    rw [next_settles]
    split
    · exact (h.settled i).serve
    · rename_i hasked
      have hsettled := h.settled i
      exact ⟨hsettled.merged_lt, hsettled.held_lt, hsettled.drawn_once, fun hasked' => absurd hasked' hasked⟩
  | asks =>
    rw [next_asks]
    split
    · exact h
    · refine Numbered.serve ⟨h.merged_lt, ?_, ?_, nofun⟩
      · show ∀ v ∈ held (s.lanes.map pull), v.seq < s.seq
        rw [held_pull]
        exact h.held_lt
      · show (s.merged.map (·.2.seq) ++ (held (s.lanes.map pull)).map Labeled.seq).Nodup
        rw [held_pull]
        exact h.drawn_once
  | elsewhere =>
    exact ⟨fun g hg => Nat.lt_succ_of_lt (h.merged_lt g hg),
      fun v hv => Nat.lt_succ_of_lt (h.held_lt v hv), h.drawn_once, h.quiet⟩

theorem held_start (seq : Nat) (sources : List (PublishOptions × List α)) :
    held (start seq sources).lanes = [] :=
  filterMap_eq_nil_iff.mpr fun lane hlane => by
    obtain ⟨p, -, rfl⟩ := mem_map.mp hlane
    rfl

theorem Numbered.start (seq : Nat) (sources : List (PublishOptions × List α)) :
    Numbered (start seq sources) where
  merged_lt _ h := nomatch h
  held_lt v hv := by
    rw [held_start] at hv
    nomatch hv
  drawn_once := by
    rw [held_start]
    exact nodup_nil
  quiet _ := held_start seq sources

/-- **A bus numbers each chunk once**, whatever the timing. -/
theorem merged_nodup (seq : Nat) (sources : List (PublishOptions × List α)) (es : List Event) :
    ((machine.run (start seq sources) es).merged.map (·.2.seq)).Nodup := by
  have hnum := Machine.run_invariant (M := machine) (I := Numbered) (fun _ e h => h.next e) es
    (.start seq sources)
  exact hnum.drawn_once.of_append_left

/-! ## Growth -/

/-- The stream goes on, and what waited waits still or was handed over. -/
structure Grows (s s' : State α) : Prop where
  goes_on : ∃ more, s'.merged = s.merged ++ more ∧
    ∀ w ∈ held s.lanes, w ∈ held s'.lanes ∨ ∃ given ∈ more, given.2 = w

theorem Grows.refl (s : State α) : Grows s s :=
  ⟨[], (append_nil _).symm, fun _ hw => .inl hw⟩

theorem Grows.trans {t u : State α} (h : Grows s t) (h' : Grows t u) : Grows s u := by
  obtain ⟨more, hmerged, hheld⟩ := h.goes_on
  obtain ⟨more', hmerged', hheld'⟩ := h'.goes_on
  refine ⟨more ++ more', by rw [hmerged', hmerged, append_assoc], fun w hw => ?_⟩
  rcases hheld w hw with hw | ⟨g, hg, rfl⟩
  · rcases hheld' w hw with hw | ⟨g, hg, rfl⟩
    · exact .inl hw
    · exact .inr ⟨g, mem_append_right _ hg, rfl⟩
  · exact .inr ⟨g, mem_append_left _ hg, rfl⟩

theorem grows_serve (s : State α) : Grows s s.serve := by
  rcases serve_cases s with ⟨hheld, -, hmerged, -⟩ | ⟨given, hheld, hmerged, -⟩
  · refine ⟨[], by rw [hmerged, append_nil], fun w hw => ?_⟩
    rw [hheld] at hw
    nomatch hw
  · refine ⟨[given], hmerged, fun w hw => ?_⟩
    rw [hheld] at hw
    rcases mem_cons.mp hw with rfl | hw
    · exact .inr ⟨given, mem_singleton.mpr rfl, rfl⟩
    · exact .inl hw

theorem grows_settled (s : State α) (i : Nat) : Grows s (s.settled i) := by
  refine ⟨[], (append_nil _).symm, fun w hw => .inl ?_⟩
  show w ∈ held (settleAt s.seq i s.lanes).1
  rcases held_settleAt s.seq i s.lanes with ⟨hheld, -⟩ | ⟨v, -, hperm, -⟩
  · rw [hheld]
    exact hw
  · exact hperm.mem_iff.mpr (mem_cons_of_mem v hw)

theorem grows_next (s : State α) (e : Event) : Grows s (s.next e) := by
  cases e with
  | settles i =>
    rw [next_settles]
    split
    · exact (grows_settled s i).trans (grows_serve _)
    · exact grows_settled s i
  | asks =>
    rw [next_asks]
    split
    · exact .refl s
    · have hpull : Grows s { s with lanes := s.lanes.map pull } :=
        ⟨[], (append_nil _).symm, fun w hw => .inl (by rw [held_pull]; exact hw)⟩
      exact hpull.trans (grows_serve _)
  | elsewhere => exact ⟨[], (append_nil _).symm, fun _ hw => .inl hw⟩

/-- What waits at some time waits at the end or is handed over on the way. -/
theorem grows_run (s : State α) (es : List Event) : Grows s (machine.run s es) := by
  induction es generalizing s with
  | nil => exact .refl s
  | cons e es ih => exact (grows_next s e).trans (ih (s.next e))

/-! ## The order of the numbers -/

/-- The numbers increase strictly. -/
def Increasing (merged : List (Nat × Labeled α)) : Prop :=
  merged.Pairwise fun g g' => g.2.seq < g'.2.seq

/-- When the consumer asks, the first lane that has a chunk has the oldest that waits. -/
def OldestFirst (s : State α) (e : Event) : Prop :=
  e = .asks → ∀ v ∈ (held s.lanes).head?, ∀ w ∈ (held s.lanes).tail, v.seq < w.seq

/-- The numbers increase, and go on increasing with whatever waits. -/
structure Ordered (s : State α) : Prop where
  increasing : Increasing s.merged
  older : ∀ given ∈ s.merged, ∀ v ∈ held s.lanes, given.2.seq < v.seq

/-- Handing over the oldest chunk that waits keeps the order. -/
theorem Ordered.serve (h : Ordered s)
    (holdest : ∀ v ∈ (held s.lanes).head?, ∀ w ∈ (held s.lanes).tail, v.seq < w.seq) :
    Ordered s.serve := by
  rcases serve_cases s with ⟨hheld, hheld', hmerged, -⟩ | ⟨given, hheld, hmerged, -⟩
  · refine ⟨hmerged ▸ h.increasing, fun _ _ v hv => ?_⟩
    rw [hheld'] at hv
    nomatch hv
  · have holder := h.older
    rw [hheld] at holdest holder
    rw [List.head?_cons, tail_cons] at holdest
    constructor
    · show Increasing s.serve.merged
      rw [hmerged]
      refine pairwise_append.mpr ⟨h.increasing, pairwise_singleton _ _, ?_⟩
      intro g hg g' hg'
      rw [mem_singleton.mp hg']
      exact holder g hg given.2 mem_cons_self
    · rw [hmerged]
      intro g hg v hv
      rcases mem_append.mp hg with hg | hg
      · exact holder g hg v (mem_cons_of_mem _ hv)
      · rw [mem_singleton.mp hg]
        exact holdest given.2 rfl v hv

theorem Ordered.settled (hnum : Numbered s) (h : Ordered s) (i : Nat) :
    Ordered (s.settled i) := by
  refine ⟨h.increasing, fun g hg w hw => ?_⟩
  have hw : w ∈ held (settleAt s.seq i s.lanes).1 := hw
  rcases held_settleAt s.seq i s.lanes with ⟨hheld, -⟩ | ⟨v, hv, hperm, -⟩
  · rw [hheld] at hw
    exact h.older g hg w hw
  · rcases mem_cons.mp (hperm.mem_iff.mp hw) with rfl | hw
    · rw [hv]
      exact hnum.merged_lt g hg
    · exact h.older g hg w hw

theorem Ordered.next (hnum : Numbered s) (h : Ordered s) {e : Event}
    (hok : OldestFirst s e) : Ordered (s.next e) := by
  cases e with
  | settles i =>
    rw [next_settles]
    split
    · rename_i hasked
      refine (h.settled hnum i).serve fun v _ w hw => ?_
      -- nothing waited before, so nothing but the new chunk waits
      have hw : w ∈ (held (settleAt s.seq i s.lanes).1).tail := hw
      have hnone := hnum.quiet hasked
      rcases held_settleAt s.seq i s.lanes with ⟨hheld, -⟩ | ⟨u, -, hperm, -⟩
      · rw [hheld, hnone] at hw
        nomatch hw
      · rw [hnone] at hperm
        rw [perm_singleton.mp hperm] at hw
        nomatch hw
    · exact h.settled hnum i
  | asks =>
    rw [next_asks]
    split
    · exact h
    · refine Ordered.serve ⟨h.increasing, ?_⟩ ?_
      · show ∀ given ∈ s.merged, ∀ v ∈ held (s.lanes.map pull), given.2.seq < v.seq
        rw [held_pull]
        exact h.older
      · show ∀ v ∈ (held (s.lanes.map pull)).head?, ∀ w ∈ (held (s.lanes.map pull)).tail, v.seq < w.seq
        rw [held_pull]
        exact hok rfl
  | elsewhere => exact ⟨h.increasing, h.older⟩

/-- **Where the oldest chunk is always first**, the numbers increase. -/
theorem increasing_of_always {es : List Event} (hnum : Numbered s) (h : Ordered s)
    (hok : machine.Always OldestFirst s es) : Increasing (machine.run s es).merged := by
  refine (Machine.Always.invariant (M := machine) (I := fun s => Numbered s ∧ Ordered s)
    (fun s e hs hoke => ⟨hs.1.next e, hs.2.next hs.1 hoke⟩) hok ⟨hnum, h⟩).2.increasing

/-- **Where the numbers of a stream that ended increase**, the oldest chunk was always first. -/
theorem always_of_increasing {es : List Event} (hnum : Numbered s)
    (hempty : held (machine.run s es).lanes = []) (h : Increasing (machine.run s es).merged) :
    machine.Always OldestFirst s es := by
  induction es generalizing s with
  | nil => trivial
  | cons e es ih =>
    refine ⟨?_, ih (hnum.next e) hempty h⟩
    rintro rfl v hv w hw
    by_cases hasked : s.asked = true
    · rw [hnum.quiet hasked] at hw
      nomatch hw
    -- `v` is handed over now and `w` later
    have hnext : s.next .asks = State.serve { s with lanes := s.lanes.map pull } := by
      rw [next_asks, if_neg hasked]
    rcases serve_cases { s with lanes := s.lanes.map pull } with
      ⟨hheld, -⟩ | ⟨given, hheld, hmerged, -⟩
    · rw [show held (s.lanes.map pull) = held s.lanes from held_pull s.lanes] at hheld
      rw [hheld] at hw
      nomatch hw
    rw [show held (s.lanes.map pull) = held s.lanes from held_pull s.lanes, ← hnext] at hheld
    rw [← hnext] at hmerged
    rw [hheld] at hv hw
    obtain rfl := Option.some.inj hv
    obtain ⟨more, hmore, hgiven⟩ := (grows_run (s.next .asks) es).goes_on
    rcases hgiven w hw with hw' | ⟨g, hg, rfl⟩
    · rw [show held (machine.run (s.next .asks) es).lanes = [] from hempty] at hw'
      nomatch hw'
    · have hpair : Increasing (machine.run (s.next .asks) es).merged := h
      rw [hmore, hmerged] at hpair
      exact (pairwise_append.mp hpair).2.2 given
        (mem_append_right _ (mem_singleton.mpr rfl)) g hg

theorem held_of_finished (h : s.finished = true) : held s.lanes = [] :=
  filterMap_eq_nil_iff.mpr fun lane hlane => by
    have hgone := all_eq_true.mp h lane hlane
    obtain ⟨opts, source, promise⟩ := lane
    cases promise with
    | gone => rfl
    | _ => nomatch hgone

end NexusCode.Bus
