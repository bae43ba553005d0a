/-
  Several breakers on one store file against one breaker in memory.

  Each process has its own records and its own last clock reading; what they share is the file.
  Under the lock a process replaces its records by those of the file, with its own old clock
  reading: `load` rebases times against it and lets time act up to it.  An operation then runs
  with the current time.

  `Coupled` relates a process under the lock to the breaker in memory: its records and the records
  in the file are twins of those in memory.  Every operation keeps processes coupled and answers
  alike, provided the old clock reading did no harm (`Synchronized`): it is not so old that the
  file is rebased, and time acted on the way in has not changed what the operation looks at before
  it lets time act itself.  Without the proviso the agreement fails (`idle_process_admits`).
-/
import NexusCode.Circuit.Twins

namespace NexusCode.Circuit

open Lib Lib.Pointwise Shared

/-! ## What is compared -/

/-- A decision without the texts its status quotes. -/
def Decision.core : Decision → Decision
  | .allowed probe status lease => .allowed probe status.core lease
  | .refused status retryAfterMs => .refused status.core retryAfterMs

/-- An answer without the texts its statuses quote. -/
def Answer.core : Answer → Answer
  | .decision d => .decision d.core
  | .status s => .status s.core
  | .count n => .count n
  | .statuses l => .statuses (l.map Status.core)
  | .typeError => .typeError

/-- The records in the file. -/
def Breaker.stored (s : Breaker) : List Entry := s.file.elim [] (·.entries)

/-- A process under the lock, and the breaker in memory, at the time `time`. -/
structure Coupled (o : Options) (time : Nat) (x y : Breaker) : Prop where
  records : List.Forall₂ (Matched time) x.entries y.entries
  stored : List.Forall₂ (Matched time) x.stored y.entries
  savedAt : ∀ store, x.file = some store → store.savedAt ≤ time
  clock : x.lastClockMs ≤ time
  clock' : y.lastClockMs ≤ time
  kept : Kept o y.entries

/-- The host does its part: the store is written, owners live, and the clock goes forward. -/
structure Steady (time : Nat) (h : Host) : Prop where
  readable : h.readable = true
  writable : h.writable = true
  alive : h.AllAlive
  raw : time ≤ h.raw
  rawAgain : h.raw ≤ h.rawAgain

variable {o : Options} {h : Host} {time : Nat} {x y : Breaker} {t : Target}

/-! ## Clock and store -/

theorem now_of_le {s : Breaker} {raw : Nat} (hle : s.lastClockMs ≤ raw) :
    s.now o raw = { s with lastClockMs := raw } := by
  unfold Breaker.now
  rw [if_neg (by omega)]
  split
  · rw [show raw = s.lastClockMs by omega]
  · rfl

/-- What holds of two lists of records and one file, without their clocks. -/
structure Linked (o : Options) (time : Nat) (xs ys : List Entry) : Prop where
  records : List.Forall₂ (Matched time) xs ys
  kept : Kept o ys

theorem Coupled.persist (hl : Linked o time x.entries y.entries) (hfile : o.filePath ≠ none)
    (hw : h.writable = true) (hx : x.lastClockMs ≤ time) (hy : y.lastClockMs ≤ time) :
    Coupled o time (x.persist o h) (y.persist o.inMemory h) := by
  have hwrite : x.persist o h =
      { x with file := some { savedAt := x.lastClockMs, entries := x.entries } } :=
    if_pos ⟨hfile, hw⟩
  refine ⟨?_, ?_, fun store hst => ?_, ?_, ?_, ?_⟩
  · rw [persist_entries, persist_entries]
    exact hl.records
  · rw [persist_entries, hwrite]
    exact hl.records
  · rw [hwrite] at hst
    rw [← Option.some.inj hst]
    exact hx
  · rw [persist_clock]
    exact hx
  · rw [persist_clock]
    exact hy
  · rw [persist_entries]
    exact hl.kept

/-- **Storing when something changed.**  Without a write the old file must still be coupled to the
    new records. -/
theorem Coupled.persistIf {b b' : Bool} (hl : Linked o time x.entries y.entries)
    (hfile : o.filePath ≠ none) (hw : h.writable = true)
    (hstored : b = false → List.Forall₂ (Matched time) x.stored y.entries)
    (hsaved : ∀ store, x.file = some store → store.savedAt ≤ time)
    (hx : x.lastClockMs ≤ time) (hy : y.lastClockMs ≤ time) :
    Coupled o time (x.persistIf o h b) (y.persistIf o.inMemory h b') := by
  have hnofile : y.persist o.inMemory h = y := if_neg fun hf => hf.1 rfl
  have hmem : y.persistIf o.inMemory h b' = y := by
    cases b' with
    | false => rfl
    | true => exact hnofile
  rw [hmem]
  cases b with
  | false => exact ⟨hl.records, hstored rfl, hsaved, hx, hy, hl.kept⟩
  | true =>
    have hp := Coupled.persist hl hfile hw hx hy
    rwa [hnofile] at hp

/-- Putting new records in place of the old ones and writing them. -/
theorem Coupled.store (hc : Coupled o time x y) {xs ys : List Entry} (hl : Linked o time xs ys)
    (hfile : o.filePath ≠ none) (hw : h.writable = true) :
    Coupled o time ({ x with entries := xs }.persist o h)
      ({ y with entries := ys }.persist o.inMemory h) :=
  Coupled.persist hl hfile hw hc.clock hc.clock'

theorem Coupled.now (hc : Coupled o time x y) {raw : Nat} (hle : time ≤ raw) :
    Coupled o raw (x.now o raw) (y.now o.inMemory raw) ∧ (x.now o raw).lastClockMs = raw ∧
      (y.now o.inMemory raw).lastClockMs = raw := by
  rw [now_of_le (hc.clock.trans hle), now_of_le (hc.clock'.trans hle)]
  exact ⟨⟨forall₂_mono hc.records hle, forall₂_mono hc.stored hle,
    fun store hst => (hc.savedAt store hst).trans hle, Nat.le_refl _, Nat.le_refl _, hc.kept⟩,
    rfl, rfl⟩

/-- Two processes that have read the clock and let time act on what a request concerns. -/
theorem Coupled.refresh (hc : Coupled o time x y) (hfile : o.filePath ≠ none)
    (hw : h.writable = true) (halive : h.AllAlive) {raw : Nat} (hle : time ≤ raw) (t : Target) :
    let x' := (x.now o raw).refresh o h (Entry.concerns t)
    let y' := (y.now o.inMemory raw).refresh o.inMemory h (Entry.concerns t)
    Coupled o raw x' y' ∧ List.Forall₂ (Level raw t) x'.entries y'.entries ∧
      x'.lastClockMs = raw ∧ y'.lastClockMs = raw := by
  obtain ⟨hn, hx, hy⟩ := hc.now hle
  have hlevel := forall₂_lapse hn.records halive (Nat.le_refl raw) t
  refine ⟨Coupled.persistIf ⟨?_, ?_⟩ hfile hw (fun _ => ?_) hn.savedAt hn.clock hn.clock', ?_, ?_, ?_⟩
  · rw [expire_entries, expire_entries, hx, hy]
    exact hlevel.imp fun _ _ hab => hab.toMatched
  · rw [expire_entries]
    exact hn.kept.of_idents (idents_updateIf (lapse_ident h _) _)
  · -- nothing was written: the file has the records as they were
    rw [expire_entries, hy]
    exact forall₂_lapse_right hn.stored halive (Nat.le_refl raw) _
  · rw [refresh_entries, refresh_entries, hx, hy]
    exact hlevel
  · rw [refresh_clock, hx]
  · rw [refresh_clock, hy]

/-! ## Operations -/

/-- **`status`.** -/
theorem Coupled.statusOf (hc : Coupled o time x y) (hfile : o.filePath ≠ none)
    (hw : h.writable = true) (halive : h.AllAlive) {raw : Nat} (hle : time ≤ raw) (t : Target) :
    (x.statusOf o h raw t).1.core = (y.statusOf o.inMemory h raw t).1.core ∧
      Coupled o raw (x.statusOf o h raw t).2 (y.statusOf o.inMemory h raw t).2 := by
  obtain ⟨hc', hlevel, -, -⟩ := hc.refresh hfile hw halive hle t
  exact ⟨effectiveStatus_core hlevel hc'.kept.key_eq, hc'⟩

theorem Coupled.mono (hc : Coupled o time x y) {time' : Nat} (hle : time ≤ time') :
    Coupled o time' x y where
  records := forall₂_mono hc.records hle
  stored := forall₂_mono hc.stored hle
  savedAt := fun store hst => (hc.savedAt store hst).trans hle
  clock := hc.clock.trans hle
  clock' := hc.clock'.trans hle
  kept := hc.kept

theorem grant_core {now : Nat} {a b : Entry} (hab : a.core = b.core) :
    (grant h now a).core = (grant h now b).core := by
  have hg : ∀ e : Entry, (grant h now e).core = (grant h now e.core).core := fun _ => rfl
  rw [hg a, hab, ← hg b]

/-- **`tryAcquire`.** -/
theorem Coupled.tryAcquire (hc : Coupled o time x y) (hfile : o.filePath ≠ none)
    (hs : Steady time h) (t : Target) :
    (x.tryAcquire o h t).1.core = (y.tryAcquire o.inMemory h t).1.core ∧
      Coupled o h.rawAgain (x.tryAcquire o h t).2 (y.tryAcquire o.inMemory h t).2 := by
  obtain ⟨hc', hlevel, hx, hy⟩ := hc.refresh hfile hs.writable hs.alive hs.raw t
  rw [refresh_entries, refresh_entries] at hlevel
  have happ := applicable_sameCore hlevel
  have hblock := strongestBlock_sameCore (filter_sameCore happ (p := Entry.hardBlock) fun _ => rfl)
  have hprobes := filter_sameCore happ (p := fun e => e.state = .halfOpen) fun _ => rfl
  rw [refresh_clock] at hx hy
  unfold Breaker.tryAcquire
  simp only [expire_entries, expire_clock]
  generalize strongestBlock ((applicableEntries t (updateIf (Entry.concerns t)
    (lapse h (x.now o h.raw).lastClockMs) _)).filter _) = blockX at hblock ⊢
  generalize strongestBlock ((applicableEntries t (updateIf (Entry.concerns t)
    (lapse h (y.now o.inMemory h.raw).lastClockMs) _)).filter _) = blockY at hblock ⊢
  cases hblock with
  | @some a b hab =>
    have hu : a.blockedUntil = b.blockedUntil := (congrArg Entry.blockedUntil hab :)
    refine ⟨?_, hc'.mono hs.rawAgain⟩
    simp only [Decision.core, statusOf_core hab, hu, hx, hy]
  | none =>
    simp only
    generalize (applicableEntries t (updateIf (Entry.concerns t)
      (lapse h (x.now o h.raw).lastClockMs) _)).filter _ = probesX at hprobes ⊢
    generalize (applicableEntries t (updateIf (Entry.concerns t)
      (lapse h (y.now o.inMemory h.raw).lastClockMs) _)).filter _ = probesY at hprobes ⊢
    cases hprobes with
    | nil =>
      obtain ⟨hst, hcs⟩ := hc'.statusOf hfile hs.writable hs.alive hs.rawAgain t
      exact ⟨congrArg (Decision.allowed false · none) hst, hcs⟩
    | @cons a b as bs hab habs =>
      have hkeys : (a :: as).map (·.key) = (b :: bs).map (·.key) :=
        map_eq_map (List.Forall₂.cons hab habs) fun _ _ h => (Frame.of_core h).key
      simp only
      refine ⟨?_, ?_⟩
      · simp only [Decision.core, hkeys, hx, hy, statusOf_core (grant_core hab)]
      · refine Coupled.mono ?_ hs.rawAgain
        refine Coupled.persist ⟨?_, ?_⟩ hfile hs.writable (by rw [hx]) (by rw [hy])
        · refine forall₂_updateIf hlevel (fun a b hab => ?_) (fun a b hab hp => ?_)
            fun a b hab _ => hab.toMatched
          · cases hct : a.concerns t with
            | true => rw [Entry.isProbe, Entry.isProbe, ← Level.concerns_eq hab.toMatched t, hct,
                ← core_state, hab.level hct, core_state]
            | false => rw [Entry.isProbe, Entry.isProbe, ← Level.concerns_eq hab.toMatched t, hct,
                Bool.false_and, Bool.false_and]
          · rw [Entry.isProbe, Bool.and_eq_true, beq_iff_eq] at hp
            refine ⟨loadable_stable.grant h _ a hp.2 hab.loadable, .same ?_⟩
            rw [hx, hy]
            exact grant_core (hab.level hp.1)
        · have hkept := hc'.kept
          rw [refresh_entries] at hkept
          exact hkept.of_idents (idents_updateIf (f := grant h _) (fun _ => ⟨rfl, rfl⟩) _)

/-- What the old clock reading of a process must not have disturbed: `found` are the records it
    finds under the lock, `held` those of the breaker in memory.  A result must find its lease as
    good, and open, or close, the same records. -/
def Undisturbed (o : Options) (h : Host) (found held : List Entry) : Call → Prop
  | .recordFailure input error options =>
    staleLease options.lease found = staleLease options.lease held ∧
      (staleLease options.lease held = false → ∀ t reason, normalizeTarget input = some t →
        classifyProviderCircuitFailure error = some reason →
        opensScope o h.raw t reason (toStoredError error) options found =
          opensScope o h.raw t reason (toStoredError error) options held)
  | .recordSuccess input lease =>
    staleLease lease found = staleLease lease held ∧
      (staleLease lease held = false → ∀ t, normalizeTarget input = some t → ∀ k,
        (get k found).map (Entry.closedBy t lease) = (get k held).map (Entry.closedBy t lease))
  | _ => True

/-- **Rewriting the records one result is about**, when both sides rewrite the same ones and agree
    on the outcome.  Nothing is written when there are none. -/
theorem Coupled.rewrite (hc : Coupled o time x y) (hfile : o.filePath ≠ none)
    (hw : h.writable = true) {p : Entry → Bool} {f : Entry → Entry} {Q : Entry → Entry → Prop}
    (hp : ∀ a ∈ x.entries, ∀ b ∈ y.entries, Matched time a b → p a = p b ∧ (p a = true → Q a b))
    (hf : ∀ a b, Loadable a → Q a b → Loadable (f a) ∧ (f a).core = (f b).core)
    (hid : ∀ e, (f e).key = e.key ∧ (f e).target = e.target) :
    Coupled o time
      ({ x with entries := updateIf p f x.entries }.persistIf o h (x.entries.any p))
      ({ y with entries := updateIf p f y.entries }.persistIf o.inMemory h (y.entries.any p)) := by
  have hmem := imp_mem hc.records fun a ha b hb hab => And.intro hab (hp a ha b hb hab)
  have hrel : List.Forall₂ (Matched time) (updateIf p f x.entries) (updateIf p f y.entries) := by
    refine forall₂_updateIf hmem (fun a b hab => hab.2.1) (fun a b hab hpa => ?_)
      fun a b hab _ => hab.1
    obtain ⟨hl, hcore⟩ := hf a b hab.1.loadable (hab.2.2 hpa)
    exact ⟨hl, .same hcore⟩
  have hany : x.entries.any p = y.entries.any p := any_eq_any hmem fun a b hab => hab.2.1
  refine Coupled.persistIf ⟨hrel, hc.kept.of_idents (idents_updateIf hid _)⟩ hfile hw
    (fun hno => ?_) hc.savedAt hc.clock hc.clock'
  -- no record was rewritten, so the file still fits
  rw [hany, List.any_eq_false] at hno
  show List.Forall₂ (Matched time) x.stored (updateIf p f y.entries)
  rw [updateIf_of_none fun e he => by simpa using hno e he]
  exact hc.stored

/-- **`recordFailure`.** -/
theorem Coupled.recordFailure (hc : Coupled o time x y) (hfile : o.filePath ≠ none)
    (hs : Steady time h) {input : Target} (hinput : normalizeTarget input = some t)
    {error : Failure} {options : FailureOptions}
    (hu : Undisturbed o h x.entries y.entries (.recordFailure input error options)) :
    (x.recordFailure o h t error options).1.core =
        (y.recordFailure o.inMemory h t error options).1.core ∧
      Coupled o h.rawAgain (x.recordFailure o h t error options).2
        (y.recordFailure o.inMemory h t error options).2 := by
  obtain ⟨hn, hx, hy⟩ := hc.now hs.raw
  obtain ⟨hstale, hopen⟩ := hu
  have hex : (x.now o h.raw).entries = x.entries := by rw [now_of_le (hc.clock.trans hs.raw)]
  have hey : (y.now o.inMemory h.raw).entries = y.entries := by
    rw [now_of_le (hc.clock'.trans hs.raw)]
  rw [← hex, ← hey] at hstale hopen
  unfold Breaker.recordFailure
  simp only [hx, hy]
  generalize x.now o h.raw = x₁ at *
  generalize y.now o.inMemory h.raw = y₁ at *
  obtain ⟨xs, clockX, fileX⟩ := x₁
  obtain ⟨ys, clockY, fileY⟩ := y₁
  obtain rfl : clockX = h.raw := hx
  obtain rfl : clockY = h.raw := hy
  cases hst : staleLease options.lease ys with
  | true =>
    rw [hst] at hstale
    simp only [hstale, if_true]
    exact hn.statusOf hfile hs.writable hs.alive hs.rawAgain t
  | false =>
    rw [hst] at hstale
    simp only [hstale, Bool.false_eq_true, if_false]
    have hheld := fun a ha b hb (hab : Matched h.raw a b) =>
      heldBy_eq hn.records hn.kept.nodup hstale hst ha hb hab
    cases hreason : classifyProviderCircuitFailure error with
    | none =>
      have hreleased := hn.rewrite (f := releaseEntry h.raw) hfile hs.writable hheld
        (fun a b hl hcore => ⟨loadable_stable.release _ _ hl, releaseEntry_core hcore⟩)
        fun _ => ⟨rfl, rfl⟩
      exact hreleased.statusOf hfile hs.writable hs.alive hs.rawAgain t
    | some reason =>
      have hfail := forall₂_failEntries hn.records hn.kept
        (normalizeTarget_normalized hinput) hstale hst (hopen hst t reason hinput hreason)
      have hget : Option.Rel SameCore (get (keyOf (failureScope t reason)) _)
          (get (keyOf (failureScope t reason)) _) :=
        find?_rel hfail (fun a b hab => by rw [hab.1.twin.frame.key])
          fun a b hab hk => hab.2 (of_decide_eq_true hk)
      refine ⟨?_, ?_⟩
      · simp only
        generalize get (keyOf (failureScope t reason)) _ = gx at hget ⊢
        generalize get (keyOf (failureScope t reason)) _ = gy at hget ⊢
        cases hget with
        | some hab => exact statusOf_core hab
        | none => rfl
      · have hpruned := forall₂_prune (o := o) (hfail.imp fun _ _ hab => hab.1)
        exact (hn.store ⟨hpruned, prune_failEntries_kept hn.kept _ _ _ _ _⟩ hfile
          hs.writable).mono hs.rawAgain

/-- **`recordSuccess`.** -/
theorem Coupled.recordSuccess (hc : Coupled o time x y) (hfile : o.filePath ≠ none)
    (hs : Steady time h) {input : Target} (hinput : normalizeTarget input = some t)
    {lease : Option Lease} (hu : Undisturbed o h x.entries y.entries (.recordSuccess input lease)) :
    (x.recordSuccess o h t lease).1.core = (y.recordSuccess o.inMemory h t lease).1.core ∧
      Coupled o h.rawAgain (x.recordSuccess o h t lease).2
        (y.recordSuccess o.inMemory h t lease).2 := by
  obtain ⟨hn, hx, hy⟩ := hc.now hs.raw
  obtain ⟨hstale, hclosed⟩ := hu
  have hex : (x.now o h.raw).entries = x.entries := by rw [now_of_le (hc.clock.trans hs.raw)]
  have hey : (y.now o.inMemory h.raw).entries = y.entries := by
    rw [now_of_le (hc.clock'.trans hs.raw)]
  rw [← hex, ← hey] at hstale hclosed
  unfold Breaker.recordSuccess
  simp only [hx, hy]
  generalize x.now o h.raw = x₁ at *
  generalize y.now o.inMemory h.raw = y₁ at *
  obtain ⟨xs, clockX, fileX⟩ := x₁
  obtain ⟨ys, clockY, fileY⟩ := y₁
  obtain rfl : clockX = h.raw := hx
  obtain rfl : clockY = h.raw := hy
  cases hst : staleLease lease ys with
  | true =>
    rw [hst] at hstale
    simp only [hstale, if_true]
    exact hn.statusOf hfile hs.writable hs.alive hs.rawAgain t
  | false =>
    rw [hst] at hstale
    simp only [hstale, Bool.false_eq_true, if_false]
    have hsame : ∀ a ∈ xs, ∀ b ∈ ys, Matched h.raw a b →
        a.closedBy t lease = b.closedBy t lease ∧ (a.closedBy t lease = true → Frame a b) := by
      intro a ha b hb hab
      have hk := hclosed hst t hinput a.key
      have hnx : (xs.map (·.key)).Nodup := by
        have hkeys : xs.map (·.key) = ys.map (·.key) := keys_eq hn.records
        rw [hkeys]
        exact hn.kept.nodup
      rw [(get_eq_some hnx).mpr ⟨ha, rfl⟩,
        (get_eq_some hn.kept.nodup).mpr ⟨hb, hab.twin.frame.key.symm⟩] at hk
      exact ⟨Option.some.inj hk, fun _ => hab.twin.frame⟩
    have hclosed' := hn.rewrite (f := closeEntry h.raw) hfile hs.writable hsame
      (fun a b hl hf => ⟨loadable_stable.close _ _ hl, closeEntry_core hf⟩) fun _ => ⟨rfl, rfl⟩
    exact hclosed'.statusOf hfile hs.writable hs.alive hs.rawAgain t

/-- **`reset`.** -/
theorem Coupled.reset (hc : Coupled o time x y) (hfile : o.filePath ≠ none)
    (hw : h.writable = true) (scope : Option Target) :
    (x.reset o h scope).1 = (y.reset o.inMemory h scope).1 ∧
      Coupled o time (x.reset o h scope).2 (y.reset o.inMemory h scope).2 := by
  have hcov : ∀ a b, Matched time a b → a.coveredBy scope = b.coveredBy scope := by
    intro a b hab
    unfold Entry.coveredBy
    rw [hab.twin.frame.target]
  have hrest := forall₂_filter hc.records (p := fun e => !e.coveredBy scope)
    (q := fun e => !e.coveredBy scope) fun a b hab => by rw [hcov a b hab]
  have hcount : (x.entries.filter (Entry.coveredBy scope)).length =
      (y.entries.filter (Entry.coveredBy scope)).length := (forall₂_filter hc.records hcov).length_eq
  unfold Breaker.reset
  refine ⟨hcount, Coupled.persistIf ⟨hrest, hc.kept.sublist List.filter_sublist⟩ hfile hw
    (fun hno => ?_) hc.savedAt hc.clock hc.clock'⟩
  -- nothing was deleted, so the file still fits
  rw [Bool.or_eq_false_iff, hcount] at hno
  have hnone : y.entries.filter (Entry.coveredBy scope) = [] := by
    simpa using hno.2
  show List.Forall₂ (Matched time) x.stored (y.entries.filter fun e => !e.coveredBy scope)
  rw [List.filter_eq_self.mpr fun e he => by
    have := List.filter_eq_nil_iff.mp hnone e he
    simpa using this]
  exact hc.stored

/-! ## The fleet and its reference -/

/-- Breakers with equal options in several processes, the store file they share, and the latest
    reading of their common clock. -/
structure Fleet where
  instances : Nat → Breaker
  file : Option PersistedStore
  clock : Nat

/-- A process starts, or one of its calls is served. -/
inductive FleetCall where
  | start (who : Nat) (h : Host)
  | call (who : Nat) (h : Host) (call : Call)

/-- What the process `who` is and sees. -/
def Fleet.seenBy (f : Fleet) (who : Nat) : Breaker := { f.instances who with file := f.file }

/-- The processes of a fleet on one file. -/
def fleetMachine (o : Options) : Machine Fleet FleetCall (Option Answer) where
  step := fun f a => match a with
    | .start who h =>
      (none, { f with
        instances := Function.update f.instances who (Breaker.start o h f.file)
        clock := h.raw })
    | .call who h call =>
      let (answer, s) := (f.seenBy who).perform o h call
      (some answer,
        { instances := Function.update f.instances who s, file := s.file, clock := h.rawAgain })

/-- The same calls made on one breaker in memory. -/
def singleMachine (o : Options) : Machine Breaker FleetCall (Option Answer) where
  step := fun s a => match a with
    | .start _ _ => (none, s)
    | .call _ h call =>
      let (answer, s) := s.perform o.inMemory h call
      (some answer, s)

/-- The five calls the agreement is about. -/
def Call.Guarding : Call → Prop
  | .annotate .. => False
  | .listStatuses .. => False
  | _ => True

/-- What is taken for granted of a fleet: the clock goes forward, the store is read and written,
    and the owners of probes stay alive. -/
def Assumed (f : Fleet) : FleetCall → Prop
  | .start _ h => f.clock ≤ h.raw
  | .call _ h call => Steady f.clock h ∧ call.Guarding

/-- The old clock reading of the calling process does no harm: the file is not rebased to it, and
    it disturbs nothing the call looks at before it lets time act. -/
def Synchronized (o : Options) (f : Fleet) (s : Breaker) : FleetCall → Prop
  | .start _ _ => True
  | .call who h call =>
    (∀ store, f.file = some store →
      store.savedAt ≤ (f.instances who).lastClockMs + o.maxClockSkewMs) ∧
    Undisturbed o h ((f.seenBy who).locked o h).entries s.entries call

/-- Processes that have just started on an empty store. -/
def newFleet (clock : Nat) : Fleet :=
  { instances := fun _ => { lastClockMs := clock }, file := none, clock }

/-- Between calls, the records of the file are twins of those in memory. -/
structure Agrees (o : Options) (f : Fleet) (s : Breaker) : Prop where
  stored : List.Forall₂ (Matched f.clock) (f.file.elim [] (·.entries)) s.entries
  savedAt : ∀ store, f.file = some store → store.savedAt ≤ f.clock
  clocks : ∀ who, (f.instances who).lastClockMs ≤ f.clock
  clock' : s.lastClockMs ≤ f.clock
  kept : Kept o s.entries

theorem Agrees.locked {f : Fleet} {s : Breaker} (ha : Agrees o f s) (hfile : o.filePath ≠ none)
    {who : Nat} (hs : Steady f.clock h)
    (hrebase : ∀ store, f.file = some store →
      store.savedAt ≤ (f.instances who).lastClockMs + o.maxClockSkewMs) :
    Coupled o f.clock ((f.seenBy who).locked o h) s := by
  have hlocked : (f.seenBy who).locked o h = (f.seenBy who).load o h := if_neg hfile
  rw [hlocked]
  refine ⟨?_, ha.stored, ha.savedAt, ha.clocks who, ha.clock', ha.kept⟩
  have hst := ha.stored
  unfold Breaker.load Fleet.seenBy
  simp only
  cases hf : f.file with
  | none =>
    rw [hf] at hst
    exact hst
  | some store =>
    rw [hf] at hst
    simp only [hs.readable, if_true]
    exact forall₂_loadEntries hst ha.kept hs.alive (ha.clocks who) (hrebase store hf)

/-- **One call is answered alike.** -/
theorem Coupled.perform {x : Breaker} (hc : Coupled o time (x.locked o h) y)
    (hfile : o.filePath ≠ none) (hs : Steady time h) {call : Call} (hg : call.Guarding)
    (hu : Undisturbed o h (x.locked o h).entries y.entries call) :
    (x.perform o h call).1.core = (y.perform o.inMemory h call).1.core ∧
      Coupled o h.rawAgain (x.perform o h call).2 (y.perform o.inMemory h call).2 := by
  have hy : y.locked o.inMemory h = y := if_pos rfl
  have hlast := hs.raw.trans hs.rawAgain
  unfold Breaker.perform
  rw [hy]
  cases call with
  | tryAcquire input =>
    simp only
    cases hn : normalizeTarget input with
    | none => exact ⟨rfl, hc.mono hlast⟩
    | some t =>
      obtain ⟨hd, hc'⟩ := hc.tryAcquire hfile hs t
      exact ⟨congrArg Answer.decision hd, hc'⟩
  | recordFailure input error options =>
    simp only
    cases hn : normalizeTarget input with
    | none => exact ⟨rfl, hc.mono hlast⟩
    | some t =>
      obtain ⟨hd, hc'⟩ := hc.recordFailure hfile hs hn hu
      exact ⟨congrArg Answer.status hd, hc'⟩
  | recordSuccess input lease =>
    simp only
    cases hn : normalizeTarget input with
    | none => exact ⟨rfl, hc.mono hlast⟩
    | some t =>
      obtain ⟨hd, hc'⟩ := hc.recordSuccess hfile hs hn hu
      exact ⟨congrArg Answer.status hd, hc'⟩
  | status input =>
    simp only
    cases hn : normalizeTarget input with
    | none => exact ⟨rfl, hc.mono hlast⟩
    | some t =>
      obtain ⟨hd, hc'⟩ := hc.statusOf hfile hs.writable hs.alive hs.raw t
      exact ⟨congrArg Answer.status hd, hc'.mono hs.rawAgain⟩
  | reset scope =>
    cases scope with
    | none =>
      obtain ⟨hd, hc'⟩ := hc.reset hfile hs.writable none
      exact ⟨congrArg Answer.count hd, hc'.mono hlast⟩
    | some input =>
      simp only
      cases hn : normalizeTarget input with
      | none => exact ⟨rfl, hc.mono hlast⟩
      | some t =>
        obtain ⟨hd, hc'⟩ := hc.reset hfile hs.writable (some t)
        exact ⟨congrArg Answer.count hd, hc'.mono hlast⟩
  | annotate input a => exact hg.elim
  | listStatuses all => exact hg.elim

/-- **One step of the fleet.** -/
theorem Agrees.step {f : Fleet} {s : Breaker} (hfile : o.filePath ≠ none) (a : FleetCall)
    (ha : Agrees o f s) (hok : Assumed f a ∧ Synchronized o f s a) :
    (((fleetMachine o).step f a).1.map Answer.core =
        ((singleMachine o).step s a).1.map Answer.core) ∧
      Agrees o ((fleetMachine o).step f a).2 ((singleMachine o).step s a).2 := by
  cases a with
  | start who h =>
    have hle : f.clock ≤ h.raw := hok.1
    refine ⟨rfl, forall₂_mono ha.stored hle, fun store hst => (ha.savedAt store hst).trans hle,
      fun i => ?_, ha.clock'.trans hle, ha.kept⟩
    show (Function.update f.instances who (Breaker.start o h f.file) i).lastClockMs ≤ h.raw
    by_cases hi : i = who
    · have hclock : (Breaker.start o h f.file).lastClockMs = h.raw := by
        unfold Breaker.start Breaker.locked
        split <;> rfl
      rw [hi, Function.update_self, hclock]
    · rw [Function.update_of_ne hi]
      exact (ha.clocks i).trans hle
  | call who h call =>
    obtain ⟨⟨hs, hg⟩, hrebase, hu⟩ := hok
    obtain ⟨hans, hc⟩ := (ha.locked hfile hs hrebase).perform hfile hs hg hu
    refine ⟨congrArg some hans, hc.stored, hc.savedAt, fun i => ?_, hc.clock', hc.kept⟩
    show (Function.update f.instances who ((f.seenBy who).perform o h call).2 i).lastClockMs
      ≤ h.rawAgain
    by_cases hi : i = who
    · rw [hi, Function.update_self]
      exact hc.clock
    · rw [Function.update_of_ne hi]
      exact (ha.clocks i).trans (hs.raw.trans hs.rawAgain)

/-- **Cross-process agreement.**  A fleet that starts on an empty store answers every call of every
    interleaving as one breaker in memory does, as long as no call meets a process whose old clock
    reading does harm. -/
theorem fleet_agrees (o : Options) (hfile : o.filePath ≠ none) (clock : Nat) (as : List FleetCall)
    (hok : Machine.Paired (fleetMachine o) (singleMachine o)
      (fun f s a => Assumed f a ∧ Synchronized o f s a) (newFleet clock)
      { lastClockMs := clock } as) :
    ((fleetMachine o).answers (newFleet clock) as).map (Option.map Answer.core) =
      ((singleMachine o).answers { lastClockMs := clock } as).map (Option.map Answer.core) := by
  refine (Machine.simulates (R := Agrees o) (fun f s a ha hok => ha.step hfile a hok) ?_ hok).1
  exact ⟨List.Forall₂.nil, fun _ h => absurd h (by simp [newFleet]), fun _ => Nat.le_refl _,
    Nat.le_refl _, Kept.nil o⟩

/-! ## The defect at work -/

section Example

/-- The default options with a store file. -/
def onFile : Options := normalizeOptions { filePath := some "provider-circuits.json" }

/-- One process sees a failure with a retry time; another, idle since the start, is asked while
    the circuit is open. -/
def idleRun : List FleetCall :=
  [.call 0 (hostAt 100000) (.recordFailure route busy { retryAt := some 130000 }),
    .call 1 (hostAt 100000) (.tryAcquire route)]

theorem steady_hostAt {time raw : Nat} (hle : time ≤ raw) : Steady time (hostAt raw) :=
  ⟨rfl, rfl, fun _ => rfl, hle, Nat.le_refl _⟩

/-- **An idle process admits what another has blocked.**  Nothing goes wrong with the store and the
    clock, yet the second process rebases the file to its old reading of the clock and finds the
    cooldown over, thirty seconds before it is. -/
theorem idle_process_admits :
    (fleetMachine onFile).Always Assumed (newFleet 0) idleRun ∧
    ((fleetMachine onFile).answers (newFleet 0) idleRun).map (Option.map Answer.core) ≠
      ((singleMachine onFile).answers { lastClockMs := 0 } idleRun).map (Option.map Answer.core) := by
  refine ⟨⟨⟨steady_hostAt (Nat.zero_le _), trivial⟩, ⟨steady_hostAt ?_, trivial⟩, trivial⟩, ?_⟩
  · exact Nat.le_refl _
  · decide +kernel

/-- Two processes that are asked a second apart agree. -/
def busyRun : List FleetCall :=
  [.call 0 (hostAt 1000) (.recordFailure route busy { retryAt := some 4000 }),
    .call 1 (hostAt 2000) (.tryAcquire route)]

theorem fleet_agrees_busyRun :
    ((fleetMachine onFile).answers (newFleet 0) busyRun).map (Option.map Answer.core) =
      ((singleMachine onFile).answers { lastClockMs := 0 } busyRun).map (Option.map Answer.core) := by
  refine fleet_agrees onFile (by decide) 0 busyRun ⟨⟨⟨steady_hostAt (Nat.zero_le _), trivial⟩,
    fun store h => absurd h (by simp [newFleet]), ?_, ?_⟩, ⟨⟨steady_hostAt ?_, trivial⟩, ?_, trivial⟩,
    trivial⟩
  · decide +kernel
  · intro _ t reason _ _
    rfl
  · decide +kernel
  · intro store hst
    have hsaved : (((fleetMachine onFile).step (newFleet 0) (.call 0 (hostAt 1000)
        (.recordFailure route busy { retryAt := some 4000 }))).2.file).map (·.savedAt) = some 1000 := by
      decide +kernel
    rw [hst] at hsaved
    have hat : store.savedAt = 1000 := Option.some.inj hsaved
    rw [hat]
    decide +kernel

end Example

end NexusCode.Circuit
