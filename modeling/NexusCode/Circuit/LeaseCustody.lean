/-
  Where a lease is, and what takes it away.

  A lease is known by its id, a `randomUUID()` no other grant repeats.  A breaker holds it while a
  record carries the id, in memory or in the store file.

    1. `found`       — the records the next operation starts from: those in memory, or those of the
                       file; what an operation preserves on single records it preserves on them.
    2. `InCustody`   — a record that carries the lease is one it was granted on.
    3. **`settles`** — reporting the outcome under a lease that is still whole, to a store that can
                       be written, takes the lease away for good.
    4. **`settles_iff`** — in memory, exactly that does, or the end of what is left of the lease.
-/
import NexusCode.Circuit.ProbeExclusion

namespace NexusCode.Circuit

open Lib Shared List Option

/-! ## In memory and in the file -/

/-- The records the next operation starts from. -/
def Breaker.found (o : Options) (s : Breaker) : List Entry :=
  if o.filePath = none then s.entries else (s.file.map (·.entries)).getD []

/-- Every record has the property, in memory and, when there is a store, in the file. -/
structure Throughout (o : Options) (P : Entry → Prop) (s : Breaker) : Prop where
  records : ∀ e ∈ s.entries, P e
  stored : o.filePath ≠ none → ∀ store, s.file = some store → ∀ e ∈ store.entries, P e

/-- What time alone preserves. -/
structure Timeless (P : Entry → Prop) : Prop where
  shift : ∀ delta e, P e → P (shiftEntry delta e)
  halfOpened : ∀ e, P e → P e.halfOpened

section Throughout

variable {o : Options} {h : Host} {P : Entry → Prop} {s : Breaker}

theorem StableFor.timeless (hP : StableFor h P) : Timeless P := ⟨hP.shift, hP.halfOpened⟩

theorem Timeless.lapse (hP : Timeless P) (h : Host) (now : Nat) {e : Entry} (he : P e) :
    P (lapse h now e) := by
  rw [lapse_eq]
  split
  · exact hP.halfOpened e he
  · exact he

theorem Throughout.found (hs : Throughout o P s) : ∀ e ∈ s.found o, P e := by
  intro e he
  unfold Breaker.found at he
  split at he
  · exact hs.records e he
  · rename_i hfile
    cases hstore : s.file with
    | none =>
      rw [hstore] at he
      nomatch he
    | some store =>
      rw [hstore] at he
      exact hs.stored hfile store hstore e he

theorem Throughout.rewrite (hs : Throughout o P s) {es : List Entry} (hes : ∀ e ∈ es, P e) :
    Throughout o P { s with entries := es } := ⟨hes, hs.stored⟩

theorem Throughout.persist (hs : Throughout o P s) (h : Host) : Throughout o P (s.persist o h) := by
  unfold Breaker.persist
  split
  · refine ⟨hs.records, fun _ store hstore => ?_⟩
    obtain rfl := some.inj hstore
    exact hs.records
  · exact hs

theorem Throughout.persistIf (hs : Throughout o P s) (h : Host) (changed : Bool) :
    Throughout o P (s.persistIf o h changed) := by
  cases changed with
  | false => exact hs
  | true => exact hs.persist h

/-- What was just written holds of the file, whatever it held before. -/
theorem Throughout.of_written (hes : ∀ e ∈ s.entries, P e)
    (hwritten : o.filePath = none ∨ h.writable = true) : Throughout o P (s.persist o h) := by
  refine ⟨by rwa [persist_entries], fun hfile store hstore => ?_⟩
  rcases hwritten with hnone | hw
  · exact absurd hnone hfile
  · have hpersist : s.persist o h =
        { s with file := some { savedAt := s.lastClockMs, entries := s.entries } } :=
      if_pos ⟨hfile, hw⟩
    rw [hpersist] at hstore
    obtain rfl := some.inj hstore
    exact hes

theorem now_file (o : Options) (raw : Nat) (s : Breaker) : (s.now o raw).file = s.file := by
  unfold Breaker.now
  split
  · rfl
  · split <;> rfl

theorem Throughout.now (hs : Throughout o P s) (hP : Timeless P) (raw : Nat) :
    Throughout o P (s.now o raw) := by
  refine ⟨?_, now_file o raw s ▸ hs.stored⟩
  unfold Breaker.now
  split
  · exact forall_mem_map.mpr fun e he => hP.shift _ e (hs.records e he)
  · split <;> exact hs.records

theorem Throughout.expire (hs : Throughout o P s) (hP : Timeless P) (h : Host)
    (p : Entry → Bool) : Throughout o P (s.expire h p) :=
  hs.rewrite (forall_updateIf hs.records fun _ _ he => hP.lapse h s.lastClockMs he)

theorem Throughout.statusOf (hs : Throughout o P s) (hP : Timeless P) (h : Host) (raw : Nat)
    (t : Target) : Throughout o P (s.statusOf o h raw t).2 :=
  ((hs.now hP raw).expire hP h _).persistIf h _

theorem Throughout.tryAcquire (hs : Throughout o P s) (hP : StableFor h P) (t : Target) :
    Throughout o P (s.tryAcquire o h t).2 := by
  have he := (hs.now hP.timeless h.raw).expire hP.timeless h (Entry.concerns t)
  unfold Breaker.tryAcquire
  dsimp only
  split
  · exact he.persistIf h _
  · split
    · exact (he.persistIf h _).statusOf hP.timeless h _ t
    · refine (he.rewrite (forall_updateIf he.records fun e hp hPe => ?_)).persist h
      rw [Entry.isProbe, Bool.and_eq_true, beq_iff_eq] at hp
      exact hP.grant _ e hp.2 hPe

theorem Throughout.recordFailure (hs : Throughout o P s) (hP : StableFor h P) {t : Target}
    (hn : t.Normalized) (error : Failure) (options : FailureOptions) :
    Throughout o P (s.recordFailure o h t error options).2 := by
  have hnow := hs.now hP.timeless h.raw
  unfold Breaker.recordFailure
  dsimp only
  split
  · exact hnow.statusOf hP.timeless h _ t
  · split
    · refine Throughout.statusOf (Throughout.persistIf ?_ h _) hP.timeless h _ t
      exact hnow.rewrite (forall_updateIf hnow.records fun e _ he => hP.release _ e he)
    · refine (hnow.rewrite (fun e he => ?_)).persist h
      exact hP.failEntries hnow.records hn o _ _ _ _ e ((prune_sublist _ _).subset he)

theorem Throughout.recordSuccess (hs : Throughout o P s) (hP : StableFor h P) (t : Target)
    (lease : Option Lease) : Throughout o P (s.recordSuccess o h t lease).2 := by
  have hnow := hs.now hP.timeless h.raw
  unfold Breaker.recordSuccess
  dsimp only
  split
  · exact hnow.statusOf hP.timeless h _ t
  · refine Throughout.statusOf (Throughout.persistIf ?_ h _) hP.timeless h _ t
    exact hnow.rewrite (forall_updateIf hnow.records fun e _ he => hP.close _ e he)

theorem forall_put {x : Entry} {es : List Entry} (hx : P x) (hes : ∀ e ∈ es, P e) :
    ∀ e ∈ put x es, P e := by
  intro e he
  unfold put at he
  split at he
  · obtain ⟨e₀, he₀, rfl⟩ := mem_map.mp he
    split
    · exact hx
    · exact hes e₀ he₀
  · rcases mem_append.mp he with he | he
    · exact hes e he
    · rw [mem_singleton.mp he]
      exact hx

theorem forall_foldl_put {l acc : List Entry} (hl : ∀ e ∈ l, P e) (hacc : ∀ e ∈ acc, P e) :
    ∀ e ∈ l.foldl (fun es e => put e es) acc, P e := by
  induction l generalizing acc with
  | nil => exact hacc
  | cons x l ih =>
    exact ih (fun e he => hl e (mem_cons_of_mem x he))
      (forall_put (hl x mem_cons_self) hacc)

/-- What the records read from a file have, the loaded ones have. -/
theorem forall_loadEntries (hP : Timeless P) {store : PersistedStore}
    (hread : ∀ raw ∈ store.entries, ∀ e, validEntry raw = some e → P e) (clock : Nat) :
    ∀ e ∈ loadEntries o h clock store, P e := by
  have hvalid : ∀ e ∈ (store.entries.take o.maxEntries).filterMap validEntry, P e := by
    intro e he
    obtain ⟨raw, hmem, hraw⟩ := mem_filterMap.mp he
    exact hread raw (mem_of_mem_take hmem) e hraw
  have hfold := forall_foldl_put hvalid (forall_mem_nil P)
  intro e he
  unfold loadEntries at he
  obtain ⟨e₀, he₀, rfl⟩ := mem_map.mp he
  refine hP.lapse h _ ?_
  split at he₀
  · obtain ⟨e₁, he₁, rfl⟩ := mem_map.mp he₀
    exact hP.shift _ _ (hfold e₁ he₁)
  · exact hfold e₀ he₀

/-- What the found records have, all have once the operation has begun. -/
theorem throughout_locked (hs : ∀ e ∈ s.found o, P e) (hP : Timeless P)
    (hread : ∀ raw e, validEntry raw = some e → P raw → P e) (h : Host) :
    Throughout o P (s.locked o h) := by
  unfold Breaker.found at hs
  unfold Breaker.locked
  split
  · rename_i hfile
    rw [if_pos hfile] at hs
    exact ⟨hs, fun hne => absurd hfile hne⟩
  · rename_i hfile
    rw [if_neg hfile] at hs
    unfold Breaker.load
    refine ⟨fun e he => ?_, fun _ store hstore => ?_⟩
    · cases hstore : s.file with
      | none =>
        rw [hstore] at he
        nomatch he
      | some store =>
        rw [hstore] at he hs
        dsimp only at he
        split at he
        · exact forall_loadEntries hP (fun raw hraw e he => hread raw e he (hs raw hraw)) _ e he
        · nomatch he
    · change s.file = some store at hstore
      rw [hstore] at hs
      exact hs

/-- **The record rule, throughout.** -/
theorem throughout_perform (hl : Throughout o P (s.locked o h)) (hP : StableFor h P) (call : Call) :
    Throughout o P (s.perform o h call).2 := by
  unfold Breaker.perform
  cases call with
  | tryAcquire input =>
    dsimp only
    split
    · exact hl
    · exact hl.tryAcquire hP _
  | recordFailure input error options =>
    dsimp only
    split
    · exact hl
    · rename_i t ht
      exact hl.recordFailure hP (normalizeTarget_normalized ht) _ _
  | recordSuccess input lease =>
    dsimp only
    split
    · exact hl
    · exact hl.recordSuccess hP _ _
  | status input =>
    dsimp only
    split
    · exact hl
    · exact hl.statusOf hP.timeless h _ _
  | reset scope =>
    have hreset : ∀ scope, Throughout o P ((s.locked o h).reset o h scope).2 := fun scope =>
      Throughout.persistIf (hl.rewrite (fun e he => hl.records e (mem_filter.mp he).1))
        h _
    cases scope with
    | none => exact hreset none
    | some input =>
      dsimp only
      split
      · exact hl
      · exact hreset _
  | annotate input a =>
    dsimp only
    split
    · exact hl
    · rename_i t ht
      refine (hl.rewrite (fun e he => ?_)).persist h
      exact forall_updateIf (hP.ensure hl.records (normalizeTarget_normalized ht))
        (fun e _ he => hP.annotate _ e he) e ((prune_sublist _ _).subset he)
  | listStatuses all => exact ((hl.now hP.timeless _).expire hP.timeless h _).persistIf h _

end Throughout

/-! ## A lease and its records -/

/-- The record carries no lease of that id. -/
def Entry.Free (id : String) (e : Entry) : Prop := e.probeLeaseId ≠ some id

/-- Some record carries the lease. -/
def Breaker.Holds (o : Options) (id : String) (s : Breaker) : Prop :=
  ∃ e ∈ s.found o, e.probeLeaseId = some id

/-- A record is kept under the key of its target, which is clean. -/
def Entry.WellKeyed (e : Entry) : Prop := e.key = keyOf e.target ∧ e.target.Normalized

/-- A record that carries the lease is one it was granted on, for a request to `t`. -/
def Entry.InCustody (t : Target) (lease : Lease) (e : Entry) : Prop :=
  e.probeLeaseId = some lease.id →
    e.concerns t = true ∧ e.key ∈ lease.keys ∧ e.state = .halfOpen ∧ e.WellKeyed

section Custody

variable {o : Options} {h : Host} {s : Breaker} {t : Target} {lease : Lease} {id : String}

theorem not_holds_iff : ¬ s.Holds o id ↔ ∀ e ∈ s.found o, e.Free id :=
  ⟨fun h e he hid => h ⟨e, he, hid⟩, fun h ⟨e, he, hid⟩ => h e he hid⟩

theorem applyFailure_free (o : Options) (reason : Reason) (error : StoredError) (now : Nat)
    (options : FailureOptions) (wasProbe : Bool) (e : Entry) :
    (applyFailure o reason error now options wasProbe e).Free id := by
  unfold Entry.Free
  rw [applyFailure_leaseId]
  exact nofun

theorem free_stable (hid : h.uuid ≠ id) : StableFor h (Entry.Free id) where
  shift := fun _ _ he => he
  halfOpened := fun _ _ => nofun
  grant := fun _ _ _ _ heq => hid (some.inj heq)
  release := fun _ _ _ => nofun
  fail := fun _ _ _ _ _ _ _ _ => applyFailure_free _ _ _ _ _ _ _
  annotate := fun _ _ he => he
  close := fun _ _ _ => nofun
  fresh := fun _ _ => nofun

theorem free_timeless (id : String) : Timeless (Entry.Free id) :=
  ⟨fun _ _ he => he, fun _ _ => nofun⟩

theorem free_read (raw e : Entry) (hread : validEntry raw = some e) (hraw : raw.Free id) :
    e.Free id := by
  unfold validEntry at hread
  split at hread
  · nomatch hread
  · obtain rfl := some.inj hread
    intro heq
    exact hraw (filter_eq_some_iff.mp heq).1

theorem wellKeyed_stable : Stable Entry.WellKeyed where
  shift := fun _ _ he => he
  halfOpened := fun _ he => he
  grant := fun _ _ _ _ he => he
  release := fun _ _ he => he
  fail := fun o reason error now options w e he => by
    obtain ⟨hkey, htarget⟩ := applyFailure_ident o reason error now options w e
    unfold Entry.WellKeyed
    rwa [hkey, htarget]
  annotate := fun _ _ he => he
  close := fun _ _ he => he
  fresh := fun _ hn => ⟨rfl, hn⟩

theorem wellKeyed_read (raw e : Entry) (hread : validEntry raw = some e) : e.WellKeyed := by
  refine ⟨validEntry_key hread, ?_⟩
  unfold validEntry at hread
  split at hread
  · nomatch hread
  · rename_i target htarget
    obtain rfl := some.inj hread
    exact normalizeTarget_normalized htarget

/-- Every breaker that was started and has served some calls keeps its records well. -/
theorem Breaker.Reachable.wellKeyed (hs : Breaker.Reachable o s) (h : Host) :
    ∀ e ∈ (s.locked o h).entries, e.WellKeyed := by
  have hlocked : ∀ (s : Breaker) (h : Host), (∀ e ∈ s.entries, e.WellKeyed) →
      ∀ e ∈ (s.locked o h).entries, e.WellKeyed := by
    intro s h hs
    unfold Breaker.locked
    split
    · exact hs
    · intro e he
      unfold Breaker.load at he
      dsimp only at he
      split at he
      · nomatch he
      · split at he
        · exact forall_loadEntries (wellKeyed_stable.for h).timeless
            (fun raw _ e he => wellKeyed_read raw e he) _ e he
        · nomatch he
  obtain ⟨h₀, file, hr⟩ := hs
  refine hlocked s h ?_
  refine hr.invariant (I := fun s => ∀ e ∈ s.entries, e.WellKeyed)
    (fun s a hs => wellKeyed_stable.perform (hlocked s a.1 hs) a.2) ?_
  exact hlocked { lastClockMs := h₀.raw, file } h₀ (forall_mem_nil _)

theorem custody_stable (hid : h.uuid ≠ lease.id) : StableFor h (Entry.InCustody t lease) where
  shift := fun _ _ he => he
  halfOpened := fun _ _ => nofun
  grant := fun _ _ _ _ heq => absurd (some.inj heq) hid
  release := fun _ _ _ => nofun
  fail := fun _ _ _ _ _ _ _ _ heq => absurd heq (applyFailure_free _ _ _ _ _ _ _)
  annotate := fun _ _ he => he
  close := fun _ _ _ => nofun
  fresh := fun _ _ => nofun

theorem custody_timeless : Timeless (Entry.InCustody t lease) :=
  ⟨fun _ _ he => he, fun _ _ => nofun⟩

theorem custody_read (raw e : Entry) (hread : validEntry raw = some e)
    (hraw : raw.InCustody t lease) : e.InCustody t lease := by
  intro heq
  unfold validEntry at hread
  split at hread
  · nomatch hread
  · rename_i target htarget
    obtain rfl := some.inj hread
    obtain ⟨hconcerns, hkey, hstate, hkeyed, hnormal⟩ := hraw (filter_eq_some_iff.mp heq).1
    -- a clean target is read back as it is
    obtain rfl : target = raw.target := some.inj (htarget.symm.trans hnormal)
    exact ⟨hconcerns, hkeyed ▸ hkey, hstate, rfl, hnormal⟩

theorem begun_in_custody (hcustody : ∀ e ∈ s.found o, e.InCustody t lease) (h : Host) :
    Throughout o (Entry.InCustody t lease) ((s.locked o h).now o h.raw) :=
  (throughout_locked hcustody custody_timeless custody_read h).now custody_timeless h.raw

/-! ### Granting it -/

/-- **A granted lease is in custody**: what `tryAcquire` leaves, when no record carried the id. -/
theorem grant_custody (hfree : Throughout o (Entry.Free h.uuid) s)
    (hkeyed : ∀ e ∈ s.entries, e.WellKeyed) {probe : Bool} {status : Status}
    (hgrant : (s.tryAcquire o h t).1 = .allowed probe status (some lease)) :
    lease.id = h.uuid ∧ (∃ e ∈ (s.tryAcquire o h t).2.entries, e.probeLeaseId = some lease.id) ∧
      Throughout o (Entry.InCustody t lease) (s.tryAcquire o h t).2 := by
  -- before the grant no record carries the id, and every record is well kept
  have hP : StableFor h Entry.WellKeyed := wellKeyed_stable.for h
  have hkeyed' := forall_updateIf (p := Entry.concerns t) (hP.now (o := o) hkeyed h.raw)
    fun e _ he => hP.lapse h (s.now o h.raw).lastClockMs he
  have hfree' := (hfree.now (free_timeless h.uuid) h.raw).expire (free_timeless h.uuid) h
    (Entry.concerns t)
  unfold Breaker.tryAcquire at hgrant ⊢
  dsimp only at hgrant ⊢
  change ∀ e ∈ ((s.now o h.raw).expire h (Entry.concerns t)).entries, e.WellKeyed at hkeyed'
  generalize (s.now o h.raw).expire h (Entry.concerns t) = x at hkeyed' hfree' hgrant ⊢
  generalize (s.now o h.raw).lastClockMs = now at hgrant ⊢
  have hprobe : ∀ e, e ∈ (applicableEntries t x.entries).filter (fun e => e.state = .halfOpen) ↔
      e ∈ x.entries ∧ e.isProbe t = true := by
    intro e
    unfold applicableEntries Entry.isProbe Entry.concerns
    rw [mem_filter, mem_insertionSort, mem_filter, and_assoc, Bool.and_eq_true,
      decide_eq_true_iff, beq_iff_eq]
  cases hblock : strongestBlock ((applicableEntries t x.entries).filter Entry.hardBlock) with
  | some blocker =>
    rw [hblock] at hgrant
    nomatch hgrant
  | none =>
    rw [hblock] at hgrant
    dsimp only at hgrant ⊢
    cases hl : (applicableEntries t x.entries).filter fun e => e.state = .halfOpen with
    | nil =>
      rw [hl] at hgrant
      nomatch hgrant
    | cons first others =>
      rw [hl] at hgrant
      obtain rfl : { id := h.uuid, keys := (first :: others).map (·.key) } = lease := by
        injection hgrant with _ _ hlease
        exact some.inj hlease
      refine ⟨rfl, ?_, Throughout.persist ⟨?_, fun hfile store hstore e he heq => ?_⟩ h⟩
      · obtain ⟨hmem, hp⟩ := (hprobe first).mp (hl ▸ mem_cons_self)
        rw [persist_entries]
        refine ⟨grant h now first, mem_map.mpr ⟨first, hmem, if_pos hp⟩, rfl⟩
      · intro e he heq
        obtain ⟨e₀, he₀, rfl⟩ := mem_map.mp he
        split at heq
        · rename_i hp
          rw [if_pos hp]
          have hin : e₀ ∈ first :: others := hl ▸ (hprobe e₀).mpr ⟨he₀, hp⟩
          rw [Entry.isProbe, Bool.and_eq_true, beq_iff_eq] at hp
          exact ⟨hp.1, mem_map.mpr ⟨e₀, hin, rfl⟩, hp.2, hkeyed' e₀ he₀⟩
        · exact absurd heq (hfree'.records e₀ he₀)
      · exact absurd heq (hfree'.stored hfile store hstore e he)

/-- A lease that is gone stays gone, as long as its id is not drawn again. -/
theorem gone_perform (hgone : ¬ s.Holds o id) (hid : h.uuid ≠ id) (call : Call) :
    ¬ (s.perform o h call).2.Holds o id := by
  rw [not_holds_iff] at hgone ⊢
  exact (throughout_perform (throughout_locked hgone (free_timeless id) free_read h)
    (free_stable hid) call).found

theorem custody_perform (hcustody : ∀ e ∈ s.found o, e.InCustody t lease) (hid : h.uuid ≠ lease.id)
    (call : Call) : ∀ e ∈ (s.perform o h call).2.found o, e.InCustody t lease :=
  (throughout_perform (throughout_locked hcustody custody_timeless custody_read h)
    (custody_stable hid) call).found

/-! ### Reporting under it -/

/-- A call that reports the outcome of a request to `input` under the lease. -/
inductive Reports (input : Target) (lease : Lease) : Call → Prop where
  | failure (error : Failure) (options : FailureOptions) (h : options.lease = some lease) :
    Reports input lease (.recordFailure input error options)
  | success : Reports input lease (.recordSuccess input (some lease))

/-- What the report finds takes the lease away: the lease is whole, and the result is stored; or,
    in memory, what is left of the lease has run out. -/
def Breaker.Releases (o : Options) (h : Host) (lease : Lease) (s : Breaker) : Prop :=
  let found := (s.locked o h).now o h.raw
  (staleLease (some lease) found.entries = false ∧ (o.filePath = none ∨ h.writable = true)) ∨
    (o.filePath = none ∧ ∀ e ∈ found.entries, e.probeLeaseId = some lease.id →
      e.lapses h (found.now o h.rawAgain).lastClockMs = true)

/-- A record in custody is held by the lease, as long as it carries it. -/
theorem Entry.InCustody.heldBy {e : Entry} (he : e.InCustody t lease)
    (hid : e.probeLeaseId = some lease.id) : e.heldBy (some lease) = true := by
  show (lease.keys.contains e.key && e.probeLeaseId == some lease.id) = true
  rw [hid, contains_iff_mem.mpr (he hid).2.1, beq_self_eq_true]
  rfl

theorem Entry.InCustody.closedBy {e : Entry} (he : e.InCustody t lease)
    (hid : e.probeLeaseId = some lease.id) : e.closedBy t (some lease) = true := by
  unfold Entry.closedBy
  rw [(he hid).1, any_some, hid]
  simp

theorem exists_carrier {es : List Entry} (hwhole : staleLease (some lease) es = false) :
    ∃ e ∈ es, e.probeLeaseId = some lease.id := by
  simp only [staleLease, any_some, Bool.not_eq_false', isActiveLease, Bool.and_eq_true,
    List.all_eq_true, Bool.not_eq_true'] at hwhole
  obtain ⟨hne, hall⟩ := hwhole
  cases hkeys : lease.keys with
  | nil =>
    rw [hkeys] at hne
    cases hne
  | cons key keys =>
    obtain ⟨e, he, hid⟩ := (Option.any_eq_true _ _).mp (hall key (hkeys ▸ mem_cons_self))
    exact ⟨e, mem_of_find?_eq_some he, of_decide_eq_true hid⟩

/-- Rewriting what the lease holds, by something that takes it off. -/
theorem free_updateIf {es : List Entry} {p : Entry → Bool} {f : Entry → Entry}
    (hes : ∀ e ∈ es, e.probeLeaseId = some id → p e = true) (hf : ∀ e, (f e).Free id) :
    ∀ e ∈ updateIf p f es, e.Free id := by
  intro e he
  obtain ⟨e₀, he₀, rfl⟩ := mem_map.mp he
  split
  · exact hf e₀
  · rename_i hp
    exact fun hid => hp (hes e₀ he₀ hid)

variable {input : Target} {call : Call}

/-- **Reporting under a whole lease takes it away**, in memory and in the file that is written. -/
theorem free_of_whole (hinput : normalizeTarget input = some t)
    (hcustody : ∀ e ∈ s.found o, e.InCustody t lease) (hid : h.uuid ≠ lease.id)
    (hreports : Reports input lease call)
    (hwhole : staleLease (some lease) ((s.locked o h).now o h.raw).entries = false)
    (hwritten : o.filePath = none ∨ h.writable = true) :
    Throughout o (Entry.Free lease.id) (s.perform o h call).2 := by
  have hP : StableFor h (Entry.Free lease.id) := free_stable hid
  have hx := begun_in_custody hcustody h
  obtain ⟨carrier, hcarrier, hcid⟩ := exists_carrier hwhole
  have hcarrier' := hx.records carrier hcarrier
  cases hreports with
  | failure error options hlease =>
    unfold Breaker.perform
    simp only [hinput]
    unfold Breaker.recordFailure
    simp only [hlease, hwhole, Bool.false_eq_true, if_false]
    generalize (s.locked o h).now o h.raw = x at hx hcarrier ⊢
    cases classifyProviderCircuitFailure error with
    | none =>
      have hchanged : x.entries.any (Entry.heldBy (some lease)) = true :=
        any_eq_true.mpr ⟨carrier, hcarrier, hcarrier'.heldBy hcid⟩
      dsimp only
      rw [hchanged]
      refine Throughout.statusOf (Throughout.of_written ?_ hwritten) hP.timeless h _ t
      exact free_updateIf (fun e he heq => (hx.records e he).heldBy heq) fun _ => nofun
    | some reason =>
      refine Throughout.of_written (fun e he => ?_) hwritten
      refine hP.failEntries_of_consumed ?_ (normalizeTarget_normalized hinput) e
        ((prune_sublist _ _).subset he)
      rw [hlease]
      exact free_updateIf (fun e he heq => (hx.records e he).heldBy heq)
        fun e => applyFailure_free _ _ _ _ _ _ e
  | success =>
    unfold Breaker.perform
    simp only [hinput]
    unfold Breaker.recordSuccess
    simp only [hwhole, Bool.false_eq_true, if_false]
    generalize (s.locked o h).now o h.raw = x at hx hcarrier ⊢
    have hchanged : x.entries.any (Entry.closedBy t (some lease)) = true :=
      any_eq_true.mpr ⟨carrier, hcarrier, hcarrier'.closedBy hcid⟩
    rw [hchanged]
    refine Throughout.statusOf (Throughout.of_written ?_ hwritten) hP.timeless h _ t
    exact free_updateIf (fun e he heq => (hx.records e he).closedBy heq) fun _ => nofun

/-- Reporting under a lease that is no longer whole only lets time act. -/
theorem perform_stale (hinput : normalizeTarget input = some t)
    (hreports : Reports input lease call)
    (hstale : staleLease (some lease) ((s.locked o h).now o h.raw).entries = true) :
    (s.perform o h call).2 = (((s.locked o h).now o h.raw).statusOf o h h.rawAgain t).2 := by
  unfold Breaker.perform
  cases hreports with
  | failure error options hlease =>
    simp only [hinput]
    unfold Breaker.recordFailure
    simp only [hlease, hstale, if_true]
  | success =>
    simp only [hinput]
    unfold Breaker.recordSuccess
    simp only [hstale, if_true]

/-- A correction of the clock leaves the end of a probe where it is. -/
theorem lapses_now {e e' : Entry} (h : Host) (clock : Nat) (hhalf : e.state = .halfOpen)
    (he' : e' = e ∨ ∃ delta, e' = shiftEntry delta e) : e'.lapses h clock = e.lapses h clock := by
  rcases he' with rfl | ⟨delta, rfl⟩
  · rfl
  · unfold Entry.lapses Entry.cooldownOver
    rw [shiftEntry_state, hhalf]
    rfl

theorem mem_now {raw : Nat} {e' : Entry} :
    e' ∈ (s.now o raw).entries →
      ∃ e ∈ s.entries, e' = e ∨ ∃ delta, e' = shiftEntry delta e := by
  unfold Breaker.now
  split
  · intro he
    obtain ⟨e₀, he₀, rfl⟩ := mem_map.mp he
    exact ⟨e₀, he₀, .inr ⟨_, rfl⟩⟩
  · split <;> exact fun he => ⟨e', he, .inl rfl⟩

theorem exists_mem_now {e : Entry} (he : e ∈ s.entries) (raw : Nat) :
    ∃ e' ∈ (s.now o raw).entries, e' = e ∨ ∃ delta, e' = shiftEntry delta e := by
  unfold Breaker.now
  split
  · exact ⟨_, mem_map_of_mem he, .inr ⟨_, rfl⟩⟩
  · split <;> exact ⟨e, he, .inl rfl⟩

/-- **What takes a lease away** for good. -/
theorem settles (hinput : normalizeTarget input = some t)
    (hcustody : ∀ e ∈ s.found o, e.InCustody t lease) (hid : h.uuid ≠ lease.id)
    (hreports : Reports input lease call) (hreleases : s.Releases o h lease) :
    Throughout o (Entry.Free lease.id) (s.perform o h call).2 := by
  rcases hreleases with ⟨hwhole, hwritten⟩ | ⟨hfile, hover⟩
  · exact free_of_whole hinput hcustody hid hreports hwhole hwritten
  · cases hstale : staleLease (some lease) ((s.locked o h).now o h.raw).entries with
    | false => exact free_of_whole hinput hcustody hid hreports hstale (Or.inl hfile)
    | true =>
      have hx := begun_in_custody hcustody h
      rw [perform_stale hinput hreports hstale]
      refine ⟨fun e he => ?_, fun hne => absurd hfile hne⟩
      rw [statusOf_entries] at he
      obtain ⟨e₁, he₁, rfl⟩ := mem_map.mp he
      obtain ⟨e₀, he₀, hsame⟩ := mem_now he₁
      have hcarry : e₁.probeLeaseId = e₀.probeLeaseId ∧ e₁.target = e₀.target := by
        rcases hsame with rfl | ⟨delta, rfl⟩ <;> exact ⟨rfl, rfl⟩
      by_cases hcid : e₀.probeLeaseId = some lease.id
      · -- what is left of the lease concerns the request, and has run out
        obtain ⟨hconcerns, -, hhalf, -⟩ := hx.records e₀ he₀ hcid
        have hconcerns' : e₁.concerns t = true := by
          unfold Entry.concerns
          rw [hcarry.2]
          exact hconcerns
        rw [if_pos hconcerns', lapse_eq, lapses_now h _ hhalf hsame, hover e₀ he₀ hcid, if_pos rfl]
        exact nofun
      · have hfree : e₁.Free lease.id := by
          unfold Entry.Free
          rwa [hcarry.1]
        split
        · rw [lapse_eq]
          split
          · exact nofun
          · exact hfree
        · exact hfree

/-- **In memory, nothing else does.** -/
theorem settles_iff (hfile : o.filePath = none) (hinput : normalizeTarget input = some t)
    (hcustody : ∀ e ∈ s.found o, e.InCustody t lease) (hid : h.uuid ≠ lease.id)
    (hreports : Reports input lease call) :
    ¬ (s.perform o h call).2.Holds o lease.id ↔ s.Releases o h lease := by
  refine ⟨fun hgone => ?_,
    fun hreleases => not_holds_iff.mpr (settles hinput hcustody hid hreports hreleases).found⟩
  cases hstale : staleLease (some lease) ((s.locked o h).now o h.raw).entries with
  | false => exact .inl ⟨hstale, .inl hfile⟩
  | true =>
    refine .inr ⟨hfile, fun e he hcid => ?_⟩
    by_contra hlive
    have hx := begun_in_custody hcustody h
    obtain ⟨-, -, hhalf, -⟩ := hx.records e he hcid
    obtain ⟨e', he', hsame⟩ := exists_mem_now (o := o) he h.rawAgain
    refine hgone ⟨lapse h (((s.locked o h).now o h.raw).now o h.rawAgain).lastClockMs e', ?_, ?_⟩
    · unfold Breaker.found
      rw [if_pos hfile, perform_stale hinput hreports hstale, statusOf_entries]
      refine mem_map.mpr ⟨e', he', ?_⟩
      rw [lapse_eq, lapses_now h _ hhalf hsame, if_neg hlive, ite_self]
    · rw [lapse_eq, lapses_now h _ hhalf hsame, if_neg hlive]
      rcases hsame with rfl | ⟨delta, rfl⟩ <;> exact hcid

end Custody

end NexusCode.Circuit
