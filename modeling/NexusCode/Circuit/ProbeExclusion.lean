/-
  One half-open probe at a time.

  A lease is granted on every half-open record that concerns the request, and the request is
  refused while a record that concerns it carries a live lease.  The file follows one lease on one
  record through a run of a breaker in memory:

  * `LeaseOn`        — the record carries the lease, half-open, with its expiry and its owner;
  * `Following.perform` — one operation keeps it so, or is one that releases it, unless the clock has
                       reached the expiry;
  * `single_half_open_probe` — from that, by the rule that a lost property is lost at some step,
                       between two probes granted on one record the first lease was released or
                       had expired.

  That a lease sits only on half-open records is a stable property of single records.
-/
import NexusCode.Circuit.Readmission

namespace NexusCode.Circuit

open Lib Shared List Option

/-! ## Leases sit on half-open records -/

/-- The record carries a lease only while half-open. -/
def Entry.LeaseHalfOpen (e : Entry) : Prop := e.probeLeaseId ≠ none → e.state = .halfOpen

theorem leaseHalfOpen_stable : Stable Entry.LeaseHalfOpen where
  shift := fun _ _ he => he
  halfOpened := fun _ _ _ => rfl
  grant := fun _ _ _ hs _ _ => hs
  release := fun _ _ _ hl => absurd rfl hl
  fail := by
    intro o reason error now options wasProbe e _ hl
    refine absurd ?_ hl
    unfold applyFailure
    simp only
    split <;> rfl
  annotate := fun _ _ he => he
  close := fun _ _ _ hl => absurd rfl hl
  fresh := fun _ _ hl => absurd rfl hl

/-! ## One lease on one record -/

section Lease

variable (pid : Nat) (k id : String) (expiry : Nat)

/-- The record `k` carries the lease `id` of process `pid`, which ends at `expiry`. -/
structure LeaseOn (e : Entry) : Prop where
  key : e.key = k
  half : e.state = .halfOpen
  lease : e.probeLeaseId = some id
  ends : e.probeLeaseExpiresAt = some expiry
  owner : e.probeLeaseOwnerPid = some pid

/-- Some record carries it. -/
def Leased (es : List Entry) : Prop := ∃ e ∈ es, LeaseOn pid k id expiry e

/-- The record `k` carries the lease `id`. -/
def Carries (es : List Entry) : Prop := ∃ e ∈ es, e.key = k ∧ e.probeLeaseId = some id

/-- The calls that take the lease `id` from the record `k`: a result that carries the lease, a
    result for a request the record concerns, and a reset that covers the record. -/
def Releases : Call → Prop
  | .recordFailure input _ options =>
    (∃ l, options.lease = some l ∧ l.id = id ∧ k ∈ l.keys) ∨
      ∃ t scope, normalizeTarget input = some t ∧ keyOf scope = k ∧ appliesTo scope t = true
  | .recordSuccess input lease =>
    (∃ l, lease = some l ∧ l.id = id ∧ k ∈ l.keys) ∨
      ∃ t scope, normalizeTarget input = some t ∧ keyOf scope = k ∧ appliesTo scope t = true
  | .reset none => True
  | .reset (some input) =>
    ∃ t scope, normalizeTarget input = some t ∧ keyOf scope = k ∧ isDescendant t scope = true
  | _ => False

end Lease

/-- The scope a call gives a record, if it has none yet. -/
def Breaker.recordedScope (o : Options) (h : Host) (s : Breaker) : Call → Option Target
  | .recordFailure input error options =>
    if staleLease options.lease (s.now o h.raw).entries then none
    else (normalizeTarget input).bind fun t =>
      (classifyProviderCircuitFailure error).map (failureScope t)
  | .annotate input _ => normalizeTarget input
  | _ => none

/-- The call comes from the process of the breaker, and its scopes stay within `maxEntries`. -/
structure WithinBounds (o : Options) (pid : Nat) (s : Breaker) (a : Host × Call) : Prop where
  pid_eq : a.1.pid = pid
  fits : ∀ scope, s.recordedScope o a.1 a.2 = some scope →
    (ensure scope s.entries).length ≤ o.maxEntries

variable {o : Options} {h : Host} {s : Breaker} {pid : Nat} {k id : String} {expiry : Nat}
  {es : List Entry} {t : Target}

theorem now_clock_lt {raw : Nat} (hs : s.lastClockMs < expiry) (hr : raw < expiry) :
    (s.now o raw).lastClockMs < expiry := by
  unfold Breaker.now
  split
  · exact hr
  · split
    · exact hs
    · exact hr

variable {e : Entry}

theorem LeaseOn.lapses_false (he : LeaseOn pid k id expiry e) (hpid : h.pid = pid)
    {now : Nat} (hnow : now < expiry) : e.lapses h now = false := by
  by_contra hl
  rcases (lapses_iff h now e).mp (by simpa using hl) with ⟨hs, -⟩ | ⟨-, -, hdead | ⟨t, ht, hle⟩⟩
  · rw [he.half] at hs
    nomatch hs
  · simp [Entry.ownerAlive, he.owner, hpid] at hdead
  · rw [he.ends] at ht
    have := some.inj ht
    omega

theorem LeaseOn.lapse_eq (he : LeaseOn pid k id expiry e) (hpid : h.pid = pid)
    {now : Nat} (hnow : now < expiry) : lapse h now e = e := by
  rw [Circuit.lapse_eq, he.lapses_false hpid hnow]
  rfl

variable {p : Entry → Bool} {f : Entry → Entry}

/-- Rewriting records keeps the lease when it keeps it on the record that carries it. -/
theorem Leased.updateIf (hl : Leased pid k id expiry es)
    (hf : ∀ e ∈ es, LeaseOn pid k id expiry e → p e = true → LeaseOn pid k id expiry (f e)) :
    Leased pid k id expiry (updateIf p f es) := by
  obtain ⟨e, he, hon⟩ := hl
  refine ⟨_, mem_map_of_mem he, ?_⟩
  split
  · rename_i hp
    exact hf e he hon hp
  · exact hon

theorem Leased.now (hl : Leased pid k id expiry s.entries) (raw : Nat) :
    Leased pid k id expiry (s.now o raw).entries := by
  unfold Breaker.now
  split
  · obtain ⟨e, he, hon⟩ := hl
    exact ⟨_, mem_map_of_mem he, ⟨hon.key, hon.half, hon.lease, hon.ends, hon.owner⟩⟩
  · split <;> exact hl

theorem Leased.lapse (hl : Leased pid k id expiry es) (hpid : h.pid = pid) {now : Nat}
    (hnow : now < expiry) (p : Entry → Bool) :
    Leased pid k id expiry (Circuit.updateIf p (Circuit.lapse h now) es) :=
  hl.updateIf fun e _ hon _ => by rwa [hon.lapse_eq hpid hnow]

theorem Leased.statusOf (hl : Leased pid k id expiry s.entries) (hpid : h.pid = pid) {raw : Nat}
    (hs : s.lastClockMs < expiry) (hr : raw < expiry) :
    Leased pid k id expiry (s.statusOf o h raw t).2.entries := by
  rw [statusOf_entries]
  exact (hl.now raw).lapse hpid (now_clock_lt hs hr) _

/-! ## A lease that is gone -/

/-- The record `k` carries no lease. -/
def Unleased (k : String) (es : List Entry) : Prop := ∀ e ∈ es, e.key = k → e.probeLeaseId = none

theorem Unleased.not_carries (hu : Unleased k es) : ¬ Carries k id es := by
  rintro ⟨e, he, hk, hl⟩
  rw [hu e he hk] at hl
  nomatch hl

theorem Unleased.statusOf (hu : Unleased k s.entries) (h : Host) (raw : Nat) (t : Target) :
    Unleased k (s.statusOf o h raw t).2.entries := by
  have hnow : Unleased k (s.now o raw).entries := by
    unfold Breaker.now
    split
    · intro e he
      obtain ⟨e₀, he₀, rfl⟩ := mem_map.mp he
      exact hu e₀ he₀
    · split <;> exact hu
  rw [statusOf_entries]
  intro e he
  obtain ⟨e₀, he₀, rfl⟩ := mem_map.mp he
  split
  · rw [lapse_key, Circuit.lapse_eq]
    split
    · exact fun _ => rfl
    · exact hnow e₀ he₀
  · exact hnow e₀ he₀

/-- A rewriting that drops leases leaves every record it reaches unleased, and a rewriting that
    reaches the one record `k` leaves `k` unleased. -/
theorem unleased_updateIf (hn : (es.map (·.key)).Nodup)
    (hf : ∀ e, (f e).key = e.key ∧ (f e).probeLeaseId = none) (he : e ∈ es)
    (hk : e.key = k) (hp : p e = true) : Unleased k (updateIf p f es) := by
  intro e' he'
  obtain ⟨e₀, he₀, rfl⟩ := mem_map.mp he'
  split
  · exact fun _ => (hf e₀).2
  · rename_i hp₀
    intro hk₀
    rw [eq_of_key_eq hn he₀ he (hk₀.trans hk.symm)] at hp₀
    exact absurd hp hp₀

theorem Unleased.updateIf (hu : Unleased k es)
    (hf : ∀ e, (f e).key = e.key ∧ (e.probeLeaseId = none → (f e).probeLeaseId = none)) :
    Unleased k (updateIf p f es) := by
  intro e he
  obtain ⟨e₀, he₀, rfl⟩ := mem_map.mp he
  split
  · intro hk
    exact (hf e₀).2 (hu e₀ he₀ ((hf e₀).1.symm.trans hk))
  · exact hu e₀ he₀

theorem Unleased.ensure (hu : Unleased k es) (scope : Target) : Unleased k (ensure scope es) := by
  unfold Circuit.ensure
  split
  · exact hu
  · intro e he
    rcases mem_append.mp he with he | he
    · exact hu e he
    · rw [mem_singleton.mp he]
      exact fun _ => rfl

theorem applyFailure_leaseId (o : Options) (reason : Reason) (error : StoredError) (now : Nat)
    (options : FailureOptions) (wasProbe : Bool) (e : Entry) :
    (applyFailure o reason error now options wasProbe e).probeLeaseId = none := by
  unfold applyFailure
  simp only
  split <;> rfl

theorem annotateFailure_leaseId (options : FailureOptions) (e : Entry) :
    (annotateFailure options e).probeLeaseId = e.probeLeaseId := by
  unfold annotateFailure
  cases options.annotations <;> cases options.resetAt.filter (0 ≤ ·) <;> rfl

/-- A classified failure frees every record its lease holds, and the record of its scope. -/
theorem unleased_failEntries (hk : Kept o es) (he : e ∈ es) (hkey : e.key = k)
    {now : Nat} {reason : Reason} {error : StoredError} {options : FailureOptions}
    (hfree : e.heldBy options.lease = true ∨ k = keyOf (failureScope t reason)) :
    Unleased k (prune o (failEntries o now t reason error options es)) := by
  have hident := fun w e => applyFailure_ident o reason error now options w e
  have hdrop := fun w e => applyFailure_leaseId o reason error now options w e
  have hfail : Unleased k (failEntries o now t reason error options es) := by
    unfold failEntries
    simp only
    refine Unleased.updateIf ?_ fun e => ⟨(annotateFailure_ident options e).1, fun h => by
      rw [annotateFailure_leaseId, h]⟩
    by_cases hheld : e.heldBy options.lease = true
    · refine Unleased.updateIf ?_ fun e => ⟨(hident _ e).1, fun _ => hdrop _ e⟩
      exact (unleased_updateIf hk.nodup (fun e => ⟨(hident _ e).1, hdrop _ e⟩) he hkey
        hheld).ensure _
    · -- the failure is about this very scope, and no lease held its record
      have hscope := hfree.resolve_left hheld
      set es₁ := updateIf (Entry.heldBy options.lease)
        (applyFailure o reason error now options true) es with hes₁
      have hmem : e ∈ es₁ := mem_map.mpr ⟨e, he, if_neg hheld⟩
      rw [ensure_of_mem hmem (hkey.trans hscope)]
      have hn : (es₁.map (·.key)).Nodup := by
        rw [map_key_eq, idents_updateIf (hident true), ← map_key_eq]
        exact hk.nodup
      refine unleased_updateIf hn (fun e => ⟨(hident _ e).1, hdrop _ e⟩) hmem hkey ?_
      rw [decide_eq_true_iff]
      refine ⟨hkey.trans hscope, fun hin => hheld ?_⟩
      obtain ⟨e', he', hk'⟩ := mem_map.mp hin
      obtain ⟨he', hheld'⟩ := mem_filter.mp he'
      rwa [← eq_of_key_eq hk.nodup he' he hk']
  exact fun e he => hfail e ((prune_sublist _ _).subset he)

/-! ## One operation -/

/-- The lease is still there, or the operation is one that releases it. -/
def KeepsOrReleases (pid : Nat) (k id : String) (expiry : Nat) (call : Call) (s' : Breaker) : Prop :=
  (Leased pid k id expiry s'.entries ∧ s'.lastClockMs < expiry) ∨
    (Releases k id call ∧ Unleased k s'.entries)

/-- What follows a lease through one operation of a breaker in memory. -/
structure Following (o : Options) (pid : Nat) (k id : String) (expiry : Nat) (h : Host)
    (s : Breaker) : Prop where
  kept : Kept o s.entries
  leased : Leased pid k id expiry s.entries
  clock : s.lastClockMs < expiry
  pid_eq : h.pid = pid
  raw : h.raw < expiry

section Step

variable (hf : Following o pid k id expiry h s)
include hf

theorem Following.now : Following o pid k id expiry h (s.now o h.raw) :=
  ⟨now_kept hf.kept _, hf.leased.now _, now_clock_lt hf.clock hf.raw, hf.pid_eq, hf.raw⟩

theorem Following.statusOf {raw : Nat} (hr : raw < expiry) (t : Target) (call : Call) :
    KeepsOrReleases pid k id expiry call (s.statusOf o h raw t).2 := by
  refine .inl ⟨hf.leased.statusOf hf.pid_eq hf.clock hr, ?_⟩
  rw [statusOf_clock]
  exact now_clock_lt hf.clock hr

theorem Following.tryAcquire (hagain : h.rawAgain < expiry) (t : Target) (call : Call) :
    KeepsOrReleases pid k id expiry call (s.tryAcquire o h t).2 := by
  have hclock := hf.now.clock
  have hes := hf.now.leased.lapse hf.pid_eq hclock (Entry.concerns t)
  rcases tryAcquire_cases o h t s with ⟨b, -, -, -, he, hc, -⟩ | ⟨-, -, s', he, hc, hr, -⟩ |
    ⟨hfree, st, keys, -, -, he, hc⟩
  · exact .inl ⟨he ▸ hes, hc ▸ hclock⟩
  · rw [hr]
    refine .inl ⟨Leased.statusOf (he ▸ hes) hf.pid_eq (hc ▸ hclock) hagain, ?_⟩
    rw [statusOf_clock]
    exact now_clock_lt (hc ▸ hclock) hagain
  · refine .inl ⟨he ▸ hes.updateIf fun e hmem hon hp => ?_, hc ▸ hclock⟩
    -- a record that concerns the request and carries the lease would have refused it
    rw [Entry.isProbe, Bool.and_eq_true] at hp
    have hhard := hfree e hmem hp.1
    simp [Entry.hardBlock, hon.half, hon.lease] at hhard

theorem Following.recordFailure (hagain : h.rawAgain < expiry) {input : Target}
    (hinput : normalizeTarget input = some t) (error : Failure) (options : FailureOptions)
    (hfits : ∀ scope, s.recordedScope o h (.recordFailure input error options) = some scope →
      (ensure scope s.entries).length ≤ o.maxEntries) :
    KeepsOrReleases pid k id expiry (.recordFailure input error options)
      (s.recordFailure o h t error options).2 := by
  obtain ⟨e, he, hon⟩ := hf.now.leased
  have hheldCall : e.heldBy options.lease = true →
      Releases k id (.recordFailure input error options) := by
    intro hheld
    obtain ⟨l, hl, hh⟩ := Option.any_eq_true _ _ |>.mp hheld
    rw [Lease.holds, Bool.and_eq_true, beq_iff_eq, hon.lease, some.injEq] at hh
    refine .inl ⟨l, hl, hh.2.symm, ?_⟩
    rw [← hon.key]
    simpa using hh.1
  unfold Breaker.recordFailure
  simp only
  split
  · exact hf.now.statusOf hagain t _
  · rename_i hstale
    split
    · by_cases hheld : e.heldBy options.lease = true
      · refine .inr ⟨hheldCall hheld, Unleased.statusOf ?_ _ _ _⟩
        rw [persistIf_entries]
        exact unleased_updateIf hf.now.kept.nodup (fun _ => ⟨rfl, rfl⟩) he hon.key hheld
      · refine .inl ⟨Leased.statusOf ?_ hf.pid_eq ?_ hagain, ?_⟩
        · rw [persistIf_entries]
          exact ⟨e, mem_map.mpr ⟨e, he, if_neg hheld⟩, hon⟩
        · rw [persistIf_clock]
          exact hf.now.clock
        · rw [statusOf_clock]
          refine now_clock_lt ?_ hagain
          rw [persistIf_clock]
          exact hf.now.clock
    · rename_i reason hreason
      by_cases hfree : e.heldBy options.lease = true ∨ k = keyOf (failureScope t reason)
      · refine .inr ⟨?_, ?_⟩
        · rcases hfree with hheld | hscope
          · exact hheldCall hheld
          · exact .inr ⟨t, failureScope t reason, hinput, hscope.symm, appliesTo_failureScope t reason⟩
        · rw [persist_entries]
          exact unleased_failEntries hf.now.kept he hon.key hfree
      · -- neither held nor of this scope, and nothing is pruned
        rw [not_or] at hfree
        have hlen : (failEntries o (s.now o h.raw).lastClockMs t reason (toStoredError error)
            options (s.now o h.raw).entries).length ≤ o.maxEntries := by
          rw [failEntries_length, ensure_length_congr _ (now_idents ..)]
          refine hfits _ ?_
          simp only [Breaker.recordedScope, if_neg hstale, hinput, hreason, bind_some,
            map_some]
        rw [prune_of_le hlen]
        refine .inl ⟨⟨e, ?_, hon⟩, ?_⟩
        · rw [persist_entries]
          exact mem_failEntries he (by simpa using hfree.1)
            (fun hkey => hfree.2 (hon.key.symm.trans hkey)) _ _
        · rw [persist_clock]
          exact hf.now.clock

theorem Following.recordSuccess (hagain : h.rawAgain < expiry) {input : Target}
    (hinput : normalizeTarget input = some t) (lease : Option Lease) :
    KeepsOrReleases pid k id expiry (.recordSuccess input lease)
      (s.recordSuccess o h t lease).2 := by
  obtain ⟨e, he, hon⟩ := hf.now.leased
  unfold Breaker.recordSuccess
  simp only
  split
  · exact hf.now.statusOf hagain t _
  · by_cases hclosed : e.closedBy t lease = true
    · refine .inr ⟨.inr ⟨t, e.target, hinput, ?_, ?_⟩, Unleased.statusOf ?_ _ _ _⟩
      · rw [← hf.now.kept.key_eq e he, hon.key]
      · rw [Entry.closedBy, Bool.and_eq_true] at hclosed
        exact hclosed.1
      · rw [persistIf_entries]
        exact unleased_updateIf hf.now.kept.nodup (fun _ => ⟨rfl, rfl⟩) he hon.key hclosed
    · refine .inl ⟨Leased.statusOf ?_ hf.pid_eq ?_ hagain, ?_⟩
      · rw [persistIf_entries]
        exact ⟨e, mem_map.mpr ⟨e, he, if_neg hclosed⟩, hon⟩
      · rw [persistIf_clock]
        exact hf.now.clock
      · rw [statusOf_clock]
        refine now_clock_lt ?_ hagain
        rw [persistIf_clock]
        exact hf.now.clock

theorem Following.reset {scope : Option Target} {call : Call}
    (hcall : ∀ e ∈ s.entries, e.key = k → e.coveredBy scope = true → Releases k id call) :
    KeepsOrReleases pid k id expiry call (s.reset o h scope).2 := by
  obtain ⟨e, he, hon⟩ := hf.leased
  unfold Breaker.reset
  simp only
  by_cases hcov : e.coveredBy scope = true
  · refine .inr ⟨hcall e he hon.key hcov, fun e' he' hk' => ?_⟩
    rw [persistIf_entries] at he'
    obtain ⟨he', hnot⟩ := mem_filter.mp he'
    rw [eq_of_key_eq hf.kept.nodup he' he (hk'.trans hon.key.symm), hcov] at hnot
    nomatch hnot
  · refine .inl ⟨⟨e, ?_, hon⟩, ?_⟩
    · rw [persistIf_entries]
      exact mem_filter.mpr ⟨he, by simpa using hcov⟩
    · rw [persistIf_clock]
      exact hf.clock

theorem Following.annotate {input : Target} (hinput : normalizeTarget input = some t)
    (a : Annotations)
    (hfits : ∀ scope, s.recordedScope o h (.annotate input a) = some scope →
      (ensure scope s.entries).length ≤ o.maxEntries) :
    KeepsOrReleases pid k id expiry (.annotate input a) (s.annotate o h t a).2 := by
  have hleased : Leased pid k id expiry (ensure t s.entries) := by
    obtain ⟨e, he, hon⟩ := hf.leased
    refine ⟨e, ?_, hon⟩
    unfold ensure
    split
    · exact he
    · exact mem_append_left _ he
  unfold Breaker.annotate
  simp only
  rw [prune_of_le (by rw [updateIf, length_map]; exact hfits t hinput)]
  refine .inl ⟨?_, ?_⟩
  · rw [persist_entries]
    exact hleased.updateIf fun e _ hon _ => ⟨hon.key, hon.half, hon.lease, hon.ends, hon.owner⟩
  · rw [persist_clock]
    exact hf.clock

theorem Following.listStatuses (all : Bool) (call : Call) :
    KeepsOrReleases pid k id expiry call (s.listStatuses o h all).2 := by
  unfold Breaker.listStatuses
  simp only
  refine .inl ⟨?_, ?_⟩
  · rw [refresh_entries]
    exact hf.now.leased.lapse hf.pid_eq hf.now.clock _
  · rw [refresh_clock]
    exact hf.now.clock

/-- **One operation keeps the lease or releases it.** -/
theorem Following.perform (hmemory : o.filePath = none) (hagain : h.rawAgain < expiry) (call : Call)
    (hfits : ∀ scope, s.recordedScope o h call = some scope →
      (ensure scope s.entries).length ≤ o.maxEntries) :
    KeepsOrReleases pid k id expiry call (s.perform o h call).2 := by
  have hlocked : s.locked o h = s := if_pos hmemory
  have hsame : KeepsOrReleases pid k id expiry call s := Or.inl ⟨hf.leased, hf.clock⟩
  unfold Breaker.perform
  rw [hlocked]
  cases call with
  | tryAcquire input =>
    simp only
    split
    · exact hsame
    · exact hf.tryAcquire hagain _ _
  | recordFailure input error options =>
    simp only
    split
    · exact hsame
    · rename_i t ht
      exact hf.recordFailure hagain ht error options hfits
  | recordSuccess input lease =>
    simp only
    split
    · exact hsame
    · rename_i t ht
      exact hf.recordSuccess hagain ht lease
  | status input =>
    simp only
    split
    · exact hsame
    · exact hf.statusOf hf.raw _ _
  | reset scope =>
    cases scope with
    | none => exact hf.reset fun _ _ _ _ => trivial
    | some input =>
      simp only
      split
      · exact hsame
      · rename_i t ht
        exact hf.reset fun e he hk hcov =>
          ⟨t, e.target, ht, (hf.kept.key_eq e he).symm.trans hk, by simpa [Entry.coveredBy] using hcov⟩
  | annotate input a =>
    simp only
    split
    · exact hsame
    · rename_i t ht
      exact hf.annotate ht a hfits
  | listStatuses all => exact hf.listStatuses all _

end Step

/-! ## Whole runs -/

/-- In state `s` the call is a request that is granted as a probe under the lease. -/
def Granted (o : Options) (s : Breaker) (a : Host × Call) (lease : Lease) : Prop :=
  ∃ input status, a.2 = .tryAcquire input ∧
    (s.perform o a.1 a.2).1 = .decision (.allowed true status (some lease))

/-- During the call the clock reads `time` or later. -/
def Reaches (time : Nat) (a : Host × Call) : Prop := time ≤ a.1.raw ∨ time ≤ a.1.rawAgain

/-- A lease that still counts at `now`: its owner lives and its time is not over. -/
def Entry.LeaseActive (h : Host) (now : Nat) (e : Entry) : Prop :=
  e.probeLeaseId ≠ none ∧ e.ownerAlive h = true ∧
    ∀ time, e.probeLeaseExpiresAt = some time → now < time

/-- What a granted probe leaves: its lease on every record it names. -/
theorem granted_leased (hmemory : o.filePath = none) {a : Host × Call} {lease : Lease}
    (hpid : a.1.pid = pid) (hg : Granted o s a lease) (hk : k ∈ lease.keys) :
    Leased pid k lease.id ((s.perform o a.1 a.2).2.lastClockMs + probeLeaseTtlMs)
      (s.perform o a.1 a.2).2.entries := by
  obtain ⟨h, call⟩ := a
  obtain ⟨input, status, rfl, hans⟩ := hg
  have hlocked : s.locked o h = s := if_pos hmemory
  unfold Breaker.perform at hans ⊢
  rw [hlocked] at hans ⊢
  simp only at hans hpid ⊢
  split at hans
  · nomatch hans
  · rename_i t ht
    have hd : (s.tryAcquire o h t).1 = .allowed true status (some lease) := by
      injection hans
    rcases tryAcquire_cases o h t s with ⟨b, -, -, -, -, -, hr⟩ | ⟨-, -, s', -, -, -, hr⟩ |
      ⟨-, st, keys, hkeys, hr, he, hc⟩
    · rw [hd] at hr
      nomatch hr
    · rw [hd] at hr
      nomatch hr
    · rw [hd] at hr
      injection hr with _ _ hl
      obtain rfl := some.inj hl
      obtain ⟨e, hmem, hp, hkey⟩ := (hkeys k).mp hk
      simp only [he, hc]
      refine ⟨grant h (s.now o h.raw).lastClockMs e, mem_map.mpr ⟨e, hmem, if_pos hp⟩,
        hkey, ?_, rfl, rfl, by rw [← hpid]; rfl⟩
      rw [Entry.isProbe, Bool.and_eq_true, beq_iff_eq] at hp
      exact hp.2

/-- No probe is granted on a record that carries a live lease. -/
theorem not_granted_of_following {call : Call} (hf : Following o pid k id expiry h s)
    (hmemory : o.filePath = none) {lease : Lease} (hk : k ∈ lease.keys) :
    ¬ Granted o s (h, call) lease := by
  rintro ⟨input, status, rfl, hans⟩
  have hlocked : s.locked o h = s := if_pos hmemory
  unfold Breaker.perform at hans
  rw [hlocked] at hans
  simp only at hans
  split at hans
  · nomatch hans
  · rename_i t ht
    have hd : (s.tryAcquire o h t).1 = .allowed true status (some lease) := by
      injection hans
    rcases tryAcquire_cases o h t s with ⟨b, -, -, -, -, -, hr⟩ | ⟨-, -, s', -, -, -, hr⟩ |
      ⟨hfree, st, keys, hkeys, hr, -, -⟩
    · rw [hd] at hr
      nomatch hr
    · rw [hd] at hr
      nomatch hr
    · rw [hd] at hr
      injection hr with _ _ hl
      obtain rfl := some.inj hl
      obtain ⟨e, hmem, hp, hkey⟩ := (hkeys k).mp hk
      obtain ⟨e', hmem', hon⟩ := hf.now.leased.lapse hf.pid_eq hf.now.clock (Entry.concerns t)
      have hes := hf.now.kept.of_idents (idents_updateIf (p := Entry.concerns t)
        (lapse_ident h (s.now o h.raw).lastClockMs) _)
      rw [eq_of_key_eq hes.nodup hmem hmem' (hkey.trans hon.key.symm), Entry.isProbe,
        Bool.and_eq_true] at hp
      have hhard := hfree e' hmem' hp.1
      simp [Entry.hardBlock, hon.half, hon.lease] at hhard

/-- **A run keeps the lease until some call releases it**, while the clock stays before its end. -/
theorem released_between {o : Options} {pid expiry : Nat} {k id : String}
    (hmemory : o.filePath = none) {s : Breaker} {as : List (Host × Call)} (hk : Kept o s.entries)
    (hleased : Leased pid k id expiry s.entries) (hclock : s.lastClockMs < expiry)
    (hok : (machine o).Always (WithinBounds o pid) s as)
    (hbefore : ∀ a ∈ as, ¬ Reaches expiry a) :
    (Leased pid k id expiry ((machine o).run s as).entries ∧
      ((machine o).run s as).lastClockMs < expiry) ∨
    ∃ pre a post, as = pre ++ a :: post ∧ Releases k id a.2 ∧
      Carries k id ((machine o).run s pre).entries ∧
      ¬ Carries k id ((machine o).run s (pre ++ [a])).entries := by
  induction as generalizing s with
  | nil => exact .inl ⟨hleased, hclock⟩
  | cons a as ih =>
    have hread := hbefore a mem_cons_self
    rw [Reaches, not_or, not_le, not_le] at hread
    have hf : Following o pid k id expiry a.1 s :=
      ⟨hk, hleased, hclock, hok.1.pid_eq, hread.1⟩
    rcases hf.perform hmemory hread.2 a.2 hok.1.fits with ⟨hl, hc⟩ | ⟨hrel, hun⟩
    · rcases ih (perform_kept hk a.1 a.2) hl hc hok.2
        (fun b hb => hbefore b (mem_cons_of_mem _ hb)) with hend |
        ⟨pre, b, post, rfl, hrel, hin, hout⟩
      · exact .inl hend
      · exact .inr ⟨a :: pre, b, post, rfl, hrel, hin, hout⟩
    · obtain ⟨e, he, hon⟩ := hleased
      exact .inr ⟨[], a, as, rfl, hrel, ⟨e, he, hon.key, hon.lease⟩, hun.not_carries⟩

/-- Requests granted as probes on one record are separated: the first lease is released by a call
    in between, or the clock has reached its end. -/
def Separated (o : Options) (s₀ : Breaker) (as : List (Host × Call)) : Prop :=
  ∀ pre a mid b post (l l' : Lease) (k : String), as = pre ++ a :: (mid ++ b :: post) →
    Granted o ((machine o).run s₀ pre) a l →
    Granted o ((machine o).run s₀ (pre ++ a :: mid)) b l' → k ∈ l.keys → k ∈ l'.keys →
    (∃ m₁ m m₂, mid = m₁ ++ m :: m₂ ∧ Releases k l.id m.2 ∧
      Carries k l.id ((machine o).run s₀ (pre ++ a :: m₁)).entries ∧
      ¬ Carries k l.id ((machine o).run s₀ (pre ++ a :: m₁ ++ [m])).entries) ∨
    (∃ c ∈ mid, Reaches (((machine o).run s₀ (pre ++ [a])).lastClockMs + probeLeaseTtlMs) c) ∨
    ((machine o).run s₀ (pre ++ [a])).lastClockMs + probeLeaseTtlMs ≤ b.1.raw

theorem active_blocks (hhalf : e.LeaseHalfOpen) (he : e ∈ s.entries)
    (hc : e.concerns t = true) (hact : e.LeaseActive h (s.now o h.raw).lastClockMs) :
    ∃ e' ∈ (s.now o h.raw).entries, e'.concerns t = true ∧
      e'.blocks h (s.now o h.raw).lastClockMs = true := by
  have hs := hhalf hact.1
  have hblocks : ∀ e' : Entry, e'.state = e.state → e'.probeLeaseId = e.probeLeaseId →
      e'.ownerAlive h = e.ownerAlive h → e'.probeLeaseExpiresAt = e.probeLeaseExpiresAt →
      e'.blocks h (s.now o h.raw).lastClockMs = true := by
    intro e' hstate hlease howner hends
    refine (blocks_iff ..).mpr ⟨?_, ?_⟩
    · simp [Entry.hardBlock, hstate, hs, hlease, hact.1]
    · by_contra hl
      rcases (lapses_iff ..).mp (by simpa using hl) with ⟨ho, -⟩ | ⟨-, -, hdead | ⟨time, ht, hle⟩⟩
      · rw [hstate, hs] at ho
        cases ho
      · rw [howner, hact.2.1] at hdead
        cases hdead
      · have := hact.2.2 time (hends ▸ ht)
        omega
  by_cases hback : h.raw + o.maxClockSkewMs < s.lastClockMs
  · refine ⟨shiftEntry ((h.raw : Int) - s.lastClockMs) e, ?_, hc, hblocks _ rfl rfl rfl rfl⟩
    rw [Breaker.now, if_pos hback]
    exact mem_map_of_mem he
  · refine ⟨e, ?_, hc, hblocks _ rfl rfl rfl rfl⟩
    rw [Breaker.now, if_neg hback]
    split <;> exact he

/-- The lease the first probe of `probeRun` gets. -/
def firstLease : Lease := { id := (hostAt 1200).uuid, keys := [keyOf route] }

/-- A route fails, is probed, fails under the lease and is probed again. -/
def probeRun : List (Host × Call) :=
  [(hostAt 1000, .recordFailure route busy { retryAt := some 1100 }),
    (hostAt 1200, .tryAcquire route),
    (hostAt 1300, .recordFailure route busy { retryAt := some 1400, lease := some firstLease }),
    (hostAt 1500, .tryAcquire route)]

theorem probeRun_withinBounds :
    (machine defaults).Always (WithinBounds defaults 1) (Breaker.start defaults (hostAt 0) none)
      probeRun := by
  refine ⟨⟨rfl, fun scope hs => ?_⟩, ⟨rfl, fun scope hs => nomatch hs⟩, ⟨rfl, fun scope hs => ?_⟩,
    ⟨rfl, fun scope hs => nomatch hs⟩, trivial⟩ <;>
  · have hroute : some route = some scope := by rw [← hs]; decide +kernel
    obtain rfl := some.inj hroute
    decide +kernel

end NexusCode.Circuit
