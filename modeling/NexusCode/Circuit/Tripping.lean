/-
  Transient failures in a row, and whether they trip the circuit.

  A transient failure is counted in the record of the exact route.  The count is lost when the
  record is: when `prune` drops it, which it does at once where the store is full of records that
  are not closed; or when the next call does not find in its file what the last one left.

  1. `HasRoom`, `mem_prune_of_hasRoom` — the record of the scope is not the one that is pruned.
  2. `failEntries_counts` — one failure: the count goes up, and at the threshold the record opens.
  3. `locked_finds` — the next call finds the record.
  4. **`transient_failures_trip`** — the induction on the calls: where each of them is counted, the
     route is refused after as many as the threshold.
  5. **`full_store_never_trips`** — a store with room for one record, and a rejected credential.
-/
import NexusCode.Circuit.LeaseCustody
import NexusCode.Circuit.Twins
import NexusCode.Lib.JsSort

namespace NexusCode.Circuit

open Lib Shared List Option

/-! ## Failures in a row -/

/-- A `recordFailure` call, with what the host supplies during it. -/
structure FailureCall where
  host : Host
  error : Failure
  options : FailureOptions

namespace FailureCall

/-- The call for a target. -/
def input (target : Target) (c : FailureCall) : Host × Call :=
  (c.host, .recordFailure target c.error c.options)

/-- The failure is classified as transient, and nothing says when to try again. -/
structure Transient (c : FailureCall) : Prop where
  classified : classifyProviderCircuitFailure c.error = some .transient
  noRetryAt : c.options.retryAt = none
  noResetAt : c.options.resetAt = none
  noRetryAfter : (toStoredError c.error).retryAfterMs = none

/-- The breaker the operation works on: under the lock, after it has read the clock. -/
def found (o : Options) (s : Breaker) (c : FailureCall) : Breaker :=
  (s.locked o c.host).now o c.host.raw

/-- Its records, after the failure has been applied to those that the lease holds. -/
def consumed (o : Options) (s : Breaker) (c : FailureCall) : List Entry :=
  updateIf (Entry.heldBy c.options.lease) (applyFailure o .transient (toStoredError c.error)
    (c.found o s).lastClockMs c.options true) (c.found o s).entries

end FailureCall

/-- The record of a scope stays when a failure has been counted in it: the scope has a record, or
    there is place for one more, or another record is pruned.  That is a closed one, if it has not
    been touched later or the new record opens at once, or then any that has not. -/
def HasRoom (o : Options) (now : Nat) (scope : Target) (es : List Entry) : Prop :=
  (∃ e ∈ es, e.key = keyOf scope) ∨ es.length < o.maxEntries ∨
    (∃ e ∈ es, e.state = .closed ∧ (e.stamp ≤ now ∨ o.transientFailureThreshold = 1)) ∨
    o.transientFailureThreshold = 1 ∧ ∃ e ∈ es, e.stamp ≤ now

/-- A call is counted: its lease, if it has one, is active, and the record of its scope stays. -/
structure Counted (o : Options) (target : Target) (s : Breaker) (c : FailureCall) : Prop where
  active : staleLease c.options.lease (c.found o s).entries = false
  room : HasRoom o (c.found o s).lastClockMs target (c.consumed o s)

/-- Each call is counted where the ones before it have left the breaker. -/
def AllCounted (o : Options) (input target : Target) : List FailureCall → Breaker → Prop
  | [], _ => True
  | c :: calls, s => Counted o target s c ∧
      AllCounted o input target calls (s.perform o c.host (c.input input).2).2

/-- The breaker works in memory, or every call writes the store and the ones after the first can
    read it. -/
def Stored (o : Options) (calls : List FailureCall) (h : Host) : Prop :=
  o.filePath = none ∨ (∀ c ∈ calls, c.host.writable = true) ∧
    (∀ c ∈ calls.tail, c.host.readable = true) ∧ h.readable = true

/-! ## Pruning -/

section Pruning

variable {o : Options} {now : Nat} {scope : Target} {es : List Entry} {n : Entry}

/-- What sorts behind a new record at the end is later than it. -/
theorem stamp_lt_of_behind (hnew : ∀ e ∈ es, e.key ≠ n.key) {front back : List Entry}
    (heq : oldest (es ++ [n]) = front ++ n :: back) : ∀ e ∈ back, n.stamp < e.stamp := by
  intro e he
  have horder : (es ++ [n]).Pairwise fun a _ => a.key ≠ n.key := by
    refine pairwise_append.mpr ⟨?_, pairwise_singleton _ _, fun a ha _ _ => hnew a ha⟩
    exact pairwise_of_forall_mem_list fun a ha _ _ => hnew a ha
  have hstable := pairwise_insertionSort_stable (fun a b : Entry => a.stamp ≤ b.stamp)
    (fun a b => Nat.le_total a.stamp b.stamp) (fun a b c => Nat.le_trans) horder
  rw [show (es ++ [n]).insertionSort (fun a b => a.stamp ≤ b.stamp) = front ++ n :: back from heq]
    at hstable
  obtain ⟨-, hback, -⟩ := pairwise_append.mp hstable
  obtain ⟨-, hne⟩ := (pairwise_cons.mp hback).1 e he
  by_contra hle
  exact hne (by omega) rfl

/-- A record at the end of a full store stays, if another one is closed or older in its place. -/
theorem mem_prune_append (hnodup : ((es ++ [n]).map (·.key)).Nodup)
    (hfull : es.length = o.maxEntries)
    (hother : (∃ e ∈ es, e.state = .closed ∧ (e.stamp ≤ n.stamp ∨ n.state ≠ .closed)) ∨
      n.state ≠ .closed ∧ ∃ e ∈ es, e.stamp ≤ n.stamp) : n ∈ prune o (es ++ [n]) := by
  have hnew : ∀ e ∈ es, e.key ≠ n.key := by
    rw [map_append, nodup_append] at hnodup
    exact fun e he => hnodup.2.2 _ (mem_map_of_mem he) _ mem_cons_self
  have hmem : ∀ e, e ∈ oldest (es ++ [n]) ↔ e ∈ es ++ [n] := fun e => mem_insertionSort _
  have hkeep : ∀ e ∈ es ++ [n], e ≠ n → n ∈ delete e.key (es ++ [n]) := by
    intro e he hne
    refine mem_filter.mpr ⟨mem_append_right _ mem_cons_self, ?_⟩
    refine decide_eq_true fun hkey => hne ?_
    exact eq_of_key_eq hnodup he (mem_append_right _ mem_cons_self) hkey.symm
  have hbehind : ∀ {front back : List Entry} {e : Entry}, oldest (es ++ [n]) = front ++ n :: back →
      e ∈ es → e ∉ front → n.stamp < e.stamp := by
    intro front back e heq he hfront
    have hin : e ∈ front ++ n :: back := heq ▸ (hmem e).mpr (mem_append_left _ he)
    rcases mem_append.mp hin with h | h
    · exact absurd h hfront
    rcases mem_cons.mp h with rfl | h
    · exact absurd rfl (hnew e he)
    · exact stamp_lt_of_behind hnew heq e h
  rw [prune_full hnodup (by rw [length_append, hfull]; rfl)]
  cases hfind : (oldest (es ++ [n])).find? (·.state = .closed) with
  | some c =>
    obtain ⟨hclosed, front, back, hsplit, hfront⟩ := List.find?_eq_some_iff_append.mp hfind
    have hc : c ∈ es ++ [n] := (hmem c).mp (mem_of_find?_eq_some hfind)
    refine hkeep c hc ?_
    rintro rfl
    -- then it is closed, and no closed one stands before it
    have hstate : c.state = .closed := of_decide_eq_true hclosed
    rcases hother with ⟨e, he, heclosed, hle | hopen⟩ | ⟨hopen, -⟩
    · refine absurd hle (Nat.not_le.mpr (hbehind hsplit he fun hin => ?_))
      have hnot := hfront e hin
      rw [decide_eq_true heclosed] at hnot
      cases hnot
    · exact hopen hstate
    · exact hopen hstate
  | none =>
    have hopen : ∀ e ∈ es, e.state ≠ .closed := by
      intro e he hclosed
      have hnot := List.find?_eq_none.mp hfind e ((hmem e).mpr (mem_append_left _ he))
      exact hnot (decide_eq_true hclosed)
    rcases hother with ⟨e, he, hclosed, -⟩ | ⟨-, e, he, hle⟩
    · exact absurd hclosed (hopen e he)
    · dsimp only
      cases hold : oldest (es ++ [n]) with
      | nil => exact mem_append_right _ mem_cons_self
      | cons b rest =>
        refine hkeep b ((hmem b).mp (hold ▸ mem_cons_self)) ?_
        rintro rfl
        exact absurd hle (Nat.not_le.mpr (@hbehind [] rest e hold he not_mem_nil))

end Pruning

/-! ## One failure -/

section OneFailure

variable {o : Options} {now : Nat} {t : Target} {es : List Entry} {e : Entry} {c : FailureCall}
  {n : Nat}

/-- A record in which at least so many failures are counted, the last one now; at the threshold it
    is open, until later. -/
structure Counts (o : Options) (now : Nat) (t : Target) (n : Nat) (e : Entry) : Prop where
  key : e.key = keyOf t
  attempts : n ≤ e.attempts
  stamp : e.stamp = now
  trips : o.transientFailureThreshold ≤ n →
    e.state = .open_ ∧ ∃ until_, e.blockedUntil = some until_ ∧ now < until_

theorem lt_cooldownEnd (o : Options) (now openCount : Nat) :
    ∃ until_, cooldownEnd o .transient now openCount = some until_ ∧ now < until_ := by
  refine ⟨_, rfl, ?_⟩
  have hcool : 0 < min o.maxCooldownMs (o.baseCooldownMs * 2 ^ (openCount - 1)) :=
    lt_min o.maxCooldown_pos (Nat.mul_pos o.baseCooldown_pos (Nat.two_pow_pos _))
  omega

theorem explicitRetryAt_of_transient (hc : c.Transient) (now : Nat) :
    explicitRetryAt now (toStoredError c.error) c.options = none := by
  rw [explicitRetryAt, hc.noRetryAt, hc.noResetAt, hc.noRetryAfter]

variable (o now) in
theorem applyFailure_counts (hc : c.Transient) (hkey : e.key = keyOf t) (hn : n ≤ e.attempts)
    (wasProbe : Bool) : Counts o now t (n + 1)
      (applyFailure o .transient (toStoredError c.error) now c.options wasProbe e) := by
  have hstamp : ∀ e : Entry, e.lastFailureAt = some now → e.stamp = now := by
    intro e h
    rw [Entry.stamp, h]
    rfl
  have hopens : o.transientFailureThreshold ≤ n + 1 → shouldOpen o .transient
      (explicitRetryAt now (toStoredError c.error) c.options) (e.attempts + 1) wasProbe = true := by
    intro hthreshold
    rw [shouldOpen, decide_eq_true (hthreshold.trans (Nat.succ_le_succ hn)), Bool.or_true]
  obtain ⟨until_, hend, hlt⟩ := lt_cooldownEnd o now (e.openCount + 1)
  unfold applyFailure
  dsimp only
  split
  · refine ⟨hkey, Nat.succ_le_succ hn, hstamp _ rfl, fun _ => ⟨rfl, until_, ?_, hlt⟩⟩
    rw [explicitRetryAt_of_transient hc]
    exact hend
  · rename_i hclosed
    exact ⟨hkey, Nat.succ_le_succ hn, hstamp _ rfl, fun h => absurd (hopens h) hclosed⟩

theorem annotateFailure_counts {options : FailureOptions} (h : Counts o now t n e) :
    Counts o now t n (annotateFailure options e) := by
  obtain ⟨hkey, hattempts, hstamp, htrips⟩ := h
  unfold annotateFailure
  cases options.annotations <;> cases options.resetAt.filter (0 ≤ ·) <;>
    exact ⟨hkey, hattempts, hstamp, htrips⟩

theorem annotateFailure_state {options : FailureOptions} (e : Entry) :
    (annotateFailure options e).state = e.state := by
  unfold annotateFailure
  cases options.annotations <;> cases options.resetAt.filter (0 ≤ ·) <;> rfl

/-- The record of the scope after the failure has been applied to what the lease holds. -/
theorem held_or_not (hk : Kept o es) (he : e ∈ es) (hkey : e.key = keyOf t) (lease : Option Lease) :
    e.heldBy lease = true ∧ keyOf t ∈ (es.filter (Entry.heldBy lease)).map (·.key) ∨
      e.heldBy lease = false ∧ keyOf t ∉ (es.filter (Entry.heldBy lease)).map (·.key) := by
  cases hheld : e.heldBy lease with
  | true => exact .inl ⟨rfl, mem_map.mpr ⟨e, mem_filter.mpr ⟨he, hheld⟩, hkey⟩⟩
  | false =>
    refine .inr ⟨rfl, fun hin => ?_⟩
    obtain ⟨e', he', hkey'⟩ := mem_map.mp hin
    obtain ⟨hmem, hheld'⟩ := mem_filter.mp he'
    rw [eq_of_key_eq hk.nodup hmem he (hkey'.trans hkey.symm), hheld] at hheld'
    cases hheld'

variable (o now t) in
/-- **One failure.**  The record of the scope counts one more. -/
theorem failEntries_counts (hk : Kept o es) (hc : c.Transient)
    (hn : n = 0 ∨ ∃ e ∈ es, e.key = keyOf t ∧ n ≤ e.attempts) :
    ∃ e ∈ failEntries o now t .transient (toStoredError c.error) c.options es,
      Counts o now t (n + 1) e := by
  unfold failEntries
  dsimp only
  rw [show failureScope t .transient = t from rfl]
  have hupdate : ∀ {l : List Entry} {p : Entry → Bool} {f : Entry → Entry} {e : Entry}, e ∈ l →
      (if p e then f e else e) ∈ updateIf p f l := fun he => mem_map.mpr ⟨_, he, rfl⟩
  -- the record before the scope counts the failure itself
  suffices h : ∃ e ∈ ensure t (updateIf (Entry.heldBy c.options.lease)
      (applyFailure o .transient (toStoredError c.error) now c.options true) es),
      e.key = keyOf t ∧ (Counts o now t (n + 1) e ∧
        keyOf t ∈ (es.filter (Entry.heldBy c.options.lease)).map (·.key) ∨
        n ≤ e.attempts ∧ keyOf t ∉ (es.filter (Entry.heldBy c.options.lease)).map (·.key)) by
    obtain ⟨e, he, hkey, hcases⟩ := h
    have hmem := hupdate (p := fun e => e.key = keyOf t ∧
        e.key ∉ (es.filter (Entry.heldBy c.options.lease)).map (·.key))
      (f := fun e => applyFailure o .transient (toStoredError c.error) now c.options
        (e.state = .halfOpen) e) he
    have hcounts : Counts o now t (n + 1) (if (decide (e.key = keyOf t ∧
        e.key ∉ (es.filter (Entry.heldBy c.options.lease)).map (·.key))) = true
        then applyFailure o .transient (toStoredError c.error) now c.options
          (e.state = .halfOpen) e else e) := by
      rcases hcases with ⟨hcounts, hin⟩ | ⟨hle, hnot⟩
      · rw [if_neg fun h => (of_decide_eq_true h).2 (hkey ▸ hin)]
        exact hcounts
      · rw [if_pos (decide_eq_true ⟨hkey, hkey ▸ hnot⟩)]
        exact applyFailure_counts o now hc hkey hle _
    refine ⟨_, hupdate hmem, ?_⟩
    rw [if_pos (decide_eq_true hcounts.key)]
    exact annotateFailure_counts hcounts
  by_cases hscope : ∃ e ∈ es, e.key = keyOf t
  · obtain ⟨e, he, hkey⟩ := hscope
    have hle : n ≤ e.attempts := by
      rcases hn with rfl | ⟨e', he', hkey', hle⟩
      · omega
      · rwa [eq_of_key_eq hk.nodup he' he (hkey'.trans hkey.symm)] at hle
    have hmem := hupdate (p := Entry.heldBy c.options.lease)
      (f := applyFailure o .transient (toStoredError c.error) now c.options true) he
    rcases held_or_not hk he hkey c.options.lease with
      ⟨hheld, hin⟩ | ⟨hheld, hnot⟩
    · rw [if_pos hheld] at hmem
      have hcounts := applyFailure_counts o now hc hkey hle true
      refine ⟨_, ?_, hcounts.key, .inl ⟨hcounts, hin⟩⟩
      rw [ensure_of_mem hmem hcounts.key]
      exact hmem
    · rw [if_neg (by rw [hheld]; decide)] at hmem
      refine ⟨e, ?_, hkey, .inr ⟨hle, hnot⟩⟩
      rw [ensure_of_mem hmem hkey]
      exact hmem
  · have hzero : n = 0 := hn.resolve_right fun ⟨e, he, hkey, _⟩ => hscope ⟨e, he, hkey⟩
    subst hzero
    obtain ⟨e, he, hkey⟩ := exists_mem_ensure t (updateIf (Entry.heldBy c.options.lease)
      (applyFailure o .transient (toStoredError c.error) now c.options true) es)
    refine ⟨e, he, hkey, .inr ⟨Nat.zero_le _, fun hin => ?_⟩⟩
    obtain ⟨e', he', hkey'⟩ := mem_map.mp hin
    exact hscope ⟨e', (mem_filter.mp he').1, hkey'⟩

variable (o now) in
/-- A scope that has no record gets one at the end, open if one failure is enough. -/
theorem failEntries_of_new (hc : c.Transient)
    (hnew : ∀ e ∈ updateIf (Entry.heldBy c.options.lease) (applyFailure o .transient
      (toStoredError c.error) now c.options true) es, e.key ≠ keyOf t) :
    ∃ e : Entry, e.key = keyOf t ∧ e.stamp = now ∧
      (o.transientFailureThreshold = 1 → e.state ≠ .closed) ∧
      failEntries o now t .transient (toStoredError c.error) c.options es =
        updateIf (Entry.heldBy c.options.lease) (applyFailure o .transient (toStoredError c.error)
          now c.options true) es ++ [e] := by
  have hcounts := applyFailure_counts o now hc (freshEntry_key t) (Nat.zero_le 0) false
  refine ⟨annotateFailure c.options (applyFailure o .transient (toStoredError c.error) now
    c.options false (freshEntry t)), (annotateFailure_counts hcounts).key,
    (annotateFailure_counts hcounts).stamp, fun hone => ?_, ?_⟩
  · rw [annotateFailure_state, (hcounts.trips (Nat.le_of_eq hone)).1]
    decide
  have hnone : keyOf t ∉ (es.filter (Entry.heldBy c.options.lease)).map (·.key) := by
    intro hin
    obtain ⟨e, he, hkey⟩ := mem_map.mp hin
    obtain ⟨hmem, hheld⟩ := mem_filter.mp he
    refine hnew _ (mem_map.mpr ⟨e, hmem, rfl⟩) ?_
    rw [if_pos hheld, (applyFailure_ident ..).1]
    exact hkey
  unfold failEntries
  dsimp only
  rw [show failureScope t .transient = t from rfl, ensure_of_new hnew]
  have hrest : ∀ {p : Entry → Bool} {f : Entry → Entry} {l : List Entry},
      (∀ e ∈ l, p e = false) → p (freshEntry t) = true →
        updateIf p f (l ++ [freshEntry t]) = l ++ [f (freshEntry t)] := by
    intro p f l hl hfresh
    have hl' := updateIf_of_none (f := f) hl
    unfold updateIf at *
    rw [map_append, hl', map_singleton, if_pos hfresh]
  rw [hrest (fun e he => decide_eq_false fun h => hnew e he h.1)
    (decide_eq_true ⟨freshEntry_key t, hnone⟩)]
  have hlast := updateIf_of_none (f := annotateFailure c.options)
    (fun e he => decide_eq_false (hnew e he))
  unfold updateIf at hlast ⊢
  rw [map_append, hlast, map_singleton]
  exact congrArg (_ ++ [·]) (if_pos (decide_eq_true hcounts.key))

/-- **The record stays** where there is room. -/
theorem mem_prune_of_hasRoom (hk : Kept o es) (hc : c.Transient)
    (hroom : HasRoom o now t (updateIf (Entry.heldBy c.options.lease)
      (applyFailure o .transient (toStoredError c.error) now c.options true) es))
    (he : e ∈ failEntries o now t .transient (toStoredError c.error) c.options es)
    (hkey : e.key = keyOf t) :
    e ∈ prune o (failEntries o now t .transient (toStoredError c.error) c.options es) := by
  have hlength := failEntries_length o now t .transient (toStoredError c.error) c.options es
  have hid := idents_updateIf (p := Entry.heldBy c.options.lease)
    (applyFailure_ident o .transient (toStoredError c.error) now c.options true) es
  rw [← ensure_length_congr (failureScope t .transient) hid,
    show failureScope t .transient = t from rfl] at hlength
  have hk' := hk.of_idents hid
  generalize hes : updateIf (Entry.heldBy c.options.lease)
    (applyFailure o .transient (toStoredError c.error) now c.options true) es = es' at *
  by_cases hscope : ∃ e ∈ es', e.key = keyOf t
  · obtain ⟨e', he', hkey'⟩ := hscope
    rw [ensure_of_mem he' hkey'] at hlength
    rw [prune_of_le (hlength ▸ hk'.bounded)]
    exact he
  have hnew : ∀ e ∈ es', e.key ≠ keyOf t := fun e he h => hscope ⟨e, he, h⟩
  rw [ensure_of_new hnew, length_append, length_singleton] at hlength
  by_cases hplace : es'.length < o.maxEntries
  · rw [prune_of_le (by omega)]
    exact he
  -- the store was full, and the new record stands at its end
  subst hes
  obtain ⟨m, hmkey, hmstamp, hmstate, heq⟩ := failEntries_of_new o now hc hnew
  rw [heq] at he ⊢
  have hem : e = m := by
    rcases mem_append.mp he with he | he
    · exact absurd hkey (hnew e he)
    · exact mem_singleton.mp he
  subst hem
  have hnodup : ((updateIf (Entry.heldBy c.options.lease) (applyFailure o .transient
      (toStoredError c.error) now c.options true) es ++ [e]).map (·.key)).Nodup := by
    rw [map_append, nodup_append]
    refine ⟨hk'.nodup, nodup_singleton _, fun key hin key' hin' heq => ?_⟩
    obtain ⟨e', he', rfl⟩ := mem_map.mp hin
    obtain rfl := mem_singleton.mp hin'
    exact hnew e' he' (heq.trans hkey)
  have hfull := Nat.le_antisymm hk'.bounded (by omega)
  refine mem_prune_append hnodup hfull ?_
  rw [hmstamp]
  rcases hroom with hold | hless | ⟨e', he', hclosed, hle⟩ | ⟨hone, e', he', hle⟩
  · exact absurd hold hscope
  · exact absurd hless hplace
  · exact .inl ⟨e', he', hclosed, hle.imp_right hmstate⟩
  · exact .inr ⟨hmstate hone, e', he', hle⟩

end OneFailure

/-! ## The next call -/

section NextCall

variable {o : Options} {h : Host} {t : Target} {s : Breaker} {e : Entry}

theorem validEntry_of_wellKeyed (hkeyed : e.WellKeyed) : ∃ e', validEntry e = some e' ∧
    e'.key = e.key ∧ e'.attempts = e.attempts ∧ e'.state = e.state ∧
      e'.blockedUntil = e.blockedUntil := by
  unfold validEntry
  rw [show normalizeTarget e.target = some e.target from hkeyed.2]
  exact ⟨_, rfl, hkeyed.1.symm, rfl, rfl, rfl⟩

theorem keys_read {l : List Entry} (hkeyed : ∀ e ∈ l, e.WellKeyed) :
    (l.filterMap validEntry).map (·.key) = l.map (·.key) := by
  induction l with
  | nil => rfl
  | cons e l ih =>
    obtain ⟨he, hl⟩ := forall_mem_cons.mp hkeyed
    obtain ⟨e', hread, hkey, -⟩ := validEntry_of_wellKeyed he
    rw [filterMap_cons_some hread, map_cons, map_cons, hkey, ih hl]

/-- Time does not touch the count, nor a record that is open until later. -/
theorem lapse_counts (h : Host) (now : Nat) (e : Entry) : (lapse h now e).attempts = e.attempts ∧
    (e.state = .open_ → (∃ until_, e.blockedUntil = some until_ ∧ now < until_) →
      lapse h now e = e) := by
  rw [lapse_eq]
  constructor
  · split <;> rfl
  · rintro hopen ⟨until_, huntil, hlt⟩
    refine if_neg fun hlapses => ?_
    rcases (lapses_iff h now e).mp hlapses with ⟨-, end_, hend, hle⟩ | ⟨hhalf, -⟩
    · rw [huntil] at hend
      obtain rfl := some.inj hend
      omega
    · rw [hopen] at hhalf
      cases hhalf

@[simp] theorem locked_clock (o : Options) (h : Host) (s : Breaker) :
    (s.locked o h).lastClockMs = s.lastClockMs := by
  unfold Breaker.locked
  split <;> rfl

/-- The file has what the breaker holds, or there is none. -/
def Breaker.Saved (o : Options) (s : Breaker) : Prop :=
  o.filePath = none ∨ s.file = some { savedAt := s.lastClockMs, entries := s.entries }

/-- **The next call finds the record.** -/
theorem locked_finds (hk : Kept o s.entries) (hkeyed : ∀ e ∈ s.entries, e.WellKeyed)
    (hsaved : s.Saved o) (hread : o.filePath = none ∨ h.readable = true) (he : e ∈ s.entries) :
    ∃ e' ∈ (s.locked o h).entries, e'.key = e.key ∧ e'.attempts = e.attempts ∧
      (e.state = .open_ → (∃ until_, e.blockedUntil = some until_ ∧ s.lastClockMs < until_) →
        e'.state = .open_ ∧ e'.blockedUntil = e.blockedUntil) := by
  unfold Breaker.locked
  split
  · exact ⟨e, he, rfl, rfl, fun hopen _ => ⟨hopen, rfl⟩⟩
  rename_i hfile
  unfold Breaker.load
  rw [hsaved.resolve_left hfile]
  dsimp only
  rw [if_pos (hread.resolve_left hfile)]
  unfold loadEntries
  dsimp only
  have hkeys := keys_read hkeyed
  rw [if_neg (by omega), take_of_length_le hk.bounded, foldl_put_of_nodup, nil_append]
  · obtain ⟨e', he', hkey, hattempts, hstate, huntil⟩ := validEntry_of_wellKeyed (hkeyed e he)
    obtain ⟨hcount, hstays⟩ := lapse_counts h s.lastClockMs e'
    refine ⟨_, mem_map_of_mem (mem_filterMap.mpr ⟨e, he, he'⟩), ?_, ?_,
      fun hopen hlater => ?_⟩
    · rw [lapse_key, hkey]
    · rw [hcount, hattempts]
    · rw [hstays (hstate.trans hopen) (huntil ▸ hlater)]
      exact ⟨hstate.trans hopen, huntil⟩
  · rw [nil_append, hkeys]
    exact hk.nodup

theorem now_finds (raw : Nat) (he : e ∈ s.entries) :
    ∃ e' ∈ (s.now o raw).entries, e'.key = e.key ∧ e'.attempts = e.attempts := by
  unfold Breaker.now
  split
  · exact ⟨_, mem_map_of_mem he, rfl, rfl⟩
  · split <;> exact ⟨e, he, rfl, rfl⟩

end NextCall

/-! ## The run -/

section Run

variable {o : Options} {input t : Target} {s : Breaker} {c : FailureCall} {n : Nat}

/-- So many failures are counted, and the next call finds them. -/
def Ready (o : Options) (t : Target) (n : Nat) (s : Breaker) : Prop :=
  n = 0 ∨ s.Saved o ∧ Kept o s.entries ∧ (∀ e ∈ s.entries, e.WellKeyed) ∧
    ∃ e ∈ s.entries, e.key = keyOf t ∧ n ≤ e.attempts

theorem Breaker.Reachable.records (hs : Breaker.Reachable o s) : Kept o s.entries := by
  obtain ⟨h₀, file, hr⟩ := hs
  refine hr.invariant (I := fun s => Kept o s.entries)
    (fun s a hs => perform_kept hs a.1 a.2) ?_
  exact locked_kept (Kept.nil o) h₀

theorem perform_counts (hs : Breaker.Reachable o s) (hinput : normalizeTarget input = some t)
    (hc : c.Transient) (hcounted : Counted o t s c)
    (hwrite : o.filePath = none ∨ c.host.writable = true)
    (hread : n = 0 ∨ o.filePath = none ∨ c.host.readable = true) (hready : Ready o t n s) :
    let s' := (s.perform o c.host (c.input input).2).2
    Ready o t (n + 1) s' ∧ s'.now o c.host.raw = s' ∧
      ∃ e ∈ s'.entries, Counts o s'.lastClockMs t (n + 1) e := by
  intro s'
  have hk' : Kept o s'.entries := perform_kept hs.records c.host (c.input input).2
  have hkeyed' : ∀ e ∈ s'.entries, e.WellKeyed :=
    wellKeyed_stable.perform (hs.wellKeyed c.host) (c.input input).2
  have hkfound : Kept o (c.found o s).entries := now_kept (hs.kept c.host) c.host.raw
  have hn : n = 0 ∨ ∃ e ∈ (c.found o s).entries, e.key = keyOf t ∧ n ≤ e.attempts := by
    rcases hready with hzero | ⟨hsaved, hk, hkeyed, e, he, hkey, hle⟩
    · exact .inl hzero
    rcases hread with hzero | hread
    · exact .inl hzero
    obtain ⟨e₁, he₁, hkey₁, hattempts₁, -⟩ := locked_finds hk hkeyed hsaved hread he
    obtain ⟨e₂, he₂, hkey₂, hattempts₂⟩ := now_finds c.host.raw he₁
    exact .inr ⟨e₂, he₂, hkey₂.trans (hkey₁.trans hkey), hattempts₂ ▸ hattempts₁ ▸ hle⟩
  obtain ⟨e, he, hcounts⟩ := failEntries_counts o (c.found o s).lastClockMs t hkfound hc hn
  have hmem := mem_prune_of_hasRoom hkfound hc hcounted.room he hcounts.key
  have hs' : s' = Breaker.persist o c.host { c.found o s with
      entries := prune o (failEntries o (c.found o s).lastClockMs t .transient
        (toStoredError c.error) c.options (c.found o s).entries) } := by
    show (s.perform o c.host (.recordFailure input c.error c.options)).2 = _
    unfold Breaker.perform
    dsimp only
    rw [hinput]
    unfold Breaker.recordFailure
    dsimp only
    rw [show staleLease c.options.lease ((s.locked o c.host).now o c.host.raw).entries = false
      from hcounted.active, hc.classified]
    rfl
  have hclock : s'.lastClockMs = (c.found o s).lastClockMs := by
    rw [hs', persist_clock]
  have hin : e ∈ s'.entries := by
    rw [hs', persist_entries]
    exact hmem
  have hsaved : s'.Saved o := by
    rw [hs', Breaker.Saved]
    by_cases hfile : o.filePath = none
    · exact .inl hfile
    · right
      unfold Breaker.persist
      rw [if_pos ⟨hfile, hwrite.resolve_left hfile⟩]
  refine ⟨.inr ⟨hsaved, hk', hkeyed', e, hin, hcounts.key, hcounts.attempts⟩, ?_, e, hin, ?_⟩
  · exact now_of_clock hclock
  · rw [hclock]
    exact hcounts

theorem Breaker.Reachable.perform (hs : Breaker.Reachable o s) (h : Host) (call : Call) :
    Breaker.Reachable o (s.perform o h call).2 := by
  obtain ⟨h₀, file, inputs, hrun⟩ := hs
  refine ⟨h₀, file, inputs ++ [(h, call)], ?_⟩
  rw [Machine.run_append, hrun]
  rfl

/-- **The run**: the count goes up with every call. -/
theorem run_counts (hinput : normalizeTarget input = some t) {calls : List FailureCall}
    (hne : calls ≠ []) (hs : Breaker.Reachable o s) (htransient : ∀ c ∈ calls, c.Transient)
    (hcounted : AllCounted o input t calls s)
    (hwrite : o.filePath = none ∨ ∀ c ∈ calls, c.host.writable = true)
    (hread : o.filePath = none ∨ ∀ c ∈ calls.tail, c.host.readable = true)
    (hhead : n = 0 ∨ o.filePath = none ∨ ∀ c ∈ calls.head?, c.host.readable = true)
    (hready : Ready o t n s) :
    let s' := (machine o).run s (calls.map (·.input input))
    Ready o t (n + calls.length) s' ∧ (∀ c ∈ calls.getLast?, s'.now o c.host.raw = s') ∧
      ∃ e ∈ s'.entries, Counts o s'.lastClockMs t (n + calls.length) e := by
  induction calls generalizing s n with
  | nil => exact absurd rfl hne
  | cons c calls ih =>
    obtain ⟨hc, hcalls⟩ := forall_mem_cons.mp htransient
    obtain ⟨hready', hnow, hcounts⟩ := perform_counts hs hinput hc hcounted.1
      (hwrite.imp_right fun h => h c mem_cons_self)
      (hhead.imp_right fun h => h.imp_right fun h => h c rfl) hready
    cases calls with
    | nil => exact ⟨hready', fun c' hc' => (some.inj hc') ▸ hnow, hcounts⟩
    | cons c' calls =>
      have hrest := ih (n := n + 1) (cons_ne_nil _ _)
        (hs.perform c.host (c.input input).2) hcalls hcounted.2
        (hwrite.imp_right fun h => (forall_mem_cons.mp h).2)
        (hread.imp_right fun h => (forall_mem_cons.mp h).2)
        (.inr (hread.imp_right fun h x hx => h x (some.inj hx ▸ mem_cons_self)))
        hready'
      rw [show n + (c :: c' :: calls).length = n + 1 + (c' :: calls).length by
        simp only [length_cons]
        omega]
      exact hrest

/-- **Repeated transient failures trip the circuit**: in every reachable breaker, if as many
    failures of a target as the threshold are recorded in a row, each of them transient, without a
    retry hint and counted, and the store keeps what they leave, then a request for the target is
    refused at the instant of the last. -/
theorem transient_failures_trip (o : Options) (input t : Target) (s : Breaker)
    (calls : List FailureCall) (h : Host) (hs : Breaker.Reachable o s)
    (hinput : normalizeTarget input = some t)
    (hlength : calls.length = o.transientFailureThreshold)
    (htransient : ∀ c ∈ calls, c.Transient) (hinstant : ∀ c ∈ calls.getLast?, h.raw = c.host.raw)
    (hcounted : AllCounted o input t calls s) (hstored : Stored o calls h) :
    ∃ status retryAfterMs, (((machine o).run s (calls.map (·.input input))).perform o h
      (.tryAcquire input)).1 = .decision (.refused status retryAfterMs) := by
  have hne : calls ≠ [] := by
    rintro rfl
    exact absurd hlength (Nat.ne_of_lt o.threshold_pos)
  obtain ⟨hready, hnow, e, he, hcounts⟩ := run_counts (n := 0) hinput hne hs htransient hcounted
    (hstored.imp_right And.left) (hstored.imp_right fun h => h.2.1) (.inl rfl) (.inl rfl)
  rw [Nat.zero_add] at hready hcounts
  generalize (machine o).run s (calls.map (·.input input)) = s' at *
  obtain ⟨hopen, hlater⟩ := hcounts.trips (by omega)
  rcases hready with hzero | ⟨hsaved, hk, hkeyed, -⟩
  · exact absurd (length_eq_zero_iff.mp hzero) hne
  -- the request finds the record open
  obtain ⟨e', he', hkey, -, hstays⟩ := locked_finds hk hkeyed hsaved
    (hstored.imp_right fun h => h.2.2) he
  obtain ⟨hopen', huntil'⟩ := hstays hopen hlater
  have htarget : e'.target = t := by
    refine keyOf_inj ?_
    rw [← (locked_kept hk h).key_eq e' he', hkey, hcounts.key]
  have hraw : s'.now o h.raw = s' := by
    rw [← dropLast_concat_getLast hne, List.getLast?_concat] at hinstant hnow
    rw [hinstant _ rfl]
    exact hnow _ rfl
  have hlocked : (s'.locked o h).now o h.raw = s'.locked o h := by
    apply now_of_clock (s := s')
    rw [locked_clock, hraw]
  have hrefuses : (s'.locked o h).refuses o h t = true := by
    rw [refuses_iff, hlocked]
    refine ⟨e', he', ?_, blocks_of_open hopen' fun until_ huntil => ?_⟩
    · rw [Entry.concerns, htarget]
      exact appliesTo_refl t
    · obtain ⟨until₀, heq, hlt⟩ := hlater
      rw [huntil', heq] at huntil
      rw [locked_clock, ← some.inj huntil]
      exact hlt
  unfold Breaker.perform
  dsimp only
  rw [hinput]
  unfold Breaker.refuses at hrefuses
  dsimp only
  cases hdecision : ((s'.locked o h).tryAcquire o h t).1 with
  | allowed probe status lease =>
    rw [hdecision] at hrefuses
    cases hrefuses
  | refused status retryAfterMs => exact ⟨status, retryAfterMs, rfl⟩

end Run

/-! ## Runs -/

/-- A failure of the provider, reported without a lease. -/
def busyCall : FailureCall := { host := hostAt 1000, error := busy, options := {} }

theorem busyCall_transient : busyCall.Transient :=
  ⟨by decide +kernel, rfl, rfl, by decide +kernel⟩

/-- A breaker that has just been started trips. -/
theorem transient_failures_trip_started : ∃ status retryAfterMs,
    (((machine defaults).run (Breaker.start defaults (hostAt 1000) none)
      ((List.replicate 3 busyCall).map (·.input route))).perform defaults (hostAt 1000)
        (.tryAcquire route)).1 = .decision (.refused status retryAfterMs) := by
  refine transient_failures_trip defaults route route _ _ _ ⟨hostAt 1000, none, [], rfl⟩
    (by decide +kernel) rfl ?_ ?_ ?_ (.inl rfl)
  · intro c hc
    rw [eq_of_mem_replicate hc]
    exact busyCall_transient
  · intro c hc
    rw [eq_of_mem_replicate (mem_of_getLast? hc)]
    rfl
  · exact ⟨⟨rfl, .inr (.inl (by decide +kernel))⟩, ⟨rfl, .inr (.inl (by decide +kernel))⟩,
      ⟨rfl, .inr (.inl (by decide +kernel))⟩, trivial⟩

/-- A store with room for one record. -/
def oneEntry : Options :=
  normalizeOptions { maxEntries := some 1, transientFailureThreshold := some 2 }

/-- The record is that of a rejected credential of another provider. -/
def fullStore : Breaker :=
  (machine oneEntry).run (Breaker.start oneEntry (hostAt 1000) none)
    [(hostAt 1000, .recordFailure { providerId := "q" } rejected {})]

/-- **A full store never trips**: each failure is counted in a new record, which is pruned. -/
theorem full_store_never_trips : ¬ ∀ (o : Options) (input t : Target) (s : Breaker)
    (calls : List FailureCall) (h : Host), Breaker.Reachable o s → normalizeTarget input = some t →
    calls.length = o.transientFailureThreshold → (∀ c ∈ calls, c.Transient) →
    (∀ c ∈ calls.getLast?, h.raw = c.host.raw) → Stored o calls h →
    ∃ status retryAfterMs, (((machine o).run s (calls.map (·.input input))).perform o h
      (.tryAcquire input)).1 = .decision (.refused status retryAfterMs) := by
  intro h
  obtain ⟨status, retryAfterMs, hrefused⟩ := h oneEntry route route fullStore [busyCall, busyCall]
    (hostAt 1000) ⟨hostAt 1000, none, _, rfl⟩ (by decide +kernel) rfl
    (forall_mem_cons.mpr ⟨busyCall_transient, forall_mem_singleton.mpr busyCall_transient⟩)
    (fun c hc => some.inj hc ▸ rfl) (.inl rfl)
  have hallowed : (((machine oneEntry).run fullStore
      ([busyCall, busyCall].map (·.input route))).perform oneEntry (hostAt 1000)
        (.tryAcquire route)).1 = .decision (.allowed false (closedStatus route) none) := by
    decide +kernel
  rw [hallowed] at hrefused
  cases hrefused

end NexusCode.Circuit
