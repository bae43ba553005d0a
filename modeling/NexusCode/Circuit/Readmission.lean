/-
  Does recording a failure ever let more traffic through?

  A request is refused while some record that concerns it blocks (`refuses_iff`).  A failure
  without a lease and without a time of its own rewrites one record, that of its scope, and may
  make `prune` drop another.  Three things can go wrong, each because the new state of the record
  is computed from the newest failure alone:

  * `Recloses` — a late transient failure below the threshold closes a record that was open;
  * `Dates`    — a failure of another class gives an end to a block that had none;
  * `Evicts`   — in a full store, the record of a new scope displaces a block without an end.

  **`failure_never_readmits_iff`** — these are all: what is refused and what is blocked without an
  end stays so exactly when none of the three happens.
-/
import NexusCode.Circuit.Records

namespace NexusCode.Circuit

open Lib Shared List Option

/-! ## Blocking -/

/-- At `now` the record refuses every request it concerns. -/
def Entry.blocks (h : Host) (now : Nat) (e : Entry) : Bool := (lapse h now e).hardBlock

/-- `tryAcquire(target)` would be refused. -/
def Breaker.refuses (o : Options) (h : Host) (t : Target) (s : Breaker) : Bool :=
  match (s.tryAcquire o h t).1 with
  | .refused .. => true
  | .allowed .. => false

theorem blocks_iff (h : Host) (now : Nat) (e : Entry) :
    e.blocks h now = true ↔ e.hardBlock = true ∧ e.lapses h now = false := by
  rw [Entry.blocks, lapse_eq]
  cases e.lapses h now <;> simp [Entry.hardBlock]

theorem blocks_of_closed {h : Host} {now : Nat} {e : Entry} (hs : e.state = .closed) :
    e.blocks h now = false := by
  by_contra hb
  have hhard := ((blocks_iff h now e).mp (by simpa using hb)).1
  simp [Entry.hardBlock, hs] at hhard

theorem blocks_of_open {h : Host} {now : Nat} {e : Entry} (hs : e.state = .open_)
    (hu : ∀ until_, e.blockedUntil = some until_ → now < until_) : e.blocks h now = true := by
  refine (blocks_iff h now e).mpr ⟨by simp [Entry.hardBlock, hs], ?_⟩
  by_contra hl
  rcases (lapses_iff h now e).mp (by simpa using hl) with ⟨-, t, ht, hle⟩ | ⟨hs', -⟩
  · exact absurd (hu t ht) (by omega)
  · rw [hs] at hs'
    nomatch hs'

theorem blocks_lapse (h : Host) (now : Nat) (e : Entry) :
    (lapse h now e).blocks h now = e.blocks h now := by
  unfold Entry.blocks
  rw [lapse_eq h now e]
  split
  · rw [lapse_eq, lapses_halfOpened]
    rfl
  · rename_i hl
    rw [lapse_eq, if_neg hl]

theorem lapse_of_indefinite {h : Host} {now : Nat} {e : Entry} (hi : e.Indefinite) :
    lapse h now e = e := by
  rw [lapse_eq, if_neg]
  intro hl
  rcases (lapses_iff h now e).mp hl with ⟨-, t, ht, -⟩ | ⟨hs, -⟩
  · rw [hi.2] at ht
    nomatch ht
  · rw [hi.1] at hs
    nomatch hs

/-- **When a request is refused**: some record that concerns it blocks. -/
theorem refuses_iff (o : Options) (h : Host) (t : Target) (s : Breaker) :
    s.refuses o h t = true ↔ ∃ e ∈ (s.now o h.raw).entries,
      e.concerns t = true ∧ e.blocks h (s.now o h.raw).lastClockMs = true := by
  have hmem : ∀ (P : Entry → Prop), (∃ b ∈ updateIf (Entry.concerns t)
      (lapse h (s.now o h.raw).lastClockMs) (s.now o h.raw).entries, b.concerns t = true ∧ P b) ↔
      ∃ e ∈ (s.now o h.raw).entries, e.concerns t = true ∧
        P (lapse h (s.now o h.raw).lastClockMs e) := by
    intro P
    have hc : ∀ e, (lapse h (s.now o h.raw).lastClockMs e).concerns t = e.concerns t := by
      intro e
      rw [Entry.concerns, lapse_target]
      rfl
    constructor
    · rintro ⟨b, hb, hcb, hP⟩
      obtain ⟨e, he, rfl⟩ := mem_map.mp hb
      by_cases hce : e.concerns t = true
      · rw [if_pos hce] at hP
        exact ⟨e, he, hce, hP⟩
      · rw [if_neg hce] at hcb
        exact absurd hcb hce
    · rintro ⟨e, he, hce, hP⟩
      exact ⟨_, mem_map.mpr ⟨e, he, if_pos hce⟩, (hc e).trans hce, hP⟩
  have hiff := hmem fun b => b.hardBlock = true
  unfold Breaker.refuses
  rcases tryAcquire_cases o h t s with ⟨b, hb, hc, hhard, -, -, hd⟩ | ⟨hfree, -, s', -, -, -, hd⟩ |
    ⟨hfree, st, keys, -, hd, -⟩
  · rw [hd]
    exact ⟨fun _ => hiff.mp ⟨b, hb, hc, hhard⟩, fun _ => rfl⟩
  · rw [hd]
    refine ⟨fun hf => absurd hf Bool.false_ne_true, fun hex => ?_⟩
    obtain ⟨b, hb, hc, hhard⟩ := hiff.mpr hex
    rw [hfree b hb hc] at hhard
    nomatch hhard
  · rw [hd]
    refine ⟨fun hf => absurd hf Bool.false_ne_true, fun hex => ?_⟩
    obtain ⟨b, hb, hc, hhard⟩ := hiff.mpr hex
    rw [hfree b hb hc] at hhard
    nomatch hhard

/-! ## The record of the failing scope -/

/-- The record of the scope after the failure. -/
def failed (o : Options) (reason : Reason) (error : StoredError) (now : Nat)
    (a : Option Annotations) (e : Entry) : Entry :=
  annotateFailure { annotations := a }
    (applyFailure o reason error now { annotations := a } (e.state = .halfOpen) e)

/-- The failure opens the circuit of the record. -/
def Entry.opens (o : Options) (reason : Reason) (e : Entry) : Bool :=
  shouldOpen o reason none (e.attempts + 1) (e.state = .halfOpen)

section Failed

variable {o : Options} {reason : Reason} {error : StoredError} {now : Nat}
  {a : Option Annotations} {e : Entry}

theorem failed_eq (hr : error.retryAfterMs = none) :
    let r := failed o reason error now a e
    r.key = e.key ∧ r.target = e.target ∧ r.stamp = now ∧
      (e.opens o reason = true → r.state = .open_ ∧
        r.blockedUntil = cooldownEnd o reason now (e.openCount + 1)) ∧
      (e.opens o reason = false → r.state = .closed) := by
  have hx : explicitRetryAt now error { annotations := a } = none := by
    simp [explicitRetryAt, hr]
  unfold failed annotateFailure applyFailure Entry.opens
  simp only [hx]
  cases shouldOpen o reason none (e.attempts + 1) (e.state = .halfOpen) <;> cases a <;>
    simp [Entry.stamp, Option.filter]

theorem cooldownEnd_gt (o : Options) (reason : Reason) (now openCount until_ : Nat)
    (h : cooldownEnd o reason now openCount = some until_) : now < until_ := by
  have hq := o.quotaCooldown_pos
  have hm := o.modelCooldown_pos
  have hb : 0 < min o.maxCooldownMs (o.baseCooldownMs * 2 ^ (openCount - 1)) :=
    Nat.lt_min.mpr ⟨o.maxCooldown_pos, Nat.mul_pos o.baseCooldown_pos (Nat.two_pow_pos _)⟩
  cases reason <;> simp only [cooldownEnd, some.injEq, reduceCtorEq] at h <;> omega

theorem cooldownEnd_eq_none (now openCount : Nat) :
    cooldownEnd o reason now openCount = none ↔ reason = .auth := by
  cases reason <;> simp [cooldownEnd]

theorem failed_open (hr : error.retryAfterMs = none) (ho : e.opens o reason = true) :
    (failed o reason error now a e).state = .open_ ∧
      (failed o reason error now a e).blockedUntil = cooldownEnd o reason now (e.openCount + 1) :=
  (failed_eq hr).2.2.2.1 ho

theorem failed_blocks (hr : error.retryAfterMs = none) (h : Host) (ho : e.opens o reason = true) :
    (failed o reason error now a e).blocks h now = true := by
  obtain ⟨hs, hu⟩ : (failed o reason error now a e).state = _ ∧ _ := failed_open hr ho
  refine blocks_of_open hs fun until_ hut => ?_
  rw [hu] at hut
  exact cooldownEnd_gt _ _ _ _ _ hut

theorem failed_closed (hr : error.retryAfterMs = none) (ho : e.opens o reason = false) :
    (failed o reason error now a e).state = .closed :=
  (failed_eq hr).2.2.2.2 ho

theorem failed_indefinite_iff (hr : error.retryAfterMs = none) :
    (failed o reason error now a e).Indefinite ↔ reason = .auth := by
  constructor
  · rintro ⟨hs, hu⟩
    cases ho : e.opens o reason with
    | true =>
      rw [(failed_open hr ho).2] at hu
      exact (cooldownEnd_eq_none _ _).mp hu
    | false =>
      rw [failed_closed hr ho] at hs
      nomatch hs
  · rintro rfl
    have ho : e.opens o .auth = true := rfl
    exact failed_open hr ho

end Failed

/-! ## The step -/

section Step

variable {o : Options} {h : Host} {t : Target} {error : Failure} {a : Option Annotations} {s : Breaker}

theorem updateIf_none (f : Entry → Entry) (es : List Entry) :
    updateIf (Entry.heldBy none) f es = es := updateIf_of_none fun _ _ => rfl

/-- Without a lease and without a time, a classified failure rewrites the record of its scope. -/
theorem failEntries_eq (now : Nat) (reason : Reason) (e : StoredError) (es : List Entry) :
    failEntries o now t reason e { annotations := a } es =
      updateIf (·.key = keyOf (failureScope t reason)) (failed o reason e now a)
        (ensure (failureScope t reason) es) := by
  have hheld : es.filter (Entry.heldBy none) = [] := by simp [Entry.heldBy]
  unfold failEntries
  simp only [updateIf_none, hheld, map_nil, not_mem_nil, not_false_eq_true, and_true]
  unfold updateIf
  rw [List.map_map]
  refine map_congr_left fun e' _ => ?_
  simp only [Function.comp_apply]
  by_cases hk : e'.key = keyOf (failureScope t reason)
  · simp only [hk, decide_true, if_true, (applyFailure_ident ..).1]
    rfl
  · simp [hk]

theorem recordFailure_state (hinstant : h.rawAgain = h.raw) :
    let s₁ := s.now o h.raw
    let r := (s.recordFailure o h t error { annotations := a }).2
    r.lastClockMs = s₁.lastClockMs ∧
      r.entries = match classifyProviderCircuitFailure error with
        | none => updateIf (Entry.concerns t) (lapse h s₁.lastClockMs) s₁.entries
        | some reason => prune o (updateIf (·.key = keyOf (failureScope t reason))
            (failed o reason (toStoredError error) s₁.lastClockMs a)
            (ensure (failureScope t reason) s₁.entries)) := by
  intro s₁ r
  have hr : r = (s.recordFailure o h t error { annotations := a }).2 := rfl
  unfold Breaker.recordFailure at hr
  simp only [staleLease, any_none, Bool.false_eq_true, if_false] at hr
  cases hc : classifyProviderCircuitFailure error with
  | none =>
    rw [hc] at hr
    simp only [updateIf_none] at hr
    have hnow : ∀ b, (s₁.persistIf o h b).now o h.rawAgain = s₁.persistIf o h b := by
      intro b
      refine now_of_clock (s := s) ?_ |>.trans rfl
      rw [hinstant, persistIf_clock]
    rw [hr]
    constructor
    · rw [statusOf_clock, hnow, persistIf_clock]
    · rw [statusOf_entries, hnow, persistIf_clock, persistIf_entries]
  | some reason =>
    rw [hc] at hr
    simp only [failEntries_eq] at hr
    rw [hr]
    exact ⟨by rw [persist_clock], by rw [persist_entries]⟩

end Step

/-- The longest untouched record, when one is added at the end. -/
theorem head?_oldest_append (es : List Entry) (n : Entry) :
    (oldest (es ++ [n])).head? = match (oldest es).head? with
      | none => some n
      | some b => if b.stamp ≤ n.stamp then some b else some n := by
  have hcons : ∀ (x : Entry) (l : List Entry), (oldest (x :: l)).head? =
      match (oldest l).head? with
      | none => some x
      | some b => if x.stamp ≤ b.stamp then some x else some b := by
    intro x l
    show (List.orderedInsert _ x (oldest l)).head? = _
    cases oldest l with
    | nil => rfl
    | cons b l =>
      simp only [List.orderedInsert, List.head?_cons]
      split <;> rfl
  induction es with
  | nil => rfl
  | cons x l ih =>
    rw [cons_append, hcons, hcons, ih]
    cases (oldest l).head? with
    | none => rfl
    | some b =>
      simp only
      by_cases hb : b.stamp ≤ n.stamp <;> by_cases hx : x.stamp ≤ b.stamp <;>
        simp only [hb, hx, if_true, if_false]
      · rw [if_pos (by omega)]
      · rw [if_neg (by omega : ¬ x.stamp ≤ n.stamp)]

/-! ## What can go wrong -/

/-- The failure closes the one record that blocks: the scope is open, the failure transient and
    still below the threshold, and no other record blocks the request. -/
def Recloses (o : Options) (h : Host) (t : Target) (reason : Reason) (now : Nat)
    (es : List Entry) : Prop :=
  ∃ e ∈ es, e.key = keyOf (failureScope t reason) ∧ e.blocks h now = true ∧ e.state = .open_ ∧
    reason = .transient ∧ e.attempts + 1 < o.transientFailureThreshold ∧
    ∀ e' ∈ es, e'.concerns t = true → e'.blocks h now = true → e' = e

/-- The failure gives an end to an endless block. -/
def Dates (t : Target) (reason : Reason) (es : List Entry) : Prop :=
  ∃ e ∈ es, e.key = keyOf (failureScope t reason) ∧ e.Indefinite ∧ reason ≠ .auth

/-- The failure opens a new record in a full store without closed records, whose longest
    untouched record is an endless block. -/
def Evicts (o : Options) (t : Target) (reason : Reason) (now : Nat) (es : List Entry) : Prop :=
  (∀ e ∈ es, e.key ≠ keyOf (failureScope t reason)) ∧ es.length = o.maxEntries ∧
    (∀ e ∈ es, e.state ≠ .closed) ∧
    (freshEntry (failureScope t reason)).opens o reason = true ∧
    ∃ e, (oldest es).head? = some e ∧ e.Indefinite ∧ e.stamp ≤ now

/-- None of the three, for the records the call finds. -/
def Harmless (o : Options) (h : Host) (t : Target) (error : Failure) (s : Breaker) : Prop :=
  let s₁ := s.now o h.raw
  ∀ reason, classifyProviderCircuitFailure error = some reason →
    ¬ Recloses o h t reason s₁.lastClockMs s₁.entries ∧ ¬ Dates t reason s₁.entries ∧
      ¬ Evicts o t reason s₁.lastClockMs s₁.entries

/-- What the records before and after the failure have to do with one another. -/
def NoReadmission (h : Host) (t : Target) (now : Nat) (es es' : List Entry) : Prop :=
  ((∃ e ∈ es, e.concerns t = true ∧ e.blocks h now = true) →
    ∃ e ∈ es', e.concerns t = true ∧ e.blocks h now = true) ∧
  ∀ e ∈ es, e.Indefinite → ∃ e' ∈ es', e'.key = e.key ∧ e'.Indefinite

section Scope

variable {o : Options} {h : Host} {t : Target} {reason : Reason} {error : StoredError} {now : Nat}
  {a : Option Annotations} {es : List Entry}

theorem concerns_of_key (hk : Kept o es) {e : Entry} (he : e ∈ es)
    (hkey : e.key = keyOf (failureScope t reason)) : e.concerns t = true := by
  have ht : e.target = failureScope t reason := keyOf_inj ((hk.key_eq e he).symm.trans hkey)
  rw [Entry.concerns, ht]
  exact appliesTo_failureScope t reason

/-- A record that blocks and is not opened by the failure was open and stays below the
    threshold. -/
theorem not_opens_iff {e : Entry} (hb : e.blocks h now = true) :
    e.opens o reason = false ↔
      e.state = .open_ ∧ reason = .transient ∧ e.attempts + 1 < o.transientFailureThreshold := by
  have hs : e.state = .open_ ∨ e.state = .halfOpen := by
    have hhard := ((blocks_iff h now e).mp hb).1
    cases hst : e.state <;> simp_all [Entry.hardBlock]
  unfold Entry.opens shouldOpen
  rcases hs with hs | hs <;> cases reason <;> simp [hs]

/-- **The scope has a record.** -/
theorem noReadmission_of_mem (hk : Kept o es) (hr : error.retryAfterMs = none) {e₀ : Entry}
    (he₀ : e₀ ∈ es) (hkey : e₀.key = keyOf (failureScope t reason)) :
    NoReadmission h t now es
      (updateIf (·.key = keyOf (failureScope t reason)) (failed o reason error now a) es) ↔
      ¬ Recloses o h t reason now es ∧ ¬ Dates t reason es := by
  have hmem : ∀ e', e' ∈ updateIf (·.key = keyOf (failureScope t reason))
      (failed o reason error now a) es ↔
      e' = failed o reason error now a e₀ ∨ (e' ∈ es ∧ e'.key ≠ keyOf (failureScope t reason)) := by
    intro e'
    unfold updateIf
    rw [List.mem_map]
    constructor
    · rintro ⟨e, he, rfl⟩
      by_cases hek : e.key = keyOf (failureScope t reason)
      · obtain rfl : e = e₀ := eq_of_key_eq hk.nodup he he₀ (hek.trans hkey.symm)
        exact .inl (if_pos (decide_eq_true hek))
      · simp [hek, he]
    · rintro (rfl | ⟨he, hne⟩)
      · exact ⟨e₀, he₀, by simp [hkey]⟩
      · exact ⟨e', he, by simp [hne]⟩
  have hconcerns := concerns_of_key hk he₀ hkey
  have hfc : (failed o reason error now a e₀).concerns t = true := by
    rw [Entry.concerns, (failed_eq hr).2.1]
    exact hconcerns
  constructor
  · rintro ⟨hrefuse, hindef⟩
    constructor
    · rintro ⟨e, he, hek, hb, hs, htr, hatt, honly⟩
      obtain rfl : e = e₀ := eq_of_key_eq hk.nodup he he₀ (hek.trans hkey.symm)
      obtain ⟨e', he', hc', hb'⟩ := hrefuse ⟨e, he, hconcerns, hb⟩
      rcases (hmem e').mp he' with rfl | ⟨hin, hne⟩
      · have hclosed : (failed o reason error now a e).state = .closed :=
          failed_closed hr ((not_opens_iff hb).mpr ⟨hs, htr, hatt⟩)
        rw [blocks_of_closed hclosed] at hb'
        nomatch hb'
      · exact hne (by rw [honly e' hin hc' hb', hkey])
    · rintro ⟨e, he, hek, hi, hne⟩
      obtain ⟨e', he', hk', hi'⟩ := hindef e he hi
      rcases (hmem e').mp he' with rfl | ⟨-, hne'⟩
      · exact hne ((failed_indefinite_iff hr).mp hi')
      · exact hne' (hk'.trans hek)
  · rintro ⟨hrec, hdat⟩
    constructor
    · rintro ⟨e, he, hc, hb⟩
      by_cases hek : e.key = keyOf (failureScope t reason)
      · obtain rfl : e = e₀ := eq_of_key_eq hk.nodup he he₀ (hek.trans hkey.symm)
        cases ho : e.opens o reason with
        | true => exact ⟨_, (hmem _).mpr (Or.inl rfl), hfc, failed_blocks hr h ho⟩
        | false =>
          -- the record is closed, so another one must block
          obtain ⟨hs, htr, hatt⟩ := (not_opens_iff hb).mp ho
          by_contra hno
          refine hrec ⟨e, he, hek, hb, hs, htr, hatt, fun e' he' hc' hb' => ?_⟩
          by_contra hne
          refine hno ⟨e', (hmem e').mpr (Or.inr ⟨he', fun hk' => hne ?_⟩), hc', hb'⟩
          exact eq_of_key_eq hk.nodup he' he (hk'.trans hek.symm)
      · exact ⟨e, (hmem e).mpr (Or.inr ⟨he, hek⟩), hc, hb⟩
    · intro e he hi
      by_cases hek : e.key = keyOf (failureScope t reason)
      · obtain rfl : e = e₀ := eq_of_key_eq hk.nodup he he₀ (hek.trans hkey.symm)
        refine ⟨_, (hmem _).mpr (Or.inl rfl), (failed_eq hr).1, (failed_indefinite_iff hr).mpr ?_⟩
        by_contra hne
        exact hdat ⟨e, he, hek, hi, hne⟩
      · exact ⟨e, (hmem e).mpr (Or.inr ⟨he, hek⟩), rfl, hi⟩

theorem mem_delete {l : List Entry} (hl : (l.map (·.key)).Nodup) {v e : Entry} (hv : v ∈ l) :
    e ∈ delete v.key l ↔ e ∈ l ∧ e ≠ v := by
  unfold delete
  rw [mem_filter, decide_eq_true_iff]
  constructor
  · rintro ⟨he, hne⟩
    exact ⟨he, fun h => hne (by rw [h])⟩
  · rintro ⟨he, hne⟩
    exact ⟨he, fun h => hne (eq_of_key_eq hl he hv h)⟩

/-- **The scope is new.** -/
theorem noReadmission_of_new (hk : Kept o es) (hr : error.retryAfterMs = none)
    (hnew : ∀ e ∈ es, e.key ≠ keyOf (failureScope t reason)) :
    NoReadmission h t now es (prune o (updateIf (·.key = keyOf (failureScope t reason))
      (failed o reason error now a) (ensure (failureScope t reason) es))) ↔
      ¬ Evicts o t reason now es := by
  set fresh := freshEntry (failureScope t reason) with hfresh
  set n := failed o reason error now a fresh with hn
  have hnkey : n.key = keyOf (failureScope t reason) := (failed_eq hr).1
  have hntarget : n.target = failureScope t reason := (failed_eq hr).2.1
  have hnstamp : n.stamp = now := (failed_eq hr).2.2.1
  have hlist : updateIf (·.key = keyOf (failureScope t reason)) (failed o reason error now a)
      (ensure (failureScope t reason) es) = es ++ [n] := by
    rw [ensure_of_new hnew, updateIf, map_append]
    congr 1
    · exact updateIf_of_none fun e he => decide_eq_false (hnew e he)
    · simp [hn, hfresh]
  have hnconcerns : n.concerns t = true := by
    rw [Entry.concerns, hntarget]
    exact appliesTo_failureScope t reason
  have hndup : ((es ++ [n]).map (·.key)).Nodup := by
    rw [map_append, nodup_append]
    refine ⟨hk.nodup, by simp, fun x hx y hy => ?_⟩
    obtain ⟨e, he, rfl⟩ := mem_map.mp hx
    rw [map_singleton, mem_singleton] at hy
    rw [hy, hnkey]
    exact hnew e he
  rw [hlist]
  by_cases hfull : es.length < o.maxEntries
  · -- nothing is pruned
    rw [prune_of_le (by simpa [Nat.succ_le_iff] using hfull)]
    refine iff_of_true ⟨fun ⟨e, he, hc⟩ => ⟨e, mem_append_left _ he, hc⟩,
      fun e he hi => ⟨e, mem_append_left _ he, rfl, hi⟩⟩ ?_
    rintro ⟨-, hlen, -⟩
    omega
  · have hlen : es.length = o.maxEntries := by have := hk.bounded; omega
    rw [prune_full hndup (by simp [hlen])]
    have hmemOld : ∀ e, e ∈ oldest (es ++ [n]) ↔ e ∈ es ++ [n] := fun e => mem_insertionSort _
    cases hfind : (oldest (es ++ [n])).find? (·.state = .closed) with
    | some c =>
      -- a closed record goes, which neither blocks nor is endless
      have hc : c ∈ es ++ [n] := (hmemOld c).mp (mem_of_find?_eq_some hfind)
      have hclosed : c.state = .closed := by simpa using List.find?_some hfind
      simp only
      refine iff_of_true ⟨?_, ?_⟩ ?_
      · rintro ⟨e, he, hce, hb⟩
        refine ⟨e, (mem_delete hndup hc).mpr ⟨mem_append_left _ he, ?_⟩, hce, hb⟩
        rintro rfl
        rw [blocks_of_closed hclosed] at hb
        nomatch hb
      · intro e he hi
        refine ⟨e, (mem_delete hndup hc).mpr ⟨mem_append_left _ he, ?_⟩, rfl, hi⟩
        rintro rfl
        rw [hi.1] at hclosed
        nomatch hclosed
      · rintro ⟨-, -, hopen, hfo, -⟩
        rcases mem_append.mp hc with hc | hc
        · exact hopen c hc hclosed
        · rw [mem_singleton.mp hc] at hclosed
          have hb : n.blocks h now = true := failed_blocks hr h hfo
          rw [blocks_of_closed hclosed] at hb
          nomatch hb
    | none =>
      -- no record is closed, the new one included, so the failure opened it
      have hopen : ∀ e ∈ es ++ [n], e.state ≠ .closed := by
        intro e he
        simpa using List.find?_eq_none.mp hfind e ((hmemOld e).mpr he)
      have hfo : fresh.opens o reason = true := by
        cases ho : fresh.opens o reason with
        | true => rfl
        | false =>
          exact absurd (failed_closed hr ho) (hopen n (mem_append_right _ mem_cons_self))
      have hnb : n.blocks h now = true := failed_blocks hr h hfo
      simp only
      rw [head?_oldest_append]
      cases hhead : (oldest es).head? with
      | none =>
        have hnil : oldest es = [] := List.head?_eq_none_iff.mp hhead
        have hl : (oldest es).length = es.length := length_insertionSort _ es
        have := o.maxEntries_pos
        rw [hnil, length_nil] at hl
        omega
      | some b =>
        have hb : b ∈ es := (mem_insertionSort _).mp (mem_of_mem_head? hhead)
        simp only [hnstamp]
        by_cases hst : b.stamp ≤ now
        · -- the longest untouched record makes place
          rw [if_pos hst]
          simp only
          have hbn : n ≠ b := by
            rintro rfl
            exact hnew n hb hnkey
          constructor
          · rintro ⟨-, hindef⟩ ⟨-, -, -, -, e, he, hi, -⟩
            rw [hhead] at he
            obtain rfl := some.inj he
            obtain ⟨e', he', hk', -⟩ := hindef b hb hi
            obtain ⟨hin, hne⟩ := (mem_delete hndup (mem_append_left _ hb)).mp he'
            exact hne (eq_of_key_eq hndup hin (mem_append_left _ hb) hk')
          · intro hev
            refine ⟨fun _ => ⟨n, (mem_delete hndup (mem_append_left _ hb)).mpr
              ⟨mem_append_right _ mem_cons_self, hbn⟩, hnconcerns, hnb⟩, fun e he hi => ?_⟩
            refine ⟨e, (mem_delete hndup (mem_append_left _ hb)).mpr
              ⟨mem_append_left _ he, ?_⟩, rfl, hi⟩
            rintro rfl
            exact hev ⟨hnew, hlen, fun e he => hopen e (mem_append_left _ he), hfo,
              e, hhead, hi, hst⟩
        · -- the new record itself goes
          rw [if_neg hst]
          simp only
          have hdel : ∀ e ∈ es, e ∈ delete n.key (es ++ [n]) := by
            intro e he
            refine (mem_delete hndup (mem_append_right _ mem_cons_self)).mpr
              ⟨mem_append_left _ he, ?_⟩
            rintro rfl
            exact hnew n he hnkey
          refine iff_of_true ⟨fun ⟨e, he, hc⟩ => ⟨e, hdel e he, hc⟩,
            fun e he hi => ⟨e, hdel e he, rfl, hi⟩⟩ ?_
          rintro ⟨-, -, -, -, e, he, -, hle⟩
          rw [hhead] at he
          obtain rfl := some.inj he
          exact hst hle

end Scope

/-! ## The main result -/

/-- A failure recorded at one instant keeps every block: what was refused before is refused
    after, and a record open without an end still is. -/
def KeepsBlocks (o : Options) (h : Host) (t : Target) (error : Failure) (a : Option Annotations)
    (s : Breaker) : Prop :=
  let s' := (s.recordFailure o h t error { annotations := a }).2
  (s.refuses o h t = true → s'.refuses o h t = true) ∧
    ∀ e ∈ s.entries, e.Indefinite → ∃ e' ∈ s'.entries, e'.key = e.key ∧ e'.Indefinite

/-- Reading the clock neither makes nor ends an endless block. -/
theorem keeps_indefinite_now (o : Options) (raw : Nat) (s : Breaker) (es' : List Entry) :
    (∀ e ∈ s.entries, e.Indefinite → ∃ e' ∈ es', e'.key = e.key ∧ e'.Indefinite) ↔
      ∀ e ∈ (s.now o raw).entries, e.Indefinite → ∃ e' ∈ es', e'.key = e.key ∧ e'.Indefinite := by
  unfold Breaker.now
  split
  · have hshift : ∀ (d : Int) (e : Entry), (shiftEntry d e).Indefinite ↔ e.Indefinite := by
      intro d e
      simp [Entry.Indefinite, shiftEntry]
    simp only [List.mem_map, forall_exists_index, and_imp, forall_apply_eq_imp_iff₂, hshift,
      shiftEntry_key]
  · split <;> rfl

/-- In the state the failure finds, the two ways to say it agree. -/
theorem keepsBlocks_iff {o : Options} {h : Host} {t : Target} {error : Failure}
    {a : Option Annotations} {s : Breaker} (hinstant : h.rawAgain = h.raw) :
    KeepsBlocks o h t error a s ↔
      NoReadmission h t (s.now o h.raw).lastClockMs (s.now o h.raw).entries
        (s.recordFailure o h t error { annotations := a }).2.entries := by
  have hclock : (s.recordFailure o h t error { annotations := a }).2.lastClockMs =
      (s.now o h.raw).lastClockMs := (recordFailure_state hinstant).1
  unfold KeepsBlocks NoReadmission
  simp only [refuses_iff, now_of_clock (s := s) hclock, hclock]
  rw [keeps_indefinite_now o h.raw]

/-- **Exactly when recording a failure re-admits nothing**, for the records any operation can
    find: those of a breaker in memory, or those it reads from its store under the lock. -/
theorem failure_never_readmits_iff (o : Options) (h : Host) (t : Target) (error : Failure)
    (a : Option Annotations) (s : Breaker) (hs : Breaker.Reachable o s)
    (hinstant : h.rawAgain = h.raw) (hretry : (toStoredError error).retryAfterMs = none) :
    KeepsBlocks o h t error a (s.locked o h) ↔ Harmless o h t error (s.locked o h) := by
  set s₀ := s.locked o h
  have hk : Kept o (s₀.now o h.raw).entries := now_kept (hs.kept h) h.raw
  rw [keepsBlocks_iff hinstant, (recordFailure_state hinstant).2]
  unfold Harmless
  cases hc : classifyProviderCircuitFailure error with
  | none =>
    -- the failure is nobody's fault: time passes, nothing else
    refine iff_of_true ⟨?_, ?_⟩ fun reason hr => nomatch hr
    · rintro ⟨e, he, hce, hb⟩
      refine ⟨_, mem_map_of_mem he, ?_⟩
      rw [if_pos hce]
      exact ⟨by rw [Entry.concerns, lapse_target]; exact hce, by rw [blocks_lapse]; exact hb⟩
    · intro e he hi
      refine ⟨e, mem_map.mpr ⟨e, he, ?_⟩, rfl, hi⟩
      split
      · exact lapse_of_indefinite hi
      · rfl
  | some reason =>
    simp only [some.injEq, forall_eq']
    by_cases hmem : ∃ e ∈ (s₀.now o h.raw).entries, e.key = keyOf (failureScope t reason)
    · obtain ⟨e, he, hkey⟩ := hmem
      have hlen : (updateIf (·.key = keyOf (failureScope t reason)) (failed o reason
          (toStoredError error) (s₀.now o h.raw).lastClockMs a) (s₀.now o h.raw).entries).length
          ≤ o.maxEntries := by
        rw [updateIf, length_map]
        exact hk.bounded
      rw [ensure_of_mem he hkey, prune_of_le hlen, noReadmission_of_mem hk hretry he hkey]
      exact ⟨fun ⟨h₁, h₂⟩ => ⟨h₁, h₂, fun hev => hev.1 e he hkey⟩, fun ⟨h₁, h₂, _⟩ => ⟨h₁, h₂⟩⟩
    · push Not at hmem
      rw [noReadmission_of_new hk hretry hmem]
      refine ⟨fun hev => ⟨?_, ?_, hev⟩, fun ⟨_, _, hev⟩ => hev⟩
      · rintro ⟨e, he, hkey, -⟩
        exact hmem e he hkey
      · rintro ⟨e, he, hkey, -⟩
        exact hmem e he hkey

/-! ## The defect at work -/

section Example

/-- A provider named without an account and a model, so that every scope of it is this one. -/
def route : Target := { providerId := "p" }

/-- The options of `new ProviderCircuitBreaker()`. -/
def defaults : Options := normalizeOptions {}

/-- A host at the given time. -/
def hostAt (raw : Nat) : Host where
  pid := 1
  raw := raw
  uuid := "00000000-0000-4000-8000-000000000000"
  uuid_length := by decide

def rejected : Failure := .adapter { code := .auth, message := "no" }
def busy : Failure := .adapter { code := .overloaded, message := "busy" }

/-- After one rejected credential. -/
def blockedRoute : Breaker :=
  (machine defaults).run (Breaker.start defaults (hostAt 1000) none)
    [(hostAt 1000, .recordFailure route rejected {})]

/-- **A late transient failure lifts an endless block**: the route was blocked until a reset, and
    one `overloaded` answer to a request sent before re-admits it. -/
theorem late_failure_readmits : Breaker.Reachable defaults blockedRoute ∧
    blockedRoute.refuses defaults (hostAt 1000) route = true ∧
    (toStoredError busy).retryAfterMs = none ∧
    ¬ KeepsBlocks defaults (hostAt 1000) route busy none (blockedRoute.locked defaults (hostAt 1000)) := by
  refine ⟨⟨hostAt 1000, none, _, rfl⟩, by decide +kernel, rfl, fun hk => ?_⟩
  have hbefore : (blockedRoute.locked defaults (hostAt 1000)).refuses defaults (hostAt 1000) route
      = true := by decide +kernel
  have hafter : ((blockedRoute.locked defaults (hostAt 1000)).recordFailure defaults (hostAt 1000)
      route busy {}).2.refuses defaults (hostAt 1000) route = false := by decide +kernel
  have := hk.1 hbefore
  rw [hafter] at this
  nomatch this

/-- The same block survives another rejected credential. -/
theorem failure_never_readmits_iff_rejected :
    KeepsBlocks defaults (hostAt 1000) route rejected none
        (blockedRoute.locked defaults (hostAt 1000)) ↔
      Harmless defaults (hostAt 1000) route rejected (blockedRoute.locked defaults (hostAt 1000)) :=
  failure_never_readmits_iff defaults (hostAt 1000) route rejected none blockedRoute
    ⟨hostAt 1000, none, _, rfl⟩ rfl rfl

end Example

end NexusCode.Circuit
