/-
  A material correction of the wall clock, and the run it should not disturb.

  When a reading falls behind the last accepted one by more than the tolerated skew, `now` moves
  every stored time by the difference, so that what remains of a cooldown stays what it was.  A
  breaker that has just been corrected is compared with the same breaker left alone: the second
  meets the calls of the first, each `D` later, and should give the same answers, `D` later.

  `shiftEntry` does not move `probeLeaseExpiresAt`.  So the two runs agree as long as no probe is
  under way when the clock is set back (`keepsRemaining_of_leasesOver`), and a probe that is under
  way outlives its lease by the whole correction (`leasesOver_of_keepsRemaining`).

    1. `Moved`   — a record of the corrected breaker and the same record `D` later.
    2. `Delayed` — two breakers with records so related; every operation keeps them so.
    3. **`keepsRemaining_iff`** — when a correction keeps what remains.
    4. **`lease_outlives_correction`** — a breaker that refuses a probe the undisturbed one grants.
-/
import NexusCode.Circuit.Twins
import Mathlib.Data.List.ReduceOption

namespace NexusCode.Circuit

open Lib Lib.Pointwise Shared List Option

/-! ## The same thing later -/

def Annotations.later (D : Nat) (a : Annotations) : Annotations :=
  { a with quotaResetAt := a.quotaResetAt.map (· + D) }

def Status.later (D : Nat) (s : Status) : Status :=
  { s with
    blockedUntil := s.blockedUntil.map (· + D)
    retryAt := s.retryAt.map (· + D)
    openedAt := s.openedAt.map (· + D)
    lastFailureAt := s.lastFailureAt.map (· + D)
    lastSuccessAt := s.lastSuccessAt.map (· + D)
    annotations := s.annotations.map (·.later D) }

/-- What remains (`retryAfterMs`) is not a time. -/
def Decision.later (D : Nat) : Decision → Decision
  | .allowed probe status lease => .allowed probe (status.later D) lease
  | .refused status retryAfterMs => .refused (status.later D) retryAfterMs

def Answer.later (D : Nat) : Answer → Answer
  | .decision d => .decision (d.later D)
  | .status s => .status (s.later D)
  | .count n => .count n
  | .statuses l => .statuses (l.map (·.later D))
  | .typeError => .typeError

/-- A time a caller names; what lies before the epoch is no time of the clock. -/
def laterTime (D : Nat) (time : Int) : Int := if time < 0 then time else time + D

def FailureOptions.later (D : Nat) (options : FailureOptions) : FailureOptions :=
  { options with
    retryAt := options.retryAt.map (laterTime D)
    resetAt := options.resetAt.map (laterTime D)
    annotations := options.annotations.map (·.later D) }

def Call.later (D : Nat) : Call → Call
  | .recordFailure target error options => .recordFailure target error (options.later D)
  | .annotate target annotations => .annotate target (annotations.later D)
  | call => call

def Host.later (D : Nat) (h : Host) : Host := { h with raw := h.raw + D, rawAgain := h.rawAgain + D }

@[simp] theorem later_raw (D : Nat) (h : Host) : (h.later D).raw = h.raw + D := rfl
@[simp] theorem later_rawAgain (D : Nat) (h : Host) : (h.later D).rawAgain = h.rawAgain + D := rfl
@[simp] theorem later_uuid (D : Nat) (h : Host) : (h.later D).uuid = h.uuid := rfl

/-! ## Records -/

/-- A probe lease that has run out, whoever holds it. -/
def Entry.leaseEnded (now : Nat) (e : Entry) : Bool :=
  e.state == .halfOpen && e.probeLeaseId != none && e.probeLeaseExpiresAt.any (· ≤ now)

/-- When the breaker last had to do with the scope: what `prune` orders by. -/
def Entry.touchedAt (e : Entry) : Option Nat := e.lastFailureAt <|> e.lastSuccessAt <|> e.openedAt

/-- `b` is `a`, `D` later: every time but the end of the lease is, and the leases end alike from
    `R` on.  A record without a time counts as touched at 0, so a time of 0 is kept apart. -/
structure Moved (D R : Nat) (a b : Entry) : Prop where
  fields : ∃ expiry, b = { shiftEntry D a with probeLeaseExpiresAt := expiry }
  lease : ∀ now, R ≤ now → b.leaseEnded (now + D) = a.leaseEnded now
  touched : ∀ t, a.touchedAt = some t → 0 < t

section Records

variable {D R now : Nat} {a b c d : Entry}

theorem shiftTime_later (D t : Nat) : shiftTime (D : Int) t = t + D := by
  unfold shiftTime
  omega

theorem shiftTimes_later (D : Nat) (t : Option Nat) : t.map (shiftTime (D : Int)) = t.map (· + D) := by
  cases t with
  | none => rfl
  | some t => exact congrArg some (shiftTime_later D t)

theorem any_later (D : Nat) (t : Option Nat) :
    (t.map (· + D)).any (· ≤ now + D) = t.any (· ≤ now) := by
  cases t with
  | none => rfl
  | some t =>
    show decide (t + D ≤ now + D) = decide (t ≤ now)
    rw [decide_eq_decide]
    omega

theorem Moved.key (h : Moved D R a b) : b.key = a.key := by
  obtain ⟨_, rfl⟩ := h.fields
  rfl

theorem Moved.target (h : Moved D R a b) : b.target = a.target := by
  obtain ⟨_, rfl⟩ := h.fields
  rfl

theorem Moved.state (h : Moved D R a b) : b.state = a.state := by
  obtain ⟨_, rfl⟩ := h.fields
  rfl

theorem Moved.leaseId (h : Moved D R a b) : b.probeLeaseId = a.probeLeaseId := by
  obtain ⟨_, rfl⟩ := h.fields
  rfl

theorem Moved.blockedUntil (h : Moved D R a b) : b.blockedUntil = a.blockedUntil.map (· + D) := by
  obtain ⟨_, rfl⟩ := h.fields
  exact shiftTimes_later D _

theorem touchedAt_later (D : Nat) (a : Entry) :
    (shiftEntry D a).touchedAt = a.touchedAt.map (· + D) := by
  show (a.lastFailureAt.map (shiftTime D) <|> a.lastSuccessAt.map (shiftTime D) <|>
    a.openedAt.map (shiftTime D)) = _
  rw [shiftTimes_later, shiftTimes_later, shiftTimes_later]
  unfold Entry.touchedAt
  cases a.lastFailureAt <;> cases a.lastSuccessAt <;> rfl

theorem Moved.stamp (h : Moved D R a b) : b.stamp = (a.touchedAt.map (· + D)).getD 0 := by
  obtain ⟨_, rfl⟩ := h.fields
  exact congrArg (Option.getD · 0) (touchedAt_later D a)

theorem Moved.stamp_le (hab : Moved D R a b) (hcd : Moved D R c d) :
    a.stamp ≤ c.stamp ↔ b.stamp ≤ d.stamp := by
  have hmove : ∀ {x y : Entry}, Moved D R x y →
      (x.touchedAt = none ∧ x.stamp = 0 ∧ y.stamp = 0) ∨ (0 < x.stamp ∧ y.stamp = x.stamp + D) := by
    intro x y hxy
    rw [hxy.stamp]
    show (_ ∧ x.touchedAt.getD 0 = 0 ∧ _) ∨ (0 < x.touchedAt.getD 0 ∧ _ = x.touchedAt.getD 0 + D)
    cases ht : x.touchedAt with
    | none => exact .inl ⟨rfl, rfl, rfl⟩
    | some t => exact .inr ⟨hxy.touched t ht, rfl⟩
  rcases hmove hab with ⟨-, ha, hb⟩ | ⟨ha, hb⟩ <;> rcases hmove hcd with ⟨-, hc, hd⟩ | ⟨hc, hd⟩ <;>
    omega

/-- A record that carries no lease is moved when its fields are. -/
theorem Moved.of_free (hfields : ∃ expiry, b = { shiftEntry D a with probeLeaseExpiresAt := expiry })
    (hfree : a.probeLeaseId = none) (htouched : ∀ t, a.touchedAt = some t → 0 < t) :
    Moved D R a b := by
  refine ⟨hfields, fun now _ => ?_, htouched⟩
  obtain ⟨_, rfl⟩ := hfields
  simp [Entry.leaseEnded, hfree]

/-! ### What time does to them -/

theorem lapses_eq_leaseEnded (h : Host) (now : Nat) (e : Entry) :
    e.lapses h now = (e.cooldownOver now ||
      (e.state == .halfOpen && e.probeLeaseId != none && !e.ownerAlive h) || e.leaseEnded now) := by
  unfold Entry.lapses Entry.leaseOver Entry.leaseEnded
  cases e.cooldownOver now <;> cases e.state == .halfOpen <;> cases e.probeLeaseId != none <;>
    cases e.ownerAlive h <;> rfl

theorem Moved.lapses (hab : Moved D R a b) (h : Host) (hR : R ≤ now) :
    b.lapses (h.later D) (now + D) = a.lapses h now := by
  have hover : b.cooldownOver (now + D) = a.cooldownOver now := by
    unfold Entry.cooldownOver
    rw [hab.state, hab.blockedUntil, any_later]
  have howner : b.ownerAlive (h.later D) = a.ownerAlive h := by
    obtain ⟨_, rfl⟩ := hab.fields
    rfl
  rw [lapses_eq_leaseEnded, lapses_eq_leaseEnded, hover, howner, hab.state, hab.leaseId,
    hab.lease now hR]

theorem Moved.lapse (hab : Moved D R a b) (h : Host) (hR : R ≤ now) :
    Moved D R (Circuit.lapse h now a) (Circuit.lapse (h.later D) (now + D) b) := by
  rw [lapse_eq, lapse_eq, hab.lapses h hR]
  split
  · refine .of_free ⟨none, ?_⟩ rfl hab.touched
    obtain ⟨_, rfl⟩ := hab.fields
    rfl
  · exact hab

theorem Moved.statusOf (hab : Moved D R a b) : statusOf b = (Circuit.statusOf a).later D := by
  obtain ⟨_, rfl⟩ := hab.fields
  show Circuit.statusOf (shiftEntry D a) = _
  unfold Circuit.statusOf shiftEntry Status.later
  simp only [shiftTimes_later]
  congr 1

/-! ### What the operations do to them -/

theorem Moved.fresh (D R : Nat) (scope : Target) : Moved D R (freshEntry scope) (freshEntry scope) :=
  .of_free ⟨none, rfl⟩ rfl fun _ => nofun

/-- Two leases that end `D` apart, on the same record `D` apart. -/
theorem Moved.reserve (hab : Moved D R a b) (id : String) (pid expiry : Nat) :
    Moved D R
      { a with
        probeLeaseId := some id, probeLeaseExpiresAt := some expiry, probeLeaseOwnerPid := some pid }
      { b with
        probeLeaseId := some id, probeLeaseExpiresAt := some (expiry + D)
        probeLeaseOwnerPid := some pid } := by
  refine ⟨⟨some (expiry + D), ?_⟩, fun n _ => ?_, hab.touched⟩
  · obtain ⟨_, rfl⟩ := hab.fields
    rfl
  · show (b.state == .halfOpen && true && decide (expiry + D ≤ n + D)) =
      (a.state == .halfOpen && true && decide (expiry ≤ n))
    rw [hab.state]
    congr 1
    rw [decide_eq_decide]
    omega

theorem Moved.grant (hab : Moved D R a b) (h : Host) (now : Nat) :
    Moved D R (Circuit.grant h now a) (Circuit.grant (h.later D) (now + D) b) := by
  have hexpiry : now + D + probeLeaseTtlMs = now + probeLeaseTtlMs + D := Nat.add_right_comm ..
  unfold Circuit.grant
  rw [hexpiry]
  exact hab.reserve h.uuid h.pid _

theorem Moved.release (hab : Moved D R a b) (now : Nat) :
    Moved D R (releaseEntry now a) (releaseEntry (now + D) b) := by
  refine .of_free ⟨none, ?_⟩ rfl hab.touched
  obtain ⟨_, rfl⟩ := hab.fields
  unfold releaseEntry shiftEntry Entry.dropLease
  simp only [map_some, shiftTime_later]

theorem Moved.close (hab : Moved D R a b) (hnow : 0 < now) :
    Moved D R (closeEntry now a) (closeEntry (now + D) b) := by
  refine .of_free ⟨none, ?_⟩ rfl fun t ht => ?_
  · obtain ⟨_, rfl⟩ := hab.fields
    unfold closeEntry shiftEntry Entry.dropLease
    simp only [map_some, map_none, shiftTime_later]
  · -- touched by its last failure, or now
    have htouched := hab.touched
    unfold Entry.touchedAt at htouched ht
    change (a.lastFailureAt <|> some now <|> none) = some t at ht
    cases hf : a.lastFailureAt with
    | none =>
      rw [hf] at ht
      obtain rfl := some.inj ht
      exact hnow
    | some t' =>
      rw [hf] at ht htouched
      exact htouched t ht

theorem explicitRetryAt_later (D now : Nat) (error : StoredError) (options : FailureOptions) :
    explicitRetryAt (now + D) error (options.later D) =
      (explicitRetryAt now error options).map (· + D) := by
  have hmax : ∀ t : Int, (max ((now + D : Nat) : Int) (laterTime D t)).toNat =
      (max (now : Int) t).toNat + D := by
    intro t
    unfold laterTime
    split <;> omega
  unfold explicitRetryAt FailureOptions.later
  cases options.retryAt with
  | some t => exact congrArg some (hmax t)
  | none =>
    cases options.resetAt with
    | some t => exact congrArg some (hmax t)
    | none =>
      cases error.retryAfterMs with
      | some ms => exact congrArg some (Nat.add_right_comm now D _)
      | none => rfl

theorem cooldownEnd_later (o : Options) (reason : Reason) (D now openCount : Nat) :
    cooldownEnd o reason (now + D) openCount = (cooldownEnd o reason now openCount).map (· + D) := by
  cases reason with
  | auth => rfl
  | _ => exact congrArg some (Nat.add_right_comm now D _)

theorem Moved.fail (hab : Moved D R a b) (hnow : 0 < now) (o : Options) (reason : Reason)
    (error : StoredError) (options : FailureOptions) (wasProbe : Bool) :
    Moved D R (applyFailure o reason error now options wasProbe a)
      (applyFailure o reason error (now + D) (options.later D) wasProbe b) := by
  have hopen : shouldOpen o reason (explicitRetryAt (now + D) error (options.later D))
      (b.attempts + 1) wasProbe =
      shouldOpen o reason (explicitRetryAt now error options) (a.attempts + 1) wasProbe := by
    obtain ⟨_, rfl⟩ := hab.fields
    unfold shouldOpen
    rw [explicitRetryAt_later, isSome_map]
    rfl
  have hfree : (applyFailure o reason error now options wasProbe a).probeLeaseId = none :=
    applyFailure_leaseId ..
  have htouched : (applyFailure o reason error now options wasProbe a).touchedAt = some now := by
    unfold applyFailure
    dsimp only
    split <;> rfl
  refine .of_free ⟨none, ?_⟩ hfree fun t ht => ?_
  · unfold applyFailure
    dsimp only
    change (if shouldOpen o reason (explicitRetryAt (now + D) error (options.later D))
      (b.attempts + 1) wasProbe = true then _ else _) = _
    change _ = { shiftEntry D (if shouldOpen o reason (explicitRetryAt now error options)
      (a.attempts + 1) wasProbe = true then _ else _) with probeLeaseExpiresAt := none }
    rw [hopen, explicitRetryAt_later, cooldownEnd_later]
    obtain ⟨_, rfl⟩ := hab.fields
    split
    · unfold shiftEntry Entry.dropLease
      simp only [map_some, shiftTime_later, shiftTimes_later]
      congr 1
      cases explicitRetryAt now error options <;> rfl
    · unfold shiftEntry Entry.dropLease
      simp only [map_some, map_none, shiftTime_later]
  · rw [htouched] at ht
    obtain rfl := some.inj ht
    exact hnow

/-- Annotating a record leaves its lease and its history alone. -/
theorem Moved.of_annotated (hab : Moved D R a b) {f g : Entry → Entry}
    (hf : ∀ e, ∃ an, f e = { e with annotations := an })
    (hg : ∀ e, ∃ an, g e = { e with annotations := an })
    (hfg : (g b).annotations = (f a).annotations.map (·.later D)) : Moved D R (f a) (g b) := by
  obtain ⟨an, han⟩ := hf a
  obtain ⟨bn, hbn⟩ := hg b
  rw [han, hbn] at hfg ⊢
  refine ⟨?_, hab.lease, hab.touched⟩
  obtain ⟨expiry, rfl⟩ := hab.fields
  refine ⟨expiry, ?_⟩
  obtain rfl : bn = an.map (·.later D) := hfg
  unfold shiftEntry
  simp only [shiftTimes_later]
  rfl

theorem annotateFailure_annotated (options : FailureOptions) (e : Entry) :
    ∃ an, annotateFailure options e = { e with annotations := an } := by
  unfold annotateFailure
  cases options.annotations <;> cases options.resetAt.filter (0 ≤ ·) <;> exact ⟨_, rfl⟩

theorem resetAt_later (D : Nat) (time : Option Int) :
    (time.map (laterTime D)).filter (0 ≤ ·) = (time.filter (0 ≤ ·)).map (· + (D : Int)) := by
  cases time with
  | none => rfl
  | some t =>
    by_cases ht : 0 ≤ t
    · have hlater : laterTime D t = t + D := if_neg (Int.not_lt.mpr ht)
      have hpos : 0 ≤ t + (D : Int) := by omega
      simp [Option.filter, hlater, ht, hpos]
    · have hlater : laterTime D t = t := if_pos (Int.not_le.mp ht)
      simp [Option.filter, hlater, ht]

theorem Moved.annotateFailure (hab : Moved D R a b) (options : FailureOptions) :
    Moved D R (Circuit.annotateFailure options a) (Circuit.annotateFailure (options.later D) b) := by
  refine hab.of_annotated (annotateFailure_annotated options) (annotateFailure_annotated _) ?_
  have han : b.annotations = a.annotations.map (·.later D) := by
    obtain ⟨_, rfl⟩ := hab.fields
    unfold shiftEntry
    simp only [shiftTimes_later]
    rfl
  unfold Circuit.annotateFailure
  dsimp only [FailureOptions.later]
  rw [resetAt_later]
  cases ht : options.resetAt.filter (0 ≤ ·) with
  | none => cases options.annotations <;> first | rfl | exact han
  | some t =>
    have hnat : (t + (D : Int)).toNat = t.toNat + D := by
      have := (filter_eq_some_iff.mp ht).2
      simp only [decide_eq_true_eq] at this
      omega
    cases options.annotations with
    | some an =>
      show some { an.later D with quotaResetAt := some (t + (D : Int)).toNat } = _
      rw [hnat]
      rfl
    | none =>
      show some { b.annotations.getD {} with quotaResetAt := some (t + (D : Int)).toNat } = _
      rw [han, hnat]
      cases a.annotations <;> rfl

end Records

/-! ## Lists of records -/

section Lists

variable {D R now : Nat} {xs ys : List Entry} {t : Target}

theorem Moved.blockLe {a b c d : Entry} (hab : Moved D R a b) (hcd : Moved D R c d) :
    Circuit.blockLe a c = Circuit.blockLe b d := by
  have hnone : ∀ u : Option Nat, u.map (· + D) = none ↔ u = none := fun u => map_eq_none_iff
  unfold Circuit.blockLe
  rw [hab.state, hcd.state, hab.target, hcd.target, hab.blockedUntil, hcd.blockedUntil]
  cases a.blockedUntil <;> cases c.blockedUntil <;> simp

theorem applicable_moved (h : List.Forall₂ (Moved D R) xs ys) (t : Target) :
    List.Forall₂ (Moved D R) (applicableEntries t xs) (applicableEntries t ys) := by
  refine forall₂_insertionSort (forall₂_filter h fun a b hab => ?_) fun a b c d hab hcd => ?_
  · rw [hab.target]
  · rw [hab.target, hcd.target]

theorem strongestBlock_moved (h : List.Forall₂ (Moved D R) xs ys) :
    Option.Rel (Moved D R) (strongestBlock xs) (strongestBlock ys) := by
  refine head?_rel (forall₂_insertionSort h fun a b c d hab hcd => ?_)
  rw [hab.blockLe hcd]

theorem get_moved (h : List.Forall₂ (Moved D R) xs ys) (key : String) :
    Option.Rel (Moved D R) (get key xs) (get key ys) :=
  find?_rel h (fun a b hab => by rw [hab.key]) fun _ _ hab _ => hab

theorem effectiveStatus_moved (h : List.Forall₂ (Moved D R) xs ys) (t : Target) :
    effectiveStatus t ys = (effectiveStatus t xs).later D := by
  have happ := applicable_moved h t
  have hblock := strongestBlock_moved (forall₂_filter happ (p := fun e => e.state ≠ .closed)
    (q := fun e => e.state ≠ .closed) fun a b hab => by rw [hab.state])
  exact (effectiveStatus_rel (f := (·.later D)) (g := id) happ (fun _ _ hab => hab.target.symm)
    hblock (get_moved h (keyOf t)) (fun _ _ hab => hab.statusOf.symm) rfl).symm

/-- Changing the records that meet a condition moved records share. -/
theorem updateIf_moved (h : List.Forall₂ (Moved D R) xs ys) {p q : Entry → Bool}
    {f g : Entry → Entry} (hpq : ∀ a b, Moved D R a b → p a = q b)
    (hfg : ∀ a b, Moved D R a b → Moved D R (f a) (g b)) :
    List.Forall₂ (Moved D R) (updateIf p f xs) (updateIf q g ys) :=
  forall₂_updateIf h hpq (fun a b hab _ => hfg a b hab) fun _ _ hab _ => hab

theorem heldBy_moved {a b : Entry} (hab : Moved D R a b) (lease : Option Lease) :
    a.heldBy lease = b.heldBy lease := by
  cases lease with
  | none => rfl
  | some l =>
    show (l.keys.contains a.key && a.probeLeaseId == some l.id) = _
    rw [← hab.key, ← hab.leaseId]
    rfl

theorem staleLease_moved (h : List.Forall₂ (Moved D R) xs ys) (lease : Option Lease) :
    staleLease lease xs = staleLease lease ys := by
  cases lease with
  | none => rfl
  | some l =>
    have hcarried : ∀ key, (get key xs).any (·.probeLeaseId = some l.id) =
        (get key ys).any (·.probeLeaseId = some l.id) := by
      intro key
      have hget := get_moved h key
      generalize get key xs = gx at hget
      generalize get key ys = gy at hget
      cases hget with
      | none => rfl
      | some hab =>
        rw [any_some, any_some, hab.leaseId]
    show (!isActiveLease l xs) = !isActiveLease l ys
    unfold isActiveLease
    simp only [hcarried]

theorem failEntries_moved (h : List.Forall₂ (Moved D R) xs ys) (hnow : 0 < now) (o : Options)
    (t : Target) (reason : Reason) (error : StoredError) (options : FailureOptions) :
    List.Forall₂ (Moved D R) (failEntries o now t reason error options xs)
      (failEntries o (now + D) t reason error (options.later D) ys) := by
  have hkeys : (xs.filter (Entry.heldBy options.lease)).map (·.key) =
      (ys.filter (Entry.heldBy options.lease)).map (·.key) :=
    map_eq_map (forall₂_filter h fun a b hab => heldBy_moved hab _) fun a b hab => hab.key.symm
  unfold failEntries
  dsimp only [FailureOptions.later]
  rw [hkeys]
  refine updateIf_moved ?_ (fun a b hab => by rw [hab.key])
    fun a b hab => hab.annotateFailure options
  refine updateIf_moved ?_ (fun a b hab => by rw [hab.key]) fun a b hab => ?_
  · refine forall₂_ensure ?_ _ (fun a b hab => hab.key.symm) (.fresh ..)
    exact updateIf_moved h (fun a b hab => heldBy_moved hab _)
      fun a b hab => hab.fail hnow o reason error options true
  · rw [hab.state]
    exact hab.fail hnow o reason error options _

theorem evict_moved {bound : Nat} {p : Entry → Bool} {lx ly : List Entry}
    (hl : List.Forall₂ (Moved D R) lx ly) (h : List.Forall₂ (Moved D R) xs ys)
    (hp : ∀ a b, Moved D R a b → p a = p b) :
    List.Forall₂ (Moved D R) (evict bound p lx xs) (evict bound p ly ys) := by
  induction hl generalizing xs ys with
  | nil => exact h
  | @cons a b lx ly hab hl ih =>
    unfold evict
    rw [h.length_eq, hp a b hab, hab.key]
    split
    · exact h
    · split
      · exact ih (forall₂_filter h fun c d hcd => by rw [hcd.key])
      · exact ih h

theorem prune_moved (h : List.Forall₂ (Moved D R) xs ys) (o : Options) :
    List.Forall₂ (Moved D R) (prune o xs) (prune o ys) := by
  have hold := forall₂_insertionSort (r := fun a b : Entry => a.stamp ≤ b.stamp)
    (s := fun a b : Entry => a.stamp ≤ b.stamp) h fun a b c d hab hcd => hab.stamp_le hcd
  unfold prune
  dsimp only
  rw [h.length_eq]
  split
  · exact h
  · refine evict_moved hold (evict_moved hold h fun a b hab => ?_) fun _ _ _ => rfl
    rw [hab.state]

end Lists

/-! ## Breakers -/

/-- `t` is `s`, `D` later. -/
structure Delayed (D R : Nat) (s t : Breaker) : Prop where
  records : List.Forall₂ (Moved D R) s.entries t.entries
  clock : t.lastClockMs = s.lastClockMs + D
  from_ : R ≤ s.lastClockMs

/-- The readings of one call, none before `R` and none a material correction. -/
structure Steadily (o : Options) (R : Nat) (s : Breaker) (h : Host) : Prop where
  raw : R ≤ h.raw
  again : R ≤ h.rawAgain
  raw_skew : s.lastClockMs ≤ h.raw + o.maxClockSkewMs
  again_skew : max s.lastClockMs h.raw ≤ h.rawAgain + o.maxClockSkewMs

section Breakers

variable {o : Options} {D R raw : Nat} {s t : Breaker} {h : Host}

theorem persist_inMemory (hfile : o.filePath = none) (h : Host) (s : Breaker) : s.persist o h = s :=
  if_neg fun hf => hf.1 hfile

theorem persistIf_inMemory (hfile : o.filePath = none) (h : Host) (changed : Bool) (s : Breaker) :
    s.persistIf o h changed = s := by
  cases changed with
  | false => rfl
  | true => exact persist_inMemory hfile h s

/-- A reading within the skew moves the clock forward or not at all. -/
theorem now_of_steady (hskew : s.lastClockMs ≤ raw + o.maxClockSkewMs) :
    s.now o raw = { s with lastClockMs := max s.lastClockMs raw } := by
  unfold Breaker.now
  rw [if_neg (Nat.not_lt.mpr hskew)]
  split
  · rw [Nat.max_eq_left (by omega)]
  · rw [Nat.max_eq_right (by omega)]

theorem Delayed.rewrite (hd : Delayed D R s t) {xs ys : List Entry}
    (hrecords : List.Forall₂ (Moved D R) xs ys) :
    Delayed D R { s with entries := xs } { t with entries := ys } :=
  ⟨hrecords, hd.clock, hd.from_⟩

theorem Delayed.now (hd : Delayed D R s t) (hskew : s.lastClockMs ≤ raw + o.maxClockSkewMs) :
    Delayed D R (s.now o raw) (t.now o (raw + D)) := by
  have hclock := hd.clock
  rw [now_of_steady hskew, now_of_steady (by omega)]
  refine ⟨hd.records, ?_, Nat.le_trans hd.from_ (Nat.le_max_left ..)⟩
  show max t.lastClockMs (raw + D) = max s.lastClockMs raw + D
  omega

theorem Delayed.expire (hd : Delayed D R s t) (h : Host) (target : Target) :
    Delayed D R (s.expire h (Entry.concerns target))
      (t.expire (h.later D) (Entry.concerns target)) := by
  refine hd.rewrite (updateIf_moved hd.records (fun a b hab => ?_) fun a b hab => ?_)
  · unfold Entry.concerns
    rw [hab.target]
  · rw [hd.clock]
    exact hab.lapse h hd.from_

/-- **`status`.** -/
theorem Delayed.statusOf (hd : Delayed D R s t) (hfile : o.filePath = none) (h : Host)
    (hskew : s.lastClockMs ≤ raw + o.maxClockSkewMs) (target : Target) :
    (t.statusOf o (h.later D) (raw + D) target).1 = (s.statusOf o h raw target).1.later D ∧
      Delayed D R (s.statusOf o h raw target).2 (t.statusOf o (h.later D) (raw + D) target).2 := by
  have hd' := (hd.now hskew).expire h target
  unfold Breaker.statusOf Breaker.refresh
  simp only [persistIf_inMemory hfile]
  exact ⟨effectiveStatus_moved hd'.records target, hd'⟩

theorem hardBlock_moved {a b : Entry} (hab : Moved D R a b) : a.hardBlock = b.hardBlock := by
  unfold Entry.hardBlock
  rw [hab.state, hab.leaseId]

theorem isProbe_moved {a b : Entry} (hab : Moved D R a b) (target : Target) :
    a.isProbe target = b.isProbe target := by
  unfold Entry.isProbe Entry.concerns
  rw [hab.state, hab.target]

/-- **`tryAcquire`.** -/
theorem Delayed.tryAcquire (hd : Delayed D R s t) (hfile : o.filePath = none)
    (hs : Steadily o R s h) (target : Target) :
    (t.tryAcquire o (h.later D) target).1 = (s.tryAcquire o h target).1.later D ∧
      Delayed D R (s.tryAcquire o h target).2 (t.tryAcquire o (h.later D) target).2 := by
  have hn := hd.now hs.raw_skew
  have he := hn.expire h target
  have hskew : (s.now o h.raw).lastClockMs ≤ h.rawAgain + o.maxClockSkewMs := by
    rw [now_of_steady hs.raw_skew]
    exact hs.again_skew
  have hclock := hn.clock
  unfold Breaker.tryAcquire
  simp only [persistIf_inMemory hfile, persist_inMemory hfile, later_raw, later_rawAgain,
    later_uuid, hclock]
  have hclock' : ((s.now o h.raw).expire h (Entry.concerns target)).lastClockMs =
      (s.now o h.raw).lastClockMs := rfl
  generalize (s.now o h.raw).lastClockMs = now at hskew hclock' ⊢
  generalize (s.now o h.raw).expire h (Entry.concerns target) = x at he hclock' ⊢
  generalize (t.now o (h.raw + D)).expire (h.later D) (Entry.concerns target) = y at he ⊢
  have happ := applicable_moved he.records target
  have hblock := strongestBlock_moved (forall₂_filter happ (p := Entry.hardBlock)
    (q := Entry.hardBlock) fun a b hab => hardBlock_moved hab)
  generalize strongestBlock ((applicableEntries target x.entries).filter _) = blockX at hblock ⊢
  generalize strongestBlock ((applicableEntries target y.entries).filter _) = blockY at hblock ⊢
  cases hblock with
  | @some a b hab =>
    have hwait : b.blockedUntil.map (· - (now + D)) = a.blockedUntil.map (· - now) := by
      rw [hab.blockedUntil]
      cases a.blockedUntil with
      | none => rfl
      | some u => exact congrArg some (Nat.add_sub_add_right u D now)
    refine ⟨?_, he⟩
    show Decision.refused _ (b.blockedUntil.map (· - (now + D))) = _
    rw [hab.statusOf, hwait]
    rfl
  | none =>
    have hprobes := forall₂_filter happ (p := fun e => e.state = .halfOpen)
      (q := fun e => e.state = .halfOpen) fun a b hab => by rw [hab.state]
    dsimp only
    generalize (applicableEntries target x.entries).filter _ = probesX at hprobes ⊢
    generalize (applicableEntries target y.entries).filter _ = probesY at hprobes ⊢
    cases hprobes with
    | nil =>
      obtain ⟨hstatus, hd'⟩ := he.statusOf hfile h (hclock'.trans_le hskew) target
      exact ⟨congrArg (Decision.allowed false · none) hstatus, hd'⟩
    | @cons a b as bs hab habs =>
      have hkeys : (b :: bs).map (·.key) = (a :: as).map (·.key) :=
        (map_eq_map (List.Forall₂.cons hab habs) fun _ _ h => h.key.symm).symm
      refine ⟨?_, he.rewrite (updateIf_moved he.records (fun a b hab => isProbe_moved hab target)
        fun a b hab => hab.grant h now)⟩
      show Decision.allowed true _ (some { id := h.uuid, keys := (b :: bs).map (·.key) }) = _
      rw [(hab.grant h now).statusOf, hkeys]
      rfl

/-- **`recordFailure`.** -/
theorem Delayed.recordFailure (hd : Delayed D R s t) (hfile : o.filePath = none) (hR : 0 < R)
    (hs : Steadily o R s h) (target : Target) (error : Failure) (options : FailureOptions) :
    (t.recordFailure o (h.later D) target error (options.later D)).1 =
        (s.recordFailure o h target error options).1.later D ∧
      Delayed D R (s.recordFailure o h target error options).2
        (t.recordFailure o (h.later D) target error (options.later D)).2 := by
  have hn := hd.now hs.raw_skew
  have hskew : (s.now o h.raw).lastClockMs ≤ h.rawAgain + o.maxClockSkewMs := by
    rw [now_of_steady hs.raw_skew]
    exact hs.again_skew
  have hlease : (options.later D).lease = options.lease := rfl
  unfold Breaker.recordFailure
  simp only [persistIf_inMemory hfile, persist_inMemory hfile, later_raw, later_rawAgain, hlease,
    ← staleLease_moved hn.records]
  generalize s.now o h.raw = x at hn hskew ⊢
  generalize t.now o (h.raw + D) = y at hn ⊢
  obtain ⟨xs, clock, fileX⟩ := x
  obtain ⟨ys, clockY, fileY⟩ := y
  obtain rfl : clockY = clock + D := hn.clock
  have hnow : 0 < clock := Nat.lt_of_lt_of_le hR hn.from_
  split
  · exact hn.statusOf hfile h hskew target
  · cases hreason : classifyProviderCircuitFailure error with
    | none =>
      have hreleased := updateIf_moved hn.records (fun a b hab => heldBy_moved hab options.lease)
        fun a b hab => hab.release clock
      exact (hn.rewrite hreleased).statusOf hfile h hskew target
    | some reason =>
      have hfail := failEntries_moved hn.records hnow o target reason (toStoredError error) options
      refine ⟨?_, hn.rewrite (prune_moved hfail o)⟩
      have hget := get_moved hfail (keyOf (failureScope target reason))
      dsimp only
      generalize get (keyOf (failureScope target reason)) _ = gx at hget ⊢
      generalize get (keyOf (failureScope target reason)) _ = gy at hget ⊢
      cases hget with
      | some hab => exact hab.statusOf
      | none => rfl

theorem closedBy_moved {a b : Entry} (hab : Moved D R a b) (target : Target) (lease : Option Lease) :
    a.closedBy target lease = b.closedBy target lease := by
  unfold Entry.closedBy Entry.concerns
  rw [hab.target, hab.leaseId]

/-- **`recordSuccess`.** -/
theorem Delayed.recordSuccess (hd : Delayed D R s t) (hfile : o.filePath = none) (hR : 0 < R)
    (hs : Steadily o R s h) (target : Target) (lease : Option Lease) :
    (t.recordSuccess o (h.later D) target lease).1 =
        (s.recordSuccess o h target lease).1.later D ∧
      Delayed D R (s.recordSuccess o h target lease).2
        (t.recordSuccess o (h.later D) target lease).2 := by
  have hn := hd.now hs.raw_skew
  have hskew : (s.now o h.raw).lastClockMs ≤ h.rawAgain + o.maxClockSkewMs := by
    rw [now_of_steady hs.raw_skew]
    exact hs.again_skew
  unfold Breaker.recordSuccess
  simp only [persistIf_inMemory hfile, later_raw, later_rawAgain, ← staleLease_moved hn.records]
  generalize s.now o h.raw = x at hn hskew ⊢
  generalize t.now o (h.raw + D) = y at hn ⊢
  obtain ⟨xs, clock, fileX⟩ := x
  obtain ⟨ys, clockY, fileY⟩ := y
  obtain rfl : clockY = clock + D := hn.clock
  have hnow : 0 < clock := Nat.lt_of_lt_of_le hR hn.from_
  split
  · exact hn.statusOf hfile h hskew target
  · have hclosed := updateIf_moved hn.records (fun a b hab => closedBy_moved hab target lease)
      fun a b hab => hab.close hnow
    exact (hn.rewrite hclosed).statusOf hfile h hskew target

/-- **`reset`.** -/
theorem Delayed.reset (hd : Delayed D R s t) (hfile : o.filePath = none) (h : Host)
    (scope : Option Target) :
    (t.reset o (h.later D) scope).1 = (s.reset o h scope).1 ∧
      Delayed D R (s.reset o h scope).2 (t.reset o (h.later D) scope).2 := by
  have hcov : ∀ a b, Moved D R a b → a.coveredBy scope = b.coveredBy scope := by
    intro a b hab
    unfold Entry.coveredBy
    rw [hab.target]
  unfold Breaker.reset
  simp only [persistIf_inMemory hfile]
  refine ⟨(forall₂_filter hd.records hcov).length_eq.symm, hd.rewrite ?_⟩
  exact forall₂_filter hd.records fun a b hab => by rw [hcov a b hab]

/-- **`annotate`.** -/
theorem Delayed.annotate (hd : Delayed D R s t) (hfile : o.filePath = none) (h : Host)
    (target : Target) (annotations : Annotations) :
    (t.annotate o (h.later D) target (annotations.later D)).1 =
        (s.annotate o h target annotations).1.later D ∧
      Delayed D R (s.annotate o h target annotations).2
        (t.annotate o (h.later D) target (annotations.later D)).2 := by
  have hensured := forall₂_ensure hd.records target (fun a b hab => hab.key.symm) (.fresh ..)
  have hnoted := updateIf_moved hensured (p := (·.key = keyOf target)) (q := (·.key = keyOf target))
    (f := fun e => { e with annotations := some annotations })
    (g := fun e => { e with annotations := some (annotations.later D) })
    (fun a b hab => by rw [hab.key])
    fun a b hab => hab.of_annotated (fun _ => ⟨_, rfl⟩) (fun _ => ⟨_, rfl⟩) rfl
  unfold Breaker.annotate
  simp only [persist_inMemory hfile]
  refine ⟨?_, hd.rewrite (prune_moved hnoted o)⟩
  have hget := get_moved hnoted (keyOf target)
  generalize get (keyOf target) _ = gx at hget ⊢
  generalize get (keyOf target) _ = gy at hget ⊢
  cases hget with
  | some hab => exact hab.statusOf
  | none => rfl

/-- **`listStatuses`.** -/
theorem Delayed.listStatuses (hd : Delayed D R s t) (hfile : o.filePath = none)
    (hs : Steadily o R s h) (includeClosed : Bool) :
    (t.listStatuses o (h.later D) includeClosed).1 =
        (s.listStatuses o h includeClosed).1.map (·.later D) ∧
      Delayed D R (s.listStatuses o h includeClosed).2
        (t.listStatuses o (h.later D) includeClosed).2 := by
  have hn := hd.now hs.raw_skew
  have hall := updateIf_moved hn.records (p := fun _ => true) (q := fun _ => true)
    (fun _ _ _ => rfl) fun a b hab => hab.lapse h hn.from_
  rw [← hn.clock] at hall
  unfold Breaker.listStatuses Breaker.refresh
  simp only [persistIf_inMemory hfile, later_raw]
  refine ⟨?_, hn.rewrite hall⟩
  have hshown := forall₂_filter hall (p := fun e => includeClosed || e.state != .closed)
    (q := fun e => includeClosed || e.state != .closed) fun a b hab => by rw [hab.state]
  have hsorted := forall₂_insertionSort (r := fun a b : Entry => h.localeLe a.key b.key)
    (s := fun a b : Entry => h.localeLe a.key b.key) hshown fun a b c d hab hcd => by
      rw [hab.key, hcd.key]
  show List.map Circuit.statusOf _ = List.map _ (List.map Circuit.statusOf _)
  rw [List.map_map]
  exact (map_eq_map hsorted fun a b hab => hab.statusOf.symm).symm

/-- **Every operation** answers later what it answered before, and keeps the records so. -/
theorem Delayed.perform (hd : Delayed D R s t) (hfile : o.filePath = none) (hR : 0 < R)
    (hs : Steadily o R s h) (call : Call) :
    (t.perform o (h.later D) (call.later D)).1 = (s.perform o h call).1.later D ∧
      Delayed D R (s.perform o h call).2 (t.perform o (h.later D) (call.later D)).2 := by
  have hlocked : ∀ (h : Host) (s : Breaker), s.locked o h = s := fun h s => if_pos hfile
  unfold Breaker.perform
  simp only [hlocked]
  cases call with
  | tryAcquire input =>
    dsimp only [Call.later]
    cases normalizeTarget input with
    | none => exact ⟨rfl, hd⟩
    | some target =>
      obtain ⟨ha, hd'⟩ := hd.tryAcquire hfile hs target
      exact ⟨congrArg Answer.decision ha, hd'⟩
  | recordFailure input error options =>
    dsimp only [Call.later]
    cases normalizeTarget input with
    | none => exact ⟨rfl, hd⟩
    | some target =>
      obtain ⟨ha, hd'⟩ := hd.recordFailure hfile hR hs target error options
      exact ⟨congrArg Answer.status ha, hd'⟩
  | recordSuccess input lease =>
    dsimp only [Call.later]
    cases normalizeTarget input with
    | none => exact ⟨rfl, hd⟩
    | some target =>
      obtain ⟨ha, hd'⟩ := hd.recordSuccess hfile hR hs target lease
      exact ⟨congrArg Answer.status ha, hd'⟩
  | status input =>
    dsimp only [Call.later]
    cases normalizeTarget input with
    | none => exact ⟨rfl, hd⟩
    | some target =>
      obtain ⟨ha, hd'⟩ := hd.statusOf hfile h hs.raw_skew target
      exact ⟨congrArg Answer.status ha, hd'⟩
  | reset input =>
    cases input with
    | none =>
      obtain ⟨ha, hd'⟩ := hd.reset hfile h none
      exact ⟨congrArg Answer.count ha, hd'⟩
    | some input =>
      dsimp only [Call.later]
      cases normalizeTarget input with
      | none => exact ⟨rfl, hd⟩
      | some target =>
        obtain ⟨ha, hd'⟩ := hd.reset hfile h (some target)
        exact ⟨congrArg Answer.count ha, hd'⟩
  | annotate input annotations =>
    dsimp only [Call.later]
    cases normalizeTarget input with
    | none => exact ⟨rfl, hd⟩
    | some target =>
      obtain ⟨ha, hd'⟩ := hd.annotate hfile h target annotations
      exact ⟨congrArg Answer.status ha, hd'⟩
  | listStatuses includeClosed =>
    obtain ⟨ha, hd'⟩ := hd.listStatuses hfile hs includeClosed
    exact ⟨congrArg Answer.statuses ha, hd'⟩

end Breakers

/-- **A whole run**, `D` later. -/
theorem Delayed.answers {o : Options} {D R : Nat} {s t : Breaker} (hd : Delayed D R s t)
    (hfile : o.filePath = none) (hR : 0 < R) {calls : List (Host × Call)}
    (hcalls : (machine o).Always (fun s a => Steadily o R s a.1) s calls) :
    (machine o).answers t (calls.map fun a => (a.1.later D, a.2.later D)) =
      ((machine o).answers s calls).map (·.later D) := by
  induction calls generalizing s t with
  | nil => rfl
  | cons a calls ih =>
    obtain ⟨hfirst, hrest⟩ := hcalls
    obtain ⟨hanswer, hd'⟩ := hd.perform hfile hR hfirst a.2
    exact congr (congrArg List.cons hanswer) (ih hd' hrest)

/-! ## The correction -/

/-- Whatever is called after the reading `R`, as long as no reading shows another correction, is
    answered as without the correction, when every call comes later by what the clock lost. -/
def KeepsRemaining (o : Options) (s : Breaker) (R : Nat) : Prop :=
  let D := s.lastClockMs - R
  ∀ calls : List (Host × Call),
    (machine o).Always (fun s a => Steadily o R s a.1) (s.now o R) calls →
      (machine o).answers s (calls.map fun a => (a.1.later D, a.2.later D)) =
        ((machine o).answers (s.now o R) calls).map (·.later D)

/-- No probe is under way at `R`. -/
def LeasesOver (R : Nat) (es : List Entry) : Prop :=
  ∀ e ∈ es, e.state = .halfOpen → e.probeLeaseId ≠ none →
    ∀ expiry, e.probeLeaseExpiresAt = some expiry → expiry ≤ R

/-- The times a correction moves. -/
def Entry.times (e : Entry) : List Nat :=
  [e.blockedUntil, e.openedAt, e.lastFailureAt, e.lastSuccessAt,
    e.annotations.bind (·.quotaResetAt)].reduceOption

/-- The correction takes the clock, and what `prune` orders by, to a time after the epoch. -/
def StaysPositive (s : Breaker) (R : Nat) : Prop :=
  0 < R ∧ ∀ e ∈ s.entries, ∀ t, e.touchedAt = some t → s.lastClockMs - R < t

section Correction

variable {o : Options} {s : Breaker} {R : Nat}

theorem now_of_jump (hjump : R + o.maxClockSkewMs < s.lastClockMs) :
    s.now o R = { s with
      entries := s.entries.map (shiftEntry ((R : Int) - s.lastClockMs)), lastClockMs := R } :=
  if_pos hjump

/-- Setting a time back and forth again, when it does not fall below zero. -/
theorem shiftTime_back {D t : Nat} (h : D ≤ t) : shiftTime D (shiftTime (-D) t) = t := by
  unfold shiftTime
  omega

theorem shiftTimes_back {D : Nat} {t : Option Nat} (h : ∀ u, t = some u → D ≤ u) :
    (t.map (shiftTime (-D))).map (shiftTime D) = t := by
  cases t with
  | none => rfl
  | some u => exact congrArg some (shiftTime_back (h u rfl))

theorem shiftEntry_back {D : Nat} {e : Entry} (h : ∀ t ∈ e.times, D ≤ t) :
    shiftEntry D (shiftEntry (-D) e) = e := by
  have hmem : ∀ {f : Option Nat}, f ∈ [e.blockedUntil, e.openedAt, e.lastFailureAt,
      e.lastSuccessAt, e.annotations.bind (·.quotaResetAt)] → ∀ u, f = some u → D ≤ u := by
    rintro f hf u rfl
    exact h u (reduceOption_mem_iff.mpr hf)
  unfold shiftEntry
  dsimp only
  rw [shiftTimes_back (hmem (by simp)), shiftTimes_back (hmem (by simp)),
    shiftTimes_back (hmem (by simp)), shiftTimes_back (hmem (by simp))]
  cases han : e.annotations with
  | none => rw [map_none, map_none, ← han]
  | some an =>
    rw [map_some, map_some]
    dsimp only
    have hreset : e.annotations.bind (·.quotaResetAt) = an.quotaResetAt := by
      rw [han]
      rfl
    rw [shiftTimes_back (hreset ▸ hmem (by simp)), ← han]

/-- **A corrected breaker** is the breaker, set back, when no probe is under way. -/
theorem delayed_of_jump (hjump : R + o.maxClockSkewMs < s.lastClockMs)
    (htimes : ∀ e ∈ s.entries, ∀ t ∈ e.times, s.lastClockMs - R ≤ t) (hpos : StaysPositive s R)
    (hover : LeasesOver R s.entries) : Delayed (s.lastClockMs - R) R (s.now o R) s := by
  obtain ⟨D, hD⟩ : ∃ D, s.lastClockMs = R + D := ⟨s.lastClockMs - R, by omega⟩
  have hdelta : (R : Int) - s.lastClockMs = -(D : Int) := by omega
  have hback : s.lastClockMs - R = D := by omega
  have htouched := hpos.2
  rw [hback] at htimes htouched ⊢
  rw [now_of_jump hjump, hdelta]
  refine ⟨?_, hD, Nat.le_refl R⟩
  rw [forall₂_map_left_iff]
  refine forall₂_same.mpr fun e he => ⟨⟨e.probeLeaseExpiresAt, ?_⟩, fun now hnow => ?_, ?_⟩
  · rw [shiftEntry_back (htimes e he)]
  · -- a lease that is over is over on both sides
    show (e.state == .halfOpen && e.probeLeaseId != none && e.probeLeaseExpiresAt.any (· ≤ now + D)) =
      (e.state == .halfOpen && e.probeLeaseId != none && e.probeLeaseExpiresAt.any (· ≤ now))
    by_cases hprobe : e.state = .halfOpen ∧ e.probeLeaseId ≠ none
    · congr 1
      cases hexpiry : e.probeLeaseExpiresAt with
      | none => rfl
      | some expiry =>
        have hle := hover e he hprobe.1 hprobe.2 expiry hexpiry
        show decide (expiry ≤ now + D) = decide (expiry ≤ now)
        rw [decide_eq_decide]
        omega
    · have hfree : (e.state == .halfOpen && e.probeLeaseId != none) = false := by
        simpa [Bool.and_eq_false_iff] using hprobe
      rw [hfree, Bool.false_and, Bool.false_and]
  · intro t ht
    have hshift : (shiftEntry (-(D : Int)) e).touchedAt = e.touchedAt.map (shiftTime (-D)) := by
      show (e.lastFailureAt.map _ <|> e.lastSuccessAt.map _ <|> e.openedAt.map _) = _
      unfold Entry.touchedAt
      cases e.lastFailureAt <;> cases e.lastSuccessAt <;> rfl
    rw [hshift] at ht
    obtain ⟨u, hu, rfl⟩ := map_eq_some_iff.mp ht
    have hlt := htouched e he u hu
    unfold shiftTime
    omega

theorem keepsRemaining_of_leasesOver (hfile : o.filePath = none)
    (hjump : R + o.maxClockSkewMs < s.lastClockMs)
    (htimes : ∀ e ∈ s.entries, ∀ t ∈ e.times, s.lastClockMs - R ≤ t) (hpos : StaysPositive s R)
    (hover : LeasesOver R s.entries) : KeepsRemaining o s R := by
  intro calls hcalls
  exact (delayed_of_jump hjump htimes hpos hover).answers hfile hpos.1 hcalls

/-! ### A probe under way -/

/-- Counting by a stronger test counts less, when some element meets the weaker one only. -/
theorem countP_lt {p q : Entry → Bool} {es : List Entry} (h : ∀ e ∈ es, p e = true → q e = true)
    {e : Entry} (he : e ∈ es) (hp : p e = false) (hq : q e = true) : es.countP p < es.countP q := by
  induction es with
  | nil => nomatch he
  | cons x es ih =>
    have htail := countP_mono_left fun y hy => h y (mem_cons_of_mem x hy)
    rw [countP_cons, countP_cons]
    rcases mem_cons.mp he with rfl | he
    · rw [hp, hq]
      exact Nat.lt_succ_of_le htail
    · have hx := h x mem_cons_self
      have := ih (fun y hy => h y (mem_cons_of_mem x hy)) he
      cases hpx : p x with
      | false => cases q x <;> simp <;> omega
      | true =>
        rw [hx hpx]
        simpa using this

/-- A probe is reported to be under way. -/
def Status.isProbing (s : Status) : Bool := s.availability == .probing

/-- How many probes `listStatuses` reports. -/
def probing : Answer → Nat
  | .statuses l => l.countP Status.isProbing
  | _ => 0

theorem probing_later (D : Nat) (a : Answer) : probing (a.later D) = probing a := by
  cases a with
  | statuses l =>
    show (l.map (·.later D)).countP _ = _
    rw [countP_map]
    rfl
  | _ => rfl

/-- A record whose probe is still under way at `now`. -/
def Entry.probes (h : Host) (now : Nat) (e : Entry) : Bool :=
  (Circuit.statusOf (lapse h now e)).isProbing

theorem probes_iff {h : Host} (halive : h.AllAlive) (now : Nat) (e : Entry) :
    e.probes h now = true ↔
      e.state = .halfOpen ∧ e.probeLeaseId ≠ none ∧ e.probeLeaseExpiresAt.any (· ≤ now) = false := by
  have hfree : ∀ e : Entry, (Circuit.statusOf e).isProbing = true ↔
      e.state = .halfOpen ∧ e.probeLeaseId ≠ none := by
    intro e
    unfold Status.isProbing Circuit.statusOf
    cases e.state with
    | halfOpen => by_cases hid : e.probeLeaseId = none <;> simp [hid]
    | _ => simp
  unfold Entry.probes
  rw [hfree, lapse_eq, lapses_eq_over halive]
  cases hover : e.over now with
  | true =>
    rw [if_pos rfl]
    refine ⟨fun h => absurd rfl h.2, ?_⟩
    rintro ⟨hs, hid, hend⟩
    simp [Entry.over, Entry.cooldownOver, hs, hend] at hover
  | false =>
    rw [if_neg Bool.false_ne_true]
    refine ⟨fun h => ⟨h.1, h.2, ?_⟩, fun h => ⟨h.1, h.2.1⟩⟩
    simpa [Entry.over, Entry.cooldownOver, h.1, h.2] using hover

theorem probing_listStatuses (hfile : o.filePath = none) {h : Host}
    (hskew : s.lastClockMs ≤ h.raw + o.maxClockSkewMs) :
    probing (s.perform o h (.listStatuses true)).1 =
      s.entries.countP (Entry.probes h (max s.lastClockMs h.raw)) := by
  have hlocked : s.locked o h = s := if_pos hfile
  unfold Breaker.perform Breaker.listStatuses Breaker.refresh
  simp only [hlocked, persistIf_inMemory hfile, now_of_steady hskew]
  unfold probing Breaker.expire updateIf
  dsimp only
  rw [countP_map, (perm_insertionSort _ _).countP_eq, countP_filter, countP_map]
  refine countP_congr fun e _ => ?_
  simp [Entry.probes]

theorem leasesOver_of_keepsRemaining (hfile : o.filePath = none)
    (hjump : R + o.maxClockSkewMs < s.lastClockMs) (hkeeps : KeepsRemaining o s R) :
    LeasesOver R s.entries := by
  intro e he hs hid expiry hexpiry
  by_contra hlate
  obtain ⟨D, hD⟩ : ∃ D, s.lastClockMs = R + D := ⟨s.lastClockMs - R, by omega⟩
  have hback : s.lastClockMs - R = D := by omega
  -- the moment the lease ends without the correction
  let wait := expiry - s.lastClockMs
  let h : Host := { hostAt (R + wait) with alive := fun _ => true }
  have halive : h.AllAlive := fun _ => rfl
  have hsteady : Steadily o R (s.now o R) h := by
    rw [now_of_jump hjump]
    exact ⟨Nat.le_add_right .., Nat.le_add_right ..,
      Nat.le_trans (Nat.le_add_right ..) (Nat.le_add_right ..),
      Nat.le_trans (Nat.max_le.mpr ⟨Nat.le_add_right .., Nat.le_refl _⟩) (Nat.le_add_right ..)⟩
  have hanswers := hkeeps [(h, .listStatuses true)] ⟨hsteady, trivial⟩
  rw [hback] at hanswers
  have hcount := congrArg probing (cons.inj hanswers).1
  rw [probing_later] at hcount
  change probing (s.perform o (h.later D) (.listStatuses true)).1 =
    probing ((s.now o R).perform o h (.listStatuses true)).1 at hcount
  have hraw : (h.later D).raw = s.lastClockMs + wait := by
    show R + wait + D = _
    omega
  rw [probing_listStatuses hfile (by rw [hraw]; omega),
    probing_listStatuses hfile hsteady.raw_skew, hraw, Nat.max_eq_right (by omega),
    now_of_jump hjump] at hcount
  change _ = (s.entries.map _).countP (Entry.probes h (max R (R + wait))) at hcount
  rw [Nat.max_eq_right (Nat.le_add_right ..), countP_map] at hcount
  refine absurd hcount (Nat.ne_of_lt (countP_lt (fun x _ hx => ?_) he ?_ ?_))
  · -- who probes without the correction does so with it
    obtain ⟨hxs, hxid, hxend⟩ := (probes_iff (h := h.later D) halive _ x).mp hx
    refine (probes_iff halive _ _).mpr ⟨hxs, hxid, ?_⟩
    show x.probeLeaseExpiresAt.any (· ≤ R + wait) = false
    cases hx : x.probeLeaseExpiresAt with
    | none => rfl
    | some u =>
      rw [hx] at hxend
      have hu := of_decide_eq_false hxend
      exact decide_eq_false (by omega)
  · rw [← Bool.not_eq_true, probes_iff (h := h.later D) halive, hexpiry]
    rintro ⟨-, -, hend⟩
    have hu := of_decide_eq_false hend
    omega
  · refine (probes_iff halive _ _).mpr ⟨hs, hid, ?_⟩
    show e.probeLeaseExpiresAt.any (· ≤ R + wait) = false
    rw [hexpiry]
    exact decide_eq_false (by omega)

end Correction

/-! ## When a correction keeps what remains -/

/-- **What a clock correction keeps.**  For a breaker in memory, in any state, and a reading that
    shows a material correction and takes no stored time below zero: it keeps what remains if no
    probe is under way (and no time comes to lie at the epoch itself), and only if no probe is. -/
theorem keepsRemaining_iff (o : Options) (hfile : o.filePath = none) (s : Breaker) (R : Nat)
    (hjump : R + o.maxClockSkewMs < s.lastClockMs)
    (htimes : ∀ e ∈ s.entries, ∀ t ∈ e.times, s.lastClockMs - R ≤ t) :
    (LeasesOver R s.entries ∧ StaysPositive s R → KeepsRemaining o s R) ∧
      (KeepsRemaining o s R → LeasesOver R s.entries) :=
  ⟨fun ⟨hover, hpos⟩ => keepsRemaining_of_leasesOver hfile hjump htimes hpos hover,
    leasesOver_of_keepsRemaining hfile hjump⟩

/-- A route that failed. -/
def failedRoute : Breaker :=
  (machine defaults).run (Breaker.start defaults (hostAt 100000) none)
    [(hostAt 100000, .recordFailure route busy { retryAt := some 100100 })]

/-- The theorem on that route, set back by 50 seconds. -/
theorem keepsRemaining_failedRoute : KeepsRemaining defaults failedRoute 50000 := by
  refine (keepsRemaining_iff defaults rfl failedRoute 50000 (by decide +kernel)
    (by decide +kernel)).1 ⟨fun e he hs => ?_, by decide, fun e he t ht => ?_⟩
  · have hopen : ∀ e ∈ failedRoute.entries, e.state ≠ .halfOpen := by decide +kernel
    exact absurd hs (hopen e he)
  · have hlate : ∀ e ∈ failedRoute.entries, e.touchedAt.all (50000 < ·) = true := by decide +kernel
    have hclock : failedRoute.lastClockMs - 50000 = 50000 := by decide +kernel
    have := hlate e he
    rw [ht] at this
    rw [hclock]
    exact of_decide_eq_true this

/-- The route is being probed. -/
def probedRoute : Breaker :=
  (machine defaults).run failedRoute [(hostAt 100200, .tryAcquire route)]

/-- **A probe outlives its lease.**  Set back by 50 seconds, a breaker still refuses its route when
    the two hours of the probe are over, where the breaker left alone grants the next probe. -/
theorem lease_outlives_correction :
    (machine defaults).Reachable (Breaker.start defaults (hostAt 100000) none) probedRoute ∧
      50200 + defaults.maxClockSkewMs < probedRoute.lastClockMs ∧
      (∀ e ∈ probedRoute.entries, ∀ t ∈ e.times, probedRoute.lastClockMs - 50200 ≤ t) ∧
      ¬ KeepsRemaining defaults probedRoute 50200 := by
  refine ⟨⟨[(hostAt 100000, .recordFailure route busy { retryAt := some 100100 }),
    (hostAt 100200, .tryAcquire route)], rfl⟩, by decide +kernel, by decide +kernel,
    fun hkeeps => ?_⟩
  have hsteady : Steadily defaults 50200 (probedRoute.now defaults 50200) (hostAt 7250200) :=
    ⟨by decide, by decide, by decide +kernel, by decide +kernel⟩
  have hanswers := hkeeps [(hostAt 7250200, .tryAcquire route)] ⟨hsteady, trivial⟩
  revert hanswers
  decide +kernel

end NexusCode.Circuit
