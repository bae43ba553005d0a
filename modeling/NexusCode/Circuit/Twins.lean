/-
  Two breakers that differ in how far time has acted on their records.

  A breaker that reads its records from a file lets time act on all of them when it loads, and
  writes them back only when an operation changed something; a breaker in memory lets time act on
  the records of one request at a time.  So the two lists differ, record by record, by lapses that
  one side has seen and the other has not (`Twin`).  What the file does not keep faithfully (the
  texts of errors and annotations, a process id of 0) is left out of the comparison (`core`).

  The file shows that nothing else can be observed: once both sides have let time act up to the
  same moment the records agree (`Twin.lapse`), and before that they agree on everything but the
  state and the lease (`Twin.frame`).  The operations are then followed pair by pair.
-/
import NexusCode.Circuit.ProbeExclusion
import NexusCode.Lib.Pointwise

namespace NexusCode.Circuit

open Lib Lib.Pointwise Shared List Bool

/-! ## Cores -/

/-- The part of a record that decides what the breaker does. -/
def Entry.core (e : Entry) : Entry :=
  { e with lastError := none, annotations := none, probeLeaseOwnerPid := none }

/-- The part of a status that comes from the core of its record. -/
def Status.core (s : Status) : Status := { s with lastError := none, annotations := none }

@[simp] theorem core_core (e : Entry) : e.core.core = e.core := rfl
@[simp] theorem core_key (e : Entry) : e.core.key = e.key := rfl
@[simp] theorem core_target (e : Entry) : e.core.target = e.target := rfl
@[simp] theorem core_state (e : Entry) : e.core.state = e.state := rfl
@[simp] theorem core_leaseId (e : Entry) : e.core.probeLeaseId = e.probeLeaseId := rfl
@[simp] theorem core_halfOpened (e : Entry) : e.halfOpened.core = e.core.halfOpened := rfl

theorem statusOf_core {a b : Entry} (h : a.core = b.core) :
    (statusOf a).core = (statusOf b).core := by
  have hs : ∀ e : Entry, (statusOf e).core = (statusOf e.core).core := fun _ => rfl
  rw [hs a, h, ← hs b]

/-! ## Lapses, for owners that live -/

/-- Time changes the record at `now` even when its owner lives. -/
def Entry.over (now : Nat) (e : Entry) : Bool :=
  e.cooldownOver now ||
    (e.state == .halfOpen && e.probeLeaseId != none && e.probeLeaseExpiresAt.any (· ≤ now))

/-- Every process that holds a probe is still there. -/
def Host.AllAlive (h : Host) : Prop := ∀ pid, h.alive pid = true

theorem lapses_eq_over {h : Host} (halive : h.AllAlive) (now : Nat) (e : Entry) :
    e.lapses h now = e.over now := by
  have howner : e.ownerAlive h = true := by
    unfold Entry.ownerAlive
    split
    · rfl
    · rename_i pid _
      simp [halive pid]
  simp [Entry.lapses, Entry.leaseOver, Entry.over, howner]

theorem over_core (now : Nat) (e : Entry) : e.core.over now = e.over now := rfl

@[simp] theorem over_halfOpened (now : Nat) (e : Entry) : e.halfOpened.over now = false := by
  simp [Entry.over, Entry.cooldownOver]

theorem over_mono {now now' : Nat} (hle : now ≤ now') {e : Entry} (h : e.over now = true) :
    e.over now' = true := by
  have hany : ∀ t : Option Nat, t.any (· ≤ now) = true → t.any (· ≤ now') = true := by
    intro t ht
    cases t with
    | none => exact ht
    | some t =>
      simp only [Option.any_some, decide_eq_true_eq] at ht ⊢
      omega
  simp only [Entry.over, Entry.cooldownOver, or_eq_true, and_eq_true] at h ⊢
  exact h.imp (And.imp_right (hany _)) (And.imp_right (hany _))

/-! ## Twins -/

/-- Up to lapses by the time `time`, the two records are the same. -/
inductive Twin (time : Nat) (a b : Entry) : Prop where
  | same (h : a.core = b.core)
  | ahead (h : b.over time = true) (hc : a.core = b.core.halfOpened)
  | behind (h : a.over time = true) (hc : a.core.halfOpened = b.core)

section Twin

variable {time now : Nat} {a b : Entry}

theorem Twin.refl (time : Nat) (e : Entry) : Twin time e e := .same rfl

theorem Twin.mono (h : Twin time a b) (hle : time ≤ now) : Twin now a b := by
  cases h with
  | same h => exact .same h
  | ahead h hc => exact .ahead (over_mono hle h) hc
  | behind h hc => exact .behind (over_mono hle h) hc

theorem Twin.lapse_left (h : Twin time a b) {h' : Host} (halive : h'.AllAlive) (hle : now ≤ time) :
    Twin time (lapse h' now a) b := by
  rw [lapse_eq, lapses_eq_over halive]
  split
  · rename_i hover
    have hover' := over_mono hle hover
    cases h with
    | same h => exact .ahead (by rw [← over_core, ← h, over_core]; exact hover') (by simp [h])
    | ahead h hc =>
      rw [← over_core, hc, over_halfOpened] at hover'
      nomatch hover'
    | behind h hc => exact .same hc
  · exact h

theorem Twin.symm (h : Twin time a b) : Twin time b a := by
  cases h with
  | same h => exact .same h.symm
  | ahead h hc => exact .behind h hc.symm
  | behind h hc => exact .ahead h hc.symm

/-- **Time levels the difference**: letting it act up to one moment makes twins equal. -/
theorem Twin.lapse (h : Twin time a b) {h' : Host} (halive : h'.AllAlive) (hle : time ≤ now) :
    (lapse h' now a).core = (Circuit.lapse h' now b).core := by
  simp only [lapse_eq, lapses_eq_over halive]
  cases h with
  | same h =>
    have hover : a.over now = b.over now := by rw [← over_core, h, over_core]
    rw [hover]
    split
    · simp [h]
    · exact h
  | ahead h hc =>
    have ha : a.over now = false := by rw [← over_core, hc, over_halfOpened]
    rw [ha, over_mono hle h]
    simpa using hc
  | behind h hc =>
    have hb : b.over now = false := by rw [← over_core, ← hc, over_halfOpened]
    rw [hb, over_mono hle h]
    simpa using hc

/-- What twins share even before time has levelled them. -/
structure Frame (a b : Entry) : Prop where
  key : a.key = b.key
  target : a.target = b.target
  attempts : a.attempts = b.attempts
  openCount : a.openCount = b.openCount
  lastFailureAt : a.lastFailureAt = b.lastFailureAt
  lastSuccessAt : a.lastSuccessAt = b.lastSuccessAt
  stamp : a.stamp = b.stamp
  closed : a.state = .closed ↔ b.state = .closed

theorem Frame.of_core (h : a.core = b.core) : Frame a b where
  key := (congrArg Entry.key h :)
  target := (congrArg Entry.target h :)
  attempts := (congrArg Entry.attempts h :)
  openCount := (congrArg Entry.openCount h :)
  lastFailureAt := (congrArg Entry.lastFailureAt h :)
  lastSuccessAt := (congrArg Entry.lastSuccessAt h :)
  stamp := (congrArg Entry.stamp h :)
  closed := by rw [← core_state, h, core_state]

theorem state_ne_closed_of_over {e : Entry} (h : e.over now = true) : e.state ≠ .closed := by
  intro hs
  simp [Entry.over, Entry.cooldownOver, hs] at h

theorem Twin.frame (h : Twin time a b) : Frame a b := by
  have hhalf : ∀ {x y : Entry}, y.over time = true → x.core = y.core.halfOpened → Frame x y := by
    intro x y hy hc
    have hx : x.state = .halfOpen := (congrArg Entry.state hc :)
    exact {
      key := (congrArg Entry.key hc :)
      target := (congrArg Entry.target hc :)
      attempts := (congrArg Entry.attempts hc :)
      openCount := (congrArg Entry.openCount hc :)
      lastFailureAt := (congrArg Entry.lastFailureAt hc :)
      lastSuccessAt := (congrArg Entry.lastSuccessAt hc :)
      stamp := (congrArg Entry.stamp hc :)
      closed := ⟨fun h => by simp [hx] at h, fun h => absurd h (state_ne_closed_of_over hy)⟩ }
  cases h with
  | same h => exact Frame.of_core h
  | ahead h hc => exact hhalf h hc
  | behind h hc =>
    have hf := hhalf h hc.symm
    exact ⟨hf.key.symm, hf.target.symm, hf.attempts.symm, hf.openCount.symm,
      hf.lastFailureAt.symm, hf.lastSuccessAt.symm, hf.stamp.symm, hf.closed.symm⟩

theorem Twin.core_of_leased (h : Twin time a b) (ha : a.probeLeaseId ≠ none)
    (hb : b.probeLeaseId ≠ none) : a.core = b.core := by
  cases h with
  | same h => exact h
  | ahead h hc => exact absurd (congrArg Entry.probeLeaseId hc) ha
  | behind h hc => exact absurd (congrArg Entry.probeLeaseId hc.symm) hb

end Twin

/-! ## Lists of twins -/

/-- What a record must be for the file to give it back: a clean target and a short lease. -/
def Loadable (e : Entry) : Prop :=
  e.target.Normalized ∧ ∀ id, e.probeLeaseId = some id → JsString.length16 id ≤ 128

theorem loadable_stable : Stable Loadable where
  shift := fun _ _ he => he
  halfOpened := fun _ he => ⟨he.1, fun _ => nofun⟩
  grant := fun h _ _ _ he => ⟨he.1, fun id hid => by
    have hlen := h.uuid_length
    rw [Option.some.inj hid] at hlen
    omega⟩
  release := fun _ _ he => ⟨he.1, fun _ => nofun⟩
  fail := fun o reason error now options w e he => by
    refine ⟨?_, fun id hid => ?_⟩
    · rw [(applyFailure_ident o reason error now options w e).2]
      exact he.1
    · rw [applyFailure_leaseId] at hid
      nomatch hid
  annotate := fun _ _ he => he
  close := fun _ _ he => ⟨he.1, fun _ => nofun⟩
  fresh := fun _ hn => ⟨hn, fun _ => nofun⟩

/-- A record of the shared store and its twin in memory. -/
structure Matched (time : Nat) (a b : Entry) : Prop where
  loadable : Loadable a
  twin : Twin time a b

/-- The options of the same breaker without a file. -/
def Options.inMemory (o : Options) : Options := { o with filePath := none }

section Lists

variable {o : Options} {time now : Nat} {xs ys : List Entry} {t : Target} {R S : Entry → Entry → Prop}

theorem forall₂_updateIf (h : List.Forall₂ R xs ys) {p q : Entry → Bool} {f g : Entry → Entry}
    (hpq : ∀ a b, R a b → p a = q b) (hf : ∀ a b, R a b → p a = true → S (f a) (g b))
    (hs : ∀ a b, R a b → p a = false → S a b) :
    List.Forall₂ S (updateIf p f xs) (updateIf q g ys) := by
  refine forall₂_map h fun a b hab => ?_
  cases hp : p a with
  | true => rw [if_pos rfl, if_pos (by rw [← hpq a b hab, hp])]; exact hf a b hab hp
  | false => rw [if_neg (by simp), if_neg (by rw [← hpq a b hab, hp]; simp)]; exact hs a b hab hp

theorem keys_eq (h : List.Forall₂ (Matched time) xs ys) : xs.map (·.key) = ys.map (·.key) :=
  map_eq_map h fun _ _ hab => hab.twin.frame.key

theorem forall₂_mono (h : List.Forall₂ (Matched time) xs ys) (hle : time ≤ now) :
    List.Forall₂ (Matched now) xs ys :=
  h.imp fun _ _ hab => ⟨hab.loadable, hab.twin.mono hle⟩

/-- Records that agree once time has levelled those a request concerns. -/
structure Level (time : Nat) (t : Target) (a b : Entry) : Prop extends Matched time a b where
  level : a.concerns t = true → a.core = b.core

theorem Level.concerns_eq {a b : Entry} (h : Matched time a b) (t : Target) :
    a.concerns t = b.concerns t := by
  unfold Entry.concerns
  rw [h.twin.frame.target]

theorem forall₂_lapse (h : List.Forall₂ (Matched time) xs ys) {host : Host}
    (halive : host.AllAlive) (hle : time ≤ now) (t : Target) :
    List.Forall₂ (Level now t) (updateIf (Entry.concerns t) (lapse host now) xs)
      (updateIf (Entry.concerns t) (lapse host now) ys) := by
  refine forall₂_updateIf h (fun a b hab => Level.concerns_eq hab t) (fun a b hab _ => ?_)
    fun a b hab hc => ?_
  · have hcore := hab.twin.lapse halive hle
    exact ⟨⟨loadable_stable.lapse host now hab.loadable, .same hcore⟩, fun _ => hcore⟩
  · refine ⟨⟨hab.loadable, hab.twin.mono hle⟩, fun hc' => ?_⟩
    rw [hc] at hc'
    nomatch hc'

/-- Records the file still has as they were are twins of those time has acted on. -/
theorem forall₂_lapse_right (h : List.Forall₂ (Matched time) xs ys) {host : Host}
    (halive : host.AllAlive) (hle : time ≤ now) (p : Entry → Bool) :
    List.Forall₂ (Matched now) xs (updateIf p (lapse host now) ys) := by
  have hmap := forall₂_map (S := Matched now) h (f := id)
    (g := fun e => if p e then lapse host now e else e) fun a b hab => ?_
  · rwa [List.map_id] at hmap
  · refine ⟨hab.loadable, ?_⟩
    show Twin now a _
    split
    · exact ((hab.twin.mono hle).symm.lapse_left halive (Nat.le_refl now)).symm
    · exact hab.twin.mono hle

/-! ## What the answers are read from -/

/-- Related by one core. -/
def SameCore (a b : Entry) : Prop := a.core = b.core

theorem applicable_sameCore (h : List.Forall₂ (Level time t) xs ys) :
    List.Forall₂ SameCore (applicableEntries t xs) (applicableEntries t ys) := by
  refine forall₂_insertionSort ?_ fun a b a' b' h₁ h₂ => ?_
  · exact forall₂_filter_and h (fun a b hab => Level.concerns_eq hab.toMatched t)
      fun a b hab hc => hab.level hc
  · have h₁ := (Frame.of_core h₁).target
    have h₂ := (Frame.of_core h₂).target
    rw [h₁, h₂]

theorem blockLe_core (a b : Entry) : blockLe a.core b.core = blockLe a b := rfl

theorem strongestBlock_sameCore (h : List.Forall₂ SameCore xs ys) :
    Option.Rel SameCore (strongestBlock xs) (strongestBlock ys) := by
  refine head?_rel (forall₂_insertionSort h fun a b a' b' h₁ h₂ => ?_)
  rw [← blockLe_core a, h₁, h₂, blockLe_core]

theorem filter_sameCore (h : List.Forall₂ SameCore xs ys) {p : Entry → Bool}
    (hp : ∀ e : Entry, p e.core = p e) : List.Forall₂ SameCore (xs.filter p) (ys.filter p) :=
  forall₂_filter h fun a b hab => by rw [← hp a, hab, hp]

/-- The answers of `status` agree, in the parts `f` and `g`, on records of one relation. -/
theorem effectiveStatus_rel {f g : Status → Status}
    (happ : List.Forall₂ R (applicableEntries t xs) (applicableEntries t ys))
    (htarget : ∀ a b, R a b → a.target = b.target)
    (hblock : Option.Rel R (strongestBlock ((applicableEntries t xs).filter (·.state ≠ .closed)))
      (strongestBlock ((applicableEntries t ys).filter (·.state ≠ .closed))))
    (hget : Option.Rel R (get (keyOf t) xs) (get (keyOf t) ys))
    (hstatus : ∀ a b, R a b → f (statusOf a) = g (statusOf b))
    (hclosed : f (closedStatus t) = g (closedStatus t)) :
    f (effectiveStatus t xs) = g (effectiveStatus t ys) := by
  have hspec := head?_rel (forall₂_insertionSort happ (r := fun a b =>
      specificity b.target ≤ specificity a.target) (s := fun a b =>
      specificity b.target ≤ specificity a.target) fun a b a' b' h₁ h₂ => by
    rw [htarget _ _ h₁, htarget _ _ h₂])
  unfold effectiveStatus
  dsimp only
  generalize strongestBlock ((applicableEntries t xs).filter _) = blockX at hblock ⊢
  generalize strongestBlock ((applicableEntries t ys).filter _) = blockY at hblock ⊢
  generalize get (keyOf t) xs = gx at hget ⊢
  generalize get (keyOf t) ys = gy at hget ⊢
  generalize ((applicableEntries t xs).insertionSort
    fun a b => specificity b.target ≤ specificity a.target).head? = mx at hspec ⊢
  generalize ((applicableEntries t ys).insertionSort
    fun a b => specificity b.target ≤ specificity a.target).head? = my at hspec ⊢
  cases hblock with
  | some hab => exact hstatus _ _ hab
  | none =>
    cases hget with
    | some hab => exact hstatus _ _ hab
    | none =>
      cases hspec with
      | some hab => exact hstatus _ _ hab
      | none => exact hclosed

theorem effectiveStatus_core (h : List.Forall₂ (Level time t) xs ys)
    (hkey : ∀ b ∈ ys, b.key = keyOf b.target) :
    (effectiveStatus t xs).core = (effectiveStatus t ys).core := by
  have happ := applicable_sameCore h
  have hblock := strongestBlock_sameCore
    (filter_sameCore happ (p := fun e => e.state ≠ .closed) fun _ => rfl)
  have hget : Option.Rel SameCore (get (keyOf t) xs) (get (keyOf t) ys) := by
    refine find?_rel (imp_mem h fun a _ b hb hab => And.intro hab hb)
      (fun a b hab => by rw [hab.1.twin.frame.key]) fun a b hab hk => hab.1.level ?_
    have hkb : b.key = keyOf t := hab.1.twin.frame.key ▸ of_decide_eq_true hk
    have ht : b.target = t := keyOf_inj ((hkey b hab.2).symm.trans hkb)
    rw [Level.concerns_eq hab.1.toMatched, Entry.concerns, ht]
    exact appliesTo_refl t
  exact effectiveStatus_rel happ (fun _ _ hab => (Frame.of_core hab).target) hblock hget
    (fun _ _ => statusOf_core) rfl

end Lists

/-! ## Failures and successes of twins -/

section Updates

variable {o : Options} {time now : Nat} {a b : Entry} {xs ys : List Entry} {t : Target}

/-- A failure that opens both records or neither makes them equal. -/
theorem applyFailure_core (hf : Frame a b) {reason : Reason} {error : StoredError}
    {options : FailureOptions} {w w' : Bool}
    (hopen : shouldOpen o reason (explicitRetryAt now error options) (a.attempts + 1) w =
      shouldOpen o reason (explicitRetryAt now error options) (b.attempts + 1) w') :
    (applyFailure o reason error now options w a).core =
      (applyFailure o.inMemory reason error now options w' b).core := by
  cases hb : shouldOpen o reason (explicitRetryAt now error options) (b.attempts + 1) w' with
  | true =>
    have ha := hopen.trans hb
    change shouldOpen o.inMemory reason _ _ _ = true at hb
    unfold applyFailure
    simp only [ha, hb, if_true]
    simp [Entry.core, Entry.dropLease, hf.key, hf.target, hf.attempts, hf.openCount,
      hf.lastSuccessAt, cooldownEnd, Options.inMemory]
  | false =>
    have ha := hopen.trans hb
    change shouldOpen o.inMemory reason _ _ _ = false at hb
    unfold applyFailure
    simp only [ha, hb, false_eq_true, if_false]
    simp [Entry.core, Entry.dropLease, hf.key, hf.target, hf.attempts, hf.openCount,
      hf.lastSuccessAt]

theorem annotateFailure_core (options : FailureOptions) (e : Entry) :
    (annotateFailure options e).core = e.core := by
  unfold annotateFailure
  cases options.annotations <;> cases options.resetAt.filter (0 ≤ ·) <;> rfl

theorem closeEntry_core (hf : Frame a b) : (closeEntry now a).core = (closeEntry now b).core := by
  simp [closeEntry, Entry.core, Entry.dropLease, hf.key, hf.target, hf.lastFailureAt]

theorem releaseEntry_core (h : a.core = b.core) :
    (releaseEntry now a).core = (releaseEntry now b).core := by
  have hr : ∀ e : Entry, (releaseEntry now e).core = (releaseEntry now e.core).core := fun _ => rfl
  rw [hr a, h, ← hr b]

/-- A lease that is active on both lists, or no lease, holds the same records, and these are
    level. -/
theorem heldBy_eq (h : List.Forall₂ (Matched time) xs ys) (hn : (ys.map (·.key)).Nodup)
    {lease : Option Lease} (hx : staleLease lease xs = false) (hy : staleLease lease ys = false)
    (ha : a ∈ xs) (hb : b ∈ ys) (hab : Matched time a b) :
    a.heldBy lease = b.heldBy lease ∧ (a.heldBy lease = true → a.core = b.core) := by
  cases lease with
  | none => exact ⟨rfl, fun h => absurd h Bool.false_ne_true⟩
  | some l =>
    have hcarry : ∀ {es : List Entry} {e : Entry}, (es.map (·.key)).Nodup →
        staleLease (some l) es = false → e ∈ es → e.key ∈ l.keys → e.probeLeaseId = some l.id := by
      intro es e hnd hst he hk
      simp only [staleLease, Option.any_some, not_eq_false', isActiveLease, and_eq_true,
        all_eq_true] at hst
      obtain ⟨e', he', hid⟩ := Option.any_eq_true _ _ |>.mp (hst.2 _ hk)
      obtain ⟨hmem, hkey⟩ := (get_eq_some hnd).mp he'
      rw [← eq_of_key_eq hnd hmem he hkey]
      simpa using hid
    have hkey := hab.twin.frame.key
    by_cases hk : a.key ∈ l.keys
    · have hida := hcarry (by rw [keys_eq h]; exact hn) hx ha hk
      have hidb := hcarry hn hy hb (hkey ▸ hk)
      refine ⟨?_, fun _ => hab.twin.core_of_leased (by simp [hida]) (by simp [hidb])⟩
      simp [Entry.heldBy, Lease.holds, hida, hidb, hkey]
    · have hk' : b.key ∉ l.keys := hkey ▸ hk
      have hfa : a.heldBy (some l) = false := by simp [Entry.heldBy, Lease.holds, hk]
      have hfb : b.heldBy (some l) = false := by simp [Entry.heldBy, Lease.holds, hk']
      rw [hfa, hfb]
      exact ⟨rfl, fun h => absurd h Bool.false_ne_true⟩

theorem forall₂_ensure {R : Entry → Entry → Prop} (h : List.Forall₂ R xs ys) (scope : Target)
    (hkey : ∀ a b, R a b → a.key = b.key) (hfresh : R (freshEntry scope) (freshEntry scope)) :
    List.Forall₂ R (ensure scope xs) (ensure scope ys) := by
  have hany : xs.any (·.key = keyOf scope) = ys.any (·.key = keyOf scope) :=
    any_eq_any h fun a b hab => by rw [hkey a b hab]
  unfold ensure
  rw [hany]
  split
  · exact h
  · exact rel_append h (List.Forall₂.cons hfresh List.Forall₂.nil)

/-- What a failure finds on the record of its scope: does it open it? -/
def opensScope (o : Options) (now : Nat) (t : Target) (reason : Reason) (error : StoredError)
    (options : FailureOptions) (es : List Entry) : Option Bool :=
  (get (keyOf (failureScope t reason)) es).map fun e =>
    shouldOpen o reason (explicitRetryAt now error options) (e.attempts + 1) (e.state = .halfOpen)

/-- **A classified failure keeps twins**, when its lease is good on both sides and it opens the
    record of its scope on both or neither; the record of the scope is level afterwards. -/
theorem forall₂_failEntries (h : List.Forall₂ (Matched time) xs ys) (hk : Kept o ys)
    (hn : t.Normalized) {reason : Reason} {error : StoredError} {options : FailureOptions}
    (hx : staleLease options.lease xs = false) (hy : staleLease options.lease ys = false)
    (hopen : opensScope o now t reason error options xs = opensScope o now t reason error options ys) :
    List.Forall₂ (fun a b => Matched time a b ∧
        (a.key = keyOf (failureScope t reason) → a.core = b.core))
      (failEntries o now t reason error options xs)
      (failEntries o.inMemory now t reason error options ys) := by
  have hnx : (xs.map (·.key)).Nodup := by rw [keys_eq h]; exact hk.nodup
  have hheld := fun a ha b hb (hab : Matched time a b) => heldBy_eq h hk.nodup hx hy ha hb hab
  set scopeKey := keyOf (failureScope t reason) with hscope
  have hkeys : (xs.filter (Entry.heldBy options.lease)).map (·.key) =
      (ys.filter (Entry.heldBy options.lease)).map (·.key) := by
    have himp := imp_mem h fun a ha b hb hab => And.intro hab (hheld a ha b hb hab).1
    exact map_eq_map (forall₂_filter himp fun a b hab => hab.2) fun a b hab => hab.1.twin.frame.key
  set keys := (ys.filter (Entry.heldBy options.lease)).map (·.key)
  -- after the lease has been consumed, the scope opens on both sides or on neither
  let Next : Entry → Entry → Prop := fun a b => Matched time a b ∧ (a.key ∈ keys → a.core = b.core) ∧
    (a.key = scopeKey → a.key ∉ keys →
      shouldOpen o reason (explicitRetryAt now error options) (a.attempts + 1) (a.state = .halfOpen) =
      shouldOpen o reason (explicitRetryAt now error options) (b.attempts + 1) (b.state = .halfOpen))
  have hconsumed : List.Forall₂ Next
      (updateIf (Entry.heldBy options.lease) (applyFailure o reason error now options true) xs)
      (updateIf (Entry.heldBy options.lease)
        (applyFailure o.inMemory reason error now options true) ys) := by
    have hmem := imp_mem h fun a ha b hb hab => And.intro hab (And.intro ha hb)
    refine forall₂_updateIf hmem (fun a b hab => (hheld a hab.2.1 b hab.2.2 hab.1).1)
      (fun a b hab hp => ?_) fun a b hab hp => ⟨hab.1, fun hin => ?_, fun hka _ => ?_⟩
    · have hcore : (applyFailure o reason error now options true a).core =
          (applyFailure o.inMemory reason error now options true b).core :=
        applyFailure_core hab.1.twin.frame (by rw [hab.1.twin.frame.attempts])
      refine ⟨⟨loadable_stable.fail _ _ _ _ _ _ _ hab.1.loadable, .same hcore⟩, fun _ => hcore, ?_⟩
      intro _ hnot
      rw [(applyFailure_ident ..).1, ← hkeys] at hnot
      exact absurd (mem_map_of_mem (mem_filter.mpr ⟨hab.2.1, hp⟩)) hnot
    · rw [← hkeys] at hin
      obtain ⟨a', ha', hk'⟩ := mem_map.mp hin
      obtain ⟨hmem', hheld'⟩ := mem_filter.mp ha'
      rw [eq_of_key_eq hnx hmem' hab.2.1 hk', hp] at hheld'
      nomatch hheld'
    · have hga := (get_eq_some hnx).mpr ⟨hab.2.1, hka⟩
      have hgb := (get_eq_some hk.nodup).mpr ⟨hab.2.2, hab.1.twin.frame.key.symm.trans hka⟩
      simp only [opensScope, ← hscope, hga, hgb, Option.map_some, Option.some.injEq] at hopen
      exact hopen
  have hensured := forall₂_ensure hconsumed (failureScope t reason)
    (fun a b hab => hab.1.twin.frame.key)
    ⟨⟨loadable_stable.fresh _ (failureScope_normalized hn reason), .refl _ _⟩, fun _ => rfl, fun _ _ => rfl⟩
  let Settled : Entry → Entry → Prop := fun a b => Matched time a b ∧ (a.key = scopeKey → a.core = b.core)
  have hcounted : List.Forall₂ Settled _ _ := forall₂_updateIf hensured
    (p := fun e => e.key = scopeKey ∧ e.key ∉ keys) (q := fun e => e.key = scopeKey ∧ e.key ∉ keys)
    (f := fun e => applyFailure o reason error now options (e.state = .halfOpen) e)
    (g := fun e => applyFailure o.inMemory reason error now options (e.state = .halfOpen) e)
    (fun a b hab => by rw [hab.1.twin.frame.key])
    (fun a b hab hp => by
      obtain ⟨hp₁, hp₂⟩ := of_decide_eq_true hp
      have hcore := applyFailure_core hab.1.twin.frame (hab.2.2 hp₁ hp₂)
      exact ⟨⟨loadable_stable.fail _ _ _ _ _ _ _ hab.1.loadable, .same hcore⟩, fun _ => hcore⟩)
    fun a b hab hp => ⟨hab.1, fun hka => hab.2.1 (by
      by_contra hnot
      exact of_decide_eq_false hp ⟨hka, hnot⟩)⟩
  have hnoted := forall₂_updateIf hcounted
    (S := Settled) (p := (·.key = scopeKey)) (q := (·.key = scopeKey))
    (f := annotateFailure options) (g := annotateFailure options)
    (fun a b hab => by rw [hab.1.twin.frame.key])
    (fun a b hab hp => by
      have hcore : (annotateFailure options a).core = (annotateFailure options b).core := by
        rw [annotateFailure_core, annotateFailure_core, hab.2 (of_decide_eq_true hp)]
      exact ⟨⟨forall_annotateFailure loadable_stable.annotate options hab.1.loadable, .same hcore⟩, fun _ => hcore⟩)
    fun a b hab _ => hab
  unfold failEntries
  simp only [hkeys]
  exact hnoted

theorem forall₂_evict {bound : Nat} {p : Entry → Bool} {lx ly : List Entry}
    (hl : List.Forall₂ (Matched time) lx ly) (h : List.Forall₂ (Matched time) xs ys)
    (hp : ∀ a b, Matched time a b → p a = p b) :
    List.Forall₂ (Matched time) (evict bound p lx xs) (evict bound p ly ys) := by
  induction hl generalizing xs ys with
  | nil => exact h
  | @cons a b lx ly hab hl ih =>
    unfold evict
    rw [h.length_eq, hp a b hab, hab.twin.frame.key]
    split
    · exact h
    · split
      · exact ih (forall₂_filter h fun c d hcd => by rw [hcd.twin.frame.key])
      · exact ih h

theorem forall₂_prune (h : List.Forall₂ (Matched time) xs ys) :
    List.Forall₂ (Matched time) (prune o xs) (prune o.inMemory ys) := by
  have hold : List.Forall₂ (Matched time) (oldest xs) (oldest ys) :=
    forall₂_insertionSort h fun a b a' b' h₁ h₂ => by
      rw [h₁.twin.frame.stamp, h₂.twin.frame.stamp]
  unfold prune
  simp only
  rw [h.length_eq]
  change List.Forall₂ _ (if ys.length ≤ o.maxEntries then _ else _)
    (if ys.length ≤ o.maxEntries then _ else _)
  split
  · exact h
  · refine forall₂_evict hold (forall₂_evict hold h fun a b hab => ?_) fun _ _ _ => rfl
    simp only [decide_eq_decide]
    exact hab.twin.frame.closed

/-! ## Reading the file -/

theorem validEntry_core {e : Entry} (hl : Loadable e) (hk : e.key = keyOf e.target) :
    ∃ e', validEntry e = some e' ∧ e'.core = e.core ∧ Loadable e' := by
  have hlease : e.probeLeaseId.filter (fun id => decide (JsString.length16 id ≤ 128)) =
      e.probeLeaseId := by
    cases hid : e.probeLeaseId with
    | none => rfl
    | some id => simp [Option.filter, hl.2 id hid]
  refine ⟨{ e with
      lastError := e.lastError.map validStoredError
      annotations := e.annotations.bind validAnnotations
      probeLeaseOwnerPid := e.probeLeaseOwnerPid.filter (0 < ·) }, ?_, rfl, hl⟩
  have ht : normalizeTarget e.target = some e.target := hl.1
  rw [validEntry, ht]
  simp only [hlease, ← hk]

theorem forall₂_read (h : List.Forall₂ (Matched time) xs ys) (hk : ∀ b ∈ ys, b.key = keyOf b.target) :
    List.Forall₂ (Matched time) (xs.filterMap validEntry) ys := by
  induction h with
  | nil => exact List.Forall₂.nil
  | @cons a b xs ys hab _ ih =>
    have hka : a.key = keyOf a.target := by
      rw [hab.twin.frame.key, hk b mem_cons_self, hab.twin.frame.target]
    obtain ⟨a', ha', hcore, hload⟩ := validEntry_core hab.loadable hka
    rw [filterMap_cons_some ha']
    refine List.Forall₂.cons ⟨hload, ?_⟩ (ih fun b hb => hk b (mem_cons_of_mem _ hb))
    obtain h | ⟨h, hc⟩ | ⟨h, hc⟩ := hab.twin
    · exact .same (hcore.trans h)
    · exact .ahead h (hcore.trans hc)
    · exact .behind (by rwa [← over_core, hcore, over_core]) (by rw [hcore, hc])

theorem put_of_new {e : Entry} (h : ∀ e' ∈ xs, e'.key ≠ e.key) : put e xs = xs ++ [e] := by
  rw [put, if_neg (by simpa using h)]

theorem foldl_put_of_nodup {l acc : List Entry} (h : ((acc ++ l).map (·.key)).Nodup) :
    l.foldl (fun es e => put e es) acc = acc ++ l := by
  induction l generalizing acc with
  | nil => simp
  | cons e l ih =>
    have hnew : ∀ e' ∈ acc, e'.key ≠ e.key := by
      intro e' he' heq
      rw [map_append, nodup_append] at h
      exact h.2.2 _ (mem_map_of_mem he') _ (mem_map_of_mem mem_cons_self) heq
    rw [foldl_cons, put_of_new hnew, ih (by rwa [append_assoc]), append_assoc]
    rfl

/-- **Loading keeps twins**, when the file is not rebased and the clock of the instance is not
    ahead. -/
theorem forall₂_loadEntries {h : Host} {clock : Nat} {store : PersistedStore}
    (hs : List.Forall₂ (Matched time) store.entries ys) (hk : Kept o ys) (halive : h.AllAlive)
    (hclock : clock ≤ time) (hrebase : store.savedAt ≤ clock + o.maxClockSkewMs) :
    List.Forall₂ (Matched time) (loadEntries o h clock store) ys := by
  have htake : store.entries.take o.maxEntries = store.entries :=
    take_of_length_le (hs.length_eq ▸ hk.bounded)
  have hread := forall₂_read hs hk.key_eq
  have hkeys : ((store.entries.filterMap validEntry).map (·.key)).Nodup := by
    rw [keys_eq hread]
    exact hk.nodup
  unfold loadEntries
  have hfold : (store.entries.filterMap validEntry).foldl (fun es e => put e es) [] =
      store.entries.filterMap validEntry := foldl_put_of_nodup hkeys
  simp only [htake, hfold]
  rw [if_neg (by omega)]
  have hmap := forall₂_map (S := Matched time) hread (f := lapse h clock) (g := id)
    fun a b hab => ⟨loadable_stable.lapse h clock hab.loadable, hab.twin.lapse_left halive hclock⟩
  rwa [List.map_id] at hmap

end Updates

end NexusCode.Circuit
