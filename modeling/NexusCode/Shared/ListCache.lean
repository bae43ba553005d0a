/-
  The caches of discovered models and effort levels.

  `createModelListCache` and `createEffortListCache` are one program over two kinds of results.  A
  `get` answers from the stored value, or waits for the load that is in flight, or calls its loader;
  a loader that throws before it returns a promise leaves its rejected promise in `inflight`, since
  the `finally` block ran before the assignment.

  Loads are numbered in the order in which the loaders were called.  A stored result keeps the
  number of its load, and `running` lists the loads that have not completed; the program looks at
  neither.

    1. `listCache`        — the cache, call after call and completion after completion.
    2. `OneLoad`          — the running load is the one in flight; so there is at most one.
    3. `Since`            — nothing is left of the loads before a `clear`.
    4. **`clear_effective`** — clearing is effective, where nothing is in flight at a `clear`.
-/
import NexusCode.Lib.Machine

namespace NexusCode.Shared

open Lib

/-! ## The results -/

/-- `ModelListSource` and `EffortListSource`. -/
inductive ListSource where
  | provider
  | fallback
deriving DecidableEq

/-- `ModelInfo`, the members that are read. -/
structure ListedModel where
  id : String
deriving DecidableEq

/-- `ModelListResult`. -/
structure ModelListResult where
  models : List ListedModel
  source : ListSource
deriving DecidableEq

/-- `EffortLevelInfo`. -/
structure EffortLevelInfo where
  id : String
  description : Option String := none

/-- `EffortListResult`. -/
structure EffortListResult where
  levels : List EffortLevelInfo
  defaultLevel : Option String := none
  source : ListSource
  offDisablesReasoning : Bool

/-! ## The cache -/

variable {R : Type}

/-- A result, and the number of its load. -/
structure Loaded (R : Type) where
  load : Nat
  result : R
deriving DecidableEq

/-- The promise in `inflight`: of a load, or one that was rejected at once. -/
inductive Flight where
  | loading (load : Nat)
  | rejected

/-- The variables of a cache, and what has become of its loads. -/
structure ListCache (R : Type) where
  value : Option (Loaded R) := none
  expiresAt : Rat := 0
  inflight : Option Flight := none
  started : Nat := 0
  running : List Nat := []

/-- What can happen: a `get` at a time, with a loader that may throw before it returns a promise; a
    `clear`; a load that completes at a time, with its result or an error. -/
inductive CacheEvent (R : Type) where
  | get (now : Rat) (throws : Bool)
  | clear
  | settle (load : Nat) (outcome : Option R) (now : Rat)

/-- What a `get` comes to. -/
inductive CacheAnswer (R : Type) where
  | value (loaded : Loaded R)
  | waits (load : Nat)
  | rejected
  | nothing
deriving DecidableEq

namespace ListCache

variable (ttlMs : Rat) (c : ListCache R)

/-- `value !== undefined && now < expiresAt`. -/
def fresh? (now : Rat) : Option (Loaded R) :=
  c.value.filter fun _ => now < c.expiresAt

/-- `get(loader)`. -/
def get (now : Rat) (throws : Bool) : CacheAnswer R × ListCache R :=
  match c.fresh? now with
  | some loaded => (.value loaded, c)
  | none =>
    match c.inflight with
    | some (.loading load) => (.waits load, c)
    | some .rejected => (.rejected, c)
    | none =>
      if throws then (.rejected, { c with started := c.started + 1, inflight := some .rejected })
      else
        (.waits c.started,
          { c with
            started := c.started + 1
            inflight := some (.loading c.started)
            running := c.running ++ [c.started] })

/-- `clear()`. -/
def clear : ListCache R := { c with value := none, expiresAt := 0 }

/-- What follows `await loader()`, for a load that is running. -/
def settle (load : Nat) (outcome : Option R) (now : Rat) : ListCache R :=
  if load ∈ c.running then
    let settled := { c with inflight := none, running := c.running.filter (· ≠ load) }
    match outcome with
    | some result => { settled with value := some { load, result }, expiresAt := now + ttlMs }
    | none => settled
  else c

end ListCache

/-- The default of `ttlMs`. -/
def defaultListTtlMs : Rat := 60000

/-- A cache with a freshness window. -/
def listCache (ttlMs : Rat) : Machine (ListCache R) (CacheEvent R) (CacheAnswer R) where
  step c
    | .get now throws => c.get now throws
    | .clear => (.nothing, c.clear)
    | .settle load outcome now => (.nothing, c.settle ttlMs load outcome now)

/-- `createModelListCache(ttlMs)`. -/
def createModelListCache (ttlMs : Rat) :
    Machine (ListCache ModelListResult) (CacheEvent ModelListResult) (CacheAnswer ModelListResult) :=
  listCache ttlMs

/-- `createEffortListCache(ttlMs)`. -/
def createEffortListCache (ttlMs : Rat) :
    Machine (ListCache EffortListResult) (CacheEvent EffortListResult)
      (CacheAnswer EffortListResult) :=
  listCache ttlMs

/-! ## What clearing should do -/

/-- A `get` between `before` and `after` resolves to the result of a load: it is answered with it,
    or waits for the load, which succeeds later on. -/
def Resolves (ttlMs : Rat) (before : List (CacheEvent R)) (now : Rat) (throws : Bool)
    (after : List (CacheEvent R)) (load : Nat) : Prop :=
  match (((listCache ttlMs).run {} before).get now throws).1 with
  | .value loaded => loaded.load = load
  | .waits n => n = load ∧ ∃ between result time rest,
      after = between ++ .settle n (some result) time :: rest ∧
        n ∈ ((listCache ttlMs).run {} (before ++ .get now throws :: between)).running
  | _ => False

/-- No `get` resolves to the result of a load that was started before a `clear` before it. -/
def ClearsLoads (ttlMs : Rat) (es : List (CacheEvent R)) : Prop :=
  ∀ early late now throws after load,
    es = early ++ .clear :: late ++ .get now throws :: after →
      Resolves ttlMs (early ++ .clear :: late) now throws after load →
        ((listCache ttlMs).run {} early).started ≤ load

/-- A load that fails leaves the stored value as it was, and nothing in flight. -/
def FailsClean (ttlMs : Rat) (es : List (CacheEvent R)) : Prop :=
  (∀ before load time after, es = before ++ .settle load none time :: after →
    load ∈ ((listCache ttlMs).run {} before).running →
      ((listCache ttlMs).run {} (before ++ [.settle load none time])).value =
          ((listCache ttlMs).run {} before).value ∧
        ((listCache ttlMs).run {} (before ++ [.settle load none time])).inflight = none) ∧
  ∀ before now after, es = before ++ .get now true :: after →
    ((listCache ttlMs).run {} before).inflight = none →
      ((listCache ttlMs).run {} (before ++ [.get now true])).inflight = none

/-- **Clearing is effective**, at most one loader runs at a time, and a failed load leaves nothing. -/
def Effective (ttlMs : Rat) (es : List (CacheEvent R)) : Prop :=
  ClearsLoads ttlMs es ∧
    (∀ before after, es = before ++ after →
      ((listCache ttlMs).run {} before).running.length ≤ 1) ∧
    FailsClean ttlMs es

/-- A `clear` meets nothing in flight, and a loader that is called returns a promise. -/
def Undisturbed (c : ListCache R) : CacheEvent R → Prop
  | .clear => c.inflight = none
  | .get now throws => throws = true → (c.fresh? now).isSome ∨ c.inflight.isSome
  | .settle _ _ _ => True

instance (c : ListCache R) (e : CacheEvent R) : Decidable (Undisturbed c e) := by
  cases e <;> unfold Undisturbed <;> infer_instance

variable {ttlMs : Rat} {c : ListCache R}

/-! ## One load -/

/-- The running load is the one in flight. -/
structure OneLoad (c : ListCache R) : Prop where
  running : c.running = match c.inflight with
    | some (.loading load) => [load]
    | _ => []
  started : ∀ load, c.inflight = some (.loading load) → load < c.started

namespace OneLoad

theorem inflight_of_running (h : OneLoad c) {load : Nat} (hload : load ∈ c.running) :
    c.inflight = some (.loading load) := by
  have hrunning := h.running
  cases hflight : c.inflight with
  | none =>
    rw [hflight] at hrunning
    rw [hrunning] at hload
    nomatch hload
  | some flight =>
    rw [hflight] at hrunning
    rw [hrunning] at hload
    cases flight with
    | rejected => nomatch hload
    | loading n => rw [List.mem_singleton.mp hload]

theorem length_running (h : OneLoad c) : c.running.length ≤ 1 := by
  rw [h.running]
  split
  · exact Nat.le_refl 1
  · exact Nat.zero_le 1

theorem get (h : OneLoad c) (now : Rat) (throws : Bool) : OneLoad (c.get now throws).2 := by
  unfold ListCache.get
  split
  · exact h
  · split
    · exact h
    · exact h
    · rename_i hflight
      have hrunning := h.running
      rw [hflight] at hrunning
      cases throws with
      | true => exact ⟨hrunning, (fun load hload => nomatch hload)⟩
      | false =>
        refine ⟨?_, ?_⟩
        · show c.running ++ [c.started] = [c.started]
          rw [hrunning]
          rfl
        · intro load hload
          obtain rfl := Flight.loading.inj (Option.some.inj hload)
          exact Nat.lt_succ_self c.started

theorem settle (h : OneLoad c) (load : Nat) (outcome : Option R) (now : Rat) :
    OneLoad (c.settle ttlMs load outcome now) := by
  unfold ListCache.settle
  split
  · rename_i hload
    have hrunning := h.running
    rw [h.inflight_of_running hload] at hrunning
    have hnone : c.running.filter (· ≠ load) = [] := by
      rw [hrunning]
      simp
    cases outcome with
    | some result => exact ⟨hnone, (fun load hload => nomatch hload)⟩
    | none => exact ⟨hnone, (fun load hload => nomatch hload)⟩
  · exact h

/-- **At most one load runs**, whatever happens. -/
theorem step (h : OneLoad c) (e : CacheEvent R) : OneLoad ((listCache ttlMs).step c e).2 := by
  cases e with
  | get now throws => exact h.get now throws
  | clear => exact ⟨h.running, h.started⟩
  | settle load outcome now => exact h.settle load outcome now

theorem run (es : List (CacheEvent R)) : OneLoad ((listCache ttlMs).run {} es) :=
  Machine.run_invariant (fun _ e h => h.step e) es ⟨rfl, (fun _ => nofun)⟩

end OneLoad

/-! ## What is left of earlier loads -/

/-- Nothing is left of the loads before the `n`-th. -/
structure Since (n : Nat) (c : ListCache R) : Prop where
  value : ∀ loaded, c.value = some loaded → n ≤ loaded.load
  inflight : ∀ load, c.inflight = some (.loading load) → n ≤ load
  started : n ≤ c.started

namespace Since

variable {n : Nat}

theorem answer (h : Since n c) (now : Rat) (throws : Bool) :
    (∀ loaded, (c.get now throws).1 = .value loaded → n ≤ loaded.load) ∧
      ∀ load, (c.get now throws).1 = .waits load → n ≤ load := by
  unfold ListCache.get
  split
  · rename_i loaded hfresh
    refine ⟨?_, (fun _ => nofun)⟩
    intro loaded' hanswer
    obtain rfl := CacheAnswer.value.inj hanswer
    exact h.value _ (Option.filter_eq_some_iff.mp hfresh).1
  · split
    · rename_i load hflight
      refine ⟨(fun _ => nofun), ?_⟩
      intro load' hanswer
      obtain rfl := CacheAnswer.waits.inj hanswer
      exact h.inflight _ hflight
    · exact ⟨(fun _ => nofun), (fun _ => nofun)⟩
    · cases throws with
      | true => exact ⟨(fun _ => nofun), (fun _ => nofun)⟩
      | false =>
        refine ⟨(fun _ => nofun), ?_⟩
        intro load hanswer
        obtain rfl := CacheAnswer.waits.inj hanswer
        exact h.started

theorem get (h : Since n c) (now : Rat) (throws : Bool) : Since n (c.get now throws).2 := by
  unfold ListCache.get
  split
  · exact h
  · split
    · exact h
    · exact h
    · have hnext : n ≤ c.started + 1 := Nat.le_succ_of_le h.started
      cases throws with
      | true => exact ⟨h.value, (fun load hload => nomatch hload), hnext⟩
      | false =>
        refine ⟨h.value, ?_, hnext⟩
        intro load hload
        obtain rfl := Flight.loading.inj (Option.some.inj hload)
        exact h.started

theorem settle (h : Since n c) (hone : OneLoad c) (load : Nat) (outcome : Option R) (now : Rat) :
    Since n (c.settle ttlMs load outcome now) := by
  unfold ListCache.settle
  split
  · rename_i hload
    have hlater := h.inflight load (hone.inflight_of_running hload)
    cases outcome with
    | none => exact ⟨h.value, (fun load hload => nomatch hload), h.started⟩
    | some result =>
      refine ⟨?_, (fun load hload => nomatch hload), h.started⟩
      intro loaded hloaded
      obtain rfl := Option.some.inj hloaded
      exact hlater
  · exact h

theorem step (h : Since n c) (hone : OneLoad c) (e : CacheEvent R) :
    Since n ((listCache ttlMs).step c e).2 := by
  cases e with
  | get now throws => exact h.get now throws
  | clear => exact ⟨(fun loaded hloaded => nomatch hloaded), h.inflight, h.started⟩
  | settle load outcome now => exact h.settle hone load outcome now

theorem run (es : List (CacheEvent R)) (h : Since n c) (hone : OneLoad c) :
    Since n ((listCache ttlMs).run c es) :=
  (Machine.run_invariant (I := fun c => Since n c ∧ OneLoad c)
    (fun _ e h => ⟨h.1.step h.2 e, h.2.step e⟩) es ⟨h, hone⟩).1

/-- **A `clear` with nothing in flight** leaves nothing of the loads before it. -/
theorem clear (hidle : c.inflight = none) : Since c.started c.clear := by
  refine ⟨(fun loaded hloaded => nomatch hloaded), ?_, Nat.le_refl _⟩
  intro load hload
  change c.inflight = _ at hload
  rw [hidle] at hload
  nomatch hload

end Since

/-! ## Clearing is effective -/

/-- What the condition says of a step in the middle of a run. -/
theorem undisturbed_at {es before after : List (CacheEvent R)} {e : CacheEvent R}
    (hok : (listCache ttlMs).Always Undisturbed {} es) (hes : es = before ++ e :: after) :
    Undisturbed ((listCache ttlMs).run {} before) e := by
  subst hes
  exact ((Machine.always_append _).mp hok).2.1

theorem clearsLoads {es : List (CacheEvent R)}
    (hok : (listCache ttlMs).Always Undisturbed {} es) : ClearsLoads ttlMs es := by
  intro early late now throws after load hes hresolves
  have hsplit : es = early ++ .clear :: (late ++ .get now throws :: after) := by
    rw [hes]
    simp
  have hidle : ((listCache ttlMs).run {} early).inflight = none := undisturbed_at hok hsplit
  have hone : OneLoad ((listCache ttlMs).run {} early) := OneLoad.run early
  have hsince : Since ((listCache ttlMs).run {} early).started
      ((listCache ttlMs).run {} (early ++ .clear :: late)) := by
    rw [Machine.run_append]
    exact (Since.clear hidle).run late ⟨hone.running, hone.started⟩
  obtain ⟨hvalue, hwaits⟩ := hsince.answer now throws
  unfold Resolves at hresolves
  split at hresolves
  · rename_i loaded hanswer
    rw [← hresolves]
    exact hvalue loaded hanswer
  · rename_i n hanswer
    rw [← hresolves.1]
    exact hwaits n hanswer
  · exact hresolves.elim

theorem failsClean {es : List (CacheEvent R)}
    (hok : (listCache ttlMs).Always Undisturbed {} es) : FailsClean ttlMs es := by
  constructor
  · intro before load time after _ hload
    rw [Machine.run_append]
    generalize (listCache ttlMs).run {} before = c at hload
    show (c.settle ttlMs load none time).value = _ ∧ (c.settle ttlMs load none time).inflight = none
    unfold ListCache.settle
    rw [if_pos hload]
    exact ⟨rfl, rfl⟩
  · intro before now after hes hidle
    have hcalled := undisturbed_at hok hes rfl
    rw [Machine.run_append]
    generalize (listCache ttlMs).run {} before = c at hidle hcalled
    show (c.get now true).2.inflight = none
    rw [hidle] at hcalled
    obtain ⟨loaded, hfresh⟩ := Option.isSome_iff_exists.mp (hcalled.resolve_right nofun)
    unfold ListCache.get
    rw [hfresh]
    exact hidle

/-- **Clearing is effective** in every run in which nothing is in flight at a `clear` and loaders
    return promises. -/
theorem clear_effective {es : List (CacheEvent R)}
    (hok : (listCache ttlMs).Always Undisturbed {} es) : Effective ttlMs es := by
  refine ⟨clearsLoads hok, ?_, failsClean hok⟩
  intro before after _
  exact (OneLoad.run before).length_running

/-- What a provider lists. -/
def listed : ModelListResult := { models := [⟨"a"⟩, ⟨"b"⟩], source := .provider }

/-- Two loads with a `clear` between them. -/
theorem clear_effective_reloaded : Effective defaultListTtlMs
    [.get 0 false, .settle 0 (some listed) 1, .get 2 false, .clear, .get 3 false, .settle 1 none 4] := by
  have hok : (createModelListCache defaultListTtlMs).Always Undisturbed {}
      [.get 0 false, .settle 0 (some listed) 1, .get 2 false, .clear, .get 3 false,
        .settle 1 none 4] := by decide +kernel
  exact clear_effective hok

/-- **A load that was in flight at a `clear`** is stored when it completes. -/
theorem cleared_in_flight : ¬ Effective defaultListTtlMs
    [.get 0 false, .clear, .settle 0 (some listed) 1, .get 2 false] := by
  rintro ⟨hclears, -⟩
  have hstale : (((listCache defaultListTtlMs).run {} ([.get 0 false] ++ [.clear] ++
      [.settle 0 (some listed) 1])).get 2 false).1 = .value ⟨0, listed⟩ := by decide +kernel
  have hload := hclears [.get 0 false] [.settle 0 (some listed) 1] 2 false [] 0 rfl
  unfold Resolves at hload
  simp only [List.cons_append, List.nil_append] at hstale hload
  rw [hstale] at hload
  exact absurd (hload rfl) (by decide)

end NexusCode.Shared
