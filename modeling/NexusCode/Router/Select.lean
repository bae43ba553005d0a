/-
  The ordered candidate list of a route rule.

  `Router.select` asks the registry for every model it can serve, and the circuit breaker for each
  of them; filters by the rule; sorts by the rule's axis; puts the blocked candidates behind the
  others; and appends the fallback chain.

  1. `enumerate`, `order`, `select` — the router.
  2. `pairwise_order` — the sort is by the rule's key, with the registry's order where keys tie.
  3. `Chained`, `mem_chain`, `pairwise_chain` — the fallback chain, said without its loops.
  4. **`blocked_last_iff`** — no blocked candidate precedes one that is not blocked iff
     nothing that is not blocked in the chain comes behind a blocked one; the rest always holds.
  5. **`fallback_behind_blocked`** — a healthy fallback behind a blocked route.
-/
import NexusCode.Lib.JsSort
import NexusCode.Router.ProviderCircuit
import NexusCode.Router.Registry
import Mathlib.Data.List.Infix

namespace NexusCode.Router

open Lib Billing Circuit List Option

/-! ## Rules and candidates -/

/-- `RouteOptimize`. -/
inductive RouteOptimize where
  | cost
  | latency
  | quality
  | local
  | explicit
deriving DecidableEq

/-- The reason of a candidate of the optimized set. -/
def RouteOptimize.reason : RouteOptimize → RouteReason
  | cost => .cost
  | latency => .latency
  | quality => .quality
  | .local => .local
  | explicit => .explicit

/-- `RouteRule`. -/
structure RouteRule where
  optimize : RouteOptimize
  allow : Option (List String) := none
  deny : Option (List String) := none
  fallback : Option (List String) := none

/-- `RouterMetadata`; the schema takes no `NaN` for a latency. -/
structure RouterMetadata where
  pricing : Option (String → Option Pricing) := none
  latency : Option (String → Option JsNumber) := none
  quality : Option (List String) := none
  localProviderIds : Option (List String) := none
  latency_number : ∀ table, latency = some table → ∀ id, table id ≠ some .nan := by
    intro table h
    cases h

/-- The breaker a selection asks: its options, what the host supplies at each call, and the target
    of a candidate. -/
structure Circuits where
  options : Circuit.Options
  hosts : Nat → Host
  circuitTargetFor : Option (RouteCandidate → Target) := none

/-- `SelectOptions`. -/
structure SelectOptions where
  registry : ProviderRegistry
  capabilitiesNeeded : Option (Capabilities → Bool) := none
  providerCircuit : Option Circuits := none

/-- `RawCandidate`. -/
structure RawCandidate where
  providerId : String
  modelId : String
  aliases : List String
  order : Nat
  circuitBlocked : Bool

/-- `${c.providerId}/${c.modelId}`. -/
def RawCandidate.key (c : RawCandidate) : String := c.providerId ++ "/" ++ c.modelId

/-- `matches(entry, c)`. -/
def matches_ (entry : String) (c : RawCandidate) : Bool :=
  entry = c.providerId || entry = c.modelId || entry = c.key || c.aliases.contains entry

/-- A list names the candidate. -/
def names (list : Option (List String)) (c : RawCandidate) : Bool :=
  (list.getD []).any (matches_ · c)

/-- `firstMatchIndex(list, c)`. -/
def firstMatchIndex (list : Option (List String)) (c : RawCandidate) : JsNumber :=
  match (list.getD []).findIdx? (matches_ · c) with
  | some i => .fin i
  | none => .inf false

/-! ## Keys -/

section Keys

variable (toLowerCase : String → String) (meta_ : RouterMetadata)

/-- `DEFAULT_LOCAL_MARKERS`. -/
def DEFAULT_LOCAL_MARKERS : List String := ["ollama", "lmstudio", "vllm", "llamacpp", "localai"]

/-- `isLocalProvider(providerId, extra)`. -/
def isLocalProvider (providerId : String) (extra : Option (List String)) : Bool :=
  let id := toLowerCase providerId
  (extra.getD []).any (fun e => toLowerCase e = id) ||
    DEFAULT_LOCAL_MARKERS.any fun m => m.toList <:+: id.toList

/-- `priceOf(p)`. -/
def priceOf : Option Pricing → JsNumber
  | none => .inf false
  | some p => .fin (p.inputPerMTok + p.outputPerMTok)

/-- `costKey(c)`. -/
def costKey (c : RawCandidate) : JsNumber :=
  priceOf (meta_.pricing.bind fun table => table c.modelId)

/-- `latencyKey(c)`. -/
def latencyKey (c : RawCandidate) : JsNumber :=
  match meta_.latency with
  | none => .inf false
  | some t => ((t c.modelId).orElse fun _ => (t c.key).orElse fun _ => t c.providerId).getD
      (.inf false)

/-- `qualityKey(c)`. -/
def qualityKey (c : RawCandidate) : JsNumber := firstMatchIndex meta_.quality c

/-- `isLocalProvider(c.providerId, localExtra) ? 0 : 1`. -/
def localKey (c : RawCandidate) : Nat :=
  if isLocalProvider toLowerCase c.providerId meta_.localProviderIds then 0 else 1

/-- The comparison of numbers by a key, with the registry's order where the keys are equal. -/
def compareBy (key : RawCandidate → JsNumber) (a b : RawCandidate) : Rat :=
  (byKey key RawCandidate.order a b).toOrder

/-- `order(rule, pool, localExtra)`. -/
def order (rule : RouteRule) (pool : List RawCandidate) : List RawCandidate :=
  match rule.optimize with
  | .explicit => sortBy (compareBy (firstMatchIndex rule.allow)) pool
  | .cost => sortBy (compareBy (costKey meta_)) pool
  | .latency => sortBy (compareBy (latencyKey meta_)) pool
  | .quality => sortBy (compareBy (qualityKey meta_)) pool
  | .local =>
    sortBy (fun a b =>
      let la := localKey toLowerCase meta_ a
      let lb := localKey toLowerCase meta_ b
      if la ≠ lb then (la : Rat) - lb else compareBy (costKey meta_) a b) pool

/-- The axis of a rule. -/
def axisKey (rule : RouteRule) : RawCandidate → JsNumber :=
  match rule.optimize with
  | .explicit => firstMatchIndex rule.allow
  | .cost => costKey meta_
  | .latency => latencyKey meta_
  | .quality => qualityKey meta_
  | .local => costKey meta_

/-- Local providers come first where the rule asks for it. -/
def groupKey (rule : RouteRule) (c : RawCandidate) : Nat :=
  match rule.optimize with
  | .local => localKey toLowerCase meta_ c
  | _ => 0

/-- `a` comes before `b` by the rule: by its key, and by the registry's order where the keys are
    equal. -/
def RuleBefore (rule : RouteRule) (a b : RawCandidate) : Prop :=
  groupKey toLowerCase meta_ rule a < groupKey toLowerCase meta_ rule b ∨
    groupKey toLowerCase meta_ rule a = groupKey toLowerCase meta_ rule b ∧
      KeyBefore (axisKey meta_ rule) RawCandidate.order a b

end Keys

/-! ## The selection -/

/-- `circuitBlocked` of the `n`-th candidate, and the breaker after the call; nothing when the
    target has no provider, which is a `TypeError`. -/
def circuitBlocked (circuits : Option Circuits) (n : Nat) (candidate : RouteCandidate)
    (s : Breaker) : Option (Bool × Breaker) :=
  match circuits with
  | none => some (false, s)
  | some c =>
    match s.perform c.options (c.hosts n) (.status (circuitTarget c.circuitTargetFor candidate)) with
    | (.status status, s) =>
      some (status.availability = .blocked || status.availability = .probing, s)
    | _ => none

/-- The inner loop of the enumeration. -/
def enumerateModels (circuits : Option Circuits) (providerId : String) :
    List ModelInfo → List RawCandidate × Breaker → Option (List RawCandidate × Breaker)
  | [], state => some state
  | m :: models, (raw, s) =>
    match circuitBlocked circuits raw.length { providerId, modelId := m.id, reason := .explicit } s with
    | none => none
    | some (blocked, s) =>
      enumerateModels circuits providerId models (raw ++ [{
        providerId
        modelId := m.id
        aliases := m.aliases.getD []
        order := raw.length
        circuitBlocked := blocked }], s)

/-- The provider is healthy as far as known and has the capabilities. -/
def eligible (opts : SelectOptions) (e : RegistryEntry) : Bool :=
  e.health ≠ some false && (match opts.capabilitiesNeeded with
    | none => true
    | some needed => needed e.caps)

/-- The outer loop of the enumeration. -/
def enumerateEntries (circuits : Option Circuits) :
    List RegistryEntry → List RawCandidate × Breaker → Option (List RawCandidate × Breaker)
  | [], state => some state
  | e :: entries, state =>
    match enumerateModels circuits e.id e.caps.models state with
    | none => none
    | some state => enumerateEntries circuits entries state

/-- `raw`, and the breaker that has been asked. -/
def enumerate (opts : SelectOptions) (s : Breaker) : Option (List RawCandidate × Breaker) :=
  enumerateEntries opts.providerCircuit (opts.registry.entries.filter (eligible opts)) ([], s)

/-- `pool` after the gating. -/
def gate (rule : RouteRule) (raw : List RawCandidate) : List RawCandidate :=
  let pool := if rule.allow.getD [] ≠ [] then raw.filter (names rule.allow) else raw
  pool.filter fun c => !names rule.deny c

/-- The blocked candidates behind the others. -/
def partition_ (scored : List RawCandidate) : List RawCandidate :=
  scored.filter (!·.circuitBlocked) ++ scored.filter (·.circuitBlocked)

/-- The candidates of one fallback entry, and the keys seen after them. -/
def chainEntry (rule : RouteRule) (entry : String) :
    List RawCandidate → List String → List RawCandidate × List String
  | [], seen => ([], seen)
  | c :: raw, seen =>
    if names rule.deny c || !matches_ entry c || c.key ∈ seen then chainEntry rule entry raw seen
    else
      let (chain, seen) := chainEntry rule entry raw (c.key :: seen)
      (c :: chain, seen)

/-- The fallback chain. -/
def chainEntries (rule : RouteRule) (raw : List RawCandidate) :
    List String → List String → List RawCandidate
  | [], _ => []
  | entry :: entries, seen =>
    let (chain, seen) := chainEntry rule entry raw seen
    chain ++ chainEntries rule raw entries seen

section Selection

variable (toLowerCase : String → String) (meta_ : RouterMetadata)

/-- The optimized set. -/
def optimized (rule : RouteRule) (raw : List RawCandidate) : List RawCandidate :=
  partition_ (order toLowerCase meta_ rule (gate rule raw))

/-- What is appended to it. -/
def chain (rule : RouteRule) (raw : List RawCandidate) : List RawCandidate :=
  chainEntries rule raw (rule.fallback.getD [])
    ((optimized toLowerCase meta_ rule raw).map RawCandidate.key)

/-- `{ providerId: c.providerId, modelId: c.modelId, reason }`. -/
def RawCandidate.routed (reason : RouteReason) (c : RawCandidate) : RouteCandidate where
  providerId := c.providerId
  modelId := c.modelId
  reason := reason

/-- `select(rule, opts)`, and the breaker that has been asked. -/
def select (rule : RouteRule) (opts : SelectOptions) (s : Breaker) :
    Option (List RouteCandidate × Breaker) :=
  (enumerate opts s).map fun (raw, s) =>
    ((optimized toLowerCase meta_ rule raw).map (RawCandidate.routed rule.optimize.reason) ++
      (chain toLowerCase meta_ rule raw).map (RawCandidate.routed .fallback), s)

end Selection

/-! ## What is promised -/

/-- The provider and the model of a candidate. -/
def RawCandidate.pair (c : RawCandidate) : String × String := (c.providerId, c.modelId)

section Promise

variable (toLowerCase : String → String) (meta_ : RouterMetadata)

/-- What a selection promises: no blocked candidate before one that is not, none that is denied,
    none twice, and the optimized set by the rule. -/
structure Ranked (registry : ProviderRegistry) (rule : RouteRule) (raw : List RawCandidate) :
    Prop where
  blockedLast : (optimized toLowerCase meta_ rule raw ++ chain toLowerCase meta_ rule raw).Pairwise
    fun a b => a.circuitBlocked = true → b.circuitBlocked = true
  permitted : ∀ c ∈ optimized toLowerCase meta_ rule raw ++ chain toLowerCase meta_ rule raw,
    names rule.deny c = false
  once : registry.DistinctModels → ((optimized toLowerCase meta_ rule raw ++
    chain toLowerCase meta_ rule raw).map RawCandidate.pair).Nodup
  ordered : ((optimized toLowerCase meta_ rule raw).filter (!·.circuitBlocked)).Pairwise
    (RuleBefore toLowerCase meta_ rule)

end Promise

/-- `a` comes before `b` in the fallback chain: an earlier entry names it, or the first entry that
    names them is the same and the registry has it earlier. -/
def ChainBefore (rule : RouteRule) : RawCandidate → RawCandidate → Prop :=
  KeyBefore (firstMatchIndex rule.fallback) RawCandidate.order

/-- The candidate is in the fallback chain: it is not denied, the chain names it, no candidate that
    passed the gates has its key, and of those with its key it is the first. -/
structure Chained (rule : RouteRule) (raw : List RawCandidate) (c : RawCandidate) : Prop where
  mem : c ∈ raw
  permitted : names rule.deny c = false
  named : names rule.fallback c = true
  fresh : ∀ p ∈ gate rule raw, p.key ≠ c.key
  first : ∀ c' ∈ raw, c'.key = c.key → names rule.deny c' = false → names rule.fallback c' = true →
    ¬ ChainBefore rule c' c

/-- Where the chain has a candidate that is not blocked, no candidate that passed the gates is
    blocked, and none that comes before it in the chain. -/
def NoneBehindBlocked (rule : RouteRule) (raw : List RawCandidate) : Prop :=
  ∀ c, Chained rule raw c → c.circuitBlocked = false →
    (∀ p ∈ gate rule raw, p.circuitBlocked = false) ∧
    ∀ c', Chained rule raw c' → ChainBefore rule c' c → c'.circuitBlocked = false

/-! ## The enumeration -/

section Enumeration

variable {circuits : Option Circuits} {raw raw' : List RawCandidate} {s s' : Breaker}

/-- The inner loop adds one candidate for each model, numbered on. -/
theorem enumerateModels_spec {providerId : String} {models : List ModelInfo}
    (h : enumerateModels circuits providerId models (raw, s) = some (raw', s')) :
    ∃ new, raw' = raw ++ new ∧ new.map RawCandidate.pair = models.map (providerId, ·.id) ∧
      new.map RawCandidate.order = List.range' raw.length new.length := by
  induction models generalizing raw s with
  | nil =>
    cases h
    exact ⟨[], (append_nil _).symm, rfl, rfl⟩
  | cons m models ih =>
    rw [enumerateModels] at h
    split at h
    · cases h
    · rename_i blocked s₁ _
      obtain ⟨new, rfl, hpairs, horders⟩ := ih h
      refine ⟨_ :: new, append_assoc _ _ _, ?_, ?_⟩
      · rw [map_cons, hpairs]
        rfl
      · rw [length_append] at horders
        rw [map_cons, horders]
        rfl

theorem enumerateEntries_spec {entries : List RegistryEntry}
    (h : enumerateEntries circuits entries (raw, s) = some (raw', s')) :
    ∃ new, raw' = raw ++ new ∧
      new.map RawCandidate.pair = entries.flatMap (fun e => e.caps.models.map (e.id, ·.id)) ∧
      new.map RawCandidate.order = List.range' raw.length new.length := by
  induction entries generalizing raw s with
  | nil =>
    cases h
    exact ⟨[], (append_nil _).symm, rfl, rfl⟩
  | cons e entries ih =>
    rw [enumerateEntries] at h
    split at h
    · cases h
    · rename_i state hstate
      obtain ⟨raw₁, s₁⟩ := state
      obtain ⟨first, rfl, hpairs, horders⟩ := enumerateModels_spec hstate
      obtain ⟨rest, rfl, hpairs', horders'⟩ := ih h
      refine ⟨first ++ rest, append_assoc _ _ _, ?_, ?_⟩
      · rw [map_append, hpairs, hpairs', flatMap_cons]
      · rw [map_append, horders, horders', length_append, length_append,
          range'_append_1]

variable {opts : SelectOptions}

/-- The candidates are numbered in the order of the registry. -/
theorem pairwise_raw (h : enumerate opts s = some (raw, s')) :
    raw.Pairwise fun a b => a.order < b.order := by
  obtain ⟨new, rfl, -, horders⟩ := enumerateEntries_spec h
  have hpairwise : (raw.map RawCandidate.order).Pairwise (· < ·) := by
    rw [horders]
    exact pairwise_lt_range'
  exact pairwise_map.mp hpairwise

/-- With distinct model ids there is one candidate for each pair. -/
theorem nodup_raw (h : enumerate opts s = some (raw, s')) (hdistinct : opts.registry.DistinctModels) :
    (raw.map RawCandidate.pair).Nodup := by
  obtain ⟨new, rfl, hpairs, -⟩ := enumerateEntries_spec h
  rw [hpairs, nodup_flatMap]
  constructor
  · intro e he
    have hids := hdistinct e (mem_of_mem_filter he)
    rw [show e.caps.models.map (fun m => (e.id, m.id))
      = (e.caps.models.map (·.id)).map (Prod.mk e.id) from map_map.symm]
    exact hids.map fun a b hab => (Prod.mk.inj hab).2
  · have hids := pairwise_map.mp opts.registry.ids_nodup
    refine (hids.filter (eligible opts)).imp fun {e e'} hne => ?_
    refine disjoint_left.mpr ?_
    intro pair hpair hpair'
    obtain ⟨m, -, rfl⟩ := mem_map.mp hpair
    obtain ⟨m', -, heq⟩ := mem_map.mp hpair'
    exact hne (Prod.mk.inj heq).1.symm

end Enumeration

/-! ## The optimized set -/

section Optimized

variable {toLowerCase : String → String} {meta_ : RouterMetadata} {rule : RouteRule}
  {raw : List RawCandidate}

theorem firstMatchIndex_ne_nan (list : Option (List String)) (c : RawCandidate) :
    firstMatchIndex list c ≠ .nan := by
  rw [firstMatchIndex]
  split
  · exact nofun
  · exact nofun

theorem costKey_ne_nan (c : RawCandidate) : costKey meta_ c ≠ .nan := by
  rw [costKey, priceOf.eq_def]
  split
  · exact nofun
  · exact nofun

theorem latencyKey_ne_nan (c : RawCandidate) : latencyKey meta_ c ≠ .nan := by
  rw [latencyKey]
  split
  · exact nofun
  · rename_i t ht
    have hnum := meta_.latency_number t ht
    cases hmodel : t c.modelId with
    | some x => exact fun h => hnum _ (hmodel.trans (congrArg some h))
    | none =>
      cases hkey : t c.key with
      | some x => exact fun h => hnum _ (hkey.trans (congrArg some h))
      | none =>
        cases hprovider : t c.providerId with
        | some x => exact fun h => hnum _ (hprovider.trans (congrArg some h))
        | none => exact nofun

theorem axisKey_ne_nan (rule : RouteRule) (c : RawCandidate) : axisKey meta_ rule c ≠ .nan := by
  rw [axisKey]
  cases rule.optimize with
  | explicit => exact firstMatchIndex_ne_nan _ c
  | cost => exact costKey_ne_nan c
  | latency => exact latencyKey_ne_nan c
  | quality => exact firstMatchIndex_ne_nan _ c
  | «local» => exact costKey_ne_nan c

/-- The comparison of a rule: by the group, then by the axis. -/
def compareRule (toLowerCase : String → String) (meta_ : RouterMetadata) (rule : RouteRule)
    (a b : RawCandidate) : Rat :=
  orNext (groupKey toLowerCase meta_ rule a - groupKey toLowerCase meta_ rule b)
    (compareBy (axisKey meta_ rule) a b)

theorem lawful_compareRule : Lawful (compareRule toLowerCase meta_ rule) :=
  (lawful_byKey (axisKey_ne_nan rule)).next

theorem order_eq (pool : List RawCandidate) :
    order toLowerCase meta_ rule pool = sortBy (compareRule toLowerCase meta_ rule) pool := by
  have hflat : ∀ next : Rat, orNext ((0 : Nat) - (0 : Nat)) next = next := by
    intro next
    rw [sub_self, orNext, if_neg (not_not_intro rfl)]
  rw [order]
  split
  all_goals
    rename_i hoptimize
    refine congrArg (sortBy · pool) ?_
    funext a b
    rw [compareRule, groupKey, groupKey, axisKey, hoptimize]
  · exact (hflat _).symm
  · exact (hflat _).symm
  · exact (hflat _).symm
  · exact (hflat _).symm
  · dsimp only
    simp only [orNext, ne_eq, sub_eq_zero, Nat.cast_inj]

theorem pairwise_order {pool : List RawCandidate}
    (hpool : pool.Pairwise fun a b => a.order < b.order) :
    (order toLowerCase meta_ rule pool).Pairwise (RuleBefore toLowerCase meta_ rule) := by
  rw [order_eq]
  refine (pairwise_sortBy_stable lawful_compareRule hpool).imp fun {a b} ⟨hab, hba⟩ => ?_
  rw [compareRule, orNext_nonpos_iff, Nat.cast_lt, Nat.cast_inj] at hab
  rcases hab with hgroup | ⟨hgroup, hab⟩
  · exact .inl hgroup
  refine .inr ⟨hgroup, ?_⟩
  rcases (byKey_nonpos_iff (axisKey_ne_nan rule)).mp hab with hlt | ⟨hkey, hle⟩
  · exact .inl hlt
  refine .inr ⟨hkey, ?_⟩
  by_contra hnot
  -- were they in the other order, the comparator would tie or put them the other way
  refine hnot (hba ?_)
  rw [compareRule, orNext_nonpos_iff, Nat.cast_inj]
  refine .inr ⟨hgroup.symm, (byKey_nonpos_iff (axisKey_ne_nan rule)).mpr (.inr ⟨hkey.symm, ?_⟩)⟩
  intro _
  omega

theorem gate_sublist : (gate rule raw).Sublist raw := by
  rw [gate]
  refine filter_sublist.trans ?_
  split
  · exact filter_sublist
  · exact List.Sublist.refl _

theorem gate_permitted {c : RawCandidate} (h : c ∈ gate rule raw) : names rule.deny c = false := by
  have hkept := (mem_filter.mp h).2
  rwa [Bool.not_eq_true'] at hkept

theorem partition_perm (scored : List RawCandidate) : (partition_ scored).Perm scored := by
  have h := filter_append_perm (fun c : RawCandidate => !c.circuitBlocked) scored
  simp only [Bool.not_not] at h
  exact h

theorem optimized_perm : (optimized toLowerCase meta_ rule raw).Perm (gate rule raw) := by
  refine (partition_perm _).trans ?_
  rw [order_eq]
  exact sortBy_perm _

theorem mem_optimized {c : RawCandidate} :
    c ∈ optimized toLowerCase meta_ rule raw ↔ c ∈ gate rule raw := optimized_perm.mem_iff

/-- Within the optimized set the blocked candidates are last. -/
theorem optimized_blockedLast : (optimized toLowerCase meta_ rule raw).Pairwise
    fun a b => a.circuitBlocked = true → b.circuitBlocked = true := by
  refine pairwise_append.mpr ⟨?_, ?_, ?_⟩
  · refine pairwise_of_forall_mem_list fun a ha b _ hblocked => ?_
    have hfree := (mem_filter.mp ha).2
    rw [hblocked] at hfree
    cases hfree
  · exact pairwise_of_forall_mem_list fun a _ b hb _ => (mem_filter.mp hb).2
  · exact fun a _ b hb _ => (mem_filter.mp hb).2

theorem optimized_ordered (hraw : raw.Pairwise fun a b => a.order < b.order) :
    ((optimized toLowerCase meta_ rule raw).filter (!·.circuitBlocked)).Pairwise
      (RuleBefore toLowerCase meta_ rule) := by
  have hnone : ((order toLowerCase meta_ rule (gate rule raw)).filter (·.circuitBlocked)).filter
      (!·.circuitBlocked) = [] := by
    rw [filter_eq_nil_iff]
    intro c hc
    rw [(mem_filter.mp hc).2]
    decide
  rw [optimized, partition_, filter_append, hnone, append_nil]
  exact ((pairwise_order (hraw.sublist gate_sublist)).filter _).filter _

end Optimized

/-! ## The fallback chain -/

section Chain

variable {rule : RouteRule} {raw : List RawCandidate} {entry : String} {seen : List String}
  {c : RawCandidate}

/-- A candidate the loop of an entry looks at: it is not denied and the entry matches. -/
def Offered (rule : RouteRule) (entry : String) (c : RawCandidate) : Prop :=
  names rule.deny c = false ∧ matches_ entry c = true

/-- What the loop of one entry appends. -/
structure Appended (rule : RouteRule) (entry : String) (raw : List RawCandidate)
    (seen : List String) (chain : List RawCandidate) (seen' : List String) : Prop where
  sublist : chain.Sublist raw
  offered : ∀ c ∈ chain, Offered rule entry c ∧ c.key ∉ seen
  nodup : (chain.map RawCandidate.key).Nodup
  seen_iff : ∀ key, key ∈ seen' ↔ key ∈ seen ∨ key ∈ chain.map RawCandidate.key
  first : ∀ c ∈ raw, Offered rule entry c → c.key ∉ seen →
    ∃ c' ∈ chain, c'.key = c.key ∧ (c' = c ∨ c'.order < c.order)

variable (rule entry seen) in
theorem chainEntry_appended (hraw : raw.Pairwise fun a b => a.order < b.order) :
    Appended rule entry raw seen (chainEntry rule entry raw seen).1
      (chainEntry rule entry raw seen).2 := by
  induction raw generalizing seen with
  | nil =>
    exact ⟨List.Sublist.refl _, fun c h => absurd h not_mem_nil, nodup_nil,
      fun key => (or_iff_left not_mem_nil).symm, fun c h => absurd h not_mem_nil⟩
  | cons c raw ih =>
    obtain ⟨hc, hraw⟩ := pairwise_cons.mp hraw
    rw [chainEntry]
    split
    · rename_i hskip
      obtain ⟨hsublist, hoffered, hnodup, hseen, hfirst⟩ := ih seen hraw
      refine ⟨hsublist.cons c, hoffered, hnodup, hseen, fun x hx hxo hxs => ?_⟩
      rcases mem_cons.mp hx with rfl | hx
      · -- what is skipped is denied, not matched or seen
        rw [hxo.1, hxo.2, decide_eq_false hxs] at hskip
        cases hskip
      · exact hfirst x hx hxo hxs
    · rename_i htake
      simp only [Bool.or_eq_true, not_or, Bool.not_eq_true, Bool.not_eq_false', decide_eq_true_eq] at htake
      obtain ⟨⟨hpermitted, hmatches⟩, hfresh⟩ := htake
      obtain ⟨hsublist, hoffered, hnodup, hseen, hfirst⟩ := ih (c.key :: seen) hraw
      refine ⟨hsublist.cons_cons c, fun x hx => ?_, ?_, fun key => ?_, fun x hx hxo hxs => ?_⟩
      · rcases mem_cons.mp hx with rfl | hx
        · exact ⟨⟨hpermitted, hmatches⟩, hfresh⟩
        · exact ⟨(hoffered x hx).1, fun h => (hoffered x hx).2 (mem_cons_of_mem _ h)⟩
      · refine nodup_cons.mpr ⟨fun h => ?_, hnodup⟩
        obtain ⟨x, hx, hkey⟩ := mem_map.mp h
        exact (hoffered x hx).2 (hkey ▸ mem_cons_self)
      · show key ∈ (chainEntry rule entry raw (c.key :: seen)).2 ↔ _
        rw [hseen, map_cons, mem_cons, mem_cons]
        tauto
      · rcases mem_cons.mp hx with rfl | hx
        · exact ⟨x, mem_cons_self, rfl, .inl rfl⟩
        · by_cases hkey : x.key = c.key
          · exact ⟨c, mem_cons_self, hkey.symm, .inr (hc x hx)⟩
          · obtain ⟨c', hc', hsame⟩ := hfirst x hx hxo fun h => by
              rcases mem_cons.mp h with h | h
              · exact hkey h
              · exact hxs h
            exact ⟨c', mem_cons_of_mem _ hc', hsame⟩

/-- `a` comes before `b` in the chain of a list of entries. -/
def EntryBefore (entries : List String) : RawCandidate → RawCandidate → Prop :=
  KeyBefore (firstMatchIndex (some entries)) RawCandidate.order

theorem index_none {front : List String} (hfront : front.any (matches_ · c) = false) :
    front.findIdx? (matches_ · c) = none := by
  rw [List.findIdx?_eq_none_iff]
  intro entry hmem
  exact Bool.eq_false_iff.mpr (any_eq_false.mp hfront entry hmem)

/-- The first entry that matches is found behind those that do not. -/
theorem index_behind {front back : List String}
    (hfront : front.any (matches_ · c) = false) (hback : back.any (matches_ · c) = true) :
    ∃ i, front.length ≤ i ∧ firstMatchIndex (some (front ++ back)) c = .fin i := by
  cases hindex : back.findIdx? (matches_ · c) with
  | none =>
    obtain ⟨entry, hmem, hmatches⟩ := any_eq_true.mp hback
    rw [List.findIdx?_eq_none_iff.mp hindex entry hmem] at hmatches
    cases hmatches
  | some i =>
    refine ⟨i + front.length, Nat.le_add_left _ _, ?_⟩
    rw [firstMatchIndex, getD_some, List.findIdx?_append, index_none hfront, hindex]
    rfl

theorem index_here {front back : List String}
    (hfront : front.any (matches_ · c) = false) (hentry : matches_ entry c = true) :
    firstMatchIndex (some (front ++ entry :: back)) c = .fin front.length := by
  rw [firstMatchIndex, getD_some, List.findIdx?_append, index_none hfront,
    List.findIdx?_cons, hentry]
  show JsNumber.fin ((0 + front.length : Nat) : Rat) = _
  rw [Nat.zero_add]

theorem entryBefore_of_index {entries : List String} {a b : RawCandidate} {i j : Nat}
    (ha : firstMatchIndex (some entries) a = .fin i) (hb : firstMatchIndex (some entries) b = .fin j)
    (h : i < j ∨ i = j ∧ a.order < b.order) : EntryBefore entries a b := by
  rcases h with hlt | ⟨rfl, hlt⟩
  · left
    rw [ha, hb]
    exact decide_eq_true (Nat.cast_lt.mpr hlt)
  · exact .inr ⟨ha.trans hb.symm, hlt⟩

/-- What the loops over the entries append, when the candidates of the entries that are done have
    been seen. -/
structure Linked (raw : List RawCandidate) (rule : RouteRule) (done rest : List String)
    (seen : List String) (chain : List RawCandidate) : Prop where
  sound : ∀ c ∈ chain, c ∈ raw ∧ names rule.deny c = false ∧ c.key ∉ seen ∧
    ∃ i, done.length ≤ i ∧ firstMatchIndex (some (done ++ rest)) c = .fin i
  sorted : chain.Pairwise (EntryBefore (done ++ rest))
  nodup : (chain.map RawCandidate.key).Nodup
  complete : ∀ c ∈ raw, names rule.deny c = false → rest.any (matches_ · c) = true → c.key ∉ seen →
    ∃ c' ∈ chain, c'.key = c.key ∧ (c' = c ∨ EntryBefore (done ++ rest) c' c)

/-- The loops, entry by entry: what an entry offers is not offered by an earlier one, for it would
    have been seen. -/
theorem chainEntries_linked (hraw : raw.Pairwise fun a b => a.order < b.order)
    (rest done seen : List String)
    (hdone : ∀ c ∈ raw, names rule.deny c = false → done.any (matches_ · c) = true → c.key ∈ seen) :
    Linked raw rule done rest seen (chainEntries rule raw rest seen) := by
  induction rest generalizing done seen with
  | nil =>
    exact ⟨fun c h => absurd h not_mem_nil, List.Pairwise.nil, nodup_nil,
      fun c _ _ h => nomatch h⟩
  | cons entry rest ih =>
    rw [chainEntries]
    obtain ⟨hsublist, hoffered, hnodup, hseen, hfirst⟩ :=
      chainEntry_appended rule entry seen hraw
    generalize chainEntry rule entry raw seen = appended at *
    obtain ⟨first, seen'⟩ := appended
    dsimp only at *
    have hnotdone : ∀ c ∈ raw, names rule.deny c = false → c.key ∉ seen →
        done.any (matches_ · c) = false := by
      intro c hc hpermitted hfresh
      rw [← Bool.not_eq_true]
      exact fun h => hfresh (hdone c hc hpermitted h)
    have hhere : ∀ c ∈ first, firstMatchIndex (some (done ++ entry :: rest)) c
        = .fin done.length := by
      intro c hc
      obtain ⟨⟨hpermitted, hmatches⟩, hfresh⟩ := hoffered c hc
      exact index_here (hnotdone c (hsublist.subset hc) hpermitted hfresh) hmatches
    obtain ⟨hsound, hsorted, hnodup', hcomplete⟩ := ih (done ++ [entry]) seen' fun c hc hp h => by
      rw [hseen]
      by_cases hold : c.key ∈ seen
      · exact .inl hold
      rw [any_append, hnotdone c hc hp hold, Bool.false_or, any_cons, any_nil,
        Bool.or_false] at h
      obtain ⟨c', hc', hkey, -⟩ := hfirst c hc ⟨hp, h⟩ hold
      exact .inr (mem_map.mpr ⟨c', hc', hkey⟩)
    rw [append_assoc, singleton_append] at hsound hsorted hcomplete
    generalize chainEntries rule raw rest seen' = later at *
    refine ⟨fun c hc => ?_, ?_, ?_, fun c hc hp hnamed hfresh => ?_⟩
    · rcases mem_append.mp hc with hc | hc
      · exact ⟨hsublist.subset hc, (hoffered c hc).1.1, (hoffered c hc).2, _, Nat.le_refl _,
          hhere c hc⟩
      · obtain ⟨hmem, hp, hfresh, i, hi, hindex⟩ := hsound c hc
        rw [length_append] at hi
        exact ⟨hmem, hp, fun h => hfresh ((hseen _).mpr (.inl h)), i, Nat.le_of_add_right_le hi,
          hindex⟩
    · refine pairwise_append.mpr ⟨?_, hsorted, fun a ha b hb => ?_⟩
      · exact (hraw.sublist hsublist).imp_of_mem fun ha hb hlt =>
          entryBefore_of_index (hhere _ ha) (hhere _ hb) (.inr ⟨rfl, hlt⟩)
      · obtain ⟨-, -, -, i, hi, hindex⟩ := hsound b hb
        rw [length_append] at hi
        exact entryBefore_of_index (hhere a ha) hindex (.inl hi)
    · rw [map_append, nodup_append]
      refine ⟨hnodup, hnodup', fun key hkey key' hkey' heq => ?_⟩
      obtain ⟨c, hc, rfl⟩ := mem_map.mp hkey'
      obtain ⟨-, -, hfresh, -⟩ := hsound c hc
      exact hfresh ((hseen _).mpr (.inr (heq ▸ hkey)))
    · have hnot := hnotdone c hc hp hfresh
      cases hmatches : matches_ entry c with
      | true =>
        obtain ⟨c', hc', hkey, hsame⟩ := hfirst c hc ⟨hp, hmatches⟩ hfresh
        refine ⟨c', mem_append_left _ hc', hkey, hsame.imp_right fun hlt => ?_⟩
        exact entryBefore_of_index (hhere c' hc') (index_here hnot hmatches) (.inr ⟨rfl, hlt⟩)
      | false =>
        rw [any_cons, hmatches, Bool.false_or] at hnamed
        by_cases hkey : c.key ∈ seen'
        · -- an earlier candidate of this entry has the key
          obtain ⟨c', hc', hkey⟩ := mem_map.mp (((hseen _).mp hkey).resolve_left hfresh)
          have hfront : (done ++ [entry]).any (matches_ · c) = false := by
            rw [any_append, hnot, any_cons, hmatches]
            rfl
          obtain ⟨i, hi, hindex⟩ := index_behind hfront hnamed
          rw [append_assoc, singleton_append] at hindex
          rw [length_append] at hi
          exact ⟨c', mem_append_left _ hc', hkey,
            .inr (entryBefore_of_index (hhere c' hc') hindex (.inl hi))⟩
        · obtain ⟨c', hc', hsame⟩ := hcomplete c hc hp hnamed hkey
          exact ⟨c', mem_append_right _ hc', hsame⟩

end Chain

/-! ## The selection -/

section Ranked

variable {toLowerCase : String → String} {meta_ : RouterMetadata} {rule : RouteRule}
  {raw : List RawCandidate}

variable (toLowerCase meta_ rule) in
theorem chain_linked (hraw : raw.Pairwise fun a b => a.order < b.order) :
    Linked raw rule [] (rule.fallback.getD [])
      ((optimized toLowerCase meta_ rule raw).map RawCandidate.key)
      (chain toLowerCase meta_ rule raw) :=
  chainEntries_linked hraw _ _ _ fun _ _ _ h => nomatch h

theorem fresh_iff {c : RawCandidate} :
    c.key ∉ (optimized toLowerCase meta_ rule raw).map RawCandidate.key ↔
      ∀ p ∈ gate rule raw, p.key ≠ c.key := by
  rw [List.mem_map, not_exists]
  constructor
  · intro h p hp heq
    exact h p ⟨mem_optimized.mpr hp, heq⟩
  · rintro h p ⟨hp, heq⟩
    exact h p (mem_optimized.mp hp) heq

variable (toLowerCase meta_ rule) in
theorem pairwise_chain (hraw : raw.Pairwise fun a b => a.order < b.order) :
    (chain toLowerCase meta_ rule raw).Pairwise (ChainBefore rule) :=
  (chain_linked toLowerCase meta_ rule hraw).sorted

theorem names_of_index {list : Option (List String)} {c : RawCandidate} {i : Nat}
    (h : firstMatchIndex list c = .fin i) : names list c = true := by
  rw [← Bool.not_eq_false]
  intro hnot
  rw [firstMatchIndex, index_none hnot] at h
  cases h

variable (toLowerCase meta_ rule) in
theorem mem_chain (hraw : raw.Pairwise fun a b => a.order < b.order) {c : RawCandidate} :
    c ∈ chain toLowerCase meta_ rule raw ↔ Chained rule raw c := by
  obtain ⟨hsound, hsorted, hnodup, hcomplete⟩ :=
    chain_linked toLowerCase meta_ rule hraw
  constructor
  · intro hc
    obtain ⟨hmem, hp, hfresh, i, -, hindex⟩ := hsound c hc
    refine ⟨hmem, hp, ?_, fresh_iff.mp hfresh, fun c' hc' hkey hp' hnamed hbefore => ?_⟩
    · exact names_of_index hindex
    · -- the candidate of the chain with this key is `c`
      obtain ⟨c'', hc'', hkey'', hsame⟩ := hcomplete c' hc' hp' hnamed (hkey ▸ hfresh)
      obtain rfl := inj_on_of_nodup_map hnodup hc'' hc (hkey''.trans hkey)
      rcases hsame with rfl | hsame
      · exact hbefore.asymm hbefore
      · exact hbefore.asymm hsame
  · intro hc
    obtain ⟨c', hc', hkey, hsame⟩ := hcomplete c hc.mem hc.permitted hc.named (fresh_iff.mpr hc.fresh)
    rcases hsame with rfl | hbefore
    · exact hc'
    · obtain ⟨hmem, hp, -, i, -, hindex⟩ := hsound c' hc'
      exact absurd hbefore (hc.first c' hmem hkey hp (names_of_index hindex))

theorem nodup_selected (hraw : raw.Pairwise fun a b => a.order < b.order)
    (hpairs : (raw.map RawCandidate.pair).Nodup) :
    ((optimized toLowerCase meta_ rule raw ++ chain toLowerCase meta_ rule raw).map
      RawCandidate.pair).Nodup := by
  have hlinked := chain_linked toLowerCase meta_ rule hraw
  rw [map_append, nodup_append]
  refine ⟨?_, ?_, fun pair hpair pair' hpair' heq => ?_⟩
  · rw [(optimized_perm.map RawCandidate.pair).nodup_iff]
    exact hpairs.sublist (gate_sublist.map _)
  · have hkeys := hlinked.nodup
    have hmap : (chain toLowerCase meta_ rule raw).map RawCandidate.key
        = ((chain toLowerCase meta_ rule raw).map RawCandidate.pair).map fun p =>
          p.1 ++ "/" ++ p.2 := by
      rw [List.map_map]
      rfl
    rw [hmap] at hkeys
    exact hkeys.of_map _
  · obtain ⟨a, ha, rfl⟩ := mem_map.mp hpair
    obtain ⟨b, hb, rfl⟩ := mem_map.mp hpair'
    obtain ⟨-, -, hfresh, -⟩ := hlinked.sound b hb
    refine hfresh (mem_map.mpr ⟨a, ha, ?_⟩)
    rw [RawCandidate.key, RawCandidate.key, (Prod.mk.inj heq).1, (Prod.mk.inj heq).2]

theorem blockedLast_iff (hraw : raw.Pairwise fun a b => a.order < b.order) :
    ((optimized toLowerCase meta_ rule raw ++ chain toLowerCase meta_ rule raw).Pairwise
      fun a b => a.circuitBlocked = true → b.circuitBlocked = true) ↔ NoneBehindBlocked rule raw := by
  rw [pairwise_append]
  constructor
  · rintro ⟨-, hchain, hcross⟩ c hc hfree
    have hmem := (mem_chain toLowerCase meta_ rule hraw).mpr hc
    constructor
    · intro p hp
      rw [← Bool.not_eq_true]
      intro hblocked
      rw [hcross p (mem_optimized.mpr hp) c hmem hblocked] at hfree
      cases hfree
    · intro c' hc' hbefore
      have hmem' := (mem_chain toLowerCase meta_ rule hraw).mpr hc'
      rw [← Bool.not_eq_true]
      intro hblocked
      -- the order of the two in the list is that of the chain
      have hboth := (pairwise_chain toLowerCase meta_ rule hraw).and hchain
      have hpair : ∀ a ∈ chain toLowerCase meta_ rule raw, ∀ b ∈ chain toLowerCase meta_ rule raw,
          ChainBefore rule a b → a.circuitBlocked = true → b.circuitBlocked = true := by
        intro a ha b hb hab
        obtain ⟨front, back, hsplit⟩ := append_of_mem ha
        rw [hsplit] at hb hboth
        obtain ⟨-, hback, hfront⟩ := pairwise_append.mp hboth
        rcases mem_append.mp hb with hb | hb
        · exact absurd hab (hfront b hb a mem_cons_self).1.asymm
        · rcases mem_cons.mp hb with rfl | hb
          · exact absurd hab hab.asymm
          · exact ((pairwise_cons.mp hback).1 b hb).2
      rw [hpair c' hmem' c hmem hbefore hblocked] at hfree
      cases hfree
  · intro h
    refine ⟨optimized_blockedLast, ?_, fun a ha b hb hblocked => ?_⟩
    · refine (pairwise_chain toLowerCase meta_ rule hraw).imp_of_mem fun {a b} ha hb hbefore hblocked => ?_
      rw [← Bool.not_eq_false]
      intro hfree
      rw [(h b ((mem_chain toLowerCase meta_ rule hraw).mp hb) hfree).2 a ((mem_chain toLowerCase meta_ rule hraw).mp ha) hbefore] at hblocked
      cases hblocked
    · rw [← Bool.not_eq_false]
      intro hfree
      rw [(h b ((mem_chain toLowerCase meta_ rule hraw).mp hb) hfree).1 a (mem_optimized.mp ha)] at hblocked
      cases hblocked

/-- **Blocked routes are last resorts** iff the chain has none that is not blocked
    behind one that is: for every registry, rule, metadata and breaker.  The rest of what a
    selection promises always holds. -/
theorem blocked_last_iff (toLowerCase : String → String) (meta_ : RouterMetadata) (rule : RouteRule)
    (opts : SelectOptions) (s s' : Breaker) (raw : List RawCandidate)
    (hraw : enumerate opts s = some (raw, s')) :
    select toLowerCase meta_ rule opts s = some (
        (optimized toLowerCase meta_ rule raw).map (RawCandidate.routed rule.optimize.reason) ++
          (chain toLowerCase meta_ rule raw).map (RawCandidate.routed .fallback), s') ∧
      (Ranked toLowerCase meta_ opts.registry rule raw ↔ NoneBehindBlocked rule raw) := by
  have horder := pairwise_raw hraw
  constructor
  · rw [select, hraw]
    rfl
  constructor
  · intro h
    exact (blockedLast_iff horder).mp h.blockedLast
  · intro h
    refine ⟨(blockedLast_iff horder).mpr h, fun c hc => ?_,
      fun hdistinct => nodup_selected horder (nodup_raw hraw hdistinct), optimized_ordered horder⟩
    rcases mem_append.mp hc with hc | hc
    · exact gate_permitted (mem_optimized.mp hc)
    · exact ((mem_chain _ _ _ horder).mp hc).permitted

end Ranked

/-! ## Runs -/

/-- Two providers with a model each. -/
def twoProviders : ProviderRegistry where
  entries := [{ id := "p", caps := { models := [{ id := "a" }] } },
    { id := "q", caps := { models := [{ id := "b" }] } }]
  ids_nodup := by decide

/-- A breaker to which the first has failed. -/
def failedProvider : Breaker :=
  (machine Circuit.defaults).run (Breaker.start Circuit.defaults (hostAt 100000) none)
    [(hostAt 100000, .recordFailure Circuit.route busy { retryAt := some 200000 })]

/-- A selection from the two that asks this breaker. -/
def guardedOptions : SelectOptions where
  registry := twoProviders
  providerCircuit := some { options := Circuit.defaults, hosts := fun _ => hostAt 100000 }

/-- Without a fallback chain the one that has failed is the last. -/
theorem blocked_last_iff_guarded : ∃ raw s', enumerate guardedOptions failedProvider = some (raw, s') ∧
    Ranked id {} twoProviders { optimize := .explicit } raw := by
  have hsome : (enumerate guardedOptions failedProvider).isSome = true := by decide +kernel
  obtain ⟨⟨raw, s'⟩, hraw⟩ := isSome_iff_exists.mp hsome
  refine ⟨raw, s', hraw, (blocked_last_iff id {} { optimize := .explicit } guardedOptions
    failedProvider s' raw hraw).2.mpr fun c hc => ?_⟩
  cases hc.named

/-- **A healthy fallback comes behind a blocked route.** -/
theorem fallback_behind_blocked : ¬ ∀ toLowerCase meta_ rule opts s s' raw,
    enumerate opts s = some (raw, s') → Ranked toLowerCase meta_ opts.registry rule raw := by
  intro h
  have hblocked : (enumerate guardedOptions failedProvider).map (fun (raw, _) =>
      (optimized id {} { optimize := .explicit, allow := some ["p"], fallback := some ["q"] } raw ++
        chain id {} { optimize := .explicit, allow := some ["p"], fallback := some ["q"] } raw).map
          RawCandidate.circuitBlocked) = some [true, false] := by
    decide +kernel
  obtain ⟨⟨raw, s'⟩, hraw, hflags⟩ := map_eq_some_iff.mp hblocked
  have hlast := (h id {} { optimize := .explicit, allow := some ["p"], fallback := some ["q"] }
    guardedOptions failedProvider s' raw hraw).blockedLast
  obtain ⟨first, rest, hsplit, hfirst, hrest⟩ := map_eq_cons_iff.mp hflags
  obtain ⟨second, rest', rfl, hsecond, -⟩ := map_eq_cons_iff.mp hrest
  rw [hsplit] at hlast
  rw [(pairwise_cons.mp hlast).1 second mem_cons_self hfirst] at hsecond
  cases hsecond

end NexusCode.Router
