/-
  `MemoryCache`: entries with a time to live, and the least recently used one evicted first.

  The order of the entries in the map is the order of their use: `set` and a successful `get` put
  an entry last, and an entry that is evicted is the first one.  `peek` and `has` leave the order
  alone.  An expired entry stays until a call meets it.

    1. `MemoryCache`, `memoryCache` — the operations, call after call.
    2. `latest`, `others`           — what a history of calls says of a key: the value last set, and
       the other keys that were used since.
    3. `Tracks`                     — the store keeps what the history says, in the order of use;
       `Tracks.shrink` for calls that drop entries, `Tracks.replace` for those that use one.
    4. **`lru`**                    — the cache is an LRU cache.
-/
import Mathlib.Data.Finset.Card
import NexusCode.Lib.JsMap
import NexusCode.Lib.Machine

namespace NexusCode.Cache

open Lib List Option

/-! ## The cache -/

/-- `StoredEntry<V>`. -/
structure StoredEntry (V : Type) where
  key : String
  value : V
  createdAt : Rat
  lastAccess : Rat
  hits : Nat := 0
  expiresAt : Option Rat := none

/-- `MemoryCacheOptions`; without `maxEntries` there is no bound. -/
structure MemoryCacheOptions where
  maxEntries : Option Nat := none
  defaultTtlMs : Option Rat := none

/-- `MemoryCache<V>`. -/
structure MemoryCache (V : Type) where
  store : JsMap String (StoredEntry V) := .empty
  evictions : Nat := 0
  expirations : Nat := 0

variable {V : Type}

/-- `isExpired(entry, now)`. -/
def isExpired (entry : StoredEntry V) (now : Rat) : Bool :=
  match entry.expiresAt with
  | some expiresAt => expiresAt ≤ now
  | none => false

namespace MemoryCache

variable (c : MemoryCache V)

/-- The entry of the key, which is dropped if it is expired. -/
def live (key : String) (now : Rat) : Option (StoredEntry V) × MemoryCache V :=
  match c.store.get? key with
  | none => (none, c)
  | some entry =>
    if isExpired entry now then
      (none, { c with store := c.store.delete key, expirations := c.expirations + 1 })
    else (some entry, c)

/-- `get(key)`. -/
def get (key : String) (now : Rat) : Option V × MemoryCache V :=
  match c.live key now with
  | (none, c) => (none, c)
  | (some entry, c) =>
    (some entry.value,
      { c with
        store := (c.store.delete key).set key
          { entry with hits := entry.hits + 1, lastAccess := now } })

/-- `peek(key)`. -/
def peek (key : String) (now : Rat) : Option (StoredEntry V) × MemoryCache V := c.live key now

/-- `has(key)`. -/
def has (key : String) (now : Rat) : Bool × MemoryCache V :=
  ((c.live key now).1.isSome, (c.live key now).2)

/-- The first key is deleted, `n` times. -/
def evict : Nat → MemoryCache V → MemoryCache V
  | 0, c => c
  | n + 1, c =>
    match c.store.keys with
    | [] => c
    | oldest :: _ =>
      evict n { c with store := c.store.delete oldest, evictions := c.evictions + 1 }

/-- `evictToCapacity()`: every round of the loop takes off one entry. -/
def evictToCapacity (maxEntries : Option Nat) : MemoryCache V :=
  match maxEntries with
  | none => c
  | some max => evict (c.store.entries.length - max) c

/-- `set(key, value, { ttlMs })`. -/
def set (opts : MemoryCacheOptions) (key : String) (value : V) (ttlMs : Option Rat) (now : Rat) :
    MemoryCache V :=
  let entry : StoredEntry V :=
    { key, value, createdAt := now, lastAccess := now
      expiresAt := (ttlMs.or opts.defaultTtlMs).map (now + ·) }
  evictToCapacity { c with store := (c.store.delete key).set key entry } opts.maxEntries

/-- `delete(key)`. -/
def delete (key : String) : Bool × MemoryCache V :=
  ((c.store.get? key).isSome, { c with store := c.store.delete key })

/-- `clear()`. -/
def clear : MemoryCache V := { c with store := .empty }

/-- The loop of `size` and `keys`, which drops the expired entries. -/
def sweep (now : Rat) : MemoryCache V :=
  { c with
    store := c.store.filter fun e => !isExpired e.2 now
    expirations := c.expirations + c.store.count fun entry => isExpired entry now }

end MemoryCache

/-- A call. -/
inductive CacheCall (V : Type) where
  | get (key : String)
  | peek (key : String)
  | set (key : String) (value : V) (ttlMs : Option Rat)
  | has (key : String)
  | delete (key : String)
  | clear
  | size
  | keys

/-- The answer to a call. -/
inductive CacheReply (V : Type) where
  | value (value : Option V)
  | entry (entry : Option (StoredEntry V))
  | done
  | flag (value : Bool)
  | size (n : Nat)
  | keys (keys : List String)

/-- A `MemoryCache`, called at one reading of the clock after another. -/
def memoryCache (opts : MemoryCacheOptions) :
    Machine (MemoryCache V) (Rat × CacheCall V) (CacheReply V) where
  step c
    | (now, .get key) => (.value (c.get key now).1, (c.get key now).2)
    | (now, .peek key) => (.entry (c.peek key now).1, (c.peek key now).2)
    | (now, .set key value ttlMs) => (.done, c.set opts key value ttlMs now)
    | (now, .has key) => (.flag (c.has key now).1, (c.has key now).2)
    | (_, .delete key) => (.flag (c.delete key).1, (c.delete key).2)
    | (_, .clear) => (.done, c.clear)
    | (now, .size) => (.size (c.sweep now).store.entries.length, c.sweep now)
    | (now, .keys) => (.keys ((c.sweep now).store.values.map StoredEntry.key), c.sweep now)

/-! ## What a history says -/

/-- The calls so far with their answers, the last one first. -/
abbrev History (V : Type) := List ((Rat × CacheCall V) × CacheReply V)

/-- The value last set under the key and when it expires, unless it was deleted or cleared since. -/
def latest (opts : MemoryCacheOptions) (k : String) : History V → Option (V × Option Rat)
  | [] => none
  | ((now, .set key value ttlMs), _) :: h =>
    if key = k then some (value, (ttlMs.or opts.defaultTtlMs).map (now + ·)) else latest opts k h
  | ((_, .delete key), _) :: h => if key = k then none else latest opts k h
  | ((_, .clear), _) :: _ => none
  | _ :: h => latest opts k h

/-- The key a call used: set it, or read it successfully. -/
def used : (Rat × CacheCall V) × CacheReply V → Option String
  | ((_, .set key _ _), _) => some key
  | ((_, .get key), .value (some _)) => some key
  | _ => none

/-- The other keys that were used since the key was. -/
def others (k : String) : History V → List String
  | [] => []
  | e :: h =>
    match used e with
    | some key => if key = k then [] else key :: others k h
    | none => others k h

/-- The history of a run. -/
def historyOf (opts : MemoryCacheOptions) (calls : List (Rat × CacheCall V)) : History V :=
  (calls.zip ((memoryCache opts).answers {} calls)).reverse

/-! ## The store keeps what the history says -/

variable {opts : MemoryCacheOptions} {h h' : History V} {clock now : Rat}

/-- An entry need not be there any more: it is expired, or as many other keys as there is room for
    were used since. -/
def Gone (opts : MemoryCacheOptions) (clock : Rat) (expiresAt : Option Rat) (since : List String) :
    Prop :=
  (∃ t, expiresAt = some t ∧ t ≤ clock) ∨
    ∃ max, opts.maxEntries = some max ∧ max ≤ since.toFinset.card

theorem Gone.later {x : Option Rat} {since : List String} (h : Gone opts clock x since)
    (hle : clock ≤ now) : Gone opts now x since := by
  rcases h with ⟨t, ht, hexpired⟩ | hmany
  · exact .inl ⟨t, ht, Rat.le_trans hexpired hle⟩
  · exact .inr hmany

/-- **The store keeps what the history says**, in the order of use. -/
structure Tracks (opts : MemoryCacheOptions) (h : History V) (clock : Rat)
    (store : JsMap String (StoredEntry V)) : Prop where
  value : ∀ k e, store.get? k = some e → latest opts k h = some (e.value, e.expiresAt)
  kept : ∀ k v x, latest opts k h = some (v, x) →
    (∃ e, store.get? k = some e) ∨ Gone opts clock x (others k h)
  recent : store.entries.Pairwise fun a b => b.1 ∈ others a.1 h

/-- The store is within its bound. -/
def Bounded (opts : MemoryCacheOptions) (store : JsMap String (StoredEntry V)) : Prop :=
  ∀ max, opts.maxEntries = some max → store.entries.length ≤ max

theorem get?_of_sublist {m m' : JsMap String (StoredEntry V)}
    (hsub : m'.entries.Sublist m.entries) {k : String} {e : StoredEntry V}
    (he : m'.get? k = some e) : m.get? k = some e :=
  (m.mem_entries k e).mp (hsub.subset ((m'.mem_entries k e).mpr he))

namespace Tracks

variable {store store' : JsMap String (StoredEntry V)}

theorem later (ht : Tracks opts h clock store) (hle : clock ≤ now) : Tracks opts h now store :=
  ⟨ht.value, fun k v x hx => (ht.kept k v x hx).imp_right fun hgone => hgone.later hle, ht.recent⟩

/-- **Dropping entries** that need not be there, by a call that uses no key and sets none. -/
theorem shrink (ht : Tracks opts h clock store) (hlatest : ∀ k, latest opts k h' = latest opts k h)
    (hothers : ∀ k, others k h' = others k h) (hsub : store'.entries.Sublist store.entries)
    (hgone : ∀ k e, store.get? k = some e →
      store'.get? k = some e ∨ Gone opts clock e.expiresAt (others k h)) :
    Tracks opts h' clock store' := by
  refine ⟨?_, ?_, ?_⟩
  · intro k e he
    rw [hlatest]
    exact ht.value k e (get?_of_sublist hsub he)
  · intro k v x hx
    rw [hlatest] at hx
    rw [hothers]
    rcases ht.kept k v x hx with ⟨e, he⟩ | hgone'
    · have hsame := ht.value k e he
      rw [hx] at hsame
      obtain ⟨rfl, rfl⟩ := Prod.mk.inj (some.inj hsame)
      exact (hgone k e he).imp_left fun he => ⟨e, he⟩
    · exact .inr hgone'
  · refine (ht.recent.sublist hsub).imp fun {a b} hmem => ?_
    rw [hothers]
    exact hmem

theorem others_used {e : (Rat × CacheCall V) × CacheReply V} {key : String} (he : used e = some key)
    (k : String) : others k (e :: h) = if key = k then [] else key :: others k h := by
  rw [others, he]

/-- **Using an entry** puts it last. -/
theorem replace (ht : Tracks opts h clock store) {e : (Rat × CacheCall V) × CacheReply V}
    {key : String} {entry : StoredEntry V} (he : used e = some key)
    (hkey : latest opts key (e :: h) = some (entry.value, entry.expiresAt))
    (hother : ∀ k, key ≠ k → latest opts k (e :: h) = latest opts k h) :
    Tracks opts (e :: h) clock ((store.delete key).set key entry) := by
  refine ⟨?_, ?_, ?_⟩
  · intro k e' he'
    rw [JsMap.get?_set] at he'
    split at he'
    · rename_i heq
      subst heq
      rw [hkey, some.inj he']
    · rename_i hne
      rw [JsMap.get?_delete, if_neg hne] at he'
      rw [hother k hne]
      exact ht.value k e' he'
  · intro k v x hx
    by_cases heq : key = k
    · subst heq
      exact .inl ⟨entry, JsMap.get?_set_self ..⟩
    · rw [hother k heq] at hx
      rw [others_used he, if_neg heq, JsMap.get?_set_of_ne _ _ heq, JsMap.get?_delete, if_neg heq]
      refine (ht.kept k v x hx).imp_right ?_
      rintro (hexpired | ⟨max, hmax, hmany⟩)
      · exact .inl hexpired
      · refine .inr ⟨max, hmax, Nat.le_trans hmany (Finset.card_le_card ?_)⟩
        intro k' hk'
        rw [List.mem_toFinset] at hk' ⊢
        exact mem_cons_of_mem key hk'
  · rw [JsMap.entries_replace]
    have hdelete : ∀ a ∈ (store.delete key).entries, key ≠ a.1 := by
      intro a ha
      exact Ne.symm (of_decide_eq_true (mem_filter.mp ha).2)
    refine pairwise_append.mpr ⟨?_, pairwise_singleton _ _, ?_⟩
    · refine (ht.recent.sublist filter_sublist).imp_of_mem fun {a b} ha _ hmem => ?_
      rw [others_used he, if_neg (hdelete a ha)]
      exact mem_cons_of_mem key hmem
    · intro a ha b hb
      rw [mem_singleton.mp hb, others_used he, if_neg (hdelete a ha)]
      exact mem_cons_self

end Tracks

/-! ## Eviction -/

theorem entries_delete_head {m : JsMap String (StoredEntry V)} {k : String} {e : StoredEntry V}
    {rest : List (String × StoredEntry V)} (hm : m.entries = (k, e) :: rest) :
    (m.delete k).entries = rest := by
  have hnodup := m.nodup
  rw [hm, map_cons, nodup_cons] at hnodup
  show m.entries.filter _ = rest
  rw [hm, filter_cons_of_neg (by simp), filter_eq_self]
  intro a ha
  refine decide_eq_true fun heq => hnodup.1 ?_
  rw [← heq]
  exact mem_map.mpr ⟨a, ha, rfl⟩

theorem entries_evict : ∀ (n : Nat) (c : MemoryCache V),
    (MemoryCache.evict n c).store.entries = c.store.entries.drop n
  | 0, _ => rfl
  | n + 1, c => by
    rw [MemoryCache.evict]
    cases hentries : c.store.entries with
    | nil =>
      have hkeys : c.store.keys = [] := congrArg (List.map Prod.fst) hentries
      rw [hkeys]
      exact hentries
    | cons e rest =>
      have hkeys : c.store.keys = e.1 :: rest.map Prod.fst := congrArg (List.map Prod.fst) hentries
      rw [hkeys]
      dsimp only
      rw [entries_evict n, entries_delete_head hentries]
      rfl

/-- **Eviction drops only entries behind which as many others were used** as there is room for. -/
theorem Tracks.evict {c : MemoryCache V} (ht : Tracks opts h clock c.store) :
    Tracks opts h clock (c.evictToCapacity opts.maxEntries).store ∧
      Bounded opts (c.evictToCapacity opts.maxEntries).store := by
  unfold MemoryCache.evictToCapacity Bounded
  cases hmax : opts.maxEntries with
  | none => exact ⟨ht, fun _ => nofun⟩
  | some max =>
    have hentries := entries_evict (c.store.entries.length - max) c
    dsimp only
    generalize hn : c.store.entries.length - max = n at hentries ⊢
    constructor
    · refine ht.shrink (fun _ => rfl) (fun _ => rfl) ?_ ?_
      · rw [hentries]
        exact drop_sublist _ _
      · intro k e he
        have hmem := (c.store.mem_entries k e).mpr he
        rw [← take_append_drop n c.store.entries, mem_append] at hmem
        rcases hmem with htaken | hleft
        · right
          refine .inr ⟨max, hmax, ?_⟩
          have hpairs := ht.recent
          rw [← take_append_drop n c.store.entries] at hpairs
          have hbehind := (pairwise_append.mp hpairs).2.2 (k, e) htaken
          have hnodup : ((c.store.entries.drop n).map Prod.fst).Nodup :=
            c.store.nodup.sublist ((drop_sublist _ _).map _)
          -- what is left has exactly `max` entries
          have hlength : ((c.store.entries.drop n).map Prod.fst).length = max := by
            have hpos : 0 < n := by
              cases n with
              | zero => nomatch htaken
              | succ n => exact Nat.succ_pos n
            rw [length_map, length_drop]
            omega
          rw [← hlength, ← toFinset_card_of_nodup hnodup]
          refine Finset.card_le_card fun key hkey => ?_
          rw [List.mem_toFinset] at hkey ⊢
          obtain ⟨b, hb, rfl⟩ := mem_map.mp hkey
          exact hbehind b hb
        · left
          rw [← JsMap.mem_entries, hentries]
          exact hleft
    · intro max' hmax'
      obtain rfl := some.inj hmax'
      rw [hentries, length_drop]
      omega

/-! ## Call after call -/

theorem live_cases (c : MemoryCache V) (key : String) (now : Rat) :
    (c.store.get? key = none ∧ c.live key now = (none, c)) ∨
      ∃ entry, c.store.get? key = some entry ∧
        (isExpired entry now = true ∧ (c.live key now).1 = none ∧
            (c.live key now).2.store = c.store.delete key ∨
          isExpired entry now = false ∧ c.live key now = (some entry, c)) := by
  unfold MemoryCache.live
  cases hentry : c.store.get? key with
  | none => exact .inl ⟨rfl, rfl⟩
  | some entry =>
    refine .inr ⟨entry, rfl, ?_⟩
    cases hexpired : isExpired entry now with
    | true => exact .inl ⟨rfl, by simp [hexpired], by simp [hexpired]⟩
    | false => exact .inr ⟨rfl, by simp [hexpired]⟩

theorem gone_of_expired {entry : StoredEntry V} (hexpired : isExpired entry now = true)
    (since : List String) : Gone opts now entry.expiresAt since := by
  unfold isExpired at hexpired
  split at hexpired
  · rename_i t ht
    exact .inl ⟨t, ht, of_decide_eq_true hexpired⟩
  · nomatch hexpired

theorem Bounded.sublist {store store' : JsMap String (StoredEntry V)} (h : Bounded opts store)
    (hsub : store'.entries.Sublist store.entries) : Bounded opts store' :=
  fun max hmax => Nat.le_trans hsub.length_le (h max hmax)

namespace Tracks

variable {c : MemoryCache V}

theorem live (ht : Tracks opts h now c.store) (h' : History V) (key : String)
    (hlatest : ∀ k, latest opts k h' = latest opts k h)
    (hothers : ∀ k, others k h' = others k h) : Tracks opts h' now (c.live key now).2.store ∧
      (c.live key now).2.store.entries.Sublist c.store.entries := by
  rcases live_cases c key now with ⟨-, heq⟩ | ⟨entry, hentry, ⟨hexpired, -, hstore⟩ | ⟨-, heq⟩⟩
  · rw [heq]
    exact ⟨ht.shrink hlatest hothers (List.Sublist.refl _) fun _ _ he => .inl he,
      List.Sublist.refl _⟩
  · rw [hstore]
    refine ⟨ht.shrink hlatest hothers filter_sublist fun k e he => ?_, filter_sublist⟩
    by_cases hk : key = k
    · subst hk
      rw [hentry] at he
      obtain rfl := some.inj he
      exact .inr (gone_of_expired hexpired _)
    · left
      rw [JsMap.get?_delete, if_neg hk]
      exact he
  · rw [heq]
    exact ⟨ht.shrink hlatest hothers (List.Sublist.refl _) fun _ _ he => .inl he,
      List.Sublist.refl _⟩

theorem sweep (ht : Tracks opts h now c.store) (hlatest : ∀ k, latest opts k h' = latest opts k h)
    (hothers : ∀ k, others k h' = others k h) : Tracks opts h' now (c.sweep now).store := by
  refine ht.shrink hlatest hothers filter_sublist fun k e he => ?_
  cases hexpired : isExpired e now with
  | true => exact .inr (gone_of_expired hexpired _)
  | false =>
    left
    rw [← JsMap.mem_entries]
    refine mem_filter.mpr ⟨(c.store.mem_entries k e).mpr he, ?_⟩
    rw [hexpired]
    rfl

/-- **Every call keeps what the history says**, and the bound. -/
theorem step (ht : Tracks opts h clock c.store) (hbound : Bounded opts c.store)
    (hle : clock ≤ now) (call : CacheCall V) :
    Tracks opts (((now, call), ((memoryCache opts).step c (now, call)).1) :: h) now
        ((memoryCache opts).step c (now, call)).2.store ∧
      Bounded opts ((memoryCache opts).step c (now, call)).2.store := by
  have hnow := ht.later hle
  cases call with
  | get key =>
    show Tracks opts (((now, .get key), .value (c.get key now).1) :: h) now
      (c.get key now).2.store ∧ Bounded opts (c.get key now).2.store
    obtain ⟨htracks, hsub⟩ := hnow.live (((now, .get key), .value none) :: h) key
      (fun _ => rfl) fun _ => rfl
    unfold MemoryCache.get
    rcases live_cases c key now with ⟨-, heq⟩ | ⟨entry, hentry, ⟨-, hnone, -⟩ | ⟨-, heq⟩⟩
    · rw [heq] at htracks hsub ⊢
      exact ⟨htracks, hbound.sublist hsub⟩
    · rw [show c.live key now = (none, (c.live key now).2) from Prod.ext hnone rfl]
      exact ⟨htracks, hbound.sublist hsub⟩
    · rw [heq]
      dsimp only
      refine ⟨hnow.replace rfl (hnow.value key entry hentry) fun _ _ => rfl, ?_⟩
      intro max hmax
      have hlength := hbound max hmax
      rw [JsMap.entries_replace, length_append, length_singleton]
      have hmem := (c.store.mem_entries key entry).mpr hentry
      have hdropped : ((c.store.delete key).entries).length < c.store.entries.length := by
        refine length_filter_lt_length_iff_exists.mpr ⟨_, hmem, ?_⟩
        simp
      omega
  | peek key =>
    obtain ⟨htracks, hsub⟩ := hnow.live (((now, .peek key), .entry (c.peek key now).1) :: h)
      key (fun _ => rfl) fun _ => rfl
    exact ⟨htracks, hbound.sublist hsub⟩
  | set key value ttlMs =>
    refine Tracks.evict (c := { c with store := (c.store.delete key).set key _ }) ?_
    refine hnow.replace rfl ?_ fun k hk => ?_
    · rw [latest, if_pos rfl]
    · rw [latest, if_neg hk]
  | has key =>
    obtain ⟨htracks, hsub⟩ := hnow.live (((now, .has key), .flag (c.has key now).1) :: h)
      key (fun _ => rfl) fun _ => rfl
    exact ⟨htracks, hbound.sublist hsub⟩
  | delete key =>
    refine ⟨⟨?_, ?_, ?_⟩, hbound.sublist filter_sublist⟩
    · intro k e he
      change (c.store.delete key).get? k = some e at he
      rw [JsMap.get?_delete] at he
      split at he
      · nomatch he
      · rename_i hne
        rw [latest, if_neg hne]
        exact hnow.value k e he
    · intro k v x hx
      rw [latest] at hx
      split at hx
      · nomatch hx
      · rename_i hne
        refine (hnow.kept k v x hx).imp_left ?_
        rintro ⟨e, he⟩
        refine ⟨e, ?_⟩
        show (c.store.delete key).get? k = some e
        rw [JsMap.get?_delete, if_neg hne]
        exact he
    · exact hnow.recent.sublist filter_sublist
  | clear =>
    refine ⟨⟨fun k e he => (nomatch he), fun k v x hx => (nomatch hx), List.Pairwise.nil⟩, ?_⟩
    exact fun max _ => Nat.zero_le max
  | size => exact ⟨hnow.sweep (fun _ => rfl) fun _ => rfl, hbound.sublist filter_sublist⟩
  | keys => exact ⟨hnow.sweep (fun _ => rfl) fun _ => rfl, hbound.sublist filter_sublist⟩

end Tracks

/-- **A run keeps what the history says**, where the clock does not go back. -/
theorem Tracks.run : ∀ {calls : List (Rat × CacheCall V)} {c : MemoryCache V} {h : History V}
    {clock : Rat}, Tracks opts h clock c.store → Bounded opts c.store →
      (calls.map Prod.fst).Pairwise (· ≤ ·) → (∀ call ∈ calls, clock ≤ call.1 ∧ call.1 ≤ now) →
        clock ≤ now →
          Tracks opts ((calls.zip ((memoryCache opts).answers c calls)).reverse ++ h) now
              ((memoryCache opts).run c calls).store ∧
            Bounded opts ((memoryCache opts).run c calls).store
  | [], _, _, _, ht, hbound, _, _, hle => ⟨ht.later hle, hbound⟩
  | (time, call) :: calls, c, h, clock, ht, hbound, hclock, htimes, _ => by
    obtain ⟨hfirst, hrest⟩ := pairwise_cons.mp hclock
    obtain ⟨hafter, hbefore⟩ := htimes _ mem_cons_self
    obtain ⟨htracks, hbound'⟩ := ht.step hbound hafter call
    have htimes' : ∀ call ∈ calls, time ≤ call.1 ∧ call.1 ≤ now := by
      intro call hcall
      exact ⟨hfirst _ (mem_map_of_mem hcall), (htimes call (mem_cons_of_mem _ hcall)).2⟩
    have hrun := Tracks.run htracks hbound' hrest htimes' hbefore
    rw [Machine.answers, zip_cons_cons, reverse_cons, append_assoc,
      Machine.run_cons]
    exact hrun

theorem tracks_nil (opts : MemoryCacheOptions) (clock : Rat) :
    Tracks opts ([] : History V) clock .empty :=
  ⟨fun _ _ => nofun, fun _ _ _ hx => (nomatch hx), List.Pairwise.nil⟩

/-- A value that has not expired. -/
def Unexpired (expiresAt : Option Rat) (now : Rat) : Prop := ∀ t, expiresAt = some t → now < t

theorem unexpired_iff {entry : StoredEntry V} :
    isExpired entry now = false ↔ Unexpired entry.expiresAt now := by
  unfold isExpired Unexpired
  split
  · rename_i t ht
    rw [ht, decide_eq_false_iff_not, Rat.not_le]
    exact ⟨fun hlt t' ht' => some.inj ht' ▸ hlt, fun hall => hall t rfl⟩
  · rename_i hnone
    rw [hnone]
    exact iff_of_true rfl fun _ => nofun

theorem get_eq_peek (c : MemoryCache V) (k : String) (now : Rat) :
    (c.get k now).1 = (c.peek k now).1.map StoredEntry.value := by
  unfold MemoryCache.get MemoryCache.peek
  rcases c.live k now with ⟨_ | entry, c'⟩ <;> rfl

/-- **The memory cache is an LRU cache.**  After any calls at readings of a clock that does not go
    back, the store is within its bound; what is read is the value last set under the key, neither
    deleted nor cleared since nor expired; and such a value is read if fewer other keys than there
    is room for were used since the key was. -/
theorem lru {calls : List (Rat × CacheCall V)} {now : Rat}
    (hclock : (calls.map Prod.fst ++ [now]).Pairwise (· ≤ ·)) (k : String) :
    Bounded opts ((memoryCache opts).run {} calls).store ∧
      (∀ e, (((memoryCache opts).run {} calls).peek k now).1 = some e →
        latest opts k (historyOf opts calls) = some (e.value, e.expiresAt) ∧
          Unexpired e.expiresAt now) ∧
      (∀ v, (((memoryCache opts).run {} calls).get k now).1 = some v →
        ∃ x, latest opts k (historyOf opts calls) = some (v, x) ∧ Unexpired x now) ∧
      ∀ v x, latest opts k (historyOf opts calls) = some (v, x) → Unexpired x now →
        (∀ max, opts.maxEntries = some max →
          (others k (historyOf opts calls)).toFinset.card < max) →
            (((memoryCache opts).run {} calls).get k now).1 = some v := by
  obtain ⟨hpairs, -, hbefore⟩ := pairwise_append.mp hclock
  have hbounded : Bounded opts ({} : MemoryCache V).store := fun max _ => Nat.zero_le max
  obtain ⟨htracks, hbound⟩ : Tracks opts (historyOf opts calls) now
      ((memoryCache opts).run {} calls).store ∧
        Bounded opts ((memoryCache opts).run {} calls).store := by
    cases calls with
    | nil => exact ⟨tracks_nil opts now, hbounded⟩
    | cons first rest =>
      have hfirst := (pairwise_cons.mp hpairs).1
      have htimes : ∀ call ∈ first :: rest, first.1 ≤ call.1 ∧ call.1 ≤ now := by
        intro call hcall
        refine ⟨?_, hbefore _ (mem_map_of_mem hcall) now (mem_singleton_self now)⟩
        rcases mem_cons.mp hcall with rfl | hcall
        · exact Rat.le_refl
        · exact hfirst _ (mem_map_of_mem hcall)
      have hrun := Tracks.run (tracks_nil opts first.1) hbounded hpairs htimes
        (htimes first mem_cons_self).2
      rw [append_nil] at hrun
      exact hrun
  generalize (memoryCache opts).run {} calls = c at htracks hbound ⊢
  have hpeek : ∀ e, (c.peek k now).1 = some e →
      latest opts k (historyOf opts calls) = some (e.value, e.expiresAt) ∧
        Unexpired e.expiresAt now := by
    intro e he
    unfold MemoryCache.peek at he
    rcases live_cases c k now with ⟨-, heq⟩ | ⟨entry, hentry, ⟨-, hnone, -⟩ | ⟨hlive, heq⟩⟩
    · rw [heq] at he
      nomatch he
    · rw [hnone] at he
      nomatch he
    · rw [heq] at he
      obtain rfl := some.inj he
      exact ⟨htracks.value k entry hentry, unexpired_iff.mp hlive⟩
  refine ⟨hbound, hpeek, ?_, ?_⟩
  · intro v hv
    rw [get_eq_peek] at hv
    obtain ⟨e, he, rfl⟩ := map_eq_some_iff.mp hv
    exact ⟨e.expiresAt, hpeek e he⟩
  · intro v x hx hunexpired hfew
    rcases htracks.kept k v x hx with ⟨e, he⟩ | ⟨t, ht, hexpired⟩ | ⟨max, hmax, hmany⟩
    · have hsame := htracks.value k e he
      rw [hx] at hsame
      obtain ⟨rfl, rfl⟩ := Prod.mk.inj (some.inj hsame)
      rcases live_cases c k now with ⟨hnone, -⟩ | ⟨entry, hentry, ⟨hexpired, -⟩ | ⟨-, heq⟩⟩
      · rw [he] at hnone
        nomatch hnone
      · rw [he] at hentry
        obtain rfl := some.inj hentry
        rw [unexpired_iff.mpr hunexpired] at hexpired
        nomatch hexpired
      · rw [he] at hentry
        obtain rfl := some.inj hentry
        rw [get_eq_peek, MemoryCache.peek, heq]
        rfl
    · exact absurd hexpired (Rat.not_le.mpr (hunexpired t ht))
    · exact absurd (hfew max hmax) (by omega)

/-- Room for two: of three keys, the one that was read again stays. -/
theorem lru_two : (((memoryCache { maxEntries := some 2 }).run {}
    [(0, .set "a" 1 none), (1, .set "b" 2 none), (1, .get "a"), (2, .set "c" 3 none)]).get "a" 2).1 =
      some 1 := by
  have hlru := @lru Nat { maxEntries := some 2 }
    [(0, .set "a" 1 none), (1, .set "b" 2 none), (1, .get "a"), (2, .set "c" 3 none)] 2
    (by decide +kernel) "a"
  refine hlru.2.2.2 1 none (by decide +kernel) (fun _ => nofun) fun max hmax => ?_
  obtain rfl := some.inj hmax
  decide +kernel

end NexusCode.Cache
