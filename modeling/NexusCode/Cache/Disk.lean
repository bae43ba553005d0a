/-
  `DiskCache`: one file for each key, pruned to `maxEntries` files after every write.

  What matters of a file is what the code reads of it: an entry, JSON of another shape, or no JSON.
  Of JSON of another shape `pruneToCapacity` reads `createdAt ?? 0` as a number, which may be `NaN`
  and may throw.  The directory is listed in an order of its own each time, and the sort is the
  engine's: it promises an order only where the comparator is consistent.

    1. `set`, `pruneToCapacity`, `get` — the cache on its directory.
    2. `Survives`, `InOrder`           — what is wanted: the entry is read back, and nothing goes
       before what was written earlier.
    3. `Later`                         — the files that are sorted behind the new one;
       `behind_own` counts them.
    4. **`survives_iff`**              — exactly when an entry survives its own write.
-/
import NexusCode.Cache.Memory
import NexusCode.Lib.JsSort

namespace NexusCode.Cache

open Lib List Option

/-! ## The directory -/

/-- What the code reads of a file. -/
inductive FileContent (V : Type) where
  | entry (entry : StoredEntry V)
  | otherJson (createdAt : Option JsNumber)
  | corrupt

/-- `DiskCacheOptions`, with the hash of `keyToFilename`; without `maxEntries` there is no bound. -/
structure DiskCacheOptions where
  keyToFilename : String → String
  maxEntries : Option Nat := none
  defaultTtlMs : Option Rat := none

/-- `DiskCache<V>` and its directory. -/
structure DiskCache (V : Type) where
  dir : JsMap String (FileContent V) := .empty
  evictions : Nat := 0
  expirations : Nat := 0

variable {V : Type}

/-- `f.endsWith(".json")`. -/
def isJsonFile (f : String) : Bool := ".json".toList.isSuffixOf f.toList

/-- `pathFor(key)`, inside the directory. -/
def pathFor (opts : DiskCacheOptions) (key : String) : String := opts.keyToFilename key ++ ".json"

/-- `this.readFile(f)?.createdAt ?? 0`, as a number: `none` where the conversion throws. -/
def createdAtOf : Option (FileContent V) → Option JsNumber
  | some (.entry entry) => some (.fin entry.createdAt)
  | some (.otherJson createdAt) => createdAt
  | some .corrupt => some 0
  | none => some 0

/-- A file and when its entry was created. -/
abbrev Scored := String × JsNumber

/-- `(a, b) => a.createdAt - b.createdAt`, as the sort reads it. -/
def oldestFirst (a b : Scored) : Rat := (JsNumber.sub a.2 b.2).toOrder

namespace DiskCache

variable (c : DiskCache V)

/-- `files.map((f) => ({ f, createdAt }))`, and the conversion of every `createdAt`. -/
def scored : List String → Option (List Scored)
  | [] => some []
  | f :: files => do
    let createdAt ← createdAtOf (c.dir.get? f)
    let rest ← scored files
    some ((f, createdAt) :: rest)

/-- One file is unlinked. -/
def unlink (f : String) : DiskCache V :=
  { c with dir := c.dir.delete f, evictions := c.evictions + 1 }

/-- `pruneToCapacity()`, with the files in the order in which they are listed; `none` where the
    comparator throws. -/
def pruneToCapacity (sort : (Scored → Scored → Rat) → List Scored → List Scored)
    (opts : DiskCacheOptions) (listing : List String) : Option (DiskCache V) :=
  match opts.maxEntries with
  | none => some c
  | some max =>
    let files := listing.filter isJsonFile
    if files.length ≤ max then some c
    else (c.scored files).map fun scored =>
      (((sort oldestFirst scored).take (scored.length - max)).map Prod.fst).foldl unlink c

/-- `write(entry)`. -/
def write (opts : DiskCacheOptions) (entry : StoredEntry V) : DiskCache V :=
  { c with dir := c.dir.set (pathFor opts entry.key) (.entry entry) }

/-- The entry of `set(key, value, { ttlMs })`. -/
def newEntry (opts : DiskCacheOptions) (key : String) (value : V) (ttlMs : Option Rat) (now : Rat) :
    StoredEntry V :=
  { key, value, createdAt := now, lastAccess := now
    expiresAt := (ttlMs.or opts.defaultTtlMs).map (now + ·) }

/-- `set(key, value, { ttlMs })`: whether it succeeds, and the cache after it. -/
def set (sort : (Scored → Scored → Rat) → List Scored → List Scored) (opts : DiskCacheOptions)
    (listing : List String) (key : String) (value : V) (ttlMs : Option Rat) (now : Rat) :
    Bool × DiskCache V :=
  let written := c.write opts (newEntry opts key value ttlMs now)
  match written.pruneToCapacity sort opts listing with
  | some pruned => (true, pruned)
  | none => (false, written)

/-- `get(key)`; `none` where the file holds JSON of another shape, on which the answer depends. -/
def get (opts : DiskCacheOptions) (key : String) (now : Rat) : Option (Option V × DiskCache V) :=
  match c.dir.get? (pathFor opts key) with
  | none => some (none, c)
  | some .corrupt => some (none, { c with dir := c.dir.delete (pathFor opts key) })
  | some (.otherJson _) => none
  | some (.entry entry) =>
    if isExpired entry now then
      some (none,
        { c with dir := c.dir.delete (pathFor opts key), expirations := c.expirations + 1 })
    else
      some (some entry.value, c.write opts { entry with hits := entry.hits + 1, lastAccess := now })

end DiskCache

/-! ## What is wanted -/

section Wanted

variable (sort : (Scored → Scored → Rat) → List Scored → List Scored) (opts : DiskCacheOptions)
  (listing : List String) (c : DiskCache V) (key : String) (value : V) (ttlMs : Option Rat)
  (now : Rat)

/-- `get(key)` returns the value just set, while the time to live is not over. -/
def Survives : Prop :=
  ∀ later, (∀ ttl, ttlMs.or opts.defaultTtlMs = some ttl → later < now + ttl) →
    ((c.set sort opts listing key value ttlMs now).2.get opts key later).map Prod.fst =
      some (some value)

/-- The file `f` was written before `g`: `g` is the new one, or was created later. -/
def WrittenEarlier (f g : String) : Prop :=
  let written := c.write opts (DiskCache.newEntry opts key value ttlMs now)
  f ≠ pathFor opts key ∧ (g = pathFor opts key ∨
    ∃ x y, createdAtOf (written.dir.get? f) = some x ∧ createdAtOf (written.dir.get? g) = some y ∧
      JsNumber.lt x y = true)

/-- No file is removed while one that was written earlier remains. -/
def InOrder : Prop :=
  ∀ f ∈ listing.filter isJsonFile, ∀ g ∈ listing.filter isJsonFile,
    (c.set sort opts listing key value ttlMs now).2.dir.get? g = none →
      ((c.set sort opts listing key value ttlMs now).2.dir.get? f).isSome →
        ¬ WrittenEarlier opts c key value ttlMs now f g

end Wanted

/-- The element is sorted behind another one: it compares greater, or ties and stands behind it. -/
def Later (own : Scored) (l : List Scored) (x : Scored) : Prop :=
  oldestFirst own x < 0 ∨ oldestFirst own x = 0 ∧ [own, x].Sublist l

instance (own : Scored) (l : List Scored) (x : Scored) : Decidable (Later own l x) :=
  inferInstanceAs (Decidable (_ ∨ _ ∧ _))

/-- The files are within the bound, or one of them throws, or their stamps can be sorted and fewer
    files than there is room for are later than the new one. -/
def HasRoom (opts : DiskCacheOptions) (listing : List String) (written : DiskCache V)
    (own : Scored) : Prop :=
  ∀ max, opts.maxEntries = some max → max < (listing.filter isJsonFile).length →
    ∀ l, written.scored (listing.filter isJsonFile) = some l →
      Consistent oldestFirst l ∧ (l.filter (Later own l)).length < max

/-! ## Pruning -/

namespace DiskCache

variable {c : DiskCache V} {opts : DiskCacheOptions}

theorem get?_unlinked (f : String) : ∀ (names : List String) (c : DiskCache V),
    (names.foldl unlink c).dir.get? f = if f ∈ names then none else c.dir.get? f
  | [], _ => (if_neg not_mem_nil).symm
  | name :: names, c => by
    rw [foldl_cons, get?_unlinked f names]
    show (if f ∈ names then none else (c.dir.delete name).get? f) = _
    rw [JsMap.get?_delete]
    by_cases hname : name = f
    · simp [hname]
    · simp [hname, Ne.symm hname]

theorem scored_spec : ∀ {files : List String} {l : List Scored}, c.scored files = some l →
    l.map Prod.fst = files ∧ ∀ x ∈ l, createdAtOf (c.dir.get? x.1) = some x.2
  | [], l, h => by
    obtain rfl := some.inj h
    exact ⟨rfl, fun _ => nofun⟩
  | f :: files, l, h => by
    rw [scored] at h
    obtain ⟨createdAt, hcreated, h⟩ := bind_eq_some_iff.mp h
    obtain ⟨rest, hrest, h⟩ := bind_eq_some_iff.mp h
    obtain rfl := some.inj h
    obtain ⟨hnames, hstamps⟩ := scored_spec hrest
    refine ⟨congrArg (f :: ·) hnames, ?_⟩
    intro x hx
    rcases mem_cons.mp hx with rfl | hx
    · exact hcreated
    · exact hstamps x hx

/-- The files that `pruneToCapacity` removes. -/
def removed (sort : (Scored → Scored → Rat) → List Scored → List Scored) (max : Nat)
    (l : List Scored) : List String :=
  ((sort oldestFirst l).take (l.length - max)).map Prod.fst

/-- Pruning leaves the directory alone, or removes some files. -/
theorem prune_cases (sort : (Scored → Scored → Rat) → List Scored → List Scored)
    (listing : List String) :
    (c.pruneToCapacity sort opts listing).getD c = c ∧
        (∀ max, opts.maxEntries = some max → max < (listing.filter isJsonFile).length →
          c.scored (listing.filter isJsonFile) = none) ∨
      ∃ max l, opts.maxEntries = some max ∧ max < (listing.filter isJsonFile).length ∧
        c.scored (listing.filter isJsonFile) = some l ∧
        (c.pruneToCapacity sort opts listing).getD c = (removed sort max l).foldl unlink c := by
  unfold pruneToCapacity
  cases hmax : opts.maxEntries with
  | none => exact .inl ⟨rfl, fun _ => nofun⟩
  | some max =>
    dsimp only
    by_cases hle : (listing.filter isJsonFile).length ≤ max
    · left
      rw [if_pos hle]
      refine ⟨rfl, fun max' hmax' hlt => ?_⟩
      obtain rfl := some.inj hmax'
      omega
    · rw [if_neg hle]
      cases hscored : c.scored (listing.filter isJsonFile) with
      | none => exact .inl ⟨rfl, fun _ _ _ => rfl⟩
      | some l => exact .inr ⟨max, l, rfl, Nat.lt_of_not_le hle, rfl, rfl⟩

theorem set_eq (sort : (Scored → Scored → Rat) → List Scored → List Scored)
    (listing : List String) (key : String) (value : V) (ttlMs : Option Rat) (now : Rat) :
    (c.set sort opts listing key value ttlMs now).2 =
      ((c.write opts (newEntry opts key value ttlMs now)).pruneToCapacity sort opts listing).getD
        (c.write opts (newEntry opts key value ttlMs now)) := by
  unfold set
  dsimp only
  cases (c.write opts (newEntry opts key value ttlMs now)).pruneToCapacity sort opts listing <;> rfl

end DiskCache

/-! ## The new file -/

section NewFile

variable {sort : (Scored → Scored → Rat) → List Scored → List Scored} {opts : DiskCacheOptions}
  {listing : List String} {c : DiskCache V} {key : String} {value : V} {ttlMs : Option Rat}
  {now : Rat}

theorem isJsonFile_pathFor : isJsonFile (pathFor opts key) = true := by
  unfold isJsonFile pathFor
  rw [isSuffixOf_iff_suffix, String.toList_append]
  exact suffix_append _ _

theorem get?_written : (c.write opts (DiskCache.newEntry opts key value ttlMs now)).dir.get?
    (pathFor opts key) = some (.entry (DiskCache.newEntry opts key value ttlMs now)) :=
  JsMap.get?_set_self ..

/-- **The entry survives exactly if its file is there.** -/
theorem survives_iff_kept {after : DiskCache V}
    (hafter : (c.set sort opts listing key value ttlMs now).2 = after)
    (hfile : after.dir.get? (pathFor opts key) = none ∨
      after.dir.get? (pathFor opts key) =
        some (.entry (DiskCache.newEntry opts key value ttlMs now))) :
    Survives sort opts listing c key value ttlMs now ↔
      after.dir.get? (pathFor opts key) ≠ none := by
  unfold Survives
  rw [hafter]
  rcases hfile with hnone | hentry
  · refine iff_of_false (fun hall => ?_) (fun hne => hne hnone)
    -- some reading of the clock is within the time to live
    obtain ⟨later, hlater⟩ : ∃ later, ∀ ttl, ttlMs.or opts.defaultTtlMs = some ttl →
        later < now + ttl := by
      cases httl : ttlMs.or opts.defaultTtlMs with
      | none => exact ⟨0, fun _ => nofun⟩
      | some ttl =>
        refine ⟨now + ttl - 1, fun ttl' h => ?_⟩
        obtain rfl := some.inj h
        exact sub_one_lt _
    have hget := hall later hlater
    unfold DiskCache.get at hget
    rw [hnone] at hget
    nomatch hget
  · refine iff_of_true (fun later hlater => ?_) (by rw [hentry]; exact some_ne_none _)
    unfold DiskCache.get
    rw [hentry]
    dsimp only
    have hlive : isExpired (DiskCache.newEntry opts key value ttlMs now) later = false := by
      rw [unexpired_iff]
      intro t ht
      obtain ⟨ttl, httl, rfl⟩ := map_eq_some_iff.mp ht
      exact hlater ttl httl
    rw [hlive]
    rfl

end NewFile

/-! ## Which files are removed -/

theorem mem_take_iff {α : Type} {before after : List α} {a : α}
    (hnodup : (before ++ a :: after).Nodup) (n : Nat) :
    a ∈ (before ++ a :: after).take n ↔ before.length < n := by
  have hnotMem : a ∉ before := fun hmem =>
    (nodup_append'.mp hnodup).2.2 hmem mem_cons_self
  by_cases hlt : before.length < n
  · refine iff_of_true ?_ hlt
    obtain ⟨m, hm⟩ := Nat.exists_eq_add_of_lt hlt
    rw [hm, show before.length + m + 1 = before.length + (m + 1) by omega, take_length_add_append]
    exact mem_append_right _ mem_cons_self
  · refine iff_of_false (fun hmem => hnotMem ?_) hlt
    rw [take_append_of_le_length (Nat.le_of_not_lt hlt)] at hmem
    exact mem_of_mem_take hmem

/-- **The element is among those taken off** where as many are later as there is room for. -/
theorem behind_own {sort : (Scored → Scored → Rat) → List Scored → List Scored}
    (hsort : Conforms sort) {l : List Scored} {own : Scored} (hconsistent : Consistent oldestFirst l)
    (hnodup : l.Nodup) (hown : own ∈ l) {max : Nat} (hmax : max < l.length) :
    own ∈ (sort oldestFirst l).take (l.length - max) ↔ max ≤ (l.filter (Later own l)).length := by
  obtain ⟨before, after, hsplit, hperm⟩ := hsort.behind hconsistent hnodup hown (Later own l)
    fun x => decide_eq_true_iff
  have hall := hsort.perm oldestFirst l
  rw [hsplit] at hall ⊢
  have hlength := hall.length_eq
  rw [length_append, length_cons] at hlength
  rw [mem_take_iff (hall.nodup_iff.mpr hnodup), ← hperm.length_eq]
  omega

section Survival

variable {opts : DiskCacheOptions} {listing : List String} {c : DiskCache V} {key : String}
  {value : V} {ttlMs : Option Rat} {now : Rat}

/-- What is scored after the write: the new file is there, and no file twice. -/
structure ScoredWith (written : DiskCache V) (files : List String) (own : Scored)
    (l : List Scored) : Prop where
  names : l.map Prod.fst = files
  stamps : ∀ x ∈ l, createdAtOf (written.dir.get? x.1) = some x.2
  nodup : l.Nodup
  present : own ∈ l
  unique : ∀ x ∈ l, x.1 = own.1 → x = own

variable {written : DiskCache V} {files : List String} {l : List Scored}

theorem ScoredWith.length {own : Scored} (h : ScoredWith written files own l) : l.length =
    files.length := by
  rw [← h.names, length_map]

theorem scoredWith (hlisting : listing.Perm
      (c.write opts (DiskCache.newEntry opts key value ttlMs now)).dir.keys)
    (hl : (c.write opts (DiskCache.newEntry opts key value ttlMs now)).scored
      (listing.filter isJsonFile) = some l) :
    ScoredWith (c.write opts (DiskCache.newEntry opts key value ttlMs now))
      (listing.filter isJsonFile) (pathFor opts key, .fin now) l := by
  obtain ⟨hnames, hstamps⟩ := DiskCache.scored_spec hl
  have hfiles : (listing.filter isJsonFile).Nodup :=
    (hlisting.nodup_iff.mpr (JsMap.nodup _)).filter _
  have hunique : ∀ x ∈ l, x.1 = pathFor opts key → x = (pathFor opts key, .fin now) := by
    intro x hx hpath
    have hstamp := hstamps x hx
    rw [hpath, get?_written] at hstamp
    exact Prod.ext hpath (some.inj hstamp).symm
  have hlisted : pathFor opts key ∈ listing.filter isJsonFile := by
    refine mem_filter.mpr ⟨hlisting.mem_iff.mpr ?_, isJsonFile_pathFor⟩
    exact (JsMap.mem_keys _ _).mpr ⟨_, get?_written⟩
  refine ⟨hnames, hstamps, List.Nodup.of_map Prod.fst (hnames ▸ hfiles), ?_, hunique⟩
  rw [← hnames] at hlisted
  obtain ⟨x, hx, hpath⟩ := mem_map.mp hlisted
  exact hunique x hx hpath ▸ hx

/-- A file is removed exactly if its stamp is among those taken off. -/
theorem mem_removed_iff {sort : (Scored → Scored → Rat) → List Scored → List Scored}
    (hsort : Conforms sort) {own : Scored} (h : ScoredWith written files own l) (max : Nat) :
    own.1 ∈ DiskCache.removed sort max l ↔
      own ∈ (sort oldestFirst l).take (l.length - max) := by
  unfold DiskCache.removed
  rw [List.mem_map]
  constructor
  · rintro ⟨x, hx, hpath⟩
    have hmem : x ∈ l := (hsort.perm oldestFirst l).mem_iff.mp (mem_of_mem_take hx)
    exact h.unique x hmem hpath ▸ hx
  · intro hown
    exact ⟨own, hown, rfl⟩

/-- **Nothing that remains was written before a file that is removed**, if the new file remains. -/
theorem removed_in_order {sort : (Scored → Scored → Rat) → List Scored → List Scored}
    (hsort : Conforms sort) {own : Scored} (h : ScoredWith written files own l)
    (hconsistent : Consistent oldestFirst l) {max : Nat} {f g : String} (hf : f ∈ files) (hfkept : f ∉ DiskCache.removed sort max l)
    (hg : g ∈ DiskCache.removed sort max l) {x y : JsNumber}
    (hx : createdAtOf (written.dir.get? f) = some x)
    (hy : createdAtOf (written.dir.get? g) = some y) : JsNumber.lt x y = false := by
  have hperm := hsort.perm oldestFirst l
  have hsorted := hsort.sorted oldestFirst l hconsistent
  obtain ⟨b, hb, rfl⟩ := mem_map.mp hg
  rw [← h.names] at hf
  obtain ⟨a, ha, rfl⟩ := mem_map.mp hf
  have hbl : b ∈ l := hperm.mem_iff.mp (mem_of_mem_take hb)
  rw [h.stamps a ha] at hx
  rw [h.stamps b hbl] at hy
  obtain rfl := some.inj hx
  obtain rfl := some.inj hy
  have halate : a ∈ (sort oldestFirst l).drop (l.length - max) := by
    have hmem := hperm.mem_iff.mpr ha
    rw [← take_append_drop (l.length - max) (sort oldestFirst l), mem_append] at hmem
    refine hmem.resolve_left fun hfront => hfkept ?_
    exact mem_map_of_mem hfront
  rw [← take_append_drop (l.length - max) (sort oldestFirst l)] at hsorted
  have hbefore := (pairwise_append.mp hsorted).2.2 b hb a halate
  have hle : oldestFirst b a ≤ 0 := by
    rcases hbefore with hlt | ⟨heq, -⟩
    · exact le_of_lt hlt
    · exact le_of_eq heq
  cases hlt : JsNumber.lt a.2 b.2 with
  | false => rfl
  | true =>
    exfalso
    have hane : a.2 ≠ .nan := by
      intro hnan
      rw [hnan] at hlt
      nomatch hlt
    have hbne : b.2 ≠ .nan := by
      intro hnan
      rw [hnan] at hlt
      generalize a.2 = u at hlt
      cases u <;> nomatch hlt
    have hneg := (JsNumber.toOrder_sub_neg_iff hane hbne).mpr hlt
    rw [oldestFirst, JsNumber.toOrder_sub_swap] at hle
    exact absurd hneg (not_lt.mpr (neg_nonpos.mp hle))

/-- **When an entry survives its own write**, and pruning goes by age, whatever the engine. -/
theorem survives_iff (hlisting : listing.Perm
      (c.write opts (DiskCache.newEntry opts key value ttlMs now)).dir.keys) :
    (∀ sort, Conforms sort → Survives sort opts listing c key value ttlMs now ∧
      InOrder sort opts listing c key value ttlMs now) ↔
    HasRoom opts listing (c.write opts (DiskCache.newEntry opts key value ttlMs now))
      (pathFor opts key, .fin now) := by
  have hpresent : ∀ f ∈ listing,
      (c.write opts (DiskCache.newEntry opts key value ttlMs now)).dir.get? f ≠ none := by
    intro f hf hnone
    exact ((JsMap.get?_eq_none _ f).mp hnone) (hlisting.mem_iff.mp hf)
  have hown : (c.write opts (DiskCache.newEntry opts key value ttlMs now)).dir.get?
      (pathFor opts key) = some (.entry (DiskCache.newEntry opts key value ttlMs now)) := get?_written
  constructor
  · intro hall max hmax hmany l hl
    have h := scoredWith hlisting hl
    have hlength : max < l.length := by
      rw [h.length]
      exact hmany
    -- whatever the engine, the new file is not taken off
    have hkept : ∀ sort, Conforms sort →
        (pathFor opts key, .fin now) ∉ (sort oldestFirst l).take (l.length - max) := by
      intro sort hsort hmem
      have hremoved := (mem_removed_iff hsort h max).mpr hmem
      have hafter : (c.set sort opts listing key value ttlMs now).2 =
          (DiskCache.removed sort max l).foldl DiskCache.unlink
            (c.write opts (DiskCache.newEntry opts key value ttlMs now)) := by
        rw [DiskCache.set_eq]
        rcases DiskCache.prune_cases sort listing with ⟨-, hnone⟩ | ⟨max', l', hmax', -, hl', heq⟩
        · rw [hnone max hmax hmany] at hl
          nomatch hl
        · rw [hmax] at hmax'
          rw [hl] at hl'
          obtain rfl := some.inj hmax'
          obtain rfl := some.inj hl'
          exact heq
      have hgone : ((DiskCache.removed sort max l).foldl DiskCache.unlink
          (c.write opts (DiskCache.newEntry opts key value ttlMs now))).dir.get?
            (pathFor opts key) = none := by
        rw [DiskCache.get?_unlinked, if_pos hremoved]
      exact (survives_iff_kept hafter (.inl hgone)).mp (hall sort hsort).1 hgone
    have hconsistent : Consistent oldestFirst l := by
      by_contra hnot
      have hfirst : ((pathFor opts key, JsNumber.fin now) ::
          l.erase (pathFor opts key, .fin now)).Perm l := (perm_cons_erase h.present).symm
      obtain ⟨sort, hsort, heq⟩ := exists_conforms hnot hfirst
      refine hkept sort hsort ?_
      rw [heq, show l.length - max = (l.length - max - 1) + 1 by omega, take_succ_cons]
      exact mem_cons_self
    refine ⟨hconsistent, ?_⟩
    by_contra hnot
    refine hkept _ conforms_sortBy ?_
    exact (behind_own conforms_sortBy hconsistent h.nodup h.present hlength).mpr (by omega)
  · intro hroom sort hsort
    rcases @DiskCache.prune_cases _ (c.write opts (DiskCache.newEntry opts key value ttlMs now)) opts
      sort listing with ⟨heq, -⟩ | ⟨max, l, hmax, hmany, hl, heq⟩
    · rw [← DiskCache.set_eq] at heq
      refine ⟨(survives_iff_kept heq (.inr hown)).mpr ?_, ?_⟩
      · rw [hown]
        exact some_ne_none _
      · intro f _ g hg hgone
        rw [heq] at hgone
        exact absurd hgone (hpresent g (mem_of_mem_filter hg))
    · rw [← DiskCache.set_eq] at heq
      have h := scoredWith hlisting hl
      have hlength : max < l.length := by
        rw [h.length]
        exact hmany
      obtain ⟨hconsistent, hfew⟩ := hroom max hmax hmany l hl
      have hkept : pathFor opts key ∉ DiskCache.removed sort max l := by
        intro hmem
        have htaken := (mem_removed_iff hsort h max).mp hmem
        exact absurd ((behind_own hsort hconsistent h.nodup h.present hlength).mp htaken)
          (by omega)
      have hfile : ((DiskCache.removed sort max l).foldl DiskCache.unlink
          (c.write opts (DiskCache.newEntry opts key value ttlMs now))).dir.get? (pathFor opts key) =
            some (.entry (DiskCache.newEntry opts key value ttlMs now)) := by
        rw [DiskCache.get?_unlinked, if_neg hkept]
        exact hown
      refine ⟨(survives_iff_kept heq (.inr hfile)).mpr ?_, ?_⟩
      · rw [hfile]
        exact some_ne_none _
      · intro f hf g hg hgone hfstays
        rw [heq, DiskCache.get?_unlinked] at hgone hfstays
        have hgremoved : g ∈ DiskCache.removed sort max l := by
          by_contra hnot
          rw [if_neg hnot] at hgone
          exact hpresent g (mem_of_mem_filter hg) hgone
        have hfkept : f ∉ DiskCache.removed sort max l := by
          intro hmem
          rw [if_pos hmem] at hfstays
          nomatch hfstays
        rintro ⟨-, rfl | ⟨x, y, hx, hy, hlt⟩⟩
        · exact hkept hgremoved
        · have hnot := removed_in_order hsort h hconsistent hf hfkept hgremoved hx hy
          rw [hlt] at hnot
          nomatch hnot

end Survival

/-- A directory with one entry, and room for one. -/
def full : DiskCache Nat :=
  ({} : DiskCache Nat).write { keyToFilename := id, maxEntries := some 1 }
    { key := "a", value := 1, createdAt := 5, lastAccess := 5 }

/-- A later write replaces the entry. -/
theorem survives_later :
    Survives (sortBy (α := Scored)) { keyToFilename := id, maxEntries := some 1 }
        ["b.json", "a.json"] full "b" 2 none 6 ∧
      InOrder (sortBy (α := Scored)) { keyToFilename := id, maxEntries := some 1 }
        ["b.json", "a.json"] full "b" 2 none 6 := by
  refine (survives_iff (List.Perm.swap ..)).mpr ?_ _ conforms_sortBy
  intro max hmax _ l hl
  obtain rfl := some.inj hmax
  obtain rfl : [("b.json", JsNumber.fin 6), ("a.json", JsNumber.fin 5)] = l := some.inj hl
  refine ⟨⟨?_, ?_, ?_, ?_, ?_⟩, ?_⟩
  all_goals decide +kernel

/-- **Written in the same millisecond, the new entry is removed** where it is listed first. -/
theorem removed_itself : ¬ Survives (sortBy (α := Scored))
    { keyToFilename := id, maxEntries := some 1 } ["b.json", "a.json"] full "b" 2 none 5 := by
  intro hall
  have hget := hall 5 fun _ => nofun
  revert hget
  decide +kernel

end NexusCode.Cache
