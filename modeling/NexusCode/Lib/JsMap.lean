/-
  Insertion-ordered maps, as the `Map` objects of the modelled programs.

  A map is the list of its entries in the order in which their keys were first set; that no key
  stands twice is part of the type.  Setting a key that is present overwrites its value in place.
  A program reads a map through `get?`, and each operation has one lemma that says what `get?`
  answers after it; `mem_entries` ties the list of the entries to `get?`.  A set (`JsSet`) is the
  list of its elements, in the order in which they came.
-/
import Mathlib.Data.List.Nodup
import Mathlib.Tactic.Common

namespace NexusCode.Lib

open List Option

/-- A map from `κ` to `υ` in insertion order. -/
structure JsMap (κ υ : Type) where
  entries : List (κ × υ)
  nodup : (entries.map Prod.fst).Nodup

namespace JsMap

variable {κ υ : Type} [DecidableEq κ]

/-- `new Map()`. -/
def empty : JsMap κ υ := ⟨[], List.nodup_nil⟩

/-- The value of the first entry with the key. -/
def lookup (k : κ) : List (κ × υ) → Option υ
  | [] => none
  | (k', v) :: rest => if k' = k then some v else lookup k rest

/-- `map.get(k)`. -/
def get? (m : JsMap κ υ) (k : κ) : Option υ := lookup k m.entries

/-- Overwrite the entry in place, or append it. -/
def put (k : κ) (v : υ) : List (κ × υ) → List (κ × υ)
  | [] => [(k, v)]
  | (k', v') :: rest => if k' = k then (k, v) :: rest else (k', v') :: put k v rest

theorem fst_put (k : κ) (v : υ) (l : List (κ × υ)) :
    (put k v l).map Prod.fst = if k ∈ l.map Prod.fst then l.map Prod.fst
      else l.map Prod.fst ++ [k] := by
  induction l with
  | nil => rfl
  | cons e t ih =>
    obtain ⟨k', v'⟩ := e
    show (if k' = k then (k, v) :: t else (k', v') :: put k v t).map Prod.fst = _
    by_cases hk : k' = k
    · rw [if_pos hk, if_pos (by simp [hk])]
      simp [hk]
    · rw [if_neg hk, map_cons, ih]
      by_cases ht : k ∈ t.map Prod.fst
      · rw [if_pos ht, if_pos (by simp only [map_cons, mem_cons]; exact .inr ht)]
        rfl
      · rw [if_neg ht, if_neg]
        · rfl
        · simp only [map_cons, mem_cons, not_or]
          exact ⟨fun h => hk h.symm, ht⟩

/-- `map.set(k, v)`. -/
def set (m : JsMap κ υ) (k : κ) (v : υ) : JsMap κ υ where
  entries := put k v m.entries
  nodup := by
    rw [fst_put]
    split
    · exact m.nodup
    · rename_i h
      exact List.Nodup.append m.nodup (List.nodup_singleton k)
        (List.disjoint_singleton.mpr h)

/-- `map.delete(k)`. -/
def delete (m : JsMap κ υ) (k : κ) : JsMap κ υ where
  entries := m.entries.filter fun e => e.1 ≠ k
  nodup := m.nodup.sublist (List.filter_sublist.map _)

/-- Every value changed in place. -/
def mapValues (f : υ → υ) (m : JsMap κ υ) : JsMap κ υ where
  entries := m.entries.map fun e => (e.1, f e.2)
  nodup := by
    have hfst : (m.entries.map fun e => (e.1, f e.2)).map Prod.fst = m.entries.map Prod.fst := by
      rw [List.map_map]
      rfl
    rw [hfst]
    exact m.nodup

/-- `[...map.keys()]`. -/
def keys (m : JsMap κ υ) : List κ := m.entries.map Prod.fst

/-- `[...map.values()]`. -/
def values (m : JsMap κ υ) : List υ := m.entries.map Prod.snd

/-- Values set one after another under their own keys. -/
def setAll (key : υ → κ) (m : JsMap κ υ) : List υ → JsMap κ υ
  | [] => m
  | v :: vs => setAll key (m.set (key v) v) vs

/-! ## What `get?` answers -/

@[simp] theorem get?_empty (k : κ) : (empty : JsMap κ υ).get? k = none := rfl

theorem lookup_put (k k' : κ) (v : υ) (l : List (κ × υ)) :
    lookup k' (put k v l) = if k = k' then some v else lookup k' l := by
  induction l with
  | nil => rfl
  | cons e t ih =>
    obtain ⟨k₁, v₁⟩ := e
    show lookup k' (if k₁ = k then (k, v) :: t else (k₁, v₁) :: put k v t) = _
    by_cases h₁ : k₁ = k
    · subst h₁
      rw [if_pos rfl]
      show (if k₁ = k' then some v else lookup k' t) = _
      by_cases hk : k₁ = k'
      · rw [if_pos hk, if_pos hk]
      · rw [if_neg hk, if_neg hk]
        exact (if_neg hk).symm
    · rw [if_neg h₁]
      show (if k₁ = k' then some v₁ else lookup k' (put k v t)) = _
      rw [ih]
      by_cases hk : k = k'
      · subst hk
        rw [if_neg h₁, if_pos rfl, if_pos rfl]
      · rw [if_neg hk, if_neg hk]
        rfl

theorem get?_set (m : JsMap κ υ) (k k' : κ) (v : υ) :
    (m.set k v).get? k' = if k = k' then some v else m.get? k' :=
  lookup_put k k' v m.entries

@[simp] theorem get?_set_self (m : JsMap κ υ) (k : κ) (v : υ) : (m.set k v).get? k = some v := by
  rw [get?_set, if_pos rfl]

theorem get?_set_of_ne (m : JsMap κ υ) {k k' : κ} (v : υ) (h : k ≠ k') :
    (m.set k v).get? k' = m.get? k' := by
  rw [get?_set, if_neg h]

@[simp] theorem get?_mapValues (f : υ → υ) (m : JsMap κ υ) (k : κ) :
    (m.mapValues f).get? k = (m.get? k).map f := by
  have key : ∀ l : List (κ × υ), lookup k (l.map fun e => (e.1, f e.2)) = (lookup k l).map f := by
    intro l
    induction l with
    | nil => rfl
    | cons e t ih =>
      show (if e.1 = k then some (f e.2) else lookup k (t.map fun e => (e.1, f e.2)))
        = (if e.1 = k then some e.2 else lookup k t).map f
      rw [ih]
      split <;> rfl
  exact key m.entries

theorem mem_entries (m : JsMap κ υ) (k : κ) (v : υ) : (k, v) ∈ m.entries ↔ m.get? k = some v := by
  have key : ∀ l : List (κ × υ), (l.map Prod.fst).Nodup → ((k, v) ∈ l ↔ lookup k l = some v) := by
    intro l
    induction l with
    | nil => intro _; exact ⟨fun h => absurd h not_mem_nil, nofun⟩
    | cons e t ih =>
      obtain ⟨k', v'⟩ := e
      intro hnd
      rw [map_cons, nodup_cons] at hnd
      show (k, v) ∈ (k', v') :: t ↔ (if k' = k then some v' else lookup k t) = some v
      by_cases hk : k' = k
      · subst hk
        rw [if_pos rfl, mem_cons]
        constructor
        · rintro (h | h)
          · exact congrArg some (congrArg Prod.snd h).symm
          · exact absurd (mem_map_of_mem (f := Prod.fst) h) hnd.1
        · intro h
          exact .inl (by rw [some.inj h])
      · rw [if_neg hk, mem_cons, ← ih hnd.2]
        constructor
        · rintro (h | h)
          · exact absurd (congrArg Prod.fst h).symm hk
          · exact h
        · exact .inr
  exact key m.entries m.nodup

theorem mem_keys (m : JsMap κ υ) (k : κ) : k ∈ m.keys ↔ ∃ v, m.get? k = some v := by
  constructor
  · intro h
    obtain ⟨⟨k', v⟩, hmem, rfl⟩ := mem_map.mp h
    exact ⟨v, (m.mem_entries k' v).mp hmem⟩
  · rintro ⟨v, hv⟩
    exact mem_map_of_mem (f := Prod.fst) ((m.mem_entries k v).mpr hv)

theorem mem_values (m : JsMap κ υ) (v : υ) : v ∈ m.values ↔ ∃ k, m.get? k = some v := by
  constructor
  · intro h
    obtain ⟨⟨k, v'⟩, hmem, rfl⟩ := mem_map.mp h
    exact ⟨k, (m.mem_entries k v').mp hmem⟩
  · rintro ⟨k, hk⟩
    exact mem_map_of_mem (f := Prod.snd) ((m.mem_entries k v).mpr hk)

theorem filterMap_get?_keys (m : JsMap κ υ) : m.keys.filterMap m.get? = m.values := by
  unfold keys values
  rw [filterMap_map, ← filterMap_eq_map]
  exact filterMap_congr fun e he => (m.mem_entries e.1 e.2).mp he

theorem get?_delete (m : JsMap κ υ) (k k' : κ) :
    (m.delete k).get? k' = if k = k' then none else m.get? k' := by
  have hmem : ∀ v, (m.delete k).get? k' = some v ↔ m.get? k' = some v ∧ k' ≠ k := by
    intro v
    rw [← mem_entries, ← mem_entries, delete, mem_filter, decide_eq_true_eq]
  by_cases hk : k = k'
  · rw [if_pos hk]
    exact eq_none_iff_forall_ne_some.mpr fun v hv => ((hmem v).mp hv).2 hk.symm
  · rw [if_neg hk]
    refine ext fun v => (hmem v).trans ⟨And.left, fun hv => ⟨hv, fun h => hk h.symm⟩⟩

omit [DecidableEq κ] in
@[ext] theorem ext {m m' : JsMap κ υ} (h : m.entries = m'.entries) : m = m' := by
  cases m
  cases m'
  congr

theorem put_of_fresh {k : κ} (v : υ) : ∀ {l : List (κ × υ)}, k ∉ l.map Prod.fst →
    put k v l = l ++ [(k, v)]
  | [], _ => rfl
  | (k', v') :: l, h => by
    rw [map_cons, mem_cons, not_or] at h
    rw [put, if_neg (Ne.symm h.1), put_of_fresh v h.2]
    rfl

theorem get?_eq_none (m : JsMap κ υ) (k : κ) : m.get? k = none ↔ k ∉ m.keys := by
  rw [mem_keys, eq_none_iff_forall_ne_some, not_exists]

/-- **Deleting what was just added** gives the map back. -/
theorem delete_set_of_fresh (m : JsMap κ υ) {k : κ} (v : υ) (h : m.get? k = none) :
    (m.set k v).delete k = m := by
  have hfresh := (m.get?_eq_none k).mp h
  refine ext ?_
  show (put k v m.entries).filter _ = m.entries
  rw [put_of_fresh v hfresh, filter_append, filter_cons_of_neg (by simp),
    filter_nil, append_nil, filter_eq_self]
  rintro e he
  refine decide_eq_true fun heq => hfresh ?_
  rw [← heq]
  exact mem_map_of_mem (f := Prod.fst) he

theorem set_set (m : JsMap κ υ) (k : κ) (v w : υ) : (m.set k v).set k w = m.set k w := by
  refine ext ?_
  show put k w (put k v m.entries) = put k w m.entries
  generalize m.entries = l
  induction l with
  | nil => exact if_pos rfl
  | cons e l ih =>
    obtain ⟨k', v'⟩ := e
    by_cases hk : k' = k
    · rw [put, if_pos hk, put, if_pos rfl, put, if_pos hk]
    · rw [put, if_neg hk, put, if_neg hk, ih, put, if_neg hk]

/-- Maps with different values under one key, seen through a function. -/
theorem map_set_iff {τ : Type} (f : κ × υ → τ) (m : JsMap κ υ) (k : κ) (v w : υ) :
    (m.set k v).entries.map f = (m.set k w).entries.map f ↔ f (k, v) = f (k, w) := by
  show (put k v m.entries).map f = (put k w m.entries).map f ↔ _
  generalize m.entries = l
  induction l with
  | nil => simp [put]
  | cons e l ih =>
    obtain ⟨k', v'⟩ := e
    by_cases hk : k' = k
    · simp [put, hk]
    · simp [put, hk, ih]

/-- A replaced entry comes last, so that replacing it again leaves the others where they are. -/
theorem entries_replace (m : JsMap κ υ) (k : κ) (v : υ) :
    ((m.delete k).set k v).entries = (m.delete k).entries ++ [(k, v)] := by
  refine put_of_fresh v fun h => ?_
  obtain ⟨e, he, rfl⟩ := mem_map.mp h
  exact of_decide_eq_true (mem_filter.mp he).2 rfl

theorem delete_replace (m : JsMap κ υ) (k : κ) (v : υ) :
    ((m.delete k).set k v).delete k = m.delete k := by
  refine delete_set_of_fresh _ v ?_
  rw [get?_delete, if_pos rfl]

theorem get?_setAll_of_notMem {key : υ → κ} {k : κ} : ∀ {l : List υ} (m : JsMap κ υ),
    k ∉ l.map key → (setAll key m l).get? k = m.get? k
  | [], _, _ => rfl
  | v :: l, m, h => by
    rw [map_cons, mem_cons, not_or] at h
    show (setAll key (m.set (key v) v) l).get? k = _
    rw [get?_setAll_of_notMem _ h.2, get?_set_of_ne _ _ (Ne.symm h.1)]

theorem get?_setAll_of_mem {key : υ → κ} {v : υ} : ∀ {l : List υ} (m : JsMap κ υ),
    (l.map key).Nodup → v ∈ l → (setAll key m l).get? (key v) = some v
  | [], _, _, h => nomatch h
  | w :: l, m, hnodup, h => by
    rw [map_cons, nodup_cons] at hnodup
    show (setAll key (m.set (key w) w) l).get? (key v) = _
    rcases mem_cons.mp h with rfl | hl
    · rw [get?_setAll_of_notMem _ hnodup.1, get?_set_self]
    · exact get?_setAll_of_mem _ hnodup.2 hl

/-- Pairs with new keys, set one after another, stand at the end. -/
theorem entries_foldl_set (l : List (κ × υ)) (m : JsMap κ υ)
    (hnodup : (m.keys ++ l.map Prod.fst).Nodup) :
    (l.foldl (fun m e => m.set e.1 e.2) m).entries = m.entries ++ l := by
  induction l generalizing m with
  | nil => exact (append_nil _).symm
  | cons e l ih =>
    obtain ⟨k, v⟩ := e
    rw [map_cons, append_cons] at hnodup
    have hfresh : k ∉ m.entries.map Prod.fst := fun hmem =>
      disjoint_of_nodup_append hnodup.of_append_left hmem (mem_singleton.mpr rfl)
    have hset : (m.set k v).entries = m.entries ++ [(k, v)] := put_of_fresh v hfresh
    rw [foldl_cons, ih (m.set k v) ?_, hset]
    · exact append_cons .. |>.symm
    · unfold keys
      rw [hset, map_append]
      exact hnodup

theorem setAll_eq (key : υ → κ) (m : JsMap κ υ) (vs : List υ) :
    setAll key m vs = (vs.map fun v => (key v, v)).foldl (fun m e => m.set e.1 e.2) m := by
  induction vs generalizing m with
  | nil => rfl
  | cons v vs ih => exact ih (m.set (key v) v)

theorem entries_setAll {key : υ → κ} {vs : List υ} (hnodup : (vs.map key).Nodup) :
    (setAll key empty vs).entries = vs.map fun v => (key v, v) := by
  rw [setAll_eq, entries_foldl_set _ empty]
  · exact nil_append _
  · rw [List.map_map]
    exact hnodup

/-- **Reading the values back** under their own keys gives the map back. -/
theorem setAll_values {key : υ → κ} (m : JsMap κ υ)
    (hkey : ∀ k v, m.get? k = some v → key v = k) : setAll key empty m.values = m := by
  have hpairs : (m.values.map fun v => (key v, v)) = m.entries := by
    unfold values
    rw [List.map_map]
    refine (map_congr_left fun e he => ?_).trans (List.map_id m.entries)
    exact Prod.ext (hkey e.1 e.2 ((m.mem_entries e.1 e.2).mp he)) rfl
  refine ext ?_
  rw [setAll_eq, hpairs]
  exact entries_foldl_set _ empty m.nodup

/-! ## How many values have a property -/

/-- The number of values with a property. -/
def count (p : υ → Bool) (m : JsMap κ υ) : Nat := m.entries.countP fun e => p e.2

theorem lookup_eq_none {k : κ} : ∀ {l : List (κ × υ)}, k ∉ l.map Prod.fst → lookup k l = none
  | [], _ => rfl
  | e :: rest, h => by
    rw [map_cons, mem_cons, not_or] at h
    rw [lookup, if_neg fun he => h.1 he.symm]
    exact lookup_eq_none h.2

theorem count_set (p : υ → Bool) (m : JsMap κ υ) (k : κ) (v : υ) :
    (m.set k v).count p + ((m.get? k).filter p).toList.length = m.count p + if p v then 1 else 0 := by
  have key : ∀ l : List (κ × υ), (put k v l).countP (fun e => p e.2) +
      ((lookup k l).filter p).toList.length =
        l.countP (fun e => p e.2) + if p v then 1 else 0 := by
    intro l
    induction l with
    | nil =>
      rw [put, countP_cons, countP_nil]
      rfl
    | cons e rest ih =>
      obtain ⟨k', w⟩ := e
      rw [put, lookup]
      by_cases hk : k' = k
      · rw [if_pos hk, if_pos hk, countP_cons, countP_cons]
        cases hw : p w with
        | false =>
          rw [filter_some_neg hw]
          simp only [toList_none, length_nil, Bool.false_eq_true, if_false, Nat.add_zero]
        | true =>
          rw [filter_some_pos hw]
          simp only [toList_some, length_singleton, if_true]
          omega
      · rw [if_neg hk, if_neg hk, countP_cons, countP_cons]
        omega
  exact key m.entries

theorem count_delete (p : υ → Bool) (m : JsMap κ υ) (k : κ) :
    (m.delete k).count p + ((m.get? k).filter p).toList.length = m.count p := by
  have key : ∀ l : List (κ × υ), (l.map Prod.fst).Nodup →
      (l.filter fun e => e.1 ≠ k).countP (fun e => p e.2) +
        ((lookup k l).filter p).toList.length = l.countP fun e => p e.2 := by
    intro l
    induction l with
    | nil => exact fun _ => rfl
    | cons e rest ih =>
      obtain ⟨k', w⟩ := e
      intro hnodup
      obtain ⟨hnotMem, hrest⟩ := nodup_cons.mp hnodup
      have hih := ih hrest
      rw [lookup, filter_cons, countP_cons]
      by_cases hk : k' = k
      · subst hk
        rw [lookup_eq_none hnotMem] at hih
        rw [if_pos rfl, if_neg (by simp)]
        simp only [filter_none, toList_none, length_nil, Nat.add_zero] at hih
        rw [hih]
        cases hw : p w with
        | false =>
          rw [filter_some_neg hw]
          rfl
        | true =>
          rw [filter_some_pos hw]
          rfl
      · rw [if_neg hk, if_pos (by simp [hk]), countP_cons]
        omega
  exact key m.entries m.nodup

/-! ## The entries with a property -/

/-- The entries for which the test holds, the others deleted. -/
def filter (p : κ × υ → Bool) (m : JsMap κ υ) : JsMap κ υ where
  entries := m.entries.filter p
  nodup := m.nodup.sublist (List.filter_sublist.map _)

end JsMap

end NexusCode.Lib

/-! ## Sets -/

namespace NexusCode.Lib.JsSet

open List

variable {α : Type} [DecidableEq α] {a x : α} {s : List α}

/-- `set.add(x)`. -/
def add (x : α) (s : List α) : List α := if x ∈ s then s else s ++ [x]

@[simp] theorem mem_add : a ∈ add x s ↔ a = x ∨ a ∈ s := by
  unfold add
  split
  · rename_i hmem
    exact (or_iff_right_of_imp fun h => h ▸ hmem).symm
  · rw [mem_append, mem_singleton, or_comm]

theorem nodup_add (h : s.Nodup) : (add x s).Nodup := by
  unfold add
  split
  · exact h
  · rename_i hmem
    exact nodup_append.mpr ⟨h, nodup_singleton x, fun a ha b hb heq =>
      hmem (mem_singleton.mp hb ▸ heq ▸ ha)⟩

end NexusCode.Lib.JsSet
