/-
  Sorting with a comparator, keeping the first of each kind, and cutting a load.

  * `sortBy`   — the stable sort with a comparator of numbers; with a lawful comparator it commutes
                 with filtering (`filter_sortBy`) and keeps sublists (`sortBy_sublist`);
  * `firsts`   — the first element of each kind; `filter_firsts` says what filtering makes of it;
  * `cut`      — the elements that are taken off while what is left is too much, and the rest;
                 `mem_cut_iff` and `mem_rest_iff` tell them by what stands before them.
-/
import Mathlib.Data.List.Sort
import Mathlib.Data.Rat.Defs
import Mathlib.Algebra.Order.Field.Rat
import Mathlib.Algebra.BigOperators.Group.List.Basic
import Mathlib.Tactic.Common

namespace NexusCode.Lib

open List

variable {α β : Type}

/-! ## Comparators -/

/-- A comparator that sorts: what it does not put after is total and transitive. -/
structure Lawful (cmp : α → α → Rat) : Prop where
  total : ∀ a b, cmp a b ≤ 0 ∨ cmp b a ≤ 0
  trans : ∀ a b c, cmp a b ≤ 0 → cmp b c ≤ 0 → cmp a c ≤ 0

/-- `if (d !== 0) return d;` before another comparison. -/
def orNext (d next : Rat) : Rat := if d ≠ 0 then d else next

theorem orNext_nonpos_iff (x y next : Rat) : orNext (x - y) next ≤ 0 ↔ x < y ∨ x = y ∧ next ≤ 0 := by
  unfold orNext
  by_cases h : x = y
  · rw [if_neg (by simp [h])]
    constructor
    · intro hnext
      exact .inr ⟨h, hnext⟩
    · rintro (hlt | ⟨-, hnext⟩)
      · exact absurd h (ne_of_lt hlt)
      · exact hnext
  · rw [if_pos (sub_ne_zero.mpr h), sub_nonpos]
    constructor
    · intro hle
      exact .inl (lt_of_le_of_ne hle h)
    · rintro (hlt | ⟨heq, -⟩)
      · exact le_of_lt hlt
      · exact absurd heq h

/-- **A comparison by a key, then by a comparator that is lawful where the keys are equal.** -/
theorem Lawful.lex {k : α → Rat} {next : α → α → Rat}
    (htotal : ∀ a b, k a = k b → next a b ≤ 0 ∨ next b a ≤ 0)
    (htrans : ∀ a b c, k a = k b → k b = k c → next a b ≤ 0 → next b c ≤ 0 →
      next a c ≤ 0) : Lawful fun a b => orNext (k a - k b) (next a b) where
  total a b := by
    rw [orNext_nonpos_iff, orNext_nonpos_iff]
    rcases lt_trichotomy (k a) (k b) with h | h | h
    · exact .inl (.inl h)
    · rcases htotal a b h with hab | hba
      · exact .inl (.inr ⟨h, hab⟩)
      · exact .inr (.inr ⟨h.symm, hba⟩)
    · exact .inr (.inl h)
  trans a b c := by
    rw [orNext_nonpos_iff, orNext_nonpos_iff, orNext_nonpos_iff]
    rintro (hab | ⟨hab, hnext⟩) (hbc | ⟨hbc, hnext'⟩)
    · exact .inl (hab.trans hbc)
    · exact .inl (hbc ▸ hab)
    · exact .inl (hab ▸ hbc)
    · exact .inr ⟨hab.trans hbc, htrans a b c hab hbc hnext hnext'⟩

theorem Lawful.next {k : α → Rat} {cmp : α → α → Rat} (hcmp : Lawful cmp) :
    Lawful fun a b => orNext (k a - k b) (cmp a b) :=
  Lawful.lex (fun a b _ => hcmp.total a b) fun a b c _ _ => hcmp.trans a b c

/-! ## Sorting -/

/-- `[...list].sort(cmp)`. -/
def sortBy (cmp : α → α → Rat) (l : List α) : List α := l.insertionSort fun a b => cmp a b ≤ 0

section Sorting

variable {cmp : α → α → Rat}

theorem sortBy_perm (l : List α) : (sortBy cmp l).Perm l := List.perm_insertionSort _ l

@[simp] theorem mem_sortBy {l : List α} {a : α} : a ∈ sortBy cmp l ↔ a ∈ l :=
  (sortBy_perm l).mem_iff

theorem pairwise_sortBy (hcmp : Lawful cmp) (l : List α) :
    (sortBy cmp l).Pairwise fun a b => cmp a b ≤ 0 := by
  have : Std.Total fun a b => cmp a b ≤ 0 := ⟨hcmp.total⟩
  have : IsTrans α fun a b => cmp a b ≤ 0 := ⟨hcmp.trans⟩
  exact pairwise_insertionSort _ l

theorem map_sortBy {cmp' : β → β → Rat} {f : α → β} {l : List α}
    (h : ∀ a ∈ l, ∀ b ∈ l, (cmp a b ≤ 0 ↔ cmp' (f a) (f b) ≤ 0)) :
    (sortBy cmp l).map f = sortBy cmp' (l.map f) :=
  map_insertionSort _ _ f l h

theorem orderedInsert_of_forall {a : α} {l : List α} (h : ∀ b ∈ l, cmp a b ≤ 0) :
    l.orderedInsert (fun a b => cmp a b ≤ 0) a = a :: l := by
  cases l with
  | nil => rfl
  | cons b l => exact orderedInsert_cons_of_le _ l (h b mem_cons_self)

theorem filter_orderedInsert (hcmp : Lawful cmp) (p : α → Bool) (a : α) {l : List α}
    (hl : l.Pairwise fun a b => cmp a b ≤ 0) :
    (l.orderedInsert (fun a b => cmp a b ≤ 0) a).filter p =
      if p a then (l.filter p).orderedInsert (fun a b => cmp a b ≤ 0) a else l.filter p := by
  induction l with
  | nil => cases hp : p a <;> simp [hp]
  | cons b l ih =>
    obtain ⟨hb, hl'⟩ := pairwise_cons.mp hl
    rw [orderedInsert_cons]
    by_cases hab : cmp a b ≤ 0
    · rw [if_pos hab, filter_cons]
      have hall : ∀ c ∈ (b :: l).filter p, cmp a c ≤ 0 := fun c hc => by
        rcases mem_cons.mp (mem_of_mem_filter hc) with rfl | hc
        · exact hab
        · exact hcmp.trans a b c hab (hb c hc)
      rw [orderedInsert_of_forall hall]
    · rw [if_neg hab, filter_cons, ih hl', filter_cons]
      cases hpb : p b with
      | false => rfl
      | true =>
        cases hpa : p a with
        | false => rfl
        | true =>
          rw [if_pos rfl, if_pos rfl, if_pos rfl, if_pos rfl, orderedInsert_cons, if_neg hab]

/-- **Sorting and filtering commute.** -/
theorem filter_sortBy (hcmp : Lawful cmp) (p : α → Bool) : ∀ l : List α,
    (sortBy cmp l).filter p = sortBy cmp (l.filter p)
  | [] => rfl
  | a :: l => by
    rw [sortBy, insertionSort_cons, ← sortBy,
      filter_orderedInsert hcmp p a (pairwise_sortBy hcmp l), filter_sortBy hcmp p l,
      filter_cons]
    cases p a <;> rfl

/-- **Sorting keeps sublists.** -/
theorem sortBy_sublist (hcmp : Lawful cmp) {l l' : List α} (h : l.Sublist l') :
    (sortBy cmp l).Sublist (sortBy cmp l') := by
  have : IsTrans α fun a b => cmp a b ≤ 0 := ⟨hcmp.trans⟩
  induction h with
  | slnil => exact List.Sublist.refl _
  | cons a _ ih => exact ih.trans (sublist_orderedInsert a _)
  | cons_cons a _ ih => exact List.Sublist.orderedInsert_sublist a ih (pairwise_sortBy hcmp _)

end Sorting

theorem filter_sublist_filter {p p' : α → Bool} {l : List α}
    (h : ∀ a ∈ l, p a = true → p' a = true) : (l.filter p).Sublist (l.filter p') := by
  have hboth : l.filter p = (l.filter p').filter p := by
    rw [filter_filter]
    refine filter_congr fun a ha => ?_
    cases hp : p a with
    | false => rfl
    | true => rw [h a ha hp, Bool.and_self]
  rw [hboth]
  exact filter_sublist

/-! ## The first of each kind -/

/-- The elements that no earlier one is the same as. -/
def firsts (same : α → α → Bool) : List α → List α
  | [] => []
  | a :: l => a :: (firsts same l).filter fun b => !same a b

section Firsts

variable {same : α → α → Bool}

theorem firsts_sublist : ∀ l : List α, (firsts same l).Sublist l
  | [] => List.Sublist.refl _
  | a :: l => (filter_sublist.trans (firsts_sublist l)).cons_cons a

theorem mem_of_mem_firsts {l : List α} {a : α} (h : a ∈ firsts same l) : a ∈ l :=
  (firsts_sublist l).subset h

theorem find?_mem_firsts (hsymm : ∀ a b, same a b = same b a)
    (htrans : ∀ a b c, same a b = true → same b c = true → same a c = true) (a : α) :
    ∀ {l : List α} {b : α}, l.find? (same a) = some b → b ∈ firsts same l
  | [], _, h => nomatch h
  | c :: l, b, h => by
    rw [List.find?_cons] at h
    cases hac : same a c with
    | true =>
      rw [hac] at h
      obtain rfl := Option.some.inj h
      exact mem_cons_self
    | false =>
      rw [hac] at h
      refine mem_cons_of_mem c (mem_filter.mpr ⟨find?_mem_firsts hsymm htrans a h, ?_⟩)
      have hab := List.find?_some h
      -- otherwise `a` would be the same as `c`
      cases hcb : same c b with
      | false => rfl
      | true =>
        rw [hsymm] at hcb
        rw [htrans a b c hab hcb] at hac
        nomatch hac

theorem find?_of_mem_firsts (hsymm : ∀ a b, same a b = same b a) {a : α} (ha : same a a = true) :
    ∀ {l : List α}, a ∈ firsts same l → l.find? (same a) = some a
  | [], h => nomatch h
  | c :: l, h => by
    rw [List.find?_cons]
    rcases mem_cons.mp h with rfl | h
    · rw [ha]
    · obtain ⟨h, hca⟩ := mem_filter.mp h
      rw [Bool.not_eq_true'] at hca
      rw [hsymm a c, hca]
      exact find?_of_mem_firsts hsymm ha h

/-- **What filtering makes of the first of each kind**: of those that are first among the
    filtered elements, the ones whose kind starts with an element that is not filtered out. -/
theorem filter_firsts (hsymm : ∀ a b, same a b = same b a)
    (htrans : ∀ a b c, same a b = true → same b c = true → same a c = true) (p : α → Bool) :
    ∀ l : List α, (firsts same l).filter p =
      (firsts same (l.filter p)).filter fun a => (l.find? (same a)).all p
  | [] => rfl
  | x :: l => by
    have ih := filter_firsts hsymm htrans p l
    have hself : ∀ a, same x a = true → same x x = true := fun a h =>
      htrans x a x h (hsymm a x ▸ h)
    have hfilter : (x :: l).filter p = if p x then x :: l.filter p else l.filter p :=
      filter_cons
    rw [firsts, filter_cons, filter_filter, hfilter]
    have hcomm : (firsts same l).filter (fun a => p a && !same x a) =
        ((firsts same (l.filter p)).filter fun a => (l.find? (same a)).all p).filter
          fun a => !same x a := by
      rw [← ih, filter_filter]
      exact filter_congr fun a _ => Bool.and_comm _ _
    cases hpx : p x with
    | false =>
      rw [if_neg Bool.false_ne_true, if_neg Bool.false_ne_true, hcomm, filter_filter]
      refine filter_congr fun a _ => ?_
      rw [List.find?_cons, hsymm x a]
      cases same a x with
      | true => simp [hpx]
      | false => simp
    | true =>
      rw [if_pos rfl, if_pos rfl, firsts, filter_cons]
      have hfirst : ((x :: l).find? (same x)).all p = true := by
        rw [List.find?_cons]
        cases hxx : same x x with
        | true => exact hpx
        | false =>
          have hnone : l.find? (same x) = none := List.find?_eq_none.mpr fun a _ h => by
            rw [hself a h] at hxx
            nomatch hxx
          rw [hnone]
          rfl
      rw [if_pos hfirst, hcomm, filter_filter, filter_filter]
      refine congrArg (x :: ·) (filter_congr fun a _ => ?_)
      rw [List.find?_cons, hsymm a x]
      cases same x a with
      | true => simp
      | false => simp

theorem map_firsts {same' : β → β → Bool} {f : α → β}
    (hf : ∀ a b, same' (f a) (f b) = same a b) : ∀ l : List α,
    (firsts same l).map f = firsts same' (l.map f)
  | [] => rfl
  | a :: l => by
    rw [map_cons, firsts, firsts, map_cons, ← map_firsts hf l, filter_map]
    refine congrArg (f a :: List.map f ·) (filter_congr fun b _ => ?_)
    rw [Function.comp_apply, hf]

end Firsts

/-! ## Cutting a load -/

/-- The elements that are taken off while the load is too much, and the rest. -/
def cut (weight : α → Nat) (tooMuch : Nat → Bool) : Nat → List α → List α × List α
  | _, [] => ([], [])
  | load, a :: l =>
    if tooMuch load then
      let r := cut weight tooMuch (load - weight a) l
      (a :: r.1, r.2)
    else ([], a :: l)

section Cut

variable {weight : α → Nat} {tooMuch : Nat → Bool}

/-- The weight of some elements. -/
def total (weight : α → Nat) (l : List α) : Nat := (l.map weight).sum

theorem total_perm (weight : α → Nat) {l l' : List α} (h : l.Perm l') :
    total weight l = total weight l' :=
  (h.map weight).sum_eq

theorem total_append (weight : α → Nat) (l l' : List α) :
    total weight (l ++ l') = total weight l + total weight l' := by
  unfold total
  rw [map_append, sum_append]

theorem total_filter_le (weight : α → Nat) (p : α → Bool) (l : List α) :
    total weight (l.filter p) ≤ total weight l := by
  have hperm := total_perm weight (filter_append_perm p l)
  rw [total_append] at hperm
  omega

theorem cut_append : ∀ (load : Nat) (l : List α),
    (cut weight tooMuch load l).1 ++ (cut weight tooMuch load l).2 = l
  | _, [] => rfl
  | load, a :: l => by
    rw [cut]
    split
    · exact congrArg (a :: ·) (cut_append (load - weight a) l)
    · rfl

/-- What is left of the load is not too much, or nothing is left to take off. -/
theorem cut_load : ∀ (load : Nat) (l : List α),
    tooMuch (load - total weight (cut weight tooMuch load l).1) = true →
      (cut weight tooMuch load l).2 = []
  | _, [], _ => rfl
  | load, a :: l, h => by
    rw [cut] at h ⊢
    split at h
    · rename_i hmono
      rw [if_pos hmono]
      refine cut_load (load - weight a) l ?_
      rw [total, map_cons, sum_cons, ← Nat.sub_sub] at h
      exact h
    · rename_i hmono
      exact absurd h hmono

/-- **The elements taken off** are those before which too much is left. -/
theorem mem_cut_iff (hmono : ∀ m n, m ≤ n → tooMuch m = true → tooMuch n = true) (a : α) :
    ∀ (load : Nat) (l : List α), a ∈ (cut weight tooMuch load l).1 ↔
      ∃ before after, l = before ++ a :: after ∧ tooMuch (load - total weight before) = true
  | load, [] => iff_of_false not_mem_nil fun ⟨before, after, h, _⟩ => by
      cases before <;> nomatch h
  | load, b :: l => by
    rw [cut]
    split
    · rename_i hload
      rw [mem_cons, mem_cut_iff hmono a (load - weight b) l]
      constructor
      · rintro (rfl | ⟨before, after, rfl, h⟩)
        · exact ⟨[], l, rfl, hload⟩
        · refine ⟨b :: before, after, rfl, ?_⟩
          rw [total, map_cons, sum_cons, ← Nat.sub_sub]
          exact h
      · rintro ⟨before, after, hl, h⟩
        cases before with
        | nil => exact .inl (cons.inj hl).1.symm
        | cons c before =>
          obtain ⟨rfl, rfl⟩ := cons.inj hl
          rw [total, map_cons, sum_cons, ← Nat.sub_sub] at h
          exact .inr ⟨before, after, rfl, h⟩
    · rename_i hload
      refine iff_of_false not_mem_nil fun ⟨before, _, _, h⟩ => hload ?_
      exact hmono _ _ (by omega) h

/-- **The rest** are those before which not too much is left. -/
theorem mem_rest_iff (hmono : ∀ m n, m ≤ n → tooMuch m = true → tooMuch n = true) (a : α) :
    ∀ (load : Nat) (l : List α), a ∈ (cut weight tooMuch load l).2 ↔
      ∃ before after, l = before ++ a :: after ∧ tooMuch (load - total weight before) = false
  | load, [] => iff_of_false not_mem_nil fun ⟨before, after, h, _⟩ => by
      cases before <;> nomatch h
  | load, b :: l => by
    rw [cut]
    split
    · rename_i hload
      rw [mem_rest_iff hmono a (load - weight b) l]
      constructor
      · rintro ⟨before, after, rfl, h⟩
        refine ⟨b :: before, after, rfl, ?_⟩
        rw [total, map_cons, sum_cons, ← Nat.sub_sub]
        exact h
      · rintro ⟨before, after, hl, h⟩
        cases before with
        | nil =>
          rw [show load - total weight ([] : List α) = load from rfl, hload] at h
          nomatch h
        | cons c before =>
          obtain ⟨rfl, rfl⟩ := cons.inj hl
          rw [total, map_cons, sum_cons, ← Nat.sub_sub] at h
          exact ⟨before, after, rfl, h⟩
    · rename_i hload
      constructor
      · intro h
        obtain ⟨before, after, hl⟩ := append_of_mem h
        refine ⟨before, after, hl, Bool.not_eq_true _ ▸ fun h => hload ?_⟩
        exact hmono _ _ (by omega) h
      · rintro ⟨before, after, hl, _⟩
        rw [hl]
        exact mem_append_right before mem_cons_self

end Cut

end NexusCode.Lib
