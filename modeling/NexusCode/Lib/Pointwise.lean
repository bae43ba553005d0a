/-
  Lists related element by element, and the list functions that respect the relation.

  Two programs that keep lists of the same shape are compared by a relation on their elements.
  Each lemma carries the relation through one list function, under the condition that what the
  function looks at agrees on related elements.  `List.rel_filter` and `List.rel_append` are in
  the library; here are the others: searching, testing, rewriting in place and stable sorting.
-/
import Mathlib.Data.List.Forall2
import Mathlib.Data.List.Sort
import Mathlib.Tactic.Common

namespace NexusCode.Lib.Pointwise

open List

variable {α β γ : Type} {R S : α → β → Prop} {l : List α} {l' : List β}

/-- A relation may be strengthened by what is known of the members. -/
theorem imp_mem (h : Forall₂ R l l') (hi : ∀ a ∈ l, ∀ b ∈ l', R a b → S a b) :
    Forall₂ S l l' := by
  induction h with
  | nil => exact Forall₂.nil
  | cons hab _ ih =>
    exact Forall₂.cons (hi _ mem_cons_self _ mem_cons_self hab)
      (ih fun a ha b hb => hi a (mem_cons_of_mem _ ha) b (mem_cons_of_mem _ hb))

theorem forall₂_map (h : Forall₂ R l l') {f : α → α} {g : β → β}
    (hfg : ∀ a b, R a b → S (f a) (g b)) : Forall₂ S (l.map f) (l'.map g) := by
  induction h with
  | nil => exact Forall₂.nil
  | cons hab _ ih => exact Forall₂.cons (hfg _ _ hab) ih

/-- What is read off related elements alike is read off the lists alike. -/
theorem map_eq_map (h : Forall₂ R l l') {f : α → γ} {g : β → γ} (hfg : ∀ a b, R a b → f a = g b) :
    l.map f = l'.map g := by
  induction h with
  | nil => rfl
  | cons hab _ ih => rw [map_cons, map_cons, hfg _ _ hab, ih]

variable {p : α → Bool} {q : β → Bool}

theorem forall₂_filter (h : Forall₂ R l l')
    (hpq : ∀ a b, R a b → p a = q b) : Forall₂ R (l.filter p) (l'.filter q) :=
  rel_filter (fun a b hab => Iff.of_eq (congrArg (· = true) (hpq a b hab))) h

theorem forall₂_filter_and (h : Forall₂ R l l')
    (hpq : ∀ a b, R a b → p a = q b) (hS : ∀ a b, R a b → p a = true → S a b) :
    Forall₂ S (l.filter p) (l'.filter q) := by
  refine imp_mem (forall₂_filter h hpq) fun a ha b _ hab => ?_
  exact hS a b hab (mem_filter.mp ha).2

theorem any_eq_any (h : Forall₂ R l l')
    (hpq : ∀ a b, R a b → p a = q b) : l.any p = l'.any q := by
  induction h with
  | nil => rfl
  | cons hab _ ih => rw [any_cons, any_cons, hpq _ _ hab, ih]

/-- A search finds related elements, which pass the test, or nothing on either side. -/
theorem find?_rel (h : Forall₂ R l l')
    (hpq : ∀ a b, R a b → p a = q b) (hS : ∀ a b, R a b → p a = true → S a b) :
    Option.Rel S (l.find? p) (l'.find? q) := by
  induction h with
  | nil => exact Option.Rel.none
  | @cons a b l l' hab _ ih =>
    rw [find?_cons, find?_cons, ← hpq _ _ hab]
    cases hp : p a with
    | true => exact Option.Rel.some (hS a b hab hp)
    | false => exact ih

theorem head?_rel (h : Forall₂ R l l') : Option.Rel R l.head? l'.head? := by
  cases h with
  | nil => exact Option.Rel.none
  | cons hab _ => exact Option.Rel.some hab

/-! ## Stable sorting -/

section Sorting

variable {r : α → α → Prop} {s : β → β → Prop} [DecidableRel r] [DecidableRel s]

theorem forall₂_orderedInsert (h : Forall₂ R l l')
    (hrs : ∀ a b a' b', R a b → R a' b' → (r a a' ↔ s b b')) {a : α} {b : β} (hab : R a b) :
    Forall₂ R (l.orderedInsert r a) (l'.orderedInsert s b) := by
  induction h with
  | nil => exact Forall₂.cons hab Forall₂.nil
  | @cons c d l l' hcd hl ih =>
    simp only [orderedInsert]
    by_cases hr : r a c
    · rw [if_pos hr, if_pos ((hrs _ _ _ _ hab hcd).mp hr)]
      exact Forall₂.cons hab (Forall₂.cons hcd hl)
    · rw [if_neg hr, if_neg fun hs => hr ((hrs _ _ _ _ hab hcd).mpr hs)]
      exact Forall₂.cons hcd ih

theorem forall₂_insertionSort (h : Forall₂ R l l')
    (hrs : ∀ a b a' b', R a b → R a' b' → (r a a' ↔ s b b')) :
    Forall₂ R (l.insertionSort r) (l'.insertionSort s) := by
  induction h with
  | nil => exact Forall₂.nil
  | cons hab _ ih => exact forall₂_orderedInsert ih hrs hab

end Sorting

end NexusCode.Lib.Pointwise
