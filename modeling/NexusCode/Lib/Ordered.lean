/-
  Lists in order.

  **`sublist_of_subset`** finds a list inside another one: if the first is strictly ordered, the
  second is ordered and contains every element of the first, then the first is what remains of
  the second after dropping some elements.  The two orders are taken apart because the elements
  of the second list need not be told apart by its order.
-/
import Mathlib.Data.List.Pairwise
import Mathlib.Tactic.Common

namespace NexusCode.Lib.Ordered

open List

variable {α : Type} {lt le : α → α → Prop}

/-- **A strictly ordered list inside an ordered one.** -/
theorem sublist_of_subset (hlt : ∀ a b, lt a b → ¬ le b a) (hirrefl : ∀ a, ¬ lt a a) :
    ∀ {l l' : List α}, l.Pairwise lt → l'.Pairwise le → l ⊆ l' → l.Sublist l' := by
  intro l l' hl hl' hsub
  induction l' generalizing l with
  | nil =>
    obtain rfl := eq_nil_of_subset_nil hsub
    exact List.Sublist.refl _
  | cons b l' ih =>
    obtain ⟨hb, htail⟩ := pairwise_cons.mp hl'
    cases l with
    | nil => exact nil_sublist _
    | cons a l =>
      obtain ⟨ha, hl⟩ := pairwise_cons.mp hl
      rcases mem_cons.mp (hsub mem_cons_self) with rfl | hmem
      · -- the heads agree: nothing else of the first list can be that head
        refine List.Sublist.cons_cons a (ih hl htail fun x hx => ?_)
        refine (mem_cons.mp (hsub (mem_cons_of_mem _ hx))).resolve_left ?_
        rintro rfl
        exact hirrefl x (ha x hx)
      · -- `a` comes after `b`, and so does everything that comes after `a`
        refine List.Sublist.cons b (ih (pairwise_cons.mpr ⟨ha, hl⟩) htail fun x hx => ?_)
        rcases mem_cons.mp hx with rfl | hx
        · exact hmem
        · refine (mem_cons.mp (hsub (mem_cons_of_mem _ hx))).resolve_left ?_
          rintro rfl
          exact hlt a x (ha x hx) (hb a hmem)

end NexusCode.Lib.Ordered
