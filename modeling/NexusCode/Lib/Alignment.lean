/-
  Two versions of a list, and what may get lost between them.

  `Spared lost i old new` says that `new` comes from `old` by adding elements, and by losing only
  those that `lost` allows at their index, where the first element of `old` has index `i`.
-/
import Mathlib.Tactic.Common

namespace NexusCode.Lib

/-- Only elements that may get lost are lost. -/
inductive Spared {α : Type} (lost : Nat → α → Prop) : Nat → List α → List α → Prop
  | nil (i : Nat) : Spared lost i [] []
  | kept {i : Nat} {a : α} {old new : List α} : Spared lost (i + 1) old new →
      Spared lost i (a :: old) (a :: new)
  | lost {i : Nat} {a : α} {old new : List α} : lost i a → Spared lost (i + 1) old new →
      Spared lost i (a :: old) new
  | added {i : Nat} {a : α} {old new : List α} : Spared lost i old new →
      Spared lost i old (a :: new)

namespace Spared

variable {α : Type} {lost lost' : Nat → α → Prop}

theorem refl : ∀ (i : Nat) (l : List α), Spared lost i l l
  | i, [] => .nil i
  | i, _ :: l => .kept (refl (i + 1) l)

theorem of_nil (i : Nat) : ∀ new : List α, Spared lost i [] new
  | [] => .nil i
  | _ :: new => .added (of_nil i new)

theorem mono (h : ∀ i a, lost i a → lost' i a) {i : Nat} {old new : List α}
    (hspared : Spared lost i old new) : Spared lost' i old new := by
  induction hspared with
  | nil i => exact .nil i
  | kept _ ih => exact .kept ih
  | lost hlost _ ih => exact .lost (h _ _ hlost) ih
  | added _ ih => exact .added ih

theorem append {i : Nat} {old new old' new' : List α} (h : Spared lost i old new)
    (h' : Spared lost (i + old.length) old' new') : Spared lost i (old ++ old') (new ++ new') := by
  induction h with
  | nil i => exact h'
  | kept _ ih =>
    rw [List.length_cons, ← Nat.add_assoc, Nat.add_right_comm] at h'
    exact .kept (ih h')
  | lost hlost _ ih =>
    rw [List.length_cons, ← Nat.add_assoc, Nat.add_right_comm] at h'
    exact .lost hlost (ih h')
  | added _ ih => exact .added (ih h')

theorem nothing_left : ∀ {old : List α} {i : Nat}, Spared lost i old [] ↔
    ∀ k a, old[k]? = some a → lost (i + k) a
  | [], i => ⟨fun _ k a h => by simp at h, fun _ => .nil i⟩
  | a :: old, i => by
    constructor
    · intro h
      cases h with
      | lost hlost hrest =>
        intro k b hb
        cases k with
        | zero => exact Option.some.inj hb ▸ hlost
        | succ k =>
          have hk := nothing_left.mp hrest k b hb
          rwa [Nat.add_assoc, Nat.add_comm 1] at hk
    · intro h
      refine .lost (h 0 a rfl) (nothing_left.mpr fun k b hb => ?_)
      rw [Nat.add_assoc, Nat.add_comm 1]
      exact h (k + 1) b hb

/-- If nothing may be lost, the old list is a part of the new one. -/
theorem iff_sublist (h : ∀ i a, ¬ lost i a) {i : Nat} {old new : List α} :
    Spared lost i old new ↔ old.Sublist new := by
  constructor
  · intro hspared
    induction hspared with
    | nil => exact .slnil
    | kept _ ih => exact ih.cons_cons _
    | lost hlost _ _ => exact absurd hlost (h _ _)
    | added _ ih => exact ih.cons _
  · intro hsub
    induction hsub generalizing i with
    | slnil => exact .nil i
    | cons a _ ih => exact .added ih
    | cons_cons a _ ih => exact .kept ih

end Spared

end NexusCode.Lib
