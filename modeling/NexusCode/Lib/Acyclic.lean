/-
  Relations without cycles: an edge can be added unless its end already leads back
  (`Acyclic.insert`), and a finite list that is not empty has an element no edge of which leads
  into the list (`exists_minimal`).
-/
import Mathlib.Data.Set.Finite.List
import Mathlib.Order.WellFounded
import Mathlib.Data.Fintype.EquivFin
import Mathlib.Tactic.Common

namespace NexusCode.Lib

open Relation

/-- Nothing leads back to itself. -/
def Acyclic {α : Type} (r : α → α → Prop) : Prop := ∀ x, ¬ TransGen r x x

variable {α : Type} {r r' : α → α → Prop}

theorem Acyclic.mono (h : Acyclic r) (hr : ∀ u v, r' u v → r u v) : Acyclic r' :=
  fun x hx => h x (TransGen.mono hr x x hx)

/-- A path with a new edge avoids it, or leads to its start and goes on from its end. -/
theorem transGen_insert {a b : α} (hr : ∀ u v, r' u v → r u v ∨ u = a ∧ v = b) {x y : α}
    (h : TransGen r' x y) : TransGen r x y ∨ ReflTransGen r x a ∧ ReflTransGen r b y := by
  induction h with
  | single hxy =>
    rcases hr _ _ hxy with hxy | ⟨rfl, rfl⟩
    · exact .inl (.single hxy)
    · exact .inr ⟨.refl, .refl⟩
  | tail _ hyz ih =>
    rcases hr _ _ hyz with hyz | ⟨rfl, rfl⟩
    · rcases ih with ih | ⟨hxa, hby⟩
      · exact .inl (.tail ih hyz)
      · exact .inr ⟨hxa, hby.tail hyz⟩
    · rcases ih with ih | ⟨hxa, -⟩
      · exact .inr ⟨ih.to_reflTransGen, .refl⟩
      · exact .inr ⟨hxa, .refl⟩

/-- **An edge may be added** unless its end already leads to its start. -/
theorem Acyclic.insert {a b : α} (h : Acyclic r) (hba : ¬ ReflTransGen r b a)
    (hr : ∀ u v, r' u v → r u v ∨ u = a ∧ v = b) : Acyclic r' := by
  intro x hx
  rcases transGen_insert hr hx with hx | ⟨hxa, hbx⟩
  · exact h x hx
  · exact hba (hbx.trans hxa)

/-- **Some element leads to no other**, in every list that is not empty. -/
theorem Acyclic.exists_minimal (h : Acyclic r) {l : List α} (hne : l ≠ []) :
    ∃ x ∈ l, ∀ y ∈ l, ¬ r x y := by
  -- the paths form a strict order on the finitely many elements
  let below : {x // x ∈ l} → {x // x ∈ l} → Prop := fun y x => TransGen r x.1 y.1
  have htrans : IsTrans _ below := ⟨fun _ _ _ hba hcb => hcb.trans hba⟩
  have hirrefl : Std.Irrefl below := ⟨fun x hx => h x.1 hx⟩
  have hfinite : Finite {x // x ∈ l} := (List.finite_toSet l).to_subtype
  have hwf : WellFounded below := Finite.wellFounded_of_trans_of_irrefl below
  obtain ⟨x, hx⟩ := List.exists_mem_of_ne_nil l hne
  obtain ⟨m, -, hmin⟩ := hwf.has_min Set.univ ⟨⟨x, hx⟩, trivial⟩
  exact ⟨m.1, m.2, fun y hy hmy => hmin ⟨y, hy⟩ trivial (.single hmy)⟩

end NexusCode.Lib
