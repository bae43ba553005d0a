/-
  Deterministic machines and their runs.

  A machine takes one input at a time, answers it and moves to its next state.  The module
  packages the inductions over runs once:

  * `Machine.Always.invariant` — what one admissible step preserves, a whole run preserves;
  * `Machine.always_congr` — step conditions that agree while an invariant lasts;
  * `Machine.Always.answers` — what admissible steps answer while an invariant lasts;
  * `Machine.simulates` — two machines that agree on one step, in related states, agree on every
    answer of every run on which the step condition holds all along.
-/
import Mathlib.Tactic.Common

namespace NexusCode.Lib

open List

/-- A deterministic machine over states `σ`, inputs `α` and answers `β`. -/
structure Machine (σ α β : Type) where
  /-- One step: the answer and the next state. -/
  step : σ → α → β × σ

namespace Machine

variable {σ τ α β γ δ : Type} (M : Machine σ α β) (N : Machine τ α γ)

/-- The state after a list of inputs. -/
def run : σ → List α → σ
  | s, [] => s
  | s, a :: as => run (M.step s a).2 as

/-- The answers to a list of inputs, in order. -/
def answers : σ → List α → List β
  | _, [] => []
  | s, a :: as => (M.step s a).1 :: answers (M.step s a).2 as

/-- Every input is admissible in the state it meets. -/
def Always (Ok : σ → α → Prop) : σ → List α → Prop
  | _, [] => True
  | s, a :: as => Ok s a ∧ Always Ok (M.step s a).2 as

instance decidableAlways {Ok : σ → α → Prop} [∀ s a, Decidable (Ok s a)] :
    ∀ s as, Decidable (M.Always Ok s as)
  | _, [] => inferInstanceAs (Decidable True)
  | s, a :: as =>
    have : Decidable (M.Always Ok (M.step s a).2 as) := decidableAlways (M.step s a).2 as
    inferInstanceAs (Decidable (Ok s a ∧ M.Always Ok (M.step s a).2 as))

/-- The states a run from `s₀` can be in. -/
def Reachable (s₀ s : σ) : Prop := ∃ as, M.run s₀ as = s

@[simp] theorem run_nil (s : σ) : M.run s [] = s := rfl
@[simp] theorem run_cons (s : σ) (a : α) (as : List α) :
    M.run s (a :: as) = M.run (M.step s a).2 as := rfl

theorem run_append (s : σ) (as bs : List α) : M.run s (as ++ bs) = M.run (M.run s as) bs := by
  induction as generalizing s with
  | nil => rfl
  | cons a as ih => exact ih _

variable {Ok : σ → α → Prop} {s : σ} {as : List α}

theorem always_append {bs : List α} :
    M.Always Ok s (as ++ bs) ↔ M.Always Ok s as ∧ M.Always Ok (M.run s as) bs := by
  induction as generalizing s with
  | nil => exact ⟨fun h => ⟨trivial, h⟩, fun h => h.2⟩
  | cons a as ih =>
    constructor
    · rintro ⟨h, ht⟩
      obtain ⟨h₁, h₂⟩ := ih.mp ht
      exact ⟨⟨h, h₁⟩, h₂⟩
    · rintro ⟨⟨h, h₁⟩, h₂⟩
      exact ⟨h, ih.mpr ⟨h₁, h₂⟩⟩

variable {M N}

variable {Ok' : σ → α → Prop}

theorem Always.and (h : M.Always Ok s as)
    (h' : M.Always Ok' s as) : M.Always (fun s a => Ok s a ∧ Ok' s a) s as := by
  induction as generalizing s with
  | nil => trivial
  | cons a as ih => exact ⟨⟨h.1, h'.1⟩, ih h.2 h'.2⟩

variable {I : σ → Prop}

/-- **The invariant rule.**  What every admissible step preserves, every admissible run does. -/
theorem Always.invariant
    (hstep : ∀ s a, I s → Ok s a → I (M.step s a).2)
    (hok : M.Always Ok s as) (hs : I s) : I (M.run s as) := by
  induction as generalizing s with
  | nil => exact hs
  | cons a as ih => exact ih hok.2 (hstep s a hs hok.1)

/-- **The rule for equivalent conditions.**  Two conditions on steps that agree while an invariant
    lasts hold of the same runs. -/
theorem always_congr
    (hstep : ∀ s, ∀ a ∈ as, I s → I (M.step s a).2)
    (hiff : ∀ s, ∀ a ∈ as, I s → (Ok s a ↔ Ok' s a)) (hs : I s) :
    M.Always Ok s as ↔ M.Always Ok' s as := by
  induction as generalizing s with
  | nil => exact Iff.rfl
  | cons a as ih =>
    refine and_congr (hiff s a mem_cons_self hs) (ih ?_ ?_ ?_)
    · exact fun s b hb => hstep s b (mem_cons_of_mem _ hb)
    · exact fun s b hb => hiff s b (mem_cons_of_mem _ hb)
    · exact hstep s a mem_cons_self hs

/-- **The rule for properties of steps.**  What every admissible step has, while an invariant
    lasts, holds all along. -/
theorem Always.of_invariant {P : σ → α → Prop}
    (hstep : ∀ s a, I s → Ok s a → P s a ∧ I (M.step s a).2)
    (hok : M.Always Ok s as) (hs : I s) : M.Always P s as := by
  induction as generalizing s with
  | nil => trivial
  | cons a as ih =>
    obtain ⟨hP, hnext⟩ := hstep s a hs hok.1
    exact ⟨hP, ih hok.2 hnext⟩

/-- **The rule for answers.**  What every admissible step answers, while an invariant lasts, is
    answered all along. -/
theorem Always.answers {P : β → Prop}
    (hstep : ∀ s a, I s → Ok s a → P (M.step s a).1 ∧ I (M.step s a).2)
    (hok : M.Always Ok s as) (hs : I s) : ∀ b ∈ M.answers s as, P b := by
  induction as generalizing s with
  | nil => exact fun _ => nofun
  | cons a as ih =>
    obtain ⟨hanswer, hnext⟩ := hstep s a hs hok.1
    exact forall_mem_cons.mpr ⟨hanswer, ih hok.2 hnext⟩

theorem run_invariant (hstep : ∀ s a, I s → I (M.step s a).2)
    (as : List α) (hs : I s) : I (M.run s as) := by
  induction as generalizing s with
  | nil => exact hs
  | cons a as ih => exact ih (hstep s a hs)

/-- An invariant of the initial state holds of every reachable state. -/
theorem Reachable.invariant (hstep : ∀ s a, I s → I (M.step s a).2)
    {s₀ : σ} (h₀ : I s₀) (hr : M.Reachable s₀ s) : I s := by
  obtain ⟨as, rfl⟩ := hr
  exact run_invariant hstep as h₀

/-- Every step of two machines run side by side on the same inputs meets the condition. -/
def Paired (M : Machine σ α β) (N : Machine τ α γ) (Ok : σ → τ → α → Prop) :
    σ → τ → List α → Prop
  | _, _, [] => True
  | s, t, a :: as => Ok s t a ∧ Paired M N Ok (M.step s a).2 (N.step t a).2 as

/-- **The simulation rule.**  If related states answer one admissible input alike, seen through
    `view` and `view'`, and stay related, then whole runs are answered alike. -/
theorem simulates {R : σ → τ → Prop} {Ok : σ → τ → α → Prop} {view : β → δ} {view' : γ → δ}
    (hstep : ∀ s t a, R s t → Ok s t a →
      view (M.step s a).1 = view' (N.step t a).1 ∧ R (M.step s a).2 (N.step t a).2)
    {t : τ} (hR : R s t) (hok : Paired M N Ok s t as) :
    (M.answers s as).map view = (N.answers t as).map view' ∧ R (M.run s as) (N.run t as) := by
  induction as generalizing s t with
  | nil => exact ⟨rfl, hR⟩
  | cons a as ih =>
    obtain ⟨hview, hR'⟩ := hstep s t a hR hok.1
    obtain ⟨hans, hrun⟩ := ih hR' hok.2
    refine ⟨?_, hrun⟩
    simp only [answers, map_cons, hview, hans]

end Machine

end NexusCode.Lib
