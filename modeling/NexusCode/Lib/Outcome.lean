/-
  Computations that may end with an error.

  * `bind_ok`  — a sequence gives a result only if each part does;
  * `Ends`     — what holds of the result of a computation and what of its error, with the rules
                 for sequences (`Ends.bind`) and for loops over a list (`Ends.foldlM`);
  * `Succeeds` — the computation has a result, with the rules that say of a sequence and of a loop
                 exactly when.
-/
import Mathlib.Tactic.Common

namespace NexusCode.Lib

open List

theorem bind_ok {ε α β : Type} {x : Except ε α} {f : α → Except ε β} {b : β}
    (h : x.bind f = .ok b) : ∃ a, x = .ok a ∧ f a = .ok b := by
  cases x with
  | error e => nomatch h
  | ok a => exact ⟨a, rfl, h⟩

/-- A result that has the one property, or an error that has the other. -/
def Ends {ε α : Type} (P : α → Prop) (Q : ε → Prop) : Except ε α → Prop
  | .ok a => P a
  | .error e => Q e

namespace Ends

variable {ε α β : Type} {Q : ε → Prop}

theorem mono {P P' : α → Prop} {Q' : ε → Prop} {x : Except ε α} (h : Ends P Q x)
    (hP : ∀ a, P a → P' a) (hQ : ∀ e, Q e → Q' e) : Ends P' Q' x := by
  cases x with
  | error e => exact hQ e h
  | ok a => exact hP a h

theorem always (x : Except ε α) : Ends (fun _ => True) (fun _ => True) x := by
  cases x <;> trivial

theorem map {P : α → Prop} {R : β → Prop} {x : Except ε α} {f : α → β} (hx : Ends P Q x)
    (hf : ∀ a, P a → R (f a)) : Ends R Q (x.map f) := by
  cases x with
  | error e => exact hx
  | ok a => exact hf a hx

/-- **The rule for sequences.** -/
theorem bind {P : α → Prop} {R : β → Prop} {x : Except ε α} {f : α → Except ε β}
    (hx : Ends P Q x) (hf : ∀ a, P a → Ends R Q (f a)) : Ends R Q (x.bind f) := by
  cases x with
  | error e => exact hx
  | ok a => exact hf a hx

/-- **The rule for loops.**  An invariant that speaks of the elements that are done. -/
theorem foldlM {σ : Type} {f : σ → α → Except ε σ} (I : List α → σ → Prop) {l : List α}
    (hstep : ∀ pre a post s, l = pre ++ a :: post → I pre s →
      Ends (I (pre ++ [a])) Q (f s a)) {s : σ} (h₀ : I [] s) : Ends (I l) Q (l.foldlM f s) := by
  have hall : ∀ (post pre : List α) (s : σ), l = pre ++ post → I pre s →
      Ends (I l) Q (post.foldlM f s) := by
    intro post
    induction post with
    | nil =>
      intro pre s hl hpre
      rw [append_nil] at hl
      subst hl
      exact hpre
    | cons a post ih =>
      intro pre s hl hpre
      rw [foldlM_cons]
      refine (hstep pre a post s hl hpre).bind fun s' hs' => ih (pre ++ [a]) s' ?_ hs'
      rw [hl, append_assoc, singleton_append]
  exact hall l [] s rfl h₀

end Ends

/-- The computation has a result. -/
def Succeeds {ε α : Type} (x : Except ε α) : Prop := ∃ a, x = .ok a

namespace Succeeds

variable {ε α β : Type}

@[simp] theorem ok (a : α) : Succeeds (Except.ok a : Except ε α) := ⟨a, rfl⟩

@[simp] theorem not_error (e : ε) : ¬ Succeeds (Except.error e : Except ε α) :=
  fun ⟨_, h⟩ => nomatch h

@[simp] theorem map_iff {x : Except ε α} {f : α → β} : Succeeds (x.map f) ↔ Succeeds x := by
  cases x with
  | error e => exact iff_of_false (not_error e) (not_error e)
  | ok a => exact iff_of_true (ok (f a)) (ok a)

/-- **The rule for sequences**, when the second part succeeds or not whatever the first gave. -/
theorem bind_iff {P R : Prop} {x : Except ε α} {f : α → Except ε β} (hx : Succeeds x ↔ P)
    (hf : ∀ a, x = .ok a → (Succeeds (f a) ↔ R)) : Succeeds (x.bind f) ↔ P ∧ R := by
  rw [← hx]
  cases x with
  | error e => exact iff_of_false (not_error e) fun h => not_error e h.1
  | ok a => exact (hf a rfl).trans ⟨fun h => ⟨ok a, h⟩, And.right⟩

/-- **The rule for loops**, when a step succeeds or not whatever the state. -/
theorem foldlM_iff {σ : Type} {f : σ → α → Except ε σ} {P : α → Prop} :
    ∀ {l : List α}, (∀ s, ∀ a ∈ l, (Succeeds (f s a) ↔ P a)) →
      ∀ s, Succeeds (l.foldlM f s) ↔ ∀ a ∈ l, P a
  | [], _, s => iff_of_true (ok s) fun _ => nofun
  | a :: l, hf, s => by
    rw [foldlM_cons, forall_mem_cons]
    exact bind_iff (hf s a mem_cons_self) fun s' _ =>
      foldlM_iff (fun s b hb => hf s b (mem_cons_of_mem a hb)) s'

theorem and_iff {P : α → Prop} {Q : ε → Prop} {x : Except ε α} (h : Ends P Q x) :
    (∃ a, x = .ok a ∧ P a) ↔ Succeeds x := by
  cases x with
  | error e => exact iff_of_false (fun ⟨_, h, _⟩ => nomatch h) (not_error e)
  | ok a => exact iff_of_true ⟨a, rfl, h⟩ (ok a)

end Succeeds

end NexusCode.Lib
