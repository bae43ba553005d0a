/-
  A loop that reads a finite stream, emits as it goes and may stop early.

  `for await (const x of stream) { … }` in a generator: each element either moves the loop to its
  next state or stops it with a result, and both may emit; when the stream ends, `finish` emits
  what is left and gives the result.

  **`Consumer.rule`** is the loop rule: an invariant of the state, of what was emitted so far and
  of what is still to come, kept by every element, and a condition on the result that holds
  wherever the loop stops.
-/
import Mathlib.Tactic.Common

namespace NexusCode.Lib

/-- A loop over elements of `α` with states `σ`, emissions `β` and a result `ρ`. -/
structure Consumer (σ α β ρ : Type) where
  /-- One element: what is emitted, and the next state or the result. -/
  step : σ → α → List β × (σ ⊕ ρ)
  /-- The end of the stream. -/
  finish : σ → List β × ρ

namespace Consumer

variable {σ α β ρ : Type} (K : Consumer σ α β ρ)

/-- The whole loop: everything it emits, and its result. -/
def run : σ → List α → List β × ρ
  | s, [] => K.finish s
  | s, a :: as =>
    match K.step s a with
    | (out, .inl s') => (out ++ (run s' as).1, (run s' as).2)
    | (out, .inr r) => (out, r)

@[simp] theorem run_nil (s : σ) : K.run s [] = K.finish s := rfl

theorem run_cons_inl {s s' : σ} {a : α} {out : List β} (h : K.step s a = (out, .inl s'))
    (as : List α) : K.run s (a :: as) = (out ++ (K.run s' as).1, (K.run s' as).2) := by
  rw [run, h]

theorem run_cons_inr {s : σ} {a : α} {out : List β} {r : ρ} (h : K.step s a = (out, .inr r))
    (as : List α) : K.run s (a :: as) = (out, r) := by
  rw [run, h]

/-- **The loop rule.**  `I s out rest` says what the loop knows after emitting `out` with `rest`
    still to come; `Q out r` is what is wanted of everything emitted and of the result. -/
theorem rule {I : σ → List β → List α → Prop} {Q : List β → ρ → Prop} (s : σ) (out : List β)
    (as : List α)
    (hinl : ∀ s out a as s' es, I s out (a :: as) → K.step s a = (es, .inl s') →
      I s' (out ++ es) as)
    (hinr : ∀ s out a as r es, I s out (a :: as) → K.step s a = (es, .inr r) → Q (out ++ es) r)
    (hfin : ∀ s out, I s out [] → Q (out ++ (K.finish s).1) (K.finish s).2)
    (hI : I s out as) :
    Q (out ++ (K.run s as).1) (K.run s as).2 := by
  induction as generalizing s out with
  | nil => exact hfin s out hI
  | cons a as ih =>
    rcases hstep : K.step s a with ⟨es, s' | r⟩
    · rw [K.run_cons_inl hstep, ← List.append_assoc]
      exact ih _ _ (hinl s out a as s' es hI hstep)
    · rw [K.run_cons_inr hstep]
      exact hinr s out a as r es hI hstep

end Consumer

end NexusCode.Lib
