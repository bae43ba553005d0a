/-
  Sequences of classes and runs: the regular expressions without choice and nesting.

  A text fits a sequence if it can be cut into one element for every class and any number of elements
  for every run.  `fits` tries the cuts from left to right.

  1. `Fits`, `fits`   — the sequences, and the matcher.
  2. `fits_iff`       — the matcher is right.
  3. `Fits.mono`      — parts of larger classes fit more.
-/
import Mathlib.Tactic.Common

namespace NexusCode.Lib.Wildcard

open List

/-- A part of a sequence. -/
inductive Part (α : Type) where
  /-- One element of a class. -/
  | one (p : α → Bool)
  /-- Any number of elements of a class. -/
  | run (p : α → Bool)

variable {α : Type}

/-- The text is cut into elements of the parts. -/
def Fits : List (Part α) → List α → Prop
  | [], s => s = []
  | .one p :: parts, s => ∃ a t, s = a :: t ∧ p a = true ∧ Fits parts t
  | .run p :: parts, s => ∃ r t, s = r ++ t ∧ (∀ a ∈ r, p a = true) ∧ Fits parts t

/-- Some cut behind elements of the class has a rest that passes. -/
def anyRun (p : α → Bool) (rest : List α → Bool) : List α → Bool
  | [] => rest []
  | a :: s => rest (a :: s) || (p a && anyRun p rest s)

/-- Does the text fit? -/
def fits : List (Part α) → List α → Bool
  | [], s => s.isEmpty
  | .one _ :: _, [] => false
  | .one p :: parts, a :: s => p a && fits parts s
  | .run p :: parts, s => anyRun p (fits parts) s

theorem anyRun_iff {p : α → Bool} {rest : List α → Bool} : ∀ {s : List α}, anyRun p rest s = true ↔
    ∃ r t, s = r ++ t ∧ (∀ a ∈ r, p a = true) ∧ rest t = true
  | [] => by
    constructor
    · exact fun h => ⟨[], [], rfl, fun _ => nofun, h⟩
    · rintro ⟨r, t, heq, -, h⟩
      obtain ⟨rfl, rfl⟩ := append_eq_nil_iff.mp heq.symm
      exact h
  | a :: s => by
    rw [anyRun, Bool.or_eq_true, Bool.and_eq_true, anyRun_iff]
    constructor
    · rintro (h | ⟨ha, r, t, rfl, hr, h⟩)
      · exact ⟨[], a :: s, rfl, fun _ => nofun, h⟩
      · exact ⟨a :: r, t, rfl, forall_mem_cons.mpr ⟨ha, hr⟩, h⟩
    · rintro ⟨r, t, heq, hr, h⟩
      cases r with
      | nil =>
        rw [show a :: s = t from heq]
        exact .inl h
      | cons b r =>
        obtain ⟨rfl, rfl⟩ := cons.inj heq
        obtain ⟨ha, hr⟩ := forall_mem_cons.mp hr
        exact .inr ⟨ha, r, t, rfl, hr, h⟩

/-- **The matcher finds a cut if there is one.** -/
theorem fits_iff : ∀ {parts : List (Part α)} {s : List α}, fits parts s = true ↔ Fits parts s
  | [], s => List.isEmpty_iff
  | .one p :: parts, [] => ⟨nofun, fun ⟨_, _, h, _⟩ => (nomatch h)⟩
  | .one p :: parts, a :: s => by
    rw [fits, Bool.and_eq_true, fits_iff]
    constructor
    · exact fun ⟨ha, h⟩ => ⟨a, s, rfl, ha, h⟩
    · rintro ⟨b, t, heq, hb, h⟩
      obtain ⟨rfl, rfl⟩ := cons.inj heq
      exact ⟨hb, h⟩
  | .run p :: parts, s => by
    rw [fits, anyRun_iff]
    exact exists_congr fun r => exists_congr fun t => and_congr_right fun _ =>
      and_congr_right fun _ => fits_iff

instance (parts : List (Part α)) (s : List α) : Decidable (Fits parts s) :=
  decidable_of_iff _ fits_iff

theorem fits_one {p : α → Bool} {parts : List (Part α)} {a : α} {s : List α} :
    Fits (.one p :: parts) (a :: s) ↔ p a = true ∧ Fits parts s := by
  constructor
  · rintro ⟨b, t, heq, hb, h⟩
    obtain ⟨rfl, rfl⟩ := cons.inj heq
    exact ⟨hb, h⟩
  · exact fun ⟨ha, h⟩ => ⟨a, s, rfl, ha, h⟩

/-- The second part takes what the first does. -/
def Part.Le : Part α → Part α → Prop
  | .one p, .one q => ∀ a, p a = true → q a = true
  | .run p, .run q => ∀ a, p a = true → q a = true
  | _, _ => False

/-- **Parts that take more fit more.** -/
theorem Fits.mono {parts parts' : List (Part α)} (hle : List.Forall₂ Part.Le parts parts')
    {s : List α} (h : Fits parts s) : Fits parts' s := by
  induction hle generalizing s with
  | nil => exact h
  | @cons part part' parts parts' hpart _ ih =>
    cases part with
    | one p =>
      cases part' with
      | one q =>
        obtain ⟨a, t, rfl, ha, h⟩ := h
        exact ⟨a, t, rfl, hpart a ha, ih h⟩
      | run q => exact hpart.elim
    | run p =>
      cases part' with
      | one q => exact hpart.elim
      | run q =>
        obtain ⟨r, t, rfl, hr, h⟩ := h
        exact ⟨r, t, rfl, fun a ha => hpart a (hr a ha), ih h⟩

end NexusCode.Lib.Wildcard
