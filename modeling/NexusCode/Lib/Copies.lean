/-
  A cell that several parties rewrite from copies of their own.

  A party reads the cell into a copy; later it changes the copy and writes all of it back.  What is
  written knows of the cell only what the copy knows.  A write that starts from a copy which shows
  what the cell shows is like a change of the cell itself (`seen_write`), and the runs that
  only make such writes are those in which the cell shows, at every moment, all changes made so far
  (`shows_all_iff`).
-/
import NexusCode.Lib.Machine
import Mathlib.Data.List.Infix

namespace NexusCode.Lib.Copies

/-- How a cell of type `φ` is read and written: copies of type `σ`, changes `U` of a copy, and what
    a copy shows. -/
structure Protocol (φ σ U ω : Type) where
  load : φ → σ
  save : σ → φ
  change : U → σ → σ
  view : σ → ω
  effect : U → ω → ω
  view_change : ∀ u c, view (change u c) = effect u (view c)
  view_load_save : ∀ c, view (load (save c)) = view c

/-- The cell, and the copies of those that have read it. -/
structure Cell (P φ σ : Type) where
  value : φ
  copies : P → Option σ

/-- What a party does. -/
inductive Op (P U : Type) where
  | read (p : P)
  | write (p : P) (u : U)

variable {P φ σ U ω : Type} [DecidableEq P] (R : Protocol φ σ U ω)

/-- One step; it answers the change that was made. -/
def step (s : Cell P φ σ) : Op P U → Option U × Cell P φ σ
  | .read p => (none, { s with copies := Function.update s.copies p (some (R.load s.value)) })
  | .write p u =>
    match s.copies p with
    | none => (none, s)
    | some c =>
      (some u, ⟨R.save (R.change u c), Function.update s.copies p (some (R.change u c))⟩)

/-- The cell and its parties as a machine. -/
def machine : Machine (Cell P φ σ) (Op P U) (Option U) := ⟨step R⟩

/-- What one that reads the cell now would see. -/
def seen (s : Cell P φ σ) : ω := R.view (R.load s.value)

/-- What changes do to what is seen. -/
def effects (w : ω) (changes : List (Option U)) : ω :=
  changes.foldl (fun w u => u.elim w fun u => R.effect u w) w

/-- A write does to the cell what it does to the copy it starts from. -/
def Fresh (s : Cell P φ σ) : Op P U → Prop
  | .read _ => True
  | .write p u => ∀ c, s.copies p = some c → R.effect u (R.view c) = R.effect u (seen R s)

theorem seen_write {s : Cell P φ σ} {p : P} {c : σ} (u : U) (h : s.copies p = some c) :
    seen R (step R s (.write p u)).2 = R.effect u (R.view c) := by
  rw [step, h]
  dsimp only
  rw [seen, R.view_load_save, R.view_change]

/-- **One step** shows its change exactly if it is fresh. -/
theorem shows_iff (s : Cell P φ σ) (op : Op P U) :
    seen R (step R s op).2 = effects R (seen R s) [(step R s op).1] ↔ Fresh R s op := by
  cases op with
  | read p => exact iff_of_true rfl trivial
  | write p u =>
    cases hcopy : s.copies p with
    | none =>
      have hstep : step R s (.write p u) = (none, s) := by rw [step, hcopy]
      rw [hstep]
      refine iff_of_true rfl fun c hc => ?_
      rw [hcopy] at hc
      nomatch hc
    | some c =>
      have hanswer : (step R s (.write p u)).1 = some u := by rw [step, hcopy]
      rw [seen_write R u hcopy, hanswer]
      constructor
      · intro h c' hc'
        obtain rfl := Option.some.inj (hcopy.symm.trans hc')
        exact h
      · intro h
        exact h c hcopy

/-- **Whole runs**: the cell shows all changes at every moment exactly if every write is fresh. -/
theorem shows_all_iff (s : Cell P φ σ) (ops : List (Op P U)) :
    (∀ pre, pre <+: ops → seen R ((machine R).run s pre) =
      effects R (seen R s) ((machine R).answers s pre)) ↔ (machine R).Always (Fresh R) s ops := by
  induction ops generalizing s with
  | nil =>
    refine iff_of_true (fun pre h => ?_) trivial
    rw [List.prefix_nil.mp h]
    rfl
  | cons op ops ih =>
    have hstep := shows_iff R s op
    constructor
    · intro h
      have hfirst : seen R (step R s op).2 = effects R (seen R s) [(step R s op).1] :=
        h [op] ⟨ops, rfl⟩
      refine ⟨hstep.mp hfirst, (ih _).mp fun pre hpre => ?_⟩
      obtain ⟨rest, rfl⟩ := hpre
      have hall := h (op :: pre) ⟨rest, rfl⟩
      rw [show effects R (seen R s) ((machine R).answers s (op :: pre)) =
        effects R (effects R (seen R s) [(step R s op).1])
          ((machine R).answers (step R s op).2 pre) from rfl, ← hfirst] at hall
      exact hall
    · rintro ⟨hfresh, hrest⟩ pre hpre
      cases pre with
      | nil => rfl
      | cons op' pre =>
        obtain ⟨rest, heq⟩ := hpre
        obtain ⟨rfl, rfl⟩ := List.cons.inj heq
        have hrun := (ih _).mpr hrest pre ⟨rest, rfl⟩
        rw [show seen R ((machine R).step s op').2 = effects R (seen R s) [(step R s op').1] from
          hstep.mpr hfresh] at hrun
        exact hrun

end NexusCode.Lib.Copies
