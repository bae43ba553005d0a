/-
  `text.split("\n")`, on characters: how lines come apart (`lines_behind`) and together
  (`lines_join`).
-/
import Mathlib.Tactic.Common

namespace NexusCode.Lib

open List

/-- The pieces between line feeds. -/
def lines : List Char → List (List Char)
  | [] => [[]]
  | c :: cs =>
    if c = '\n' then [] :: lines cs
    else match lines cs with
      | [] => [[c]]
      | l :: ls => (c :: l) :: ls

theorem lines_ne_nil : ∀ s : List Char, lines s ≠ []
  | [] => cons_ne_nil _ _
  | c :: cs => by
    rw [lines]
    split
    · exact cons_ne_nil _ _
    · split <;> exact cons_ne_nil _ _

/-- **A line feed separates.** -/
theorem lines_append (s t : List Char) : lines (s ++ '\n' :: t) = lines s ++ lines t := by
  induction s with
  | nil => rfl
  | cons c cs ih =>
    rw [cons_append, lines, lines, ih]
    split
    · rfl
    · cases hs : lines cs with
      | nil => exact absurd hs (lines_ne_nil cs)
      | cons l ls => rfl

theorem lines_of_notMem {s : List Char} (h : '\n' ∉ s) : lines s = [s] := by
  induction s with
  | nil => rfl
  | cons c cs ih =>
    have hc : c ≠ '\n' := fun hc => h (hc ▸ mem_cons_self)
    rw [lines, if_neg hc, ih fun hmem => h (mem_cons_of_mem c hmem)]

theorem lines_join (s : List Char) : ['\n'].intercalate (lines s) = s := by
  induction s with
  | nil => rfl
  | cons c cs ih =>
    rw [lines]
    split
    · rename_i hc
      rw [hc]
      cases hs : lines cs with
      | nil => exact absurd hs (lines_ne_nil cs)
      | cons l ls =>
        rw [hs] at ih
        rw [intercalate_cons_cons, ih]
        rfl
    · cases hs : lines cs with
      | nil => exact absurd hs (lines_ne_nil cs)
      | cons l ls =>
        rw [hs] at ih
        dsimp only
        cases ls with
        | nil =>
          rw [intercalate_singleton] at ih ⊢
          rw [ih]
        | cons l' ls =>
          rw [intercalate_cons_cons] at ih ⊢
          rw [cons_append, cons_append, ih]

theorem lines_behind {s t : List Char} {front : List (List Char)} {last : List Char}
    (h : lines s = front ++ [last]) {l : List Char} {ls : List (List Char)}
    (ht : lines t = l :: ls) : lines (s ++ t) = front ++ (last ++ l) :: ls := by
  induction s generalizing front last with
  | nil =>
    obtain ⟨rfl, rfl⟩ : front = [] ∧ last = [] := by
      cases front with
      | nil => exact ⟨rfl, (cons.inj h).1.symm⟩
      | cons a as => exact absurd (cons.inj h).2.symm (append_ne_nil_of_right_ne_nil _ (cons_ne_nil _ _))
    exact ht
  | cons c cs ih =>
    rw [lines] at h
    rw [cons_append, lines]
    split at h
    · rename_i hc
      rw [if_pos hc]
      cases front with
      | nil => exact absurd (cons.inj h).2 (lines_ne_nil cs)
      | cons a as =>
        obtain ⟨rfl, hrest⟩ := cons.inj h
        rw [ih hrest]
        rfl
    · rename_i hc
      rw [if_neg hc]
      cases hs : lines cs with
      | nil => exact absurd hs (lines_ne_nil cs)
      | cons l' ls' =>
        rw [hs] at h
        dsimp only at h
        cases front with
        | nil =>
          obtain ⟨rfl, rfl⟩ := cons.inj h
          rw [ih (show lines cs = [] ++ [l'] from hs)]
          rfl
        | cons a as =>
          obtain ⟨rfl, rfl⟩ := cons.inj h
          rw [ih (show lines cs = (l' :: as) ++ [last] from hs)]
          rfl

theorem notMem_of_mem_lines : ∀ {s : List Char}, ∀ l ∈ lines s, '\n' ∉ l
  | [], l, hl => by
    obtain rfl := mem_singleton.mp hl
    exact not_mem_nil
  | c :: cs, l, hl => by
    have ih := @notMem_of_mem_lines cs
    rw [lines] at hl
    split at hl
    · rcases mem_cons.mp hl with rfl | hl
      · exact not_mem_nil
      · exact ih l hl
    · rename_i hc
      have hhead : ∀ l', '\n' ∉ l' → '\n' ∉ c :: l' := fun l' hl' =>
        not_mem_cons_of_ne_of_not_mem (fun h => hc h.symm) hl'
      cases hlines : lines cs with
      | nil => exact absurd hlines (lines_ne_nil cs)
      | cons l' ls =>
        rw [hlines] at hl ih
        rcases mem_cons.mp hl with rfl | hl
        · exact hhead l' (ih l' mem_cons_self)
        · exact ih l (mem_cons_of_mem _ hl)

end NexusCode.Lib
