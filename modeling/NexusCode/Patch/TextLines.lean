/-
  Texts and their lines: a text whose lines all end with a line feed is read back.
-/
import NexusCode.Patch.UnifiedDiff

namespace NexusCode.Patch

open Lib List

/-- A text of lines that end with a line feed. -/
def terminated (ls : List Text) : Text := ls.flatMap (· ++ ['\n'])

theorem lines_terminated : ∀ {ls : List Text}, (∀ l ∈ ls, '\n' ∉ l) →
    lines (terminated ls) = ls ++ [[]]
  | [], _ => rfl
  | l :: ls, h => by
    obtain ⟨hl, hls⟩ := forall_mem_cons.mp h
    show lines ((l ++ ['\n']) ++ terminated ls) = _
    rw [append_assoc, singleton_append, lines_append, lines_of_notMem hl,
      lines_terminated hls]
    rfl

theorem terminated_eq_nil {ls : List Text} (h : terminated ls = []) : ls = [] := by
  cases ls with
  | nil => rfl
  | cons l ls =>
    have hlen := congrArg List.length h
    simp [terminated] at hlen

theorem splitLines_terminated {ls : List Text} (h : ∀ l ∈ ls, '\n' ∉ l) :
    splitLines (terminated ls) = ls := by
  unfold splitLines
  split
  · rename_i hempty
    exact (terminated_eq_nil (List.isEmpty_iff.mp hempty)).symm
  · rw [lines_terminated h, if_pos List.getLast?_concat, dropLast_concat]

theorem joinLines_eq : ∀ ls : List Text, joinLines ls = terminated ls
  | [] => rfl
  | [l] => by
    show ['\n'].intercalate [l] ++ ['\n'] = l ++ ['\n'] ++ []
    rw [intercalate_singleton, append_nil]
  | l :: l' :: ls => by
    have ih := joinLines_eq (l' :: ls)
    show ['\n'].intercalate (l :: l' :: ls) ++ ['\n'] = l ++ ['\n'] ++ terminated (l' :: ls)
    rw [intercalate_cons_cons, ← ih, append_assoc, append_assoc, append_assoc]
    rfl

theorem terminated_inj {ls ls' : List Text} (h : ∀ l ∈ ls, '\n' ∉ l) (h' : ∀ l ∈ ls', '\n' ∉ l) :
    terminated ls = terminated ls' ↔ ls = ls' := by
  refine ⟨fun heq => ?_, congrArg terminated⟩
  rw [← splitLines_terminated h, ← splitLines_terminated h', heq]

theorem notMem_of_mem_splitLines {text : Text} : ∀ l ∈ splitLines text, '\n' ∉ l := by
  intro l hl
  unfold splitLines at hl
  split at hl
  · nomatch hl
  · split at hl
    · exact notMem_of_mem_lines l ((dropLast_sublist _).subset hl)
    · exact notMem_of_mem_lines l hl

end NexusCode.Patch
