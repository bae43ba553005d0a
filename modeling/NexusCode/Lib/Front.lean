/-
  Lists read from the front.

  A list is read by taking its longest beginning with some property and going on with the rest.
  `takeWhile_append_of_head` and `dropWhile_append_of_head` say where such a reading stops;
  `takeWhile_eq_filter` says when the beginning is everything that has the property.
-/
import Mathlib.Data.List.TakeWhile
import Mathlib.Data.List.Pairwise
import Mathlib.Tactic.Common

namespace NexusCode.Lib.Front

open List Bool

variable {α : Type} {p : α → Bool}

variable {l : List α}

theorem takeWhile_of_head (h : ∀ a ∈ l.head?, p a = false) : l.takeWhile p = [] := by
  cases l with
  | nil => rfl
  | cons a l => rw [takeWhile_cons, h a rfl]; rfl

theorem dropWhile_of_head (h : ∀ a ∈ l.head?, p a = false) : l.dropWhile p = l := by
  cases l with
  | nil => rfl
  | cons a l => rw [dropWhile_cons, h a rfl]; rfl

/-- The reading stops inside the first list, or at the head of the second. -/
theorem takeWhile_append_of_head {t : List α} (h : ∀ a ∈ t.head?, p a = false) :
    ∀ l : List α, (l ++ t).takeWhile p = l.takeWhile p
  | [] => takeWhile_of_head h
  | a :: l => by
    rw [cons_append, takeWhile_cons, takeWhile_cons, takeWhile_append_of_head h l]

theorem dropWhile_append_of_head {t : List α} (h : ∀ a ∈ t.head?, p a = false) :
    ∀ l : List α, (l ++ t).dropWhile p = l.dropWhile p ++ t
  | [] => dropWhile_of_head h
  | a :: l => by
    rw [cons_append, dropWhile_cons, dropWhile_cons, dropWhile_append_of_head h l]
    split <;> rfl

theorem dropWhile_append_of_mem {a : α} (ha : p a = false) (t : List α) :
    ∀ {l : List α}, a ∈ l → (l ++ t).dropWhile p = l.dropWhile p ++ t
  | b :: l, h => by
    rw [cons_append, dropWhile_cons, dropWhile_cons]
    split
    · rename_i hb
      rcases mem_cons.mp h with rfl | h
      · rw [ha] at hb
        nomatch hb
      · exact dropWhile_append_of_mem ha t h
    · rfl

theorem mem_dropWhile {a : α} (ha : p a = false) : ∀ {l : List α}, a ∈ l → a ∈ l.dropWhile p
  | b :: l, h => by
    rw [dropWhile_cons]
    split
    · rename_i hb
      rcases mem_cons.mp h with rfl | h
      · rw [ha] at hb
        nomatch hb
      · exact mem_dropWhile ha h
    · exact h

/-- What is left starts with an element that does not have the property. -/
theorem head_dropWhile : ∀ {l : List α}, ∀ a ∈ (l.dropWhile p).head?, p a = false
  | b :: l, a, h => by
    rw [dropWhile_cons] at h
    split at h
    · exact head_dropWhile a h
    · rename_i hb
      obtain rfl := Option.some.inj h
      exact not_eq_true _ ▸ hb

/-- No element with the property stands after one without it. -/
def IsPrefix (p : α → Bool) (l : List α) : Prop := l.Pairwise fun a b => p a = false → p b = false

theorem takeWhile_sublist_filter : ∀ l : List α, (l.takeWhile p).Sublist (l.filter p)
  | [] => List.Sublist.refl _
  | a :: l => by
    rw [takeWhile_cons, filter_cons]
    split
    · exact (takeWhile_sublist_filter l).cons_cons a
    · exact nil_sublist _

theorem takeWhile_eq_filter (h : IsPrefix p l) : l.takeWhile p = l.filter p := by
  induction l with
  | nil => rfl
  | cons a l ih =>
    obtain ⟨ha, hl⟩ := pairwise_cons.mp h
    rw [takeWhile_cons, filter_cons]
    split
    · rw [ih hl]
    · rename_i hpa
      refine (filter_eq_nil_iff.mpr fun b hb => ?_).symm
      rw [ha b hb (not_eq_true _ ▸ hpa)]
      exact Bool.false_ne_true

theorem not_of_mem_dropWhile (h : IsPrefix p l) : ∀ a ∈ l.dropWhile p, p a = false := by
  induction l with
  | nil => exact fun a ha => nomatch ha
  | cons b l ih =>
    obtain ⟨hb, hl⟩ := pairwise_cons.mp h
    intro a ha
    rw [dropWhile_cons] at ha
    split at ha
    · exact ih hl a ha
    · rename_i hpb
      rcases mem_cons.mp ha with rfl | ha
      · exact not_eq_true _ ▸ hpb
      · exact hb a ha (not_eq_true _ ▸ hpb)

theorem isPrefix_of_takeWhile (h : l.takeWhile p = l.filter p) : IsPrefix p l := by
  induction l with
  | nil => exact List.Pairwise.nil
  | cons a l ih =>
    rw [takeWhile_cons, filter_cons] at h
    refine pairwise_cons.mpr ?_
    split at h
    · rename_i hpa
      refine ⟨fun b _ hpa' => ?_, ih (cons.inj h).2⟩
      rw [hpa] at hpa'
      nomatch hpa'
    · have hnone := filter_eq_nil_iff.mp h.symm
      refine ⟨fun b hb _ => not_eq_true _ ▸ hnone b hb, ?_⟩
      refine pairwise_of_forall_mem_list fun b _ c hc _ => ?_
      exact not_eq_true _ ▸ hnone c hc

/-- **The beginning is everything with the property** exactly if it is as long. -/
theorem isPrefix_iff_length (l : List α) :
    IsPrefix p l ↔ (l.filter p).length ≤ (l.takeWhile p).length := by
  constructor
  · intro h
    rw [takeWhile_eq_filter h]
  · intro h
    exact isPrefix_of_takeWhile ((takeWhile_sublist_filter l).eq_of_length_le h)

end NexusCode.Lib.Front
