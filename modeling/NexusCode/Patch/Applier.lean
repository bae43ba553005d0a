/-
  What the applier does with the lines of a hunk.

    1. `Hunk.old`, `Hunk.new`    — the lines a hunk takes from the text and gives out.
    2. **`applyLines_iff`**      — the lines of a hunk are applied exactly if the old ones stand at
       the cursor; then the new ones are given out.
    3. `applyHunk_ok`            — a hunk that is applied, with the lines copied before it.
-/
import NexusCode.Patch.UnifiedDiff

namespace NexusCode.Patch

open List

/-- The line of the text that a line of a hunk takes. -/
def oldText? : Text → Option Text
  | ' ' :: text => some text
  | '-' :: text => some text
  | _ => none

/-- The line that a line of a hunk gives out. -/
def newText? : Text → Option Text
  | ' ' :: text => some text
  | '+' :: text => some text
  | _ => none

/-- The lines a hunk takes. -/
def Hunk.old (hunk : Hunk) : List Text := hunk.lines.filterMap oldText?

/-- The lines a hunk gives out. -/
def Hunk.new (hunk : Hunk) : List Text := hunk.lines.filterMap newText?

/-- A state after lines were taken and given out. -/
def Applying.After (st : Applying) (taken given : List Text) (st' : Applying) : Prop :=
  st.rest = taken ++ st'.rest ∧ st'.cursor = st.cursor + taken.length ∧ st'.out = st.out ++ given

theorem Applying.After.trans {st st₁ st₂ : Applying} {taken taken' given given' : List Text}
    (h : st.After taken given st₁) (h' : st₁.After taken' given' st₂) :
    st.After (taken ++ taken') (given ++ given') st₂ := by
  obtain ⟨hrest, hcursor, hout⟩ := h
  obtain ⟨hrest', hcursor', hout'⟩ := h'
  refine ⟨?_, ?_, ?_⟩
  · rw [hrest, hrest', append_assoc]
  · rw [hcursor', hcursor, length_append, Nat.add_assoc]
  · rw [hout', hout, append_assoc]

theorem expect_iff {st st' : Applying} {label : String} {text : Text} :
    st.expect label text = .ok st' ↔ st.After [text] [] st' := by
  obtain ⟨cursor, rest, out⟩ := st
  obtain ⟨cursor', rest', out'⟩ := st'
  unfold Applying.expect Applying.After
  cases rest with
  | nil => simp
  | cons found rest =>
    dsimp only
    by_cases hfound : found = text
    · rw [if_pos hfound]
      simp [hfound, eq_comm, and_left_comm]
    · rw [if_neg hfound]
      simp [hfound]

theorem applyLine_iff {st st' : Applying} (line : Text) : applyLine st line = .ok st' ↔
    st.After (oldText? line).toList (newText? line).toList st' := by
  obtain ⟨cursor, rest, out⟩ := st
  obtain ⟨cursor', rest', out'⟩ := st'
  have hsame : (Except.ok ⟨cursor, rest, out⟩ : Except String Applying) = .ok ⟨cursor', rest', out'⟩ ↔
      (⟨cursor, rest, out⟩ : Applying).After [] [] ⟨cursor', rest', out'⟩ := by
    simp [Applying.After, eq_comm, and_left_comm]
  unfold applyLine
  split
  · rename_i text
    constructor
    · intro h
      cases hexpect : (⟨cursor, rest, out⟩ : Applying).expect "context" text with
      | error message =>
        rw [hexpect] at h
        nomatch h
      | ok st =>
        rw [hexpect] at h
        have hst := expect_iff.mp hexpect
        obtain ⟨hrest, hcursor, hout⟩ := hst
        rw [← Except.ok.inj h]
        refine ⟨hrest, hcursor, ?_⟩
        rw [hout, append_nil]
        rfl
    · rintro ⟨hrest, hcursor, hout⟩
      have hexpect : (⟨cursor, rest, out⟩ : Applying).expect "context" text =
          .ok ⟨cursor', rest', out⟩ := expect_iff.mpr ⟨hrest, hcursor, (append_nil _).symm⟩
      rw [hexpect]
      exact congrArg Except.ok (congrArg (Applying.mk cursor' rest') hout.symm)
  · exact expect_iff
  · simp [Applying.After, oldText?, newText?, eq_comm, and_left_comm]
  · rename_i hspace hminus hplus
    have hold : oldText? line = none := by
      unfold oldText?
      split
      · exact absurd rfl (hspace _)
      · exact absurd rfl (hminus _)
      · rfl
    have hnew : newText? line = none := by
      unfold newText?
      split
      · exact absurd rfl (hspace _)
      · exact absurd rfl (hplus _)
      · rfl
    rw [hold, hnew]
    exact hsame

theorem toList_filterMap_cons {α β : Type} (f : α → Option β) (a : α) (as : List α) :
    (a :: as).filterMap f = (f a).toList ++ as.filterMap f := by
  cases h : f a with
  | none => exact filterMap_cons_none h
  | some b => exact filterMap_cons_some h

/-- **The lines of a hunk**: the old ones stand at the cursor, the new ones are given out. -/
theorem applyLines_iff : ∀ (ls : List Text) {st st' : Applying}, applyLines st ls = .ok st' ↔
    st.After (ls.filterMap oldText?) (ls.filterMap newText?) st'
  | [], ⟨cursor, rest, out⟩, ⟨cursor', rest', out'⟩ => by
    simp [applyLines, Applying.After, eq_comm, and_left_comm]
  | line :: ls, st, st' => by
    rw [toList_filterMap_cons, toList_filterMap_cons]
    constructor
    · intro h
      cases hline : applyLine st line with
      | error message =>
        rw [applyLines, hline] at h
        nomatch h
      | ok st₁ =>
        rw [applyLines, hline] at h
        exact ((applyLine_iff line).mp hline).trans ((applyLines_iff ls).mp h)
    · rintro ⟨hrest, hcursor, hout⟩
      rw [append_assoc] at hrest
      rw [length_append, ← Nat.add_assoc] at hcursor
      rw [← append_assoc] at hout
      have hline : applyLine st line = .ok ⟨st.cursor + (oldText? line).toList.length,
          ls.filterMap oldText? ++ st'.rest, st.out ++ (newText? line).toList⟩ :=
        (applyLine_iff line).mpr ⟨hrest, rfl, rfl⟩
      rw [applyLines, hline]
      exact (applyLines_iff ls).mpr ⟨rfl, hcursor, hout⟩

/-- Lines are copied up to the start of a hunk, or to the end of the text. -/
theorem copyTo_after (st : Applying) (start : Nat) :
    st.After (st.rest.take (start - st.cursor)) (st.rest.take (start - st.cursor))
      (st.copyTo start) :=
  ⟨(take_append_drop _ _).symm, rfl, rfl⟩

/-- A hunk that is applied: what is copied before it, and where its old lines stand. -/
theorem applyHunk_ok {st st' : Applying} {hunk : Hunk} (h : applyHunk st hunk = .ok st') :
    ∃ copied, st.After (copied ++ hunk.old) (copied ++ hunk.new) st' ∧
      (hunk.old ≠ [] → st.cursor + copied.length = hunk.start) := by
  unfold applyHunk at h
  split at h
  · nomatch h
  · rename_i hlt
    have hlines := (applyLines_iff hunk.lines).mp h
    refine ⟨st.rest.take (hunk.start - st.cursor), (copyTo_after st hunk.start).trans hlines,
      fun hne => ?_⟩
    -- an old line stands behind what is copied
    have hrest : st.rest.drop (hunk.start - st.cursor) ≠ [] := by
      intro hnil
      have hsplit : st.rest.drop (hunk.start - st.cursor) = hunk.old ++ st'.rest := hlines.1
      rw [hnil] at hsplit
      exact hne (append_eq_nil_iff.mp hsplit.symm).1
    have hlen := length_pos_iff.mpr hrest
    rw [length_drop] at hlen
    rw [length_take]
    omega

end NexusCode.Patch
