/-
  What the parser does with the lines of a diff.

    1. `parseLines_cons`, `parseLines_file` — a line that starts a file, and one that does not.
    2. **`parseLines_invariant`** — what every step of the parser keeps, a run keeps.
    3. `parseLines_grows`, `parse_lines` — no patch is dropped; the lines kept are lines of the diff.
-/
import NexusCode.Patch.UnifiedDiff

namespace NexusCode.Patch

open Lib List Option

theorem length_patches_closeHunk (st : Parsing) :
    st.closeHunk.patches.length = st.patches.length := by
  obtain ⟨done, current, hunk⟩ := st
  cases current <;> cases hunk <;> simp [Parsing.closeHunk, Parsing.patches]

theorem parseLines_cons {line : Text} (h : ¬ "--- ".toList <+: line) (st : Parsing)
    (rest : List Text) : parseLines st (line :: rest) =
      if "@@".toList <+: line then
        if st.current.isNone then .error "hunk found before any file header"
        else match hunkHeader line with
          | none => .error ("malformed hunk header: " ++ String.ofList line)
          | some hunk => parseLines { st.closeHunk with hunk := some hunk } rest
      else match st.hunk with
        | none => parseLines st rest
        | some hunk =>
          if ['\\'] <+: line then parseLines st rest
          else if isHunkLine line then
            parseLines { st with hunk := some { hunk with lines := hunk.lines ++ [line] } } rest
          else parseLines st.closeHunk rest := by
  rw [parseLines.eq_def]
  exact if_neg h

/-- The header of a file starts a patch, if the next line belongs to it. -/
theorem parseLines_file {line : Text} (h : "--- ".toList <+: line) {st st' : Parsing} :
    ∀ {rest : List Text}, parseLines st (line :: rest) = .ok st' →
    ∃ next more, rest = next :: more ∧
      parseLines { done := st.closeHunk.patches
                   current := some ⟨headerPath line, headerPath next, []⟩
                   hunk := none } more = .ok st'
  | [], hparse => by
    rw [parseLines.eq_def] at hparse
    dsimp only at hparse
    rw [if_pos h] at hparse
    nomatch hparse
  | next :: more, hparse => by
    rw [parseLines.eq_def] at hparse
    dsimp only at hparse
    rw [if_pos h] at hparse
    split at hparse
    · exact ⟨next, more, rfl, hparse⟩
    · nomatch hparse

/-- **What every step of the parser keeps**, a run keeps. -/
theorem parseLines_invariant {P : Parsing → Prop} {Q : Text → Prop}
    (hfile : ∀ st path path', P st →
      P { done := st.closeHunk.patches, current := some ⟨path, path', []⟩, hunk := none })
    (hopen : ∀ st line hunk, hunkHeader line = some hunk → P st →
      P { st.closeHunk with hunk := some hunk })
    (hkeep : ∀ (st : Parsing) (hunk : Hunk) line, Q line → st.hunk = some hunk → P st →
      P { st with hunk := some { hunk with lines := hunk.lines ++ [line] } })
    (hclose : ∀ st, P st → P st.closeHunk) :
    ∀ (n : Nat) {ls : List Text} {st st' : Parsing}, ls.length ≤ n → (∀ l ∈ ls, Q l) →
      parseLines st ls = .ok st' → P st → P st'
  | _, [], st, st', _, _, h, hst => by
    rw [parseLines] at h
    exact Except.ok.inj h ▸ hst
  | 0, _ :: _, _, _, hn, _, _, _ => absurd hn (Nat.not_succ_le_zero _)
  | n + 1, line :: rest, st, st', hn, hls, h, hst => by
    rw [length_cons] at hn
    obtain ⟨hline, hrest⟩ := forall_mem_cons.mp hls
    have ih : ∀ {st : Parsing}, parseLines st rest = .ok st' → P st → P st' :=
      parseLines_invariant hfile hopen hkeep hclose n (by omega) hrest
    by_cases hheader : "--- ".toList <+: line
    · obtain ⟨next, more, rfl, hparse⟩ := parseLines_file hheader h
      rw [length_cons] at hn
      exact parseLines_invariant hfile hopen hkeep hclose n (by omega)
        (forall_mem_cons.mp hrest).2 hparse (hfile st _ _ hst)
    · rw [parseLines_cons hheader] at h
      split at h
      · split at h
        · cases h
        · split at h
          · cases h
          · rename_i hunk hhunk
            exact ih h (hopen st line hunk hhunk hst)
      · split at h
        · exact ih h hst
        · rename_i hunk hhunk
          split at h
          · exact ih h hst
          · split at h
            · exact ih h (hkeep st hunk line hline hhunk hst)
            · exact ih h (hclose st hst)

theorem parseLines_grows {ls : List Text} {st st' : Parsing} (h : parseLines st ls = .ok st') :
    st.patches.length ≤ st'.patches.length := by
  refine parseLines_invariant (P := fun st' => st.patches.length ≤ st'.patches.length)
    (Q := fun _ => True) ?_ ?_ ?_ ?_ ls.length (Nat.le_refl _) (fun _ _ => trivial) h (Nat.le_refl _)
  · intro st' path path' hle
    have hclose := length_patches_closeHunk st'
    have hnew : ({ done := st'.closeHunk.patches, current := some ⟨path, path', []⟩, hunk := none } :
        Parsing).patches.length = st'.closeHunk.patches.length + 1 := length_append
    omega
  · intro st' line hunk _ hle
    exact Nat.le_trans hle (Nat.le_of_eq (length_patches_closeHunk st').symm)
  · intro st' hunk line _ _ hle
    exact hle
  · intro st' hle
    exact Nat.le_trans hle (Nat.le_of_eq (length_patches_closeHunk st').symm)

theorem lines_hunkHeader {line : Text} {hunk : Hunk} (h : hunkHeader line = some hunk) :
    hunk.lines = [] := by
  simp only [hunkHeader, bind, bind_eq_some_iff] at h
  obtain ⟨_, -, _, -, _, -, _, -, _, -, h⟩ := h
  exact some.inj h ▸ rfl

/-- The hunks a state holds. -/
def Parsing.hunks (st : Parsing) : List Hunk := st.patches.flatMap (·.hunks) ++ st.hunk.toList

theorem hunks_closeHunk (st : Parsing) :
    ∀ hunk ∈ st.closeHunk.patches.flatMap (·.hunks), hunk ∈ st.hunks := by
  intro hunk h
  obtain ⟨done, current, open_⟩ := st
  cases current with
  | none => cases open_ <;> exact mem_append_left _ h
  | some patch =>
    cases open_ with
    | none => exact mem_append_left _ h
    | some hunk' =>
      simp only [Parsing.closeHunk, Parsing.hunks, Parsing.patches, toList_some,
        flatMap_append, mem_append, flatMap_singleton] at h ⊢
      tauto

theorem hunk_closeHunk (st : Parsing) : st.closeHunk.hunk = none := by
  obtain ⟨done, current, open_⟩ := st
  cases current <;> cases open_ <;> rfl

/-- **The lines the parser keeps** are lines of the diff. -/
theorem parse_lines {diff : Text} {patches : List FilePatch} {Q : Text → Prop}
    (hlines : ∀ l ∈ lines diff, Q l) (h : parseUnifiedDiff diff = .ok patches) :
    ∀ patch ∈ patches, ∀ hunk ∈ patch.hunks, ∀ l ∈ hunk.lines, Q l := by
  unfold parseUnifiedDiff at h
  cases hparse : parseLines ⟨[], none, none⟩ (lines diff) with
  | error message =>
    rw [hparse] at h
    nomatch h
  | ok st =>
    rw [hparse] at h
    have hall : ∀ hunk ∈ st.hunks, ∀ l ∈ hunk.lines, Q l := by
      refine parseLines_invariant (P := fun st => ∀ hunk ∈ st.hunks, ∀ l ∈ hunk.lines, Q l)
        (Q := Q) ?_ ?_ ?_ ?_ _ (Nat.le_refl _) hlines hparse (fun _ => nofun)
      · intro st path path' hst hunk hmem
        refine hst hunk (hunks_closeHunk st hunk ?_)
        simpa [Parsing.hunks, Parsing.patches] using hmem
      · intro st line hunk' hheader hst hunk hmem
        rcases mem_append.mp hmem with hold | hnew
        · exact hst hunk (hunks_closeHunk st hunk hold)
        · obtain rfl := mem_singleton.mp hnew
          rw [lines_hunkHeader hheader]
          exact fun _ => nofun
      · intro st hunk' line hline hopen hst hunk hmem
        rcases mem_append.mp hmem with hold | hnew
        · exact hst hunk (mem_append_left _ hold)
        · obtain rfl := mem_singleton.mp hnew
          have hmem' : hunk' ∈ st.hunks := by
            rw [Parsing.hunks, hopen]
            exact mem_append_right _ (mem_singleton_self _)
          exact forall_mem_append.mpr ⟨hst hunk' hmem', forall_mem_singleton.mpr hline⟩
      · intro st hst hunk hmem
        rw [Parsing.hunks, hunk_closeHunk, toList_none, append_nil] at hmem
        exact hst hunk (hunks_closeHunk st hunk hmem)
    intro patch hpatch hunk hhunk
    rw [← Except.ok.inj h] at hpatch
    exact hall hunk (hunks_closeHunk st hunk (mem_flatMap.mpr ⟨patch, hpatch, hhunk⟩))

end NexusCode.Patch
