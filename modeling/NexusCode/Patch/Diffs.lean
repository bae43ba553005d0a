/-
  Unified diffs, and what the parser makes of them.

  A diff is given by the two texts it is about, cut into stretches that stay and hunks; what it
  looks like follows the unified format.

    1. `EditLine`, `DiffHunk`, `Diff`   — diffs, their two texts and their lines.
    2. `hunkHeader_header`              — headers are read back.
    3. **`parseLines_diff`**            — the hunks are kept one by one.
    4. **`parse_headerLike`**           — unless a removed line looks like the header of a file.
-/
import NexusCode.Patch.Parser
import NexusCode.Patch.TextLines

namespace NexusCode.Patch

open Lib List

/-! ## Diffs -/

/-- A line of a hunk. -/
inductive EditLine where
  | context (text : Text)
  | remove (text : Text)
  | add (text : Text)

/-- The line of the old text. -/
def EditLine.old? : EditLine → Option Text
  | context text => some text
  | remove text => some text
  | add _ => none

/-- The line of the new text. -/
def EditLine.new? : EditLine → Option Text
  | context text => some text
  | remove _ => none
  | add text => some text

/-- The line as the diff shows it. -/
def EditLine.shown : EditLine → Text
  | context text => ' ' :: text
  | remove text => '-' :: text
  | add text => '+' :: text

/-- A hunk: its lines, whether a count of one is left out, and what stands behind the header. -/
structure DiffHunk where
  edits : List EditLine
  shortOld : Bool := false
  shortNew : Bool := false
  heading : Text := []

/-- The lines of the old text in a hunk. -/
def DiffHunk.old (hunk : DiffHunk) : List Text := hunk.edits.filterMap (·.old?)

/-- The lines of the new text in a hunk. -/
def DiffHunk.new (hunk : DiffHunk) : List Text := hunk.edits.filterMap (·.new?)

/-- The hunks, each after the lines that stay before it, and the lines after the last. -/
abbrev Stretches := List (List Text × DiffHunk)

/-- The old text. -/
def before (tail : List Text) : Stretches → List Text
  | [] => tail
  | (gap, hunk) :: rest => gap ++ hunk.old ++ before tail rest

/-- The new text. -/
def after (tail : List Text) : Stretches → List Text
  | [] => tail
  | (gap, hunk) :: rest => gap ++ hunk.new ++ after tail rest

/-- The number in a header for a stretch of so many lines behind so many: the first of them, or
    the line they follow if there are none. -/
def startNumber (position count : Nat) : Nat := if count = 0 then position else position + 1

/-- A range of a header. -/
def range (position count : Nat) (short : Bool) : Text :=
  Nat.toDigits 10 (startNumber position count) ++
    if short then [] else ',' :: Nat.toDigits 10 count

/-- The header of a hunk behind so many old and new lines. -/
def DiffHunk.header (hunk : DiffHunk) (p q : Nat) : Text :=
  "@@ -".toList ++ range p hunk.old.length hunk.shortOld ++ " +".toList ++
    range q hunk.new.length hunk.shortNew ++ " @@".toList ++ hunk.heading

/-- The lines of the hunks, behind so many old and new lines. -/
def hunkLines (p q : Nat) : Stretches → List Text
  | [] => []
  | (gap, hunk) :: rest =>
    hunk.header (p + gap.length) (q + gap.length) :: hunk.edits.map (·.shown) ++
      hunkLines (p + gap.length + hunk.old.length) (q + gap.length + hunk.new.length) rest

/-- A unified diff: every line it shows is one line, and only a count of one is left out. -/
structure Diff where
  oldName : Text
  newName : Text
  stretches : Stretches
  tail : List Text
  names_ok : '\n' ∉ oldName ∧ '\n' ∉ newName
  before_ok : ∀ l ∈ before tail stretches, '\n' ∉ l
  after_ok : ∀ l ∈ after tail stretches, '\n' ∉ l
  headings_ok : ∀ s ∈ stretches, '\n' ∉ s.2.heading
  shortOld_ok : ∀ s ∈ stretches, s.2.shortOld = true → s.2.old.length = 1
  shortNew_ok : ∀ s ∈ stretches, s.2.shortNew = true → s.2.new.length = 1

/-- The lines of a diff. -/
def Diff.shown (d : Diff) : List Text :=
  ("--- ".toList ++ d.oldName) :: ("+++ ".toList ++ d.newName) :: hunkLines 0 0 d.stretches

/-- The text of a diff. -/
def Diff.text (d : Diff) : Text := terminated d.shown

/-! ## What the parser makes of a header -/

theorem digits_toDigits (n : Nat) {rest : Text} (hrest : ∀ c ∈ rest.head?, c.isDigit = false) :
    digits (Nat.toDigits 10 n ++ rest) = some (n, rest) := by
  have hall : ∀ c ∈ Nat.toDigits 10 n, c.isDigit = true :=
    fun _ h => Nat.isDigit_of_mem_toDigits (by decide) (by decide) h
  have hstop : rest.takeWhile Char.isDigit = [] := by
    cases rest with
    | nil => rfl
    | cons c rest => exact takeWhile_cons_of_neg (by simp [hrest c rfl])
  have hstop' : rest.dropWhile Char.isDigit = rest := by
    cases rest with
    | nil => rfl
    | cons c rest => exact dropWhile_cons_of_neg (by simp [hrest c rfl])
  have htake : (Nat.toDigits 10 n ++ rest).takeWhile Char.isDigit = Nat.toDigits 10 n := by
    rw [takeWhile_append_of_pos hall, hstop, append_nil]
  have hne : (Nat.toDigits 10 n).isEmpty = false :=
    isEmpty_eq_false_iff.mpr (length_pos_iff.mp Nat.length_toDigits_pos)
  unfold digits decimalOf
  rw [htake, hne, dropWhile_append_of_pos hall, hstop', Nat.ofDigitChars_ten_toDigits]
  rfl

theorem digitsAndCount_range (p count : Nat) {short : Bool} (hshort : short = true → count = 1)
    {c : Char} {rest : Text} (hc : c.isDigit = false) (hcomma : c ≠ ',') :
    digitsAndCount (range p count short ++ c :: rest) =
      some (startNumber p count, count, c :: rest) := by
  unfold range digitsAndCount
  cases short with
  | true =>
    rw [if_pos rfl, append_nil, digits_toDigits _ (by simpa using hc), hshort rfl]
    dsimp only [bind, Option.bind]
    split
    · rename_i heq
      exact absurd (cons.inj heq).1 hcomma
    · rfl
  | false =>
    have hcount : digits (Nat.toDigits 10 count ++ c :: rest) = some (count, c :: rest) :=
      digits_toDigits _ (by simpa using hc)
    rw [if_neg Bool.false_ne_true, append_assoc, cons_append,
      digits_toDigits _ (by simp)]
    simp [hcount]

theorem literal_append (word : String) (rest : Text) :
    literal word (word.toList ++ rest) = some rest := by
  unfold literal
  rw [if_pos (prefix_append _ _), drop_left]

/-- What the parser keeps of a hunk before it reads its lines. -/
def DiffHunk.opened (hunk : DiffHunk) (p q : Nat) : Hunk where
  oldStart := startNumber p hunk.old.length
  newStart := startNumber q hunk.new.length
  lines := []
  announced := (hunk.old.length, hunk.new.length)

/-- What the parser keeps of a hunk. -/
def DiffHunk.parsed (hunk : DiffHunk) (p q : Nat) : Hunk :=
  { hunk.opened p q with lines := hunk.edits.map (·.shown) }

theorem hunkHeader_header {hunk : DiffHunk} (hold : hunk.shortOld = true → hunk.old.length = 1)
    (hnew : hunk.shortNew = true → hunk.new.length = 1) (p q : Nat) :
    hunkHeader (hunk.header p q) = some (hunk.opened p q) := by
  unfold hunkHeader DiffHunk.header
  simp only [append_assoc]
  rw [literal_append]
  dsimp only [bind, Option.bind]
  rw [show " +".toList ++ (range q hunk.new.length hunk.shortNew ++ (" @@".toList ++ hunk.heading)) =
    ' ' :: '+' :: (range q hunk.new.length hunk.shortNew ++ (" @@".toList ++ hunk.heading)) from rfl,
    digitsAndCount_range p _ hold (by decide) (by decide)]
  dsimp only
  rw [show (' ' :: '+' :: (range q hunk.new.length hunk.shortNew ++ (" @@".toList ++ hunk.heading))) =
    " +".toList ++ (range q hunk.new.length hunk.shortNew ++ (" @@".toList ++ hunk.heading)) from rfl,
    literal_append]
  dsimp only
  rw [show " @@".toList ++ hunk.heading = ' ' :: '@' :: '@' :: hunk.heading from rfl,
    digitsAndCount_range q _ hnew (by decide) (by decide)]
  dsimp only
  rw [show (' ' :: '@' :: '@' :: hunk.heading) = " @@".toList ++ hunk.heading from rfl,
    literal_append]
  rfl

/-! ## What the parser makes of a diff -/

/-- A removed line that looks like the header of a file. -/
def EditLine.HeaderLike : EditLine → Prop
  | remove text => "-- ".toList <+: text
  | _ => False

theorem current_closeHunk {st : Parsing} {patch : FilePatch} (h : st.current = some patch)
    (hunk : Hunk) : ({ st with hunk := some hunk } : Parsing).closeHunk.current =
      some { patch with hunks := patch.hunks ++ [hunk] } := by
  obtain ⟨done, current, open_⟩ := st
  obtain rfl : current = some patch := h
  rfl

theorem parseLines_edit {st : Parsing} {hunk : Hunk} (hhunk : st.hunk = some hunk) {e : EditLine}
    (he : ¬ e.HeaderLike) (rest : List Text) :
    parseLines st (e.shown :: rest) =
      parseLines { st with hunk := some { hunk with lines := hunk.lines ++ [e.shown] } } rest := by
  have hkept : isHunkLine e.shown = true := by cases e <;> simp [isHunkLine, EditLine.shown]
  have hheader : ¬ "--- ".toList <+: e.shown := by
    cases e with
    | context text => simp [EditLine.shown]
    | add text => simp [EditLine.shown]
    | remove text =>
      intro h
      exact he (cons_prefix_cons.mp h).2
  have hat : ¬ "@@".toList <+: e.shown := by cases e <;> simp [EditLine.shown]
  have hslash : ¬ ['\\'] <+: e.shown := by cases e <;> simp [EditLine.shown]
  rw [parseLines_cons hheader, if_neg hat, hhunk]
  dsimp only
  rw [if_neg hslash, if_pos hkept]

theorem parseLines_edits : ∀ {edits : List EditLine} {hunk : Hunk} {st : Parsing},
    st.hunk = some hunk → (∀ e ∈ edits, ¬ e.HeaderLike) → ∀ rest,
    parseLines st (edits.map (·.shown) ++ rest) =
      parseLines { st with hunk := some { hunk with lines := hunk.lines ++ edits.map (·.shown) } }
        rest
  | [], hunk, st, hhunk, _, rest => by
    obtain ⟨done, current, open_⟩ := st
    obtain rfl : open_ = some hunk := hhunk
    rw [map_nil, append_nil]
    rfl
  | e :: edits, hunk, st, hhunk, he, rest => by
    obtain ⟨hhead, htail⟩ := forall_mem_cons.mp he
    rw [map_cons, cons_append, parseLines_edit hhunk hhead,
      parseLines_edits rfl htail]
    dsimp only
    rw [append_assoc, singleton_append]

/-- What the parser keeps of the hunks of a diff. -/
def parsedAll (p q : Nat) : Stretches → List Hunk
  | [] => []
  | (gap, hunk) :: rest =>
    hunk.parsed (p + gap.length) (q + gap.length) ::
      parsedAll (p + gap.length + hunk.old.length) (q + gap.length + hunk.new.length) rest

theorem header_lines {hunk : DiffHunk} {p q : Nat} : ¬ "--- ".toList <+: hunk.header p q ∧
    "@@".toList <+: hunk.header p q := by
  have hfront : hunk.header p q = '@' :: '@' :: (" -".toList ++ range p hunk.old.length hunk.shortOld ++
      " +".toList ++ range q hunk.new.length hunk.shortNew ++ " @@".toList ++ hunk.heading) := by
    unfold DiffHunk.header
    simp only [append_assoc]
    rfl
  rw [hfront]
  exact ⟨by simp, by simp⟩

theorem parseLines_header {hunk : DiffHunk} (hold : hunk.shortOld = true → hunk.old.length = 1)
    (hnew : hunk.shortNew = true → hunk.new.length = 1) {p q : Nat} {st : Parsing}
    (hcurrent : st.current.isSome = true) (rest : List Text) :
    parseLines st (hunk.header p q :: rest) =
      parseLines { st.closeHunk with hunk := some (hunk.opened p q) } rest := by
  obtain ⟨hnot, hat⟩ := @header_lines hunk p q
  have hsome : ¬ st.current.isNone = true := by
    cases hc : st.current with
    | none => rw [hc] at hcurrent; nomatch hcurrent
    | some patch => exact Bool.false_ne_true
  rw [parseLines_cons hnot, if_pos hat, if_neg hsome, hunkHeader_header hold hnew]

/-- **The hunks of a diff are kept one by one** where no removed line looks like a header. -/
theorem parseLines_diff : ∀ {stretches : Stretches} {p q : Nat} (st : Parsing) (patch : FilePatch),
    (∀ s ∈ stretches, s.2.shortOld = true → s.2.old.length = 1) →
    (∀ s ∈ stretches, s.2.shortNew = true → s.2.new.length = 1) →
    (∀ s ∈ stretches, ∀ e ∈ s.2.edits, ¬ e.HeaderLike) →
    st.closeHunk.current = some patch → ∀ rest,
    ∃ st', parseLines st (hunkLines p q stretches ++ rest) = parseLines st' rest ∧
      st'.closeHunk = { done := st.done
                        current := some { patch with hunks := patch.hunks ++ parsedAll p q stretches }
                        hunk := none }
  | [], p, q, st, patch, _, _, _, hpatch, rest => by
    refine ⟨st, rfl, ?_⟩
    rw [parsedAll, append_nil]
    obtain ⟨done, current, hunk⟩ := st
    cases current <;> cases hunk <;> simp_all [Parsing.closeHunk]
  | (gap, hunk) :: stretches, p, q, st, patch, hold, hnew, hplain, hpatch, rest => by
    obtain ⟨hold, holds⟩ := forall_mem_cons.mp hold
    obtain ⟨hnew, hnews⟩ := forall_mem_cons.mp hnew
    obtain ⟨hplain, hplains⟩ := forall_mem_cons.mp hplain
    have hcurrent : st.current.isSome = true := by
      obtain ⟨done, current, open_⟩ := st
      cases current <;> cases open_ <;> simp_all [Parsing.closeHunk]
    have hdone : st.closeHunk.done = st.done := by
      obtain ⟨done, current, open_⟩ := st
      cases current <;> cases open_ <;> rfl
    rw [hunkLines, cons_append, cons_append, append_assoc,
      parseLines_header hold hnew hcurrent, parseLines_edits rfl hplain]
    dsimp only
    obtain ⟨st', hparse, hclose⟩ := parseLines_diff (p := p + gap.length + hunk.old.length)
      (q := q + gap.length + hunk.new.length)
      { st.closeHunk with hunk := some (hunk.parsed (p + gap.length) (q + gap.length)) }
      { patch with hunks := patch.hunks ++ [hunk.parsed (p + gap.length) (q + gap.length)] }
      holds hnews hplains (current_closeHunk hpatch _) rest
    refine ⟨st', hparse, hclose.trans ?_⟩
    dsimp only
    rw [hdone, append_assoc]
    rfl

/-- A removed line that looks like a header starts another patch. -/
theorem parseLines_headerLike : ∀ {edits : List EditLine} {hunk : Hunk} (st : Parsing)
    {st' : Parsing} {rest : List Text}, st.hunk = some hunk → (∃ e ∈ edits, e.HeaderLike) →
    parseLines st (edits.map (·.shown) ++ rest) = .ok st' →
    st.patches.length < st'.patches.length
  | [], _, _, _, _, _, hbad, _ => by
    obtain ⟨e, he, -⟩ := hbad
    nomatch he
  | e :: edits, hunk, st, st', rest, hhunk, hbad, hparse => by
    rw [map_cons, cons_append] at hparse
    by_cases he : e.HeaderLike
    · have hheader : "--- ".toList <+: e.shown := by
        cases e with
        | remove text => exact cons_prefix_cons.mpr ⟨rfl, he⟩
        | context text => exact he.elim
        | add text => exact he.elim
      obtain ⟨next, more, -, hnext⟩ := parseLines_file hheader hparse
      have hgrows := parseLines_grows hnext
      have hclose := length_patches_closeHunk st
      have hnew : ({ done := st.closeHunk.patches
                     current := some ⟨headerPath e.shown, headerPath next, []⟩
                     hunk := none } : Parsing).patches.length = st.closeHunk.patches.length + 1 :=
        length_append
      rw [hnew] at hgrows
      omega
    · rw [parseLines_edit hhunk he] at hparse
      obtain ⟨b, hb, hlike⟩ := hbad
      rcases mem_cons.mp hb with rfl | hb
      · exact absurd hlike he
      · exact parseLines_headerLike
          { st with hunk := some { hunk with lines := hunk.lines ++ [e.shown] } } rfl ⟨b, hb, hlike⟩ hparse

/-- **A diff with such a line is not parsed as one patch.** -/
theorem parse_headerLike : ∀ {stretches : Stretches} {p q : Nat} (st : Parsing) {st' : Parsing}
    {rest : List Text},
    (∀ s ∈ stretches, s.2.shortOld = true → s.2.old.length = 1) →
    (∀ s ∈ stretches, s.2.shortNew = true → s.2.new.length = 1) →
    st.current.isSome = true → (∃ s ∈ stretches, ∃ e ∈ s.2.edits, e.HeaderLike) →
    parseLines st (hunkLines p q stretches ++ rest) = .ok st' →
    st.patches.length < st'.patches.length
  | [], _, _, _, _, _, _, _, _, hbad, _ => by
    obtain ⟨s, hs, -⟩ := hbad
    nomatch hs
  | (gap, hunk) :: stretches, p, q, st, st', rest, hold, hnew, hcurrent, hbad, hparse => by
    obtain ⟨hold, holds⟩ := forall_mem_cons.mp hold
    obtain ⟨hnew, hnews⟩ := forall_mem_cons.mp hnew
    rw [hunkLines, cons_append, cons_append, append_assoc,
      parseLines_header hold hnew hcurrent] at hparse
    have hsame := length_patches_closeHunk st
    by_cases hhere : ∃ e ∈ hunk.edits, e.HeaderLike
    · have hlt := parseLines_headerLike
        { st.closeHunk with hunk := some (hunk.opened (p + gap.length) (q + gap.length)) } rfl hhere hparse
      exact hsame ▸ hlt
    · have hplain : ∀ e ∈ hunk.edits, ¬ e.HeaderLike := fun e he hlike => hhere ⟨e, he, hlike⟩
      rw [parseLines_edits rfl hplain] at hparse
      have hsome : st.closeHunk.current.isSome = true := by
        obtain ⟨done, current, open_⟩ := st
        cases current <;> cases open_ <;> simp_all [Parsing.closeHunk]
      obtain ⟨s, hs, e, he, hlike⟩ := hbad
      rcases mem_cons.mp hs with rfl | hs
      · exact absurd hlike (hplain e he)
      · have hlt := parse_headerLike
          { st.closeHunk with hunk := some (hunk.parsed (p + gap.length) (q + gap.length)) }
          holds hnews hsome ⟨s, hs, e, he, hlike⟩ hparse
        exact hsame ▸ hlt

end NexusCode.Patch
