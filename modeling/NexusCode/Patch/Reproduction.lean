/-
  When a patch reproduces the edit it describes.

  A hunk without old lines stands in the header behind the number of the line it follows; the
  applier takes that number for the line it starts at, and inserts one line too early.

    1. `Place`, `Placed`       — where the applier stands, and when inserting there does no harm.
    2. `applied`, **`applyAll_diff`** — what the applier makes of the hunks of a diff.
    3. **`applied_iff`**       — it is the new text exactly if the insertions do no harm.
    4. **`reproduces_iff`**    — a diff is reproduced exactly if that is so and no removed line
       looks like the header of a file; `insertion_misplaced` inserts without context.
-/
import NexusCode.Patch.Diffs
import NexusCode.Patch.Applier

namespace NexusCode.Patch

open Lib List Option

/-! ## Where the applier stands -/

/-- Where the applier stands before a hunk. -/
inductive Place where
  /-- No old line has been passed or copied. -/
  | start
  /-- Right behind the old lines of the hunk before. -/
  | touching
  /-- One line behind: this line is still to be copied. -/
  | behind (line : Text)

/-- The line that is still to be copied. -/
def Place.owed : Place → List Text
  | behind line => [line]
  | _ => []

/-- What is inserted without old lines is the same as the line it is to follow, or stands at the
    start; and no such hunk comes right behind the old lines of another. -/
def Placed : Place → Stretches → Prop
  | _, [] => True
  | place, (gap, hunk) :: rest =>
    if hunk.old = [] then
      match gap.getLast?, place with
      | some line, _ => (∀ text ∈ hunk.new, text = line) ∧ Placed (.behind line) rest
      | none, .start => Placed .start rest
      | none, .touching => False
      | none, .behind line => (∀ text ∈ hunk.new, text = line) ∧ Placed (.behind line) rest
    else Placed .touching rest

/-- The lines the applier gives out from a place on; none where it raises an error. -/
def applied (tail : List Text) : Place → Stretches → Option (List Text)
  | place, [] => some (place.owed ++ tail)
  | place, (gap, hunk) :: rest =>
    if hunk.old = [] then
      match gap.getLast?, place with
      | some line, _ =>
        (applied tail (.behind line) rest).map (place.owed ++ gap.dropLast ++ hunk.new ++ ·)
      | none, .start => (applied tail .start rest).map (hunk.new ++ ·)
      | none, .touching => none
      | none, .behind line => (applied tail (.behind line) rest).map (hunk.new ++ ·)
    else (applied tail .touching rest).map (place.owed ++ gap ++ hunk.new ++ ·)

/-- Inserted lines may change places with a line only if they are the same. -/
theorem moved_iff (line : Text) (rest rest' : List Text) : ∀ inserted : List Text,
    inserted ++ rest = line :: (inserted ++ rest') ↔
      (∀ text ∈ inserted, text = line) ∧ rest = line :: rest'
  | [] => by simp
  | text :: inserted => by
    rw [cons_append, cons.injEq, forall_mem_cons, cons_append]
    constructor
    · rintro ⟨rfl, h⟩
      obtain ⟨hall, hrest⟩ := (moved_iff text rest rest' inserted).mp h
      exact ⟨⟨rfl, hall⟩, hrest⟩
    · rintro ⟨⟨rfl, hall⟩, hrest⟩
      exact ⟨rfl, (moved_iff text rest rest' inserted).mpr ⟨hall, hrest⟩⟩

theorem map_eq_some_append {front rest rest' : List Text} {out : Option (List Text)}
    (h : front ++ rest = rest') :
    out.map (front ++ ·) = some rest' ↔ out = some rest := by
  subst h
  cases out with
  | none => exact ⟨nofun, nofun⟩
  | some out =>
    rw [map_some, some.injEq, some.injEq]
    exact append_right_inj front

theorem inserted_iff {front inserted rest : List Text} {line : Text} {out : Option (List Text)} :
    out.map (front ++ inserted ++ ·) = some (front ++ line :: (inserted ++ rest)) ↔
      (∀ text ∈ inserted, text = line) ∧ out = some (line :: rest) := by
  cases out with
  | none => exact ⟨nofun, fun h => (nomatch h.2)⟩
  | some out =>
    rw [map_some, some.injEq, some.injEq, append_assoc,
      append_right_inj]
    exact moved_iff line out rest inserted

/-- **The applier gives out the new text** exactly if the insertions do no harm. -/
theorem applied_iff (tail : List Text) : ∀ (place : Place) (stretches : Stretches),
    applied tail place stretches = some (place.owed ++ after tail stretches) ↔
      Placed place stretches
  | place, [] => ⟨fun _ => trivial, fun _ => rfl⟩
  | place, (gap, hunk) :: rest => by
    unfold applied Placed after
    by_cases hold : hunk.old = []
    · rw [if_pos hold, if_pos hold]
      cases hgap : gap.getLast? with
      | some line =>
        dsimp only
        have hne : gap ≠ [] := by
          rintro rfl
          nomatch hgap
        have hsplit : gap.dropLast ++ [line] = gap := by
          rw [← dropLast_append_getLast hne]
          rw [List.getLast?_eq_some_getLast hne] at hgap
          rw [some.inj hgap]
          simp
        rw [← applied_iff tail (.behind line) rest]
        have hlist : place.owed ++ (gap ++ hunk.new ++ after tail rest) =
            (place.owed ++ gap.dropLast) ++ line :: (hunk.new ++ after tail rest) := by
          rw [← hsplit]
          simp
        rw [hlist]
        exact inserted_iff
      | none =>
        obtain rfl := List.getLast?_eq_none_iff.mp hgap
        cases place with
        | start =>
          dsimp only
          rw [← applied_iff tail .start rest]
          exact map_eq_some_append rfl
        | touching => exact ⟨nofun, False.elim⟩
        | behind line =>
          dsimp only
          rw [← applied_iff tail (.behind line) rest]
          show Option.map ([] ++ hunk.new ++ ·) _ =
            some ([] ++ line :: (hunk.new ++ after tail rest)) ↔ _
          exact inserted_iff
    · rw [if_neg hold, if_neg hold, ← applied_iff tail .touching rest]
      refine map_eq_some_append ?_
      show place.owed ++ gap ++ hunk.new ++ after tail rest = _
      simp only [append_assoc]

/-! ## What the applier does -/

theorem oldText?_shown (edits : List EditLine) :
    (edits.map (·.shown)).filterMap oldText? = edits.filterMap (·.old?) := by
  rw [filterMap_map]
  congr 1
  funext e
  cases e <;> rfl

theorem newText?_shown (edits : List EditLine) :
    (edits.map (·.shown)).filterMap newText? = edits.filterMap (·.new?) := by
  rw [filterMap_map]
  congr 1
  funext e
  cases e <;> rfl

/-- The lines of a hunk take its old lines and give its new ones. -/
theorem applyLines_edits (edits : List EditLine) (cursor : Nat) (rest out : List Text) :
    applyLines ⟨cursor, edits.filterMap (·.old?) ++ rest, out⟩ (edits.map (·.shown)) =
      .ok ⟨cursor + (edits.filterMap (·.old?)).length, rest, out ++ edits.filterMap (·.new?)⟩ := by
  rw [applyLines_iff, oldText?_shown, newText?_shown]
  exact ⟨rfl, rfl, rfl⟩

theorem copyTo_append (cursor : Nat) (front rest out : List Text) :
    (⟨cursor, front ++ rest, out⟩ : Applying).copyTo (cursor + front.length) =
      ⟨cursor + front.length, rest, out ++ front⟩ := by
  show (⟨cursor + ((front ++ rest).take (cursor + front.length - cursor)).length,
    (front ++ rest).drop (cursor + front.length - cursor),
    out ++ (front ++ rest).take (cursor + front.length - cursor)⟩ : Applying) = _
  rw [Nat.add_sub_cancel_left, take_left, drop_left]

variable {hunk : DiffHunk}

theorem applyHunk_diff {p q cursor : Nat} {front : List Text}
    (hstart : (hunk.parsed p q).start = cursor + front.length) (rest out : List Text) :
    applyHunk ⟨cursor, front ++ (hunk.old ++ rest), out⟩ (hunk.parsed p q) =
      .ok ⟨cursor + front.length + hunk.old.length, rest, out ++ front ++ hunk.new⟩ := by
  have hle : ¬ cursor + front.length < cursor := by omega
  unfold applyHunk
  rw [hstart, if_neg hle, copyTo_append]
  exact applyLines_edits hunk.edits (cursor + front.length) rest (out ++ front)

/-- Old lines have been passed, or none. -/
def Place.At (p : Nat) : Place → Prop
  | start => p = 0
  | _ => 0 < p

/-- What comes of the lines given out and those left. -/
def outcome (result : Except String Applying) : Option (List Text) :=
  result.toOption.map fun st => st.out ++ st.rest

theorem outcome_ok (st : Applying) : outcome (.ok st) = some (st.out ++ st.rest) := rfl

theorem outcome_error (message : String) : outcome (.error message) = none := rfl

/-- What is said of the applier on the hunks of a diff. -/
def AppliedFrom (tail : List Text) (place : Place) (stretches : Stretches) : Prop :=
  ∀ (cursor q : Nat) (out : List Text), place.At (cursor + place.owed.length) →
    outcome (applyAll ⟨cursor, place.owed ++ before tail stretches, out⟩
      (parsedAll (cursor + place.owed.length) q stretches)) =
      (applied tail place stretches).map (out ++ ·)

theorem applyAll_hunk {tail : List Text} {rest : Stretches} {place : Place}
    (ih : AppliedFrom tail place rest) (front : List Text) {p q cursor : Nat}
    (hstart : (hunk.parsed p q).start = cursor + front.length)
    (hposition : p = cursor + front.length + place.owed.length)
    (hplace : place.At (p + hunk.old.length)) {ls : List Text}
    (hlines : ls = front ++ (hunk.old ++ (place.owed ++ before tail rest))) (q' : Nat)
    (out : List Text) :
    outcome (applyAll ⟨cursor, ls, out⟩
      (hunk.parsed p q :: parsedAll (p + hunk.old.length) q' rest)) =
      ((applied tail place rest).map (front ++ hunk.new ++ ·)).map (out ++ ·) := by
  have hmoved : p + hunk.old.length =
      cursor + front.length + hunk.old.length + place.owed.length := by omega
  have hrest := ih (cursor + front.length + hunk.old.length) q' (out ++ front ++ hunk.new)
    (hmoved ▸ hplace)
  rw [← hmoved] at hrest
  rw [applyAll, hlines, applyHunk_diff hstart]
  refine hrest.trans ?_
  cases applied tail place rest with
  | none => rfl
  | some given =>
    show some (out ++ front ++ hunk.new ++ given) = some (out ++ (front ++ hunk.new ++ given))
    simp only [append_assoc]

/-- **What the applier makes of the hunks of a diff.** -/
theorem applyAll_diff (tail : List Text) : ∀ (stretches : Stretches) (place : Place),
    AppliedFrom tail place stretches
  | [], _ => fun _ _ _ _ => rfl
  | (gap, hunk) :: rest, place => by
    intro cursor q out hplace
    have hstart : (hunk.parsed (cursor + place.owed.length + gap.length) (q + gap.length)).start =
        startNumber (cursor + place.owed.length + gap.length) hunk.old.length - 1 := rfl
    rw [parsedAll, before]
    unfold applied
    by_cases hold : hunk.old = []
    · have hnone : hunk.old.length = 0 := length_eq_zero_iff.mpr hold
      rw [startNumber, if_pos hnone] at hstart
      rw [if_pos hold]
      cases hgap : gap.getLast? with
      | some line =>
        -- the hunk starts at the line it is to follow
        have hne : gap ≠ [] := by
          rintro rfl
          cases hgap
        have hlen : 0 < gap.length := length_pos_iff.mpr hne
        have hsplit : gap = gap.dropLast ++ [line] := by
          rw [List.getLast?_eq_some_getLast hne] at hgap
          rw [← some.inj hgap]
          exact (dropLast_append_getLast hne).symm
        have hfront : (place.owed ++ gap.dropLast).length + 1 = place.owed.length + gap.length := by
          rw [length_append, length_dropLast]
          omega
        refine applyAll_hunk (applyAll_diff tail rest (.behind line)) (place.owed ++ gap.dropLast)
          ?_ ?_ ?_ ?_ _ out
        · omega
        · show _ = _ + 1
          omega
        · show 0 < _
          omega
        · rw [hold]
          nth_rewrite 1 [hsplit]
          simp [Place.owed]
      | none =>
        obtain rfl := List.getLast?_eq_none_iff.mp hgap
        cases place with
        | start =>
          have hzero : cursor = 0 := hplace
          refine applyAll_hunk (applyAll_diff tail rest .start) [] ?_ ?_ ?_ rfl _ out
          · rw [hstart, hzero]
            rfl
          · rfl
          · show _ = 0
            rw [hzero, hnone]
            rfl
        | touching =>
          -- the hunk starts at a line that has been passed
          have hpos : 0 < cursor := hplace
          have hlt : cursor - 1 < cursor := Nat.sub_lt hpos Nat.one_pos
          rw [applyAll, applyHunk, if_pos (hstart ▸ hlt)]
          rfl
        | behind line =>
          refine applyAll_hunk (applyAll_diff tail rest (.behind line)) [] hstart rfl ?_ ?_ _ out
          · exact Nat.lt_of_lt_of_le (Nat.succ_pos _) (Nat.le_add_right _ _)
          · rw [hold]
            rfl
    · have hpos : 0 < hunk.old.length := length_pos_iff.mpr hold
      rw [startNumber, if_neg (Nat.ne_of_gt hpos), Nat.add_sub_cancel] at hstart
      rw [if_neg hold]
      have hfront : (place.owed ++ gap).length = place.owed.length + gap.length := length_append
      refine applyAll_hunk (applyAll_diff tail rest .touching) (place.owed ++ gap) ?_ ?_ ?_ ?_ _ out
      · omega
      · show _ = _ + 0
        omega
      · show 0 < _
        omega
      · simp [Place.owed]

theorem mem_applied (tail : List Text) : ∀ {stretches : Stretches} {place : Place}
    {out : List Text}, applied tail place stretches = some out →
    ∀ l ∈ out, l ∈ place.owed ∨ l ∈ before tail stretches ∨ l ∈ after tail stretches
  | [], place, out, h => by
    intro l hl
    rw [← some.inj h, mem_append] at hl
    exact hl.imp_right Or.inl
  | (gap, hunk) :: rest, place, out, h => by
    intro l hl
    have hrest : ∀ {place' : Place} {given front : List Text},
        applied tail place' rest = some given → front ++ given = out →
        (l ∈ front ++ place'.owed → l ∈ place.owed ∨ l ∈ gap ∨ l ∈ hunk.new) →
        l ∈ place.owed ∨ l ∈ before tail ((gap, hunk) :: rest) ∨
          l ∈ after tail ((gap, hunk) :: rest) := by
      intro place' given front hgiven hout hfront
      rw [← hout, mem_append] at hl
      rw [mem_append] at hfront
      simp only [before, after, mem_append]
      have ih := mem_applied tail hgiven l
      tauto
    unfold applied at h
    split at h
    · cases hgap : gap.getLast? with
      | some line =>
        rw [hgap] at h
        obtain ⟨given, hgiven, hout⟩ := map_eq_some_iff.mp h
        refine hrest hgiven hout fun hfront => ?_
        have hlast : line ∈ gap := mem_of_getLast? hgap
        simp only [mem_append, Place.owed, mem_singleton] at hfront
        rcases hfront with ((howed | hinit) | hnew) | rfl
        · exact .inl howed
        · exact .inr (.inl ((dropLast_sublist gap).subset hinit))
        · exact .inr (.inr hnew)
        · exact .inr (.inl hlast)
      | none =>
        rw [hgap] at h
        cases place with
        | start =>
          obtain ⟨given, hgiven, hout⟩ := map_eq_some_iff.mp h
          refine hrest hgiven hout fun hfront => ?_
          rw [mem_append] at hfront
          exact .inr (.inr (hfront.resolve_right not_mem_nil))
        | touching => nomatch h
        | behind line =>
          obtain ⟨given, hgiven, hout⟩ := map_eq_some_iff.mp h
          refine hrest hgiven hout fun hfront => ?_
          exact (mem_append.mp hfront).elim (fun h => .inr (.inr h)) .inl
    · obtain ⟨given, hgiven, hout⟩ := map_eq_some_iff.mp h
      refine hrest hgiven hout fun hfront => ?_
      simp only [mem_append, Place.owed, not_mem_nil, or_false] at hfront
      tauto

/-! ## The whole of a diff -/

/-- The parsed diff turns the old text into the new one. -/
def Diff.Reproduces (d : Diff) : Prop :=
  ∃ patch, parseUnifiedDiff d.text = .ok [patch] ∧
    applyHunks (terminated (before d.tail d.stretches)) patch.hunks =
      .ok (terminated (after d.tail d.stretches))

theorem closeHunk_closeHunk (st : Parsing) : st.closeHunk.closeHunk = st.closeHunk := by
  obtain ⟨done, current, hunk⟩ := st
  cases current <;> cases hunk <;> rfl

theorem parseLines_blank (st : Parsing) :
    ∃ st', parseLines st [[]] = .ok st' ∧ st'.closeHunk = st.closeHunk := by
  rw [parseLines_cons (by decide), if_neg (by decide)]
  cases hhunk : st.hunk with
  | none => exact ⟨st, rfl, rfl⟩
  | some hunk =>
    dsimp only
    rw [if_neg (by decide), if_neg (by decide)]
    exact ⟨st.closeHunk, rfl, closeHunk_closeHunk st⟩

/-- The patch of a diff, before its hunks. -/
def Diff.patch (d : Diff) : FilePatch where
  oldPath := headerPath ("--- ".toList ++ d.oldName)
  newPath := headerPath ("+++ ".toList ++ d.newName)
  hunks := []

theorem parseLines_shown (d : Diff) (rest : List Text) :
    parseLines ⟨[], none, none⟩ (d.shown ++ rest) =
      parseLines ⟨[], some d.patch, none⟩ (hunkLines 0 0 d.stretches ++ rest) := by
  rw [Diff.shown, cons_append, cons_append, parseLines.eq_def]
  dsimp only
  rw [if_pos (prefix_append _ _), if_pos (prefix_append _ _)]
  rfl

theorem range_ok (position count : Nat) (short : Bool) : '\n' ∉ range position count short := by
  have hdigits : ∀ n, '\n' ∉ Nat.toDigits 10 n := by
    intro n h
    have hdigit := Nat.isDigit_of_mem_toDigits (by decide) (by decide) h
    exact absurd hdigit (by decide)
  unfold range
  cases short with
  | true => simpa using hdigits _
  | false => simpa using ⟨hdigits _, hdigits _⟩

theorem header_ok (h : '\n' ∉ hunk.heading) (p q : Nat) :
    '\n' ∉ hunk.header p q := by
  unfold DiffHunk.header
  simp only [mem_append, not_or]
  exact ⟨⟨⟨⟨⟨by decide, range_ok _ _ _⟩, by decide⟩, range_ok _ _ _⟩, by decide⟩, h⟩

/-- A line of a hunk is a line of one of the texts behind its tag. -/
theorem edit_ok (hold : ∀ l ∈ hunk.old, '\n' ∉ l)
    (hnew : ∀ l ∈ hunk.new, '\n' ∉ l) : ∀ e ∈ hunk.edits, '\n' ∉ e.shown := by
  intro e he
  cases e with
  | context text =>
    have htext := hold text (mem_filterMap.mpr ⟨_, he, rfl⟩)
    exact not_mem_cons_of_ne_of_not_mem (by decide) htext
  | remove text =>
    have htext := hold text (mem_filterMap.mpr ⟨_, he, rfl⟩)
    exact not_mem_cons_of_ne_of_not_mem (by decide) htext
  | add text =>
    have htext := hnew text (mem_filterMap.mpr ⟨_, he, rfl⟩)
    exact not_mem_cons_of_ne_of_not_mem (by decide) htext

theorem hunkLines_ok (tail : List Text) : ∀ {stretches : Stretches} (p q : Nat),
    (∀ s ∈ stretches, '\n' ∉ s.2.heading) → (∀ l ∈ before tail stretches, '\n' ∉ l) →
    (∀ l ∈ after tail stretches, '\n' ∉ l) → ∀ l ∈ hunkLines p q stretches, '\n' ∉ l
  | [], _, _, _, _, _ => fun _ => nofun
  | (gap, hunk) :: rest, p, q, hheading, hbefore, hafter => by
    obtain ⟨hheading, hheadings⟩ := forall_mem_cons.mp hheading
    obtain ⟨hfront, hbefore⟩ := forall_mem_append.mp hbefore
    obtain ⟨hfront', hafter⟩ := forall_mem_append.mp hafter
    have hold : ∀ l ∈ hunk.old, '\n' ∉ l := (forall_mem_append.mp hfront).2
    have hnew : ∀ l ∈ hunk.new, '\n' ∉ l := (forall_mem_append.mp hfront').2
    rw [hunkLines, cons_append, forall_mem_cons, forall_mem_append, List.forall_mem_map]
    exact ⟨header_ok hheading _ _, edit_ok hold hnew, hunkLines_ok tail _ _ hheadings hbefore hafter⟩

theorem shown_ok (d : Diff) : ∀ l ∈ d.shown, '\n' ∉ l := by
  have hfile : ∀ {word : String} {name : Text}, '\n' ∉ word.toList → '\n' ∉ name →
      '\n' ∉ word.toList ++ name :=
    fun hword hname h => (mem_append.mp h).elim hword hname
  rw [Diff.shown, forall_mem_cons, forall_mem_cons]
  exact ⟨hfile (by decide) d.names_ok.1, hfile (by decide) d.names_ok.2,
    hunkLines_ok d.tail 0 0 d.headings_ok d.before_ok d.after_ok⟩

theorem parse_text (d : Diff) : parseUnifiedDiff d.text =
    (parseLines ⟨[], some d.patch, none⟩ (hunkLines 0 0 d.stretches ++ [[]])).map
      (·.closeHunk.patches) := by
  unfold parseUnifiedDiff
  rw [Diff.text, lines_terminated (shown_ok d), parseLines_shown]
  cases parseLines ⟨[], some d.patch, none⟩ (hunkLines 0 0 d.stretches ++ [[]]) <;> rfl

/-- A diff without lines that look like headers is one patch with its hunks. -/
theorem parse_plain {d : Diff} (h : ∀ s ∈ d.stretches, ∀ e ∈ s.2.edits, ¬ e.HeaderLike) :
    parseUnifiedDiff d.text = .ok [{ d.patch with hunks := parsedAll 0 0 d.stretches }] := by
  obtain ⟨st', hparse, hclose⟩ := parseLines_diff ⟨[], some d.patch, none⟩ d.patch d.shortOld_ok
    d.shortNew_ok h rfl [[]]
  obtain ⟨st'', hblank, hclosed⟩ := parseLines_blank st'
  rw [parse_text, hparse, hblank]
  show Except.ok st''.closeHunk.patches = _
  rw [hclosed, hclose]
  rfl

theorem parse_not_one {d : Diff} (h : ∃ s ∈ d.stretches, ∃ e ∈ s.2.edits, e.HeaderLike)
    (patch : FilePatch) : parseUnifiedDiff d.text ≠ .ok [patch] := by
  rw [parse_text]
  intro heq
  cases hparse : parseLines ⟨[], some d.patch, none⟩ (hunkLines 0 0 d.stretches ++ [[]]) with
  | error message =>
    rw [hparse] at heq
    nomatch heq
  | ok st =>
    have hmore := parse_headerLike ⟨[], some d.patch, none⟩ d.shortOld_ok d.shortNew_ok rfl h hparse
    rw [← length_patches_closeHunk st] at hmore
    rw [hparse] at heq
    have hone : st.closeHunk.patches = [patch] := Except.ok.inj heq
    rw [hone] at hmore
    exact absurd hmore (Nat.lt_irrefl 1)

theorem applyHunks_diff (d : Diff) :
    applyHunks (terminated (before d.tail d.stretches)) (parsedAll 0 0 d.stretches) =
        .ok (terminated (after d.tail d.stretches)) ↔
      applied d.tail .start d.stretches = some (after d.tail d.stretches) := by
  have houtcome := applyAll_diff d.tail d.stretches .start 0 0 [] rfl
  have hlines : ∀ out, applied d.tail .start d.stretches = some out → ∀ l ∈ out, '\n' ∉ l := by
    intro out hout l hl
    rcases mem_applied d.tail hout l hl with h | h | h
    · nomatch h
    · exact d.before_ok l h
    · exact d.after_ok l h
  rw [applyHunks, splitLines_terminated d.before_ok]
  show (applyAll ⟨0, before d.tail d.stretches, []⟩ _).bind _ = _ ↔ _
  change outcome (applyAll ⟨0, before d.tail d.stretches, []⟩ (parsedAll 0 0 d.stretches)) = _
    at houtcome
  cases hrun : applyAll ⟨0, before d.tail d.stretches, []⟩ (parsedAll 0 0 d.stretches) with
  | error message =>
    rw [hrun, outcome_error] at houtcome
    have hnone : applied d.tail .start d.stretches = none := map_eq_none_iff.mp houtcome.symm
    rw [hnone]
    exact ⟨nofun, nofun⟩
  | ok st =>
    rw [hrun, outcome_ok] at houtcome
    obtain ⟨out, hout, heq⟩ := map_eq_some_iff.mp houtcome.symm
    rw [nil_append] at heq
    rw [hout, some.injEq, heq]
    show Except.ok (joinLines (st.out ++ st.rest)) = _ ↔ _
    rw [Except.ok.injEq, joinLines_eq]
    exact terminated_inj (heq ▸ hlines out hout) d.after_ok

/-- **A diff is reproduced** exactly if no removed line looks like the header of a file and every
    insertion without old lines does no harm one line too early. -/
theorem reproduces_iff (d : Diff) : d.Reproduces ↔
    (∀ s ∈ d.stretches, ∀ e ∈ s.2.edits, ¬ e.HeaderLike) ∧ Placed .start d.stretches := by
  have hplaced := applied_iff d.tail .start d.stretches
  rw [← hplaced]
  show _ ↔ _ ∧ applied d.tail .start d.stretches = some (after d.tail d.stretches)
  rw [← applyHunks_diff d]
  constructor
  · rintro ⟨patch, hparse, happly⟩
    have hplain : ∀ s ∈ d.stretches, ∀ e ∈ s.2.edits, ¬ e.HeaderLike := by
      intro s hs e he hlike
      exact parse_not_one ⟨s, hs, e, he, hlike⟩ patch hparse
    rw [parse_plain hplain] at hparse
    obtain rfl := singleton_inj.mp (Except.ok.inj hparse)
    exact ⟨hplain, happly⟩
  · rintro ⟨hplain, happly⟩
    exact ⟨_, parse_plain hplain, happly⟩

/-- A line is inserted behind the first of two, without context. -/
def insertion : Diff where
  oldName := ['f']
  newName := ['f']
  stretches := [([['x']], { edits := [.add ['z']], shortNew := true })]
  tail := [['y']]
  names_ok := by decide
  before_ok := by decide
  after_ok := by decide
  headings_ok := by decide
  shortOld_ok := by decide
  shortNew_ok := by decide

/-- It is inserted before the first. -/
theorem insertion_misplaced : ¬ ∀ d : Diff, d.Reproduces := by
  intro h
  obtain ⟨patch, hparse, happly⟩ := h insertion
  have hpatch : parseUnifiedDiff insertion.text = .ok [⟨"f", "f", [⟨1, 2, [['+', 'z']], (0, 1)⟩]⟩] := by
    decide +kernel
  rw [hpatch] at hparse
  obtain rfl := singleton_inj.mp (Except.ok.inj hparse)
  exact absurd happly (by decide)

end NexusCode.Patch
