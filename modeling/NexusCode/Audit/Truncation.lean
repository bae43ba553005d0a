/-
  Records that were lost stay detected, as long as nobody commits the anchor to the shorter file.

  A process that starts on a file with fewer records than the anchor says freezes the anchor.  The
  flag is not kept: once as many records were appended as are missing, the next process finds
  nothing missing, and its first append signs an anchor for the file as it is.

    1. `Disk.Shaped`           — a chain file of the log that may have been cut off.
    2. `shaped_append`, `loaded_append` — what an append does to such a file.
    3. `Missing`               — the invariant: records are missing, and it shows.
    4. **`truncation_detected`** — so it does over every run without such an append;
       `relaunched_log_verifies` is a run with one.
-/
import NexusCode.Audit.Chain

namespace NexusCode.Audit

open Lib Shared List Option

section Detection

variable {hmac : String → String} {redaction : Redaction} {paths : AuditPaths}

/-! ## Chain files that were cut off -/

/-- The lines in front are records or unreadable, and the last line is the beginning of a record,
    as far as it goes. -/
structure Disk.Shaped (hmac : String → String) (redaction : Redaction) (disk : Disk)
    (front : List (List Char)) (last : List Char) : Prop where
  text : lines disk.text = front ++ [last]
  written : ∀ line ∈ front, (∃ e : Entry, line = e.line redaction hmac) ∨ Unreadable line
  started : last ≠ [] → ∃ (e : Entry) (lost : List Char), last ++ lost = e.line redaction hmac

variable {front : List (List Char)}

/-- Lines of the log, whole or unreadable, hold records of the log only. -/
theorem stored_of_written
    (h : ∀ line ∈ front, (∃ e : Entry, line = e.line redaction hmac) ∨ Unreadable line) :
    ∀ n, ∃ es : List Entry, (readLines n front).records = es.map (·.stored redaction hmac) := by
  induction front with
  | nil => exact fun _ => ⟨[], rfl⟩
  | cons line rest ih =>
    intro n
    obtain ⟨hline, hrest⟩ := forall_mem_cons.mp h
    obtain ⟨es, hes⟩ := ih hrest (n + 1)
    have hcons := readLines_append [line] rest n
    rw [singleton_append, length_singleton] at hcons
    rw [hcons, hes]
    rcases hline with ⟨e, rfl⟩ | hline
    · exact ⟨e :: es, by rw [readLines_line]; rfl⟩
    · exact ⟨es, by rw [readLines_unreadable n hline]; rfl⟩

variable {disk : Disk} {last : List Char}

theorem last_line
    (h : disk.Shaped hmac redaction front last) :
    last = [] ∨ (∃ e : Entry, last = e.line redaction hmac) ∨ Unreadable last := by
  by_cases hlast : last = []
  · exact .inl hlast
  obtain ⟨e, lost, hwhole⟩ := h.started hlast
  by_cases hlost : lost = []
  · rw [hlost, append_nil] at hwhole
    exact .inr (.inl ⟨e, hwhole⟩)
  · exact .inr (.inr (e.torn redaction hmac hwhole hlast hlost))

/-- **What is read from such a file are records of the log.** -/
theorem stored_of_shaped
    (h : disk.Shaped hmac redaction front last) :
    ∃ es : List Entry, disk.loaded.records = es.map (·.stored redaction hmac) := by
  obtain ⟨es, hes⟩ := stored_of_written h.written 1
  rw [disk.loaded_eq, h.text, readLines_append, hes]
  rcases last_line h with rfl | ⟨e, rfl⟩ | hlast
  · exact ⟨es, by rw [readLines_empty]; exact append_nil _⟩
  · exact ⟨es ++ [e], by rw [readLines_line, map_append]; rfl⟩
  · exact ⟨es, by rw [readLines_unreadable _ hlast]; exact append_nil _⟩

/-! ## Appending to them -/

theorem lines_line (e : Entry) :
    lines (e.line redaction hmac ++ ['\n']) = [e.line redaction hmac, []] := by
  have h := lines_append (e.line redaction hmac) []
  rw [lines_of_notMem (e.newline_notMem_line redaction hmac)] at h
  exact h

/-- The state of the disk after an append. -/
def Disk.Appended (hmac : String → String) (redaction : Redaction) (e : Entry)
    (disk disk' : Disk) : Prop :=
  disk'.text = disk.text ++ (e.line redaction hmac ++ ['\n'])

variable {disk' : Disk} {e : Entry}

theorem shaped_append
    (h : disk.Shaped hmac redaction front last) (happ : Disk.Appended hmac redaction e disk disk') :
    disk'.Shaped hmac redaction (front ++ [last ++ e.line redaction hmac]) [] where
  text := by
    rw [happ, lines_behind h.text (lines_line e), append_assoc]
    rfl
  written := by
    refine forall_mem_append.mpr ⟨h.written, forall_mem_singleton.mpr ?_⟩
    by_cases hlast : last = []
    · exact .inl ⟨e, by rw [hlast]; rfl⟩
    · obtain ⟨e', lost, hwhole⟩ := h.started hlast
      exact .inr (e'.overwritten redaction hmac e hwhole hlast)
  started := fun hne => absurd rfl hne

/-- **An append adds its record to the file, or leaves an unreadable line in it.** -/
theorem loaded_append
    (h : disk.Shaped hmac redaction front last) (happ : Disk.Appended hmac redaction e disk disk') :
    disk'.loaded.malformedLines ≠ [] ∨
      disk'.loaded.records = disk.loaded.records ++ [e.stored redaction hmac] ∧
        disk'.loaded.malformedLines = disk.loaded.malformedLines := by
  have h' := shaped_append h happ
  rw [disk'.loaded_eq, h'.text, readLines_append, readLines_empty, readLines_append]
  by_cases hlast : last = []
  · refine .inr ?_
    rw [disk.loaded_eq, h.text, readLines_append, hlast, readLines_empty, nil_append,
      readLines_line]
    simp only [append_nil, and_self]
  · refine .inl ?_
    obtain ⟨e', lost, hwhole⟩ := h.started hlast
    rw [readLines_unreadable _ (e'.overwritten redaction hmac e hwhole hlast)]
    simp

/-! ## Damage -/

/-- A line of the file is unreadable, or a record is out of place. -/
def Loaded.Damaged (loaded : Loaded) : Prop :=
  loaded.malformedLines ≠ [] ∨
    ∃ i r, loaded.records[i]? = some r ∧ strictEq (r.get? "seq") (count i) = false

/-- **Damage stays.** -/
theorem damaged_append
    (h : disk.Shaped hmac redaction front last) (happ : Disk.Appended hmac redaction e disk disk')
    (hdamaged : disk.loaded.Damaged) : disk'.loaded.Damaged := by
  rcases loaded_append h happ with hlines | ⟨hrecords, hlines⟩
  · exact .inl hlines
  · rcases hdamaged with hmalformed | ⟨i, r, hr, hseq⟩
    · exact .inl (by rw [hlines]; exact hmalformed)
    · refine .inr ⟨i, r, ?_, hseq⟩
      rw [hrecords, List.getElem?_append_left (List.getElem?_eq_some_iff.mp hr).1]
      exact hr

/-- A record is out of place behind more or fewer records than it says. -/
theorem damaged_of_seq
    (h : disk.Shaped hmac redaction front last) (happ : Disk.Appended hmac redaction e disk disk')
    (hseq : e.seq ≠ disk.loaded.records.length) : disk'.loaded.Damaged := by
  rcases loaded_append h happ with hlines | ⟨hrecords, -⟩
  · exact .inl hlines
  · refine .inr ⟨disk.loaded.records.length, e.stored redaction hmac, ?_, ?_⟩
    · rw [hrecords, List.getElem?_concat_length]
    · rw [e.stored_seq]
      exact Bool.eq_false_iff.mpr fun heq => hseq (Nat.cast_injective (of_decide_eq_true heq))

/-! ## Verification -/

/-- Where damage or a wrong anchor shows, the verification says so. -/
theorem verifyFile_fails {n : Nat}
    {head : String} (h : disk.Shaped hmac redaction front last)
    (hanchor : disk.anchor = some (anchorText hmac n head)) (hn : n ≤ maxArrayLength)
    (hshows : disk.loaded.Damaged ∨
      ¬ (n = disk.loaded.records.length ∧ lastHash disk.loaded.records = some (.str head))) :
    ∃ result, verifyFile hmac paths disk = some result ∧ result.ok = false := by
  obtain ⟨es, hes⟩ := stored_of_shaped h
  obtain ⟨found, hfound, hplace⟩ :=
    checkFrom_stored es 0 genesisHash
  obtain ⟨mismatch, hmismatch, hpass⟩ :=
    checkAnchor_own hanchor hn disk.loaded.records disk.file.isNone
  rw [← hes] at hfound
  have hverify : verifyFile hmac paths disk = some
      { ok := found.isEmpty && disk.loaded.malformedLines.isEmpty && mismatch.isNone
        count := disk.loaded.records.length
        tampered := found ++ disk.loaded.malformedLines.map (malformedLine disk.loaded.records) ++
          mismatch.toList } := by
    unfold verifyFile verifyChain
    dsimp only
    rw [hfound, hmismatch]
    rfl
  refine ⟨_, hverify, ?_⟩
  show (found.isEmpty && disk.loaded.malformedLines.isEmpty && mismatch.isNone) = false
  rcases hshows with (hlines | ⟨i, r, hr, hseq⟩) | hanchored
  · have hempty : disk.loaded.malformedLines.isEmpty = false :=
      Bool.eq_false_iff.mpr fun h => hlines (List.isEmpty_iff.mp h)
    rw [hempty, Bool.and_false, Bool.false_and]
  · have hne : found ≠ [] := by
      rw [hes, List.getElem?_map] at hr
      obtain ⟨e, he, rfl⟩ := map_eq_some_iff.mp hr
      refine hplace ⟨i, e, he, fun heq => ?_⟩
      rw [Nat.zero_add] at heq
      rw [e.stored_seq, heq] at hseq
      exact absurd (decide_eq_true rfl) (Bool.eq_false_iff.mp hseq)
    have hempty : found.isEmpty = false :=
      Bool.eq_false_iff.mpr fun h => hne (List.isEmpty_iff.mp h)
    rw [hempty, Bool.false_and, Bool.false_and]
  · have hsome : mismatch.isNone = false := by
      cases mismatch with
      | none => exact absurd (hpass.mp rfl) hanchored
      | some m => rfl
    rw [hsome, Bool.and_false]

/-! ## Steps -/

/-- The call does not commit the anchor to a file from which records are missing: an event is
    appended to a file that is damaged, or by a log that has not read it, or by one that froze the
    anchor and does not write the very record the anchor is about. -/
def KeepsEvidence (hmac : String → String) (redaction : Redaction) (s : State) : Call → Prop
  | .append event =>
    s.disk.loaded.Damaged ∨ s.log.records.length ≠ s.disk.loaded.records.length ∨
      s.log.anchorFrozen = true ∧ ∀ record hash,
        s.log.record hmac redaction event = some (record, hash) →
          s.disk.anchor ≠ some (anchorText hmac (s.log.records.length + 1) hash)
  | _ => True

/-- Records are missing from the file, and it shows: the file is damaged, or the anchor is still
    the one for `n` records. -/
structure Missing (hmac : String → String) (redaction : Redaction) (n : Nat) (head : String)
    (disk : Disk) : Prop where
  shaped : ∃ front last, disk.Shaped hmac redaction front last
  anchored : ∃ n head, disk.anchor = some (anchorText hmac n head) ∧ n ≤ maxArrayLength
  shows : disk.loaded.Damaged ∨ disk.anchor = some (anchorText hmac n head) ∧
    ¬ (n = disk.loaded.records.length ∧ lastHash disk.loaded.records = some (.str head))

theorem Missing.detected {n : Nat} {head : String}
    (h : Missing hmac redaction n head disk) (hn : n ≤ maxArrayLength) :
    ∃ result, verifyFile hmac paths disk = some result ∧ result.ok = false := by
  obtain ⟨front, last, hshaped⟩ := h.shaped
  rcases h.shows with hdamaged | ⟨hanchor, hdiffer⟩
  · obtain ⟨m, head', hanchor, hm⟩ := h.anchored
    exact verifyFile_fails hshaped hanchor hm (Or.inl hdamaged)
  · exact verifyFile_fails hshaped hanchor hn (Or.inr hdiffer)

/-- **An append that keeps the evidence leaves records missing.** -/
theorem missing_append {n : Nat} {head : String} {s : State} {event : AuditEvent}
    (h : Missing hmac redaction n head s.disk)
    (hok : Succeeds hmac redaction s (.append event))
    (hkeeps : KeepsEvidence hmac redaction s (.append event)) :
    Missing hmac redaction n head (append hmac redaction s.log s.disk event).2.2 := by
  obtain ⟨front, last, hshaped⟩ := h.shaped
  obtain ⟨record, hrecord⟩ := isSome_iff_exists.mp hok
  obtain ⟨e, hseq, -, -, hjson, hbuilt, -, hdisk⟩ := append_cases
    
    (Prod.ext hrecord rfl)
  rw [hdisk]
  subst hjson
  have happ : Disk.Appended hmac redaction e s.disk
      (persist hmac s.log s.disk (e.json redaction hmac) (e.hash redaction hmac)) :=
    text_append e
  refine ⟨⟨_, _, shaped_append hshaped happ⟩, ?_, ?_⟩
  · show ∃ n head, (if s.log.anchorFrozen then s.disk.anchor
      else some (anchorText hmac (s.log.records.length + 1) (e.hash redaction hmac))) = _ ∧ _
    split
    · exact h.anchored
    · exact ⟨_, _, rfl, by rw [← hseq]; exact e.inRange⟩
  · rcases hkeeps with hdamaged | hstale | ⟨hfrozen, hother⟩
    · exact .inl (damaged_append hshaped happ hdamaged)
    · exact .inl (damaged_of_seq hshaped happ (by rw [hseq]; exact hstale))
    · rcases h.shows with hdamaged | ⟨hanchor, -⟩
      · exact .inl (damaged_append hshaped happ hdamaged)
      · have hsame : (persist hmac s.log s.disk (e.json redaction hmac)
            (e.hash redaction hmac)).anchor = s.disk.anchor := if_pos hfrozen
        by_cases hplace : s.log.records.length = s.disk.loaded.records.length
        · rcases loaded_append hshaped happ with hlines | ⟨hrecords, -⟩
          · exact .inl (.inl hlines)
          · refine .inr ⟨hsame.trans hanchor, ?_⟩
            rintro ⟨hlength, hlast⟩
            -- otherwise the anchor is the one of this very record
            rw [hrecords, length_append, length_singleton, ← hplace] at hlength
            rw [hrecords] at hlast
            unfold lastHash at hlast
            rw [List.getLast?_concat] at hlast
            dsimp only at hlast
            rw [e.stored_hash] at hlast
            obtain rfl := Json.str.inj (some.inj hlast)
            exact hother _ _ hbuilt (by rw [hanchor, hlength])
        · exact .inl (damaged_of_seq hshaped happ (by rw [hseq]; exact hplace))

/-! ## Deleting a tail -/

/-- A tail of the chain file that is not empty is deleted, or all of it with the file. -/
def TailDeleted (before : Disk) (tail : String) (after : Disk) : Prop :=
  tail ≠ "" ∧ after.anchor = before.anchor ∧
    ∃ kept, before.file = some (kept ++ tail) ∧
      (after.file = some kept ∨ kept = "" ∧ after.file = none)

/-- **A part of intact lines**: it ends in the middle of a record, before it or behind it. -/
theorem cut_lines {es : List Entry} {kept tail : List Char}
    (h : kept ++ tail = textOf redaction hmac es) (hne : tail ≠ []) :
    ∃ es₁ e es₂ last lost, es = es₁ ++ e :: es₂ ∧
      lines kept = es₁.map (·.line redaction hmac) ++ [last] ∧
      last ++ lost = e.line redaction hmac ∧
      lines tail = lost :: (es₂.map (·.line redaction hmac) ++ [[]]) := by
  obtain ⟨front, last, hfront⟩ : ∃ front last, lines kept = front ++ [last] :=
    ⟨_, _, (dropLast_append_getLast (lines_ne_nil kept)).symm⟩
  obtain ⟨lost, ls, hls⟩ := exists_cons_of_ne_nil (lines_ne_nil tail)
  have hlines := lines_behind hfront hls
  rw [h, lines_entries] at hlines
  rcases eq_nil_or_concat ls with rfl | ⟨behind, final, rfl⟩
  · -- the tail would be empty
    have hlast := (append_inj' hlines rfl).2
    obtain ⟨-, rfl⟩ := append_eq_nil_iff.mp (cons.inj hlast).1.symm
    have hjoin := lines_join tail
    rw [hls] at hjoin
    exact absurd hjoin.symm hne
  · rw [concat_eq_append, ← cons_append, ← append_assoc] at hlines
    obtain ⟨hlines, hfinal⟩ := append_inj' hlines rfl
    obtain ⟨es₁, rest, rfl, rfl, hrest⟩ := map_eq_append_iff.mp hlines
    obtain ⟨e, es₂, rfl, hline, rfl⟩ := map_eq_cons_iff.mp hrest
    refine ⟨es₁, e, es₂, last, lost, rfl, hfront, hline.symm, ?_⟩
    rw [hls, concat_eq_append, ← hfinal]

/-- **More than the last line feed is deleted, and records are missing.** -/
theorem missing_of_tailDeleted {es : List Entry} {s : State} {tail : String}
    (h : Whole hmac redaction es s) (hdel : TailDeleted s.disk tail disk) (htail : tail ≠ "\n") :
    ∃ n head, n ≤ maxArrayLength ∧ Missing hmac redaction n head disk := by
  obtain ⟨hne, hanchor, kept, hbefore, hafter⟩ := hdel
  have htext : kept.toList ++ tail.toList = textOf redaction hmac es := by
    rw [← String.toList_append, ← h.text]
    show _ = (s.disk.file.getD "").toList
    rw [hbefore]
    rfl
  have hkept : disk.text = kept.toList := by
    show (disk.file.getD "").toList = _
    rcases hafter with hsome | ⟨rfl, hnone⟩
    · rw [hsome]
      rfl
    · rw [hnone]
      rfl
  obtain ⟨es₁, e, es₂, last, lost, rfl, hlines, hline, hrest⟩ :=
    cut_lines htext fun hnil => hne (String.toList_eq_nil_iff.mp hnil)
  obtain ⟨head, hsigned⟩ : ∃ head, disk.anchor =
      some (anchorText hmac (es₁ ++ e :: es₂).length head) := by
    rw [hanchor]
    exact ⟨_, h.anchor.resolve_left fun hnil => absurd hnil.1 (by simp)⟩
  have hshaped : disk.Shaped hmac redaction (es₁.map (·.line redaction hmac)) last := by
    refine ⟨by rw [hkept, hlines], ?_, fun _ => ⟨e, lost, hline⟩⟩
    exact forall_mem_map.mpr fun e' _ => .inl ⟨e', rfl⟩
  have hfewer : disk.loaded.records.length ≠ (es₁ ++ e :: es₂).length →
      ¬ ((es₁ ++ e :: es₂).length = disk.loaded.records.length ∧
        lastHash disk.loaded.records = some (.str head)) := fun hne heq => hne heq.1.symm
  refine ⟨_, head, h.inRange, ⟨_, _, hshaped⟩, ⟨_, _, hsigned, h.inRange⟩, ?_⟩
  have hloaded : disk.loaded = readLines 1 (es₁.map (·.line redaction hmac) ++ [last]) := by
    rw [disk.loaded_eq, hkept, hlines]
  rw [readLines_append, readLines_entries] at hloaded
  by_cases hlast : last = []
  · -- whole records were deleted
    refine .inr ⟨hsigned, hfewer ?_⟩
    rw [hloaded, hlast, readLines_empty]
    simp
  by_cases hlost : lost = []
  · -- so they were, and the line feed before them
    refine .inr ⟨hsigned, hfewer ?_⟩
    rw [hlost, append_nil] at hline
    have hmore : es₂ ≠ [] := by
      rintro rfl
      have hjoin := lines_join tail.toList
      rw [hrest, hlost] at hjoin
      exact htail (String.toList_inj.mp hjoin.symm)
    rw [hloaded, hline, readLines_line]
    have := length_pos_iff.mpr hmore
    simp only [length_append, length_map, length_cons, length_nil]
    omega
  · -- a record was cut in two
    refine .inl (.inl ?_)
    rw [hloaded, readLines_unreadable _ (e.torn redaction hmac hline hlast hlost)]
    simp

/-! ## Runs -/

/-- **Lost records stay detected.**  From intact files, of which a tail was deleted that is more
    than the last line feed, every verification fails, as long as no append commits the anchor to
    the shorter file. -/
theorem truncation_detected {s : State} {tail : String} {disk : Disk} {calls : List Call}
    (hintact : Intact hmac paths redaction s) (hdel : TailDeleted s.disk tail disk)
    (htail : tail ≠ "\n")
    (hcalls : (auditMachine hmac paths redaction).Always
      (fun s call => Succeeds hmac redaction s call ∧ KeepsEvidence hmac redaction s call)
      { s with disk } calls) :
    ∀ result, .verified result ∈
        (auditMachine hmac paths redaction).answers { s with disk } calls →
      ∃ found, result = some found ∧ found.ok = false := by
  obtain ⟨es, hes⟩ := hintact.whole
  obtain ⟨n, head, hn, hmissing⟩ := missing_of_tailDeleted hes hdel htail
  have hanswers := Machine.Always.answers (I := fun s => Missing hmac redaction n head s.disk)
    (P := fun answer => ∀ result, answer = .verified result →
      ∃ found, result = some found ∧ found.ok = false) ?_ hcalls hmissing
  · exact fun result hmem => hanswers _ hmem result rfl
  rintro s call hs ⟨hsucceeds, hkeeps⟩
  cases call with
  | restart => exact ⟨fun _ => nofun, hs⟩
  | append event => exact ⟨fun _ => nofun, missing_append hs hsucceeds hkeeps⟩
  | verifyFile =>
    refine ⟨fun result h => ?_, hs⟩
    obtain rfl := Answer.verified.inj h
    exact hs.detected hn

/-! ## A log that was removed -/

/-- The files when the chain file is gone. -/
def removeFile (s : State) : State := { s with disk := { s.disk with file := none } }

/-- A process starts on an anchor alone, appends, starts again and appends. -/
def laundering (event : AuditEvent) : List Call :=
  [.restart, .append event, .restart, .append event, .verifyFile]

/-- **The loss is laundered.**  The anchor is frozen for the first record only, and signed for the
    second one. -/
theorem laundered (paths : AuditPaths) {s : State} (h : Whole hmac redaction [e] s)
    (event : AuditEvent) :
    (auditMachine hmac paths redaction).Always (Succeeds hmac redaction) (removeFile s)
        (laundering event) ∧
      .verified (some { ok := true, count := 2, tampered := [] }) ∈
        (auditMachine hmac paths redaction).answers (removeFile s) (laundering event) := by
  have hone : 1 ≤ maxArrayLength := by decide
  have hanchor : (removeFile s).disk.anchor =
      some (anchorText hmac 1 (headFrom redaction hmac genesisHash [e])) :=
    h.anchor.resolve_left fun hnil => absurd hnil.1 (cons_ne_nil _ _)
  -- the process that starts finds one record missing
  let M := auditMachine hmac paths redaction
  let s₁ : State := { removeFile s with log := AuditLog.load hmac (removeFile s).disk }
  have hs₁ : (M.step (removeFile s) .restart).2 = s₁ := rfl
  have h₁ : Recorded hmac redaction [] s₁ := ⟨rfl, trivial, List.Forall₂.nil, Nat.zero_le _⟩
  have hfrozen₁ : s₁.log.anchorFrozen = true :=
    (load_frozen hanchor hone).trans (decide_eq_true Nat.one_pos)
  have hok₁ := h₁.succeeds (by decide : 0 < maxArrayLength) event
  obtain ⟨e₁, s₂, hs₂, h₂, -, hanchor₂⟩ := h₁.append paths hok₁
  rw [if_pos hfrozen₁] at hanchor₂
  replace hanchor₂ := hanchor₂.trans hanchor
  -- the next one finds none missing
  let s₃ : State := { s₂ with log := AuditLog.load hmac s₂.disk }
  have hs₃ : (M.step s₂ .restart).2 = s₃ := rfl
  have h₃ : Recorded hmac redaction [e₁] s₃ := h₂.restart
  have hfrozen₃ : s₃.log.anchorFrozen = false := by
    show (AuditLog.load hmac s₂.disk).anchorFrozen = false
    rw [load_frozen hanchor₂ hone, h₂.loaded]
    rfl
  have hok₃ := h₃.succeeds (by decide : 1 < maxArrayLength) event
  obtain ⟨e₂, s₄, hs₄, h₄, -, hanchor₄⟩ := h₃.append paths hok₃
  rw [if_neg (by rw [hfrozen₃]; exact Bool.false_ne_true)] at hanchor₄
  have hverified := verifyFile_own paths h₄.text h₄.chained (Or.inr hanchor₄) h₄.inRange
  unfold laundering
  constructor
  · simp only [Machine.Always]
    rw [hs₁, hs₂, hs₃]
    exact ⟨trivial, hok₁, trivial, hok₃, trivial, trivial⟩
  · simp only [Machine.answers]
    rw [hs₁, hs₂, hs₃, hs₄]
    iterate 4 apply mem_cons_of_mem
    exact mem_singleton.mpr (congrArg Answer.verified hverified.symm)

end Detection

namespace Removed

/-- A keyed checksum, in hexadecimal digits. -/
def hmac (text : String) : String :=
  String.ofList (Nat.toDigits 16
    (text.toList.foldl (fun n c => (33 * n + c.toNat) % 2 ^ 64) 5381))

/-- Nothing looks like a secret. -/
def redaction : Redaction where
  secretKey _ := false
  redactSecrets text := text

def paths : AuditPaths where
  file := "audit.ndjson"
  anchorFile := "audit.ndjson.anchor.json"

/-- Someone does something. -/
def event (actor : String) : AuditEvent where
  input := { actor, action := .toolCall }
  now := 0
  isValue := ⟨fun _ => nofun, JsNumber.isDouble_natCast (n := 0) (by decide)⟩

/-- One record was written. -/
def before : State := (auditMachine hmac paths redaction).run {} [.append (event "root")]

theorem succeeds : Succeeds hmac redaction {} (.append (event "root")) :=
  whole_empty.succeeds (by decide) _

theorem intact : Intact hmac paths redaction before :=
  ⟨[.append (event "root")], ⟨succeeds, trivial⟩, rfl⟩

theorem verifies : verifyFile hmac paths before.disk =
    some { ok := true, count := 1, tampered := [] } :=
  run_verifies [.append (event "root")] (by decide)

theorem whole : ∃ e, Whole hmac redaction [e] before := whole_empty.appended succeeds

theorem file_eq : ∃ inner, before.disk.file = some (String.ofList ('{' :: (inner ++ ['\n']))) := by
  obtain ⟨e, he⟩ := whole
  obtain ⟨front, hline⟩ := e.line_close redaction hmac
  have htext := he.text
  unfold Disk.text textOf at htext
  rw [List.flatMap_singleton, hline, List.cons_append] at htext
  cases hfile : before.disk.file with
  | none =>
    rw [hfile] at htext
    nomatch htext
  | some text =>
    rw [hfile] at htext
    refine ⟨front ++ ['}'], congrArg some ?_⟩
    rw [← htext]
    exact String.ofList_toList.symm

theorem tailDeleted : ∃ tail, tail ≠ "\n" ∧
    TailDeleted before.disk tail (removeFile before).disk := by
  obtain ⟨inner, hfile⟩ := file_eq
  refine ⟨String.ofList ('{' :: (inner ++ ['\n'])), fun heq => ?_, fun heq => ?_, rfl, "", ?_,
    Or.inr ⟨rfl, rfl⟩⟩
  · have hchars := congrArg String.toList heq
    rw [String.toList_ofList] at hchars
    exact absurd (cons.inj hchars).1 (by decide)
  · have hchars := congrArg String.toList heq
    rw [String.toList_ofList] at hchars
    nomatch hchars
  · rw [String.empty_append]
    exact hfile

end Removed

open Removed in
/-- While the log has not read the shorter file, what it appends is out of place. -/
theorem truncation_detected_removed : ¬ ∃ result, .verified result ∈
    (auditMachine hmac paths redaction).answers (removeFile before)
      [.append (event "mallory"), .restart, .verifyFile] ∧
    ¬ ∃ found, result = some found ∧ found.ok = false := by
  rintro ⟨result, hverified, hnot⟩
  obtain ⟨tail, htail, hdeleted⟩ := tailDeleted
  obtain ⟨e, he⟩ := whole
  refine hnot (truncation_detected intact hdeleted htail ?_ result hverified)
  refine ⟨⟨he.succeeds_on (by decide : 1 < maxArrayLength) _ _, .inr (.inl ?_)⟩,
    ⟨trivial, trivial⟩, ⟨trivial, trivial⟩, trivial⟩
  rw [he.length_records]
  exact Nat.one_ne_zero

open Removed in
/-- The chain file is removed; two events later, with a new process before each, the log verifies. -/
theorem relaunched_log_verifies : ¬ ∀ (hmac : String → String) (paths : AuditPaths)
    (redaction : Redaction) (s : State) (tail : String) (disk : Disk) (calls : List Call),
    Intact hmac paths redaction s → TailDeleted s.disk tail disk →
      (auditMachine hmac paths redaction).Always (Succeeds hmac redaction) { s with disk } calls →
        ∀ result, .verified result ∈ (auditMachine hmac paths redaction).answers { s with disk } calls →
          ∃ found, result = some found ∧ found.ok = false := by
  intro hclaim
  obtain ⟨tail, -, hdeleted⟩ := tailDeleted
  obtain ⟨e, he⟩ := whole
  obtain ⟨hok, hverified⟩ := laundered paths he (event "mallory")
  obtain ⟨found, hfound, hfails⟩ :=
    hclaim hmac paths redaction before tail _ _ intact hdeleted hok _ hverified
  obtain rfl := some.inj hfound
  nomatch hfails

end NexusCode.Audit
