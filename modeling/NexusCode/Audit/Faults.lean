/-
  Appends whose file operations fail.

  `append` writes the line, then the anchor, and only then takes the record into memory.  An
  operation that throws ends it where it is: nothing of what was written before is taken back.

    1. `appendFaulty`       — an append in which one operation throws without effect.
    2. `step_cases`         — what such an append leaves behind.
    3. `Behind`             — a line is in the file that the log does not know; the next line is out
       of place.
    4. **`appends_faithful_iff`** — the runs in which every append that returns leaves log and files in
       agreement.
-/
import NexusCode.Audit.Truncation

namespace NexusCode.Audit

open Lib Shared List

/-! ## The operations -/

/-- The file operations of an append. -/
inductive FileOp where
  | openChain
  | writeChain
  | fsyncChain
  | openAnchor
  | writeAnchor
  | fsyncAnchor
deriving DecidableEq

section Operations

variable (hmac : String → String) (redaction : Redaction) (fault : Option FileOp)

/-- `persistAnchor(count, head)` where one operation may throw: does it return, and the files. -/
def persistAnchorFaulty (frozen : Bool) (disk : Disk) (anchor : String) : Bool × Disk :=
  if frozen then (true, disk)
  else if fault = some .openAnchor then (false, disk)
  else if fault = some .writeAnchor then (false, { disk with anchor := some "" })
  else (fault ≠ some .fsyncAnchor, { disk with anchor := some anchor })

/-- `persist(record)`, where one operation may throw. -/
def persistFaulty (log : AuditLog) (disk : Disk) (record : Json) (hash : String) : Bool × Disk :=
  let text := disk.file.getD ""
  if fault = some .openChain then (false, disk)
  -- the file is created when it is opened
  else if fault = some .writeChain then (false, { disk with file := some text })
  else
    let disk := { disk with file := some (text ++ record.stringify ++ "\n") }
    if fault = some .fsyncChain then (false, disk)
    else persistAnchorFaulty fault log.anchorFrozen disk
      (anchorText hmac (log.records.length + 1) hash)

/-- `append(input)`, where one operation may throw. -/
def appendFaulty (log : AuditLog) (disk : Disk) (event : AuditEvent) :
    Option Json × AuditLog × Disk :=
  match log.record hmac redaction event with
  | none => (none, log, disk)
  | some (record, hash) =>
    let persisted := persistFaulty hmac fault log disk record hash
    if persisted.1 = true ∧ log.records.length < maxArrayLength then
      (some record, { log with records := log.records ++ [record] }, persisted.2)
    else (none, log, persisted.2)

/-- Appends to one log, each with the operation that throws, if any. -/
def faultyMachine : Machine State (AuditEvent × Option FileOp) (Option Json) where
  step s call :=
    let (record, log, disk) := appendFaulty hmac redaction call.2 s.log s.disk call.1
    (record, { log, disk })

end Operations

variable {hmac : String → String} {redaction : Redaction} {paths : AuditPaths}

/-- **Where nothing throws**, this is an append. -/
theorem appendFaulty_none (log : AuditLog) (disk : Disk) (event : AuditEvent) :
    appendFaulty hmac redaction none log disk event = append hmac redaction log disk event := by
  have hpersist : ∀ record hash, persistFaulty hmac none log disk record hash =
      (true, persist hmac log disk record hash) := by
    intro record hash
    unfold persistFaulty persistAnchorFaulty persist
    cases log.anchorFrozen <;> rfl
  unfold appendFaulty append
  cases log.record hmac redaction event with
  | none => rfl
  | some built =>
    obtain ⟨record, hash⟩ := built
    dsimp only
    rw [hpersist]
    by_cases hroom : log.records.length < maxArrayLength
    · rw [if_pos ⟨rfl, hroom⟩, if_pos hroom]
    · rw [if_neg fun h => hroom h.2, if_neg hroom]

/-! ## One append -/

/-- The operation throws when the line is in the file already. -/
def Late : Option FileOp → Prop
  | some .openChain | some .writeChain | none => False
  | _ => True

/-- There is no room for another record. -/
def State.Full (s : State) : Prop := maxArrayLength ≤ s.log.records.length

/-- The call does not return normally. -/
def Idle (s : State) (call : AuditEvent × Option FileOp) : Prop := call.2 ≠ none ∨ s.Full

theorem idle_step {s : State} {call : AuditEvent × Option FileOp} (h : Idle s call)
    (hfree : s.log.anchorFrozen = false) :
    ((faultyMachine hmac redaction).step s call).1 = none ∧
      ((faultyMachine hmac redaction).step s call).2.log = s.log := by
  obtain ⟨event, fault⟩ := call
  show (appendFaulty hmac redaction fault s.log s.disk event).1 = none ∧
    (appendFaulty hmac redaction fault s.log s.disk event).2.1 = s.log
  unfold appendFaulty
  cases s.log.record hmac redaction event with
  | none => exact ⟨rfl, rfl⟩
  | some built =>
    obtain ⟨record, hash⟩ := built
    dsimp only
    rw [if_neg]
    · exact ⟨rfl, rfl⟩
    rintro ⟨hreturned, hroom⟩
    rcases h with hfault | hfull
    · unfold persistFaulty persistAnchorFaulty at hreturned
      rw [hfree] at hreturned
      revert hreturned
      cases fault with
      | none => exact absurd rfl hfault
      | some op => cases op <;> exact nofun
    · exact absurd hroom (Nat.not_lt.mpr hfull)

/-- What an append of the entry leaves behind: nothing new; a line more, and the log does not know;
    or a line more, its anchor, and the log knows. -/
inductive Leaves (hmac : String → String) (redaction : Redaction) (e : Entry) (s : State) :
    Option FileOp → Option Json × State → Prop where
  | skipped {op : FileOp} {disk : Disk} (early : ¬ Late (some op)) (text : disk.text = s.disk.text)
    (anchor : disk.anchor = s.disk.anchor) : Leaves hmac redaction e s (some op) (none, { s with disk })
  | written {op : FileOp} {disk : Disk} (late : Late (some op))
    (appended : Disk.Appended hmac redaction e s.disk disk) :
    Leaves hmac redaction e s (some op) (none, { s with disk })
  | committed {disk : Disk} (appended : Disk.Appended hmac redaction e s.disk disk)
    (anchor : disk.anchor =
      some (anchorText hmac (s.log.records.length + 1) (e.hash redaction hmac))) :
    Leaves hmac redaction e s none (some (e.json redaction hmac),
      { log := { s.log with records := s.log.records ++ [e.json redaction hmac] }, disk })

/-- **What an append does**, in a log with a head hash and room, whose anchor is not frozen. -/
theorem step_cases {s : State} {event : AuditEvent} {fault : Option FileOp} {prev : String}
    (hlink : s.log.headHash = some (.str prev)) (hfree : s.log.anchorFrozen = false)
    (hroom : ¬ s.Full) :
    ∃ e : Entry, e.seq = s.log.records.length ∧ e.prevHash = prev ∧
      Leaves hmac redaction e s fault ((faultyMachine hmac redaction).step s (event, fault)) := by
  have hroom : s.log.records.length < maxArrayLength := Nat.not_le.mp hroom
  obtain ⟨e, hseq, hprev, hrecord⟩ := @record_linked redaction hmac _ _ hlink hroom event
  refine ⟨e, hseq, hprev, ?_⟩
  have hstep : ∀ returned disk,
      persistFaulty hmac fault s.log s.disk (e.json redaction hmac) (e.hash redaction hmac) =
        (returned, disk) →
      (faultyMachine hmac redaction).step s (event, fault) =
        if returned then (some (e.json redaction hmac),
          { log := { s.log with records := s.log.records ++ [e.json redaction hmac] }, disk })
        else (none, { s with disk }) := by
    intro returned disk hpersist
    have happend : appendFaulty hmac redaction fault s.log s.disk event =
        if returned then (some (e.json redaction hmac),
          { s.log with records := s.log.records ++ [e.json redaction hmac] }, disk)
        else (none, s.log, disk) := by
      unfold appendFaulty
      rw [hrecord]
      dsimp only
      rw [hpersist]
      cases returned with
      | true => exact if_pos ⟨rfl, hroom⟩
      | false => exact if_neg fun h => Bool.false_ne_true h.1
    unfold faultyMachine
    dsimp only
    rw [happend]
    cases returned <;> rfl
  unfold persistFaulty persistAnchorFaulty at hstep
  rw [hfree] at hstep
  have happended : ∀ anchor, Disk.Appended hmac redaction e s.disk
      { file := some (s.disk.file.getD "" ++ (e.json redaction hmac).stringify ++ "\n"), anchor } :=
    fun _ => text_append e
  cases fault with
  | none =>
    rw [hstep true _ rfl]
    exact .committed (happended _) rfl
  | some op =>
    cases op with
    | openChain =>
      rw [hstep false _ rfl]
      exact .skipped id rfl rfl
    | writeChain =>
      rw [hstep false _ rfl]
      exact .skipped id rfl rfl
    | fsyncChain | openAnchor | writeAnchor | fsyncAnchor =>
      rw [hstep false _ rfl]
      exact .written trivial (happended _)

/-! ## Log and files -/

/-- The record on disk is the one in memory, or what is read back of it. -/
def SameRecord (memory disk : Json) : Prop :=
  disk = memory ∨ Json.parse memory.stringify = some disk

/-- The files verify, and hold the records the log holds. -/
def Faithful (hmac : String → String) (paths : AuditPaths) (s : State) : Prop :=
  (∃ result, verifyFile hmac paths s.disk = some result ∧ result.ok = true) ∧
    List.Forall₂ SameRecord s.log.records s.disk.loaded.records

theorem Recorded.sameRecords {es : List Entry} {s : State} (h : Recorded hmac redaction es s) :
    List.Forall₂ SameRecord s.log.records s.disk.loaded.records := by
  rw [h.loaded, forall₂_map_right_iff]
  refine h.records.imp fun r e hr => ?_
  rcases hr with rfl | rfl
  · exact .inr (e.parse_line redaction hmac)
  · exact .inl rfl

theorem Whole.faithful {es : List Entry} {s : State} (h : Whole hmac redaction es s) :
    Faithful hmac paths s :=
  ⟨⟨_, h.verified, rfl⟩, h.toRecorded.sameRecords⟩

/-- The log knows the entries, and nothing is missing: an append that throws early leaves it so. -/
theorem Whole.skipped {es : List Entry} {s : State} {disk : Disk} (h : Whole hmac redaction es s)
    (htext : disk.text = s.disk.text) (hanchor : disk.anchor = s.disk.anchor) :
    Whole hmac redaction es { s with disk } where
  text := htext.trans h.text
  chained := h.chained
  records := h.records
  inRange := h.inRange
  anchor := by
    unfold AnchorOf
    rw [hanchor]
    exact h.anchor
  unfrozen := h.unfrozen

theorem Whole.committed {es : List Entry} {s : State} {event : AuditEvent}
    (h : Whole hmac redaction es s) (hroom : ¬ s.Full) :
    ∃ e, Whole hmac redaction (es ++ [e]) ((faultyMachine hmac redaction).step s (event, none)).2 := by
  have hroom : es.length < maxArrayLength := by
    rw [← h.length_records]
    exact Nat.not_le.mp hroom
  obtain ⟨e, he⟩ := @Whole.appended hmac redaction ⟨"", ""⟩ es s event h (h.succeeds hroom event)
  refine ⟨e, ?_⟩
  show Whole hmac redaction (es ++ [e])
    { log := (appendFaulty hmac redaction none s.log s.disk event).2.1
      disk := (appendFaulty hmac redaction none s.log s.disk event).2.2 }
  rw [appendFaulty_none]
  exact he

/-! ## A line the log does not know -/

/-- The file holds other records than the log, or is damaged. -/
structure Behind (hmac : String → String) (redaction : Redaction) (s : State) : Prop where
  shaped : ∃ front last, s.disk.Shaped hmac redaction front last
  differs : s.disk.loaded.Damaged ∨ s.log.records.length ≠ s.disk.loaded.records.length
  linked : ∃ prev, s.log.headHash = some (.str prev)
  unfrozen : s.log.anchorFrozen = false

theorem Recorded.shaped {es : List Entry} {s : State} (h : Recorded hmac redaction es s) :
    s.disk.Shaped hmac redaction (es.map (·.line redaction hmac)) [] where
  text := by rw [h.text, lines_entries]
  written := forall_mem_map.mpr fun e _ => .inl ⟨e, rfl⟩
  started := fun hne => absurd rfl hne

/-- **An append that throws late leaves the log behind.** -/
theorem Whole.behind {es : List Entry} {s : State} {disk : Disk} {e : Entry}
    (h : Whole hmac redaction es s) (happ : Disk.Appended hmac redaction e s.disk disk) :
    Behind hmac redaction { s with disk } where
  shaped := ⟨_, _, shaped_append h.toRecorded.shaped happ⟩
  differs := by
    rcases loaded_append h.toRecorded.shaped happ with hlines | ⟨hrecords, -⟩
    · exact .inl (.inl hlines)
    · refine .inr ?_
      rw [hrecords, h.loaded, length_append, length_map, length_singleton,
        h.length_records]
      omega
  linked := ⟨_, h.headHash⟩
  unfrozen := h.unfrozen

theorem Behind.damaged {s : State} {disk : Disk} {e : Entry} (h : Behind hmac redaction s)
    (hseq : e.seq = s.log.records.length) (happ : Disk.Appended hmac redaction e s.disk disk) :
    disk.loaded.Damaged := by
  obtain ⟨front, last, hshaped⟩ := h.shaped
  rcases h.differs with hdamaged | hlength
  · exact damaged_append hshaped happ hdamaged
  · exact damaged_of_seq hshaped happ (by rw [hseq]; exact hlength)

/-- **A log stays behind.** -/
theorem Behind.step {s : State} {call : AuditEvent × Option FileOp} (h : Behind hmac redaction s)
    (hroom : ¬ s.Full) : Behind hmac redaction ((faultyMachine hmac redaction).step s call).2 := by
  obtain ⟨event, fault⟩ := call
  obtain ⟨prev, hlink⟩ := h.linked
  obtain ⟨front, last, hshaped⟩ := h.shaped
  obtain ⟨e, hseq, -, hleaves⟩ := step_cases hlink h.unfrozen hroom
  generalize (faultyMachine hmac redaction).step s (event, fault) = after at hleaves
  cases hleaves with
  | @skipped op disk early text anchor =>
    have hloaded : disk.loaded = s.disk.loaded := by
      rw [disk.loaded_eq, s.disk.loaded_eq, text]
    refine ⟨⟨front, last, ⟨by rw [text]; exact hshaped.text, hshaped.written, hshaped.started⟩⟩, ?_,
      h.linked, h.unfrozen⟩
    rw [hloaded]
    exact h.differs
  | written late appended =>
    exact ⟨⟨_, _, shaped_append hshaped appended⟩, .inl (h.damaged hseq appended), h.linked,
      h.unfrozen⟩
  | committed appended anchor =>
    refine ⟨⟨_, _, shaped_append hshaped appended⟩, .inl (h.damaged hseq appended),
      ⟨e.hash redaction hmac, ?_⟩, h.unfrozen⟩
    unfold AuditLog.headHash
    rw [List.getLast?_concat]
    exact (e.get?_json redaction hmac).mpr (mem_append_right _ (mem_singleton_self _))

/-- **An append of such a log that returns is not faithful.** -/
theorem Behind.unfaithful {s : State} {event : AuditEvent} (h : Behind hmac redaction s)
    (hroom : ¬ s.Full) :
    ((faultyMachine hmac redaction).step s (event, none)).1.isSome ∧
      ¬ Faithful hmac paths ((faultyMachine hmac redaction).step s (event, none)).2 := by
  obtain ⟨prev, hlink⟩ := h.linked
  obtain ⟨front, last, hshaped⟩ := h.shaped
  obtain ⟨e, hseq, -, hleaves⟩ := step_cases hlink h.unfrozen hroom
  generalize (faultyMachine hmac redaction).step s (event, none) = after at hleaves
  cases hleaves with
  | committed appended anchor =>
    refine ⟨rfl, ?_⟩
    rintro ⟨⟨result, hresult, hok⟩, -⟩
    obtain ⟨result', hresult', hfails⟩ := @verifyFile_fails hmac redaction paths _ _ _ _ _
      (shaped_append hshaped appended) anchor (by rw [← hseq]; exact e.inRange)
      (Or.inl (h.damaged hseq appended))
    rw [hresult] at hresult'
    obtain rfl := Option.some.inj hresult'
    rw [hok] at hfails
    nomatch hfails

/-! ## Runs -/

/-- An append that returns leaves log and files in agreement. -/
def ReturnsFaithful (hmac : String → String) (paths : AuditPaths) (redaction : Redaction)
    (s : State) (call : AuditEvent × Option FileOp) : Prop :=
  ((faultyMachine hmac redaction).step s call).1.isSome →
    Faithful hmac paths ((faultyMachine hmac redaction).step s call).2

/-- Behind an append that throws when its line is in the file already, no append returns. -/
def NoneBehindLate (hmac : String → String) (redaction : Redaction) :
    State → List (AuditEvent × Option FileOp) → Prop
  | _, [] => True
  | s, call :: calls =>
    (Late call.2 → (faultyMachine hmac redaction).Always Idle
      ((faultyMachine hmac redaction).step s call).2 calls) ∧
    NoneBehindLate hmac redaction ((faultyMachine hmac redaction).step s call).2 calls

theorem idle_of_full {calls : List (AuditEvent × Option FileOp)} : ∀ {s : State},
    s.log.anchorFrozen = false → s.Full → (faultyMachine hmac redaction).Always Idle s calls := by
  induction calls with
  | nil => exact fun _ _ => trivial
  | cons call calls ih =>
    intro s hfree hfull
    obtain ⟨-, hlog⟩ := @idle_step hmac redaction s call (Or.inr hfull) hfree
    refine ⟨.inr hfull, ih ?_ ?_⟩
    · rw [hlog]
      exact hfree
    · unfold State.Full
      rw [hlog]
      exact hfull

theorem faithful_of_idle {calls : List (AuditEvent × Option FileOp)} : ∀ {s : State},
    s.log.anchorFrozen = false → (faultyMachine hmac redaction).Always Idle s calls →
      (faultyMachine hmac redaction).Always (ReturnsFaithful hmac paths redaction) s calls := by
  induction calls with
  | nil => exact fun _ _ => trivial
  | cons call calls ih =>
    rintro s hfree ⟨hidle, hrest⟩
    obtain ⟨hnone, hlog⟩ := @idle_step hmac redaction s call hidle hfree
    refine ⟨fun hsome => ?_, ih (by rw [hlog]; exact hfree) hrest⟩
    rw [hnone] at hsome
    nomatch hsome

theorem noneBehindLate_of_idle {calls : List (AuditEvent × Option FileOp)} : ∀ {s : State},
    (faultyMachine hmac redaction).Always Idle s calls → NoneBehindLate hmac redaction s calls := by
  induction calls with
  | nil => exact fun _ => trivial
  | cons call calls ih => exact fun h => ⟨fun _ => h.2, ih h.2⟩

/-- **Behind a late throw**, faithful means that no append returns. -/
theorem idle_of_behind {calls : List (AuditEvent × Option FileOp)} : ∀ {s : State},
    Behind hmac redaction s →
      (faultyMachine hmac redaction).Always (ReturnsFaithful hmac paths redaction) s calls →
        (faultyMachine hmac redaction).Always Idle s calls := by
  induction calls with
  | nil => exact fun _ _ => trivial
  | cons call calls ih =>
    rintro s hbehind ⟨hcall, hrest⟩
    by_cases hfull : s.Full
    · exact idle_of_full hbehind.unfrozen hfull
    refine ⟨.inl ?_, ih (hbehind.step hfull) hrest⟩
    obtain ⟨event, fault⟩ := call
    rintro (rfl : fault = none)
    obtain ⟨hsome, hnot⟩ := @Behind.unfaithful hmac redaction paths s event hbehind hfull
    exact hnot (hcall hsome)

/-- **From whole files**, the appends that return leave log and files in agreement, exactly as long
    as none of them comes behind a late throw. -/
theorem Whole.run_iff {calls : List (AuditEvent × Option FileOp)} :
    ∀ {es : List Entry} {s : State}, Whole hmac redaction es s →
      ((faultyMachine hmac redaction).Always (ReturnsFaithful hmac paths redaction) s calls ↔
        NoneBehindLate hmac redaction s calls) := by
  induction calls with
  | nil => exact fun _ => Iff.rfl
  | cons call calls ih =>
    intro es s h
    by_cases hfull : s.Full
    · have hidle := @idle_of_full hmac redaction (call :: calls) s h.unfrozen hfull
      exact ⟨fun _ => noneBehindLate_of_idle hidle, fun _ => faithful_of_idle h.unfrozen hidle⟩
    obtain ⟨event, fault⟩ := call
    by_cases hnone : fault = none
    · -- the entry is added
      subst hnone
      obtain ⟨e', hwhole⟩ := @Whole.committed hmac redaction es s event h hfull
      constructor
      · exact fun hrun => ⟨nofun, (ih hwhole).mp hrun.2⟩
      · exact fun hrun => ⟨fun _ => hwhole.faithful, (ih hwhole).mpr hrun.2⟩
    obtain ⟨hanswer, -⟩ := @idle_step hmac redaction s (event, fault) (Or.inl hnone) h.unfrozen
    have hquiet : ReturnsFaithful hmac paths redaction s (event, fault) := by
      intro hsome
      rw [hanswer] at hsome
      nomatch hsome
    obtain ⟨e, hseq, -, hleaves⟩ :=
      @step_cases hmac redaction s event fault _ h.headHash h.unfrozen hfull
    unfold Machine.Always NoneBehindLate
    rw [and_iff_right hquiet]
    generalize (faultyMachine hmac redaction).step s (event, fault) = after at hleaves
    cases hleaves with
    | skipped early text anchor =>
      rw [and_iff_right fun hlate => absurd hlate early]
      exact ih (h.skipped text anchor)
    | written late appended =>
      constructor
      · intro hrun
        have hidle := idle_of_behind (h.behind appended) hrun
        exact ⟨fun _ => hidle, noneBehindLate_of_idle hidle⟩
      · exact fun hrun => faithful_of_idle h.unfrozen (hrun.1 late)
    | committed => exact absurd rfl hnone

/-- **From intact files**, every append that returns leaves files that verify and hold the records
    of the log, exactly as long as no append returns behind one that threw when its line was in the
    file already. -/
theorem appends_faithful_iff {s : State} {calls : List (AuditEvent × Option FileOp)}
    (hintact : Intact hmac paths redaction s) :
    (faultyMachine hmac redaction).Always (ReturnsFaithful hmac paths redaction) s calls ↔
      NoneBehindLate hmac redaction s calls := by
  obtain ⟨es, hes⟩ := hintact.whole
  exact hes.run_iff

open Removed in
/-- The chain file cannot be written at first; the log goes on as if nothing had been tried. -/
theorem appends_faithful_write : (faultyMachine Removed.hmac Removed.redaction).Always
    (ReturnsFaithful Removed.hmac Removed.paths Removed.redaction) {} [(event "root", some .writeChain),
      (event "root", none), (event "mallory", some .fsyncAnchor)] :=
  (appends_faithful_iff ⟨[], trivial, rfl⟩).mpr
    ⟨False.elim, False.elim, fun _ => trivial, trivial⟩

open Removed in
/-- The first line cannot be synced; it stays, and the next record has its number again. -/
theorem number_twice : ¬ ∀ (hmac : String → String) (paths : AuditPaths) (redaction : Redaction)
    (s : State) (calls : List (AuditEvent × Option FileOp)), Intact hmac paths redaction s →
      (faultyMachine hmac redaction).Always (ReturnsFaithful hmac paths redaction) s calls := by
  intro hclaim
  have hrun := hclaim hmac paths redaction {} [(event "root", some .fsyncChain), (event "root", none)]
    ⟨[], trivial, rfl⟩
  obtain ⟨hlate, -⟩ := whole_empty.run_iff.mp hrun
  obtain ⟨hidle, -⟩ := hlate trivial
  rcases hidle with hfault | hfull
  · exact hfault rfl
  · obtain ⟨-, hlog⟩ := @idle_step hmac redaction {} (event "root", some .fsyncChain)
      (Or.inl nofun) rfl
    unfold State.Full at hfull
    rw [hlog] at hfull
    exact absurd hfull (by decide)

end NexusCode.Audit
