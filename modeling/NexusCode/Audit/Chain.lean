/-
  What one process after the other writes is verified.

    1. `Chained`           — records that follow one another.
    2. `checkFrom_own`     — such records pass every check, so `verifyFile_own` finds nothing.
    3. `Recorded`          — the file holds such records, and the log knows them; it stays so when a
       process starts (`Recorded.restart`) and when an event is appended (`Recorded.append`).
    4. **`Intact.whole`**  — so the files of one process after the other are whole, and
       **`run_verifies`**.

  The anchor is not part of `Recorded`: it can be anything, or frozen.
-/
import NexusCode.Audit.Canonical

namespace NexusCode.Audit

open Lib Shared List Option

/-! ## Chains -/

section Chained

variable (redaction : Redaction) (hmac : String → String)

/-- The entries follow one another from the `i`-th place on, behind one with the hash `prev`. -/
def Chained : Nat → String → List Entry → Prop
  | _, _, [] => True
  | i, prev, e :: es => e.seq = i ∧ e.prevHash = prev ∧ Chained (i + 1) (e.hash redaction hmac) es

/-- The hash of the last entry. -/
def headFrom (prev : String) (es : List Entry) : String :=
  (es.getLast?.map (·.hash redaction hmac)).getD prev

end Chained

variable {hmac : String → String} {redaction : Redaction} {paths : AuditPaths}

@[simp] theorem headFrom_concat (prev : String) (es : List Entry) (e : Entry) :
    headFrom redaction hmac prev (es ++ [e]) = e.hash redaction hmac := by
  unfold headFrom
  rw [List.getLast?_concat]
  rfl

theorem headFrom_cons (prev : String) (e : Entry) (es : List Entry) :
    headFrom redaction hmac prev (e :: es) =
      headFrom redaction hmac (e.hash redaction hmac) es := by
  unfold headFrom
  cases es with
  | nil => rfl
  | cons e' es =>
    rw [List.getLast?_cons_cons, List.getLast?_eq_some_getLast (cons_ne_nil e' es)]
    rfl

variable {es : List Entry}

/-- An entry that follows the last one goes on with the chain. -/
theorem chained_concat {e : Entry} : ∀ {i : Nat} {prev : String},
    Chained redaction hmac i prev es → e.seq = i + es.length →
      e.prevHash = headFrom redaction hmac prev es → Chained redaction hmac i prev (es ++ [e]) := by
  induction es with
  | nil => exact fun _ hseq hprev => ⟨hseq, hprev, trivial⟩
  | cons e' es ih =>
    rintro i prev ⟨hseq', hprev', hrest⟩ hseq hprev
    refine ⟨hseq', hprev', ih hrest ?_ ?_⟩
    · rw [length_cons] at hseq
      omega
    · rw [← headFrom_cons]
      exact hprev

/-! ## Checking them -/

theorem strictEq_self_num (q : ℚ) :
    strictEq (some (.num (.fin q))) (some (.num (.fin q))) = true := beq_self_eq_true q

theorem strictEq_self_str (s : String) : strictEq (some (.str s)) (some (.str s)) = true :=
  beq_self_eq_true s

theorem finding_true (seq : Unknown) (reason : TamperReason) (detail : Option String) :
    finding true seq reason detail = some [] := rfl

/-- **A record in its place passes.** -/
theorem checkRecord_own {i : Nat} {prev : String} {e : Entry} (hseq : e.seq = i)
    (hprev : e.prevHash = prev) (hfirst : i = 0 → prev = genesisHash) :
    checkRecord hmac i (some (.str prev)) (e.stored redaction hmac) = some [] := by
  have hnull : isNull (e.stored redaction hmac) = false := by
    obtain ⟨fields, hfields⟩ := e.stored_obj redaction hmac
    rw [hfields]
    rfl
  have hgenesis : (i ≠ 0 || strictEq (some (.str prev)) (some (.str genesisHash))) = true := by
    by_cases hi : i = 0
    · rw [hfirst hi, strictEq_self_str, Bool.or_true]
    · rw [decide_eq_true hi, Bool.true_or]
  unfold checkRecord
  rw [hnull, e.stored_seq, e.stored_prevHash, recomputed_own, e.stored_hash, hseq, hprev]
  dsimp only
  rw [hgenesis, count, strictEq_self_num, strictEq_self_str, finding_true, finding_true,
    finding_true]
  show (finding (strictEq (some (.str (e.hash redaction hmac))) _) _ _ _).bind _ = some []
  rw [strictEq_self_str, finding_true]
  rfl

/-- **Records that follow one another pass.** -/
theorem checkFrom_own : ∀ {i : Nat} {prev : String},
    Chained redaction hmac i prev es → (i = 0 → prev = genesisHash) →
      checkFrom hmac i (some (.str prev)) (es.map (·.stored redaction hmac)) = some [] := by
  induction es with
  | nil => exact fun _ _ => rfl
  | cons e es ih =>
    rintro i prev ⟨hseq, hprev, hrest⟩ hfirst
    rw [map_cons, checkFrom, checkRecord_own hseq hprev hfirst, e.stored_hash]
    show (checkFrom hmac (i + 1) _ _).bind _ = some []
    rw [ih hrest (fun hi => absurd hi (Nat.succ_ne_zero i))]
    rfl

theorem lastHash_stored (es : List Entry) : lastHash (es.map (·.stored redaction hmac)) =
    some (.str (headFrom redaction hmac genesisHash es)) := by
  unfold lastHash headFrom
  rw [List.getLast?_map]
  cases es.getLast? with
  | none => rfl
  | some e => exact e.stored_hash redaction hmac

/-! ## Reading them -/

/-- The lines of the entries. -/
def textOf (redaction : Redaction) (hmac : String → String) (es : List Entry) : List Char :=
  es.flatMap fun e => e.line redaction hmac ++ ['\n']

theorem lines_entries (es : List Entry) :
    lines (textOf redaction hmac es) = es.map (·.line redaction hmac) ++ [[]] := by
  induction es with
  | nil => rfl
  | cons e es ih =>
    unfold textOf at ih ⊢
    rw [flatMap_cons, append_assoc, singleton_append, lines_append,
      lines_of_notMem (e.newline_notMem_line redaction hmac), ih]
    rfl

theorem readLines_entries (es : List Entry) : ∀ n,
    readLines n (es.map (·.line redaction hmac)) =
      { records := es.map (·.stored redaction hmac) } := by
  induction es with
  | nil => exact fun _ => rfl
  | cons e es ih =>
    intro n
    have hcons := readLines_append [e.line redaction hmac] (es.map (·.line redaction hmac)) n
    rw [ih, readLines_line] at hcons
    exact hcons

variable {disk : Disk}

/-- **The lines of the entries read back.** -/
theorem loaded_entries (h : disk.text = textOf redaction hmac es) :
    disk.loaded = { records := es.map (·.stored redaction hmac) } := by
  rw [disk.loaded_eq, h, lines_entries, readLines_append, readLines_entries, readLines_empty]
  simp only [append_nil]

/-- The anchor is the one for the entries. -/
def AnchorOf (redaction : Redaction) (hmac : String → String) (es : List Entry) (disk : Disk) :
    Prop :=
  es = [] ∧ disk.anchor = none ∨
    disk.anchor = some (anchorText hmac es.length (headFrom redaction hmac genesisHash es))

/-- **Nothing is found in them.** -/
theorem verifyFile_own (paths : AuditPaths)
    (htext : disk.text = textOf redaction hmac es) (hchained : Chained redaction hmac 0 genesisHash es)
    (hanchor : AnchorOf redaction hmac es disk) (hrange : es.length ≤ maxArrayLength) :
    verifyFile hmac paths disk = some { ok := true, count := es.length, tampered := [] } := by
  have hloaded := loaded_entries htext
  have hcheck : checkAnchor hmac paths disk disk.loaded.records disk.file.isNone = some none := by
    rcases hanchor with ⟨rfl, hnone⟩ | hsome
    · rw [hloaded]
      unfold checkAnchor
      rw [hnone]
      rfl
    · obtain ⟨found, hfound, hpass⟩ :=
        checkAnchor_own hsome hrange disk.loaded.records disk.file.isNone
      rw [hpass.mpr ⟨by rw [hloaded, length_map], by rw [hloaded, lastHash_stored]⟩] at hfound
      exact hfound
  unfold verifyFile verifyChain
  dsimp only
  rw [hcheck, hloaded, checkFrom_own hchained fun _ => rfl]
  dsimp only [map_some, bind_eq_bind, bind_some]
  rw [length_map]
  rfl

/-! ## The log of a process -/

/-- The disk after an entry was appended, whatever becomes of the anchor. -/
theorem text_append {anchor : Option String} (e : Entry) :
    Disk.text { file := some (disk.file.getD "" ++ (e.json redaction hmac).stringify ++ "\n"),
                anchor } =
      disk.text ++ (e.line redaction hmac ++ ['\n']) := by
  show (disk.file.getD "" ++ String.ofList (e.line redaction hmac) ++ "\n").toList = _
  rw [String.toList_append, String.toList_append, String.toList_ofList, append_assoc]
  rfl

theorem append_cases {log log' : AuditLog} {disk' : Disk} {event : AuditEvent} {record : Json}
    (h : append hmac redaction log disk event = (some record, log', disk')) :
    ∃ e : Entry, e.seq = log.records.length ∧ log.headHash = some (.str e.prevHash) ∧
      e.event = event ∧ record = e.json redaction hmac ∧
      log.record hmac redaction event = some (record, e.hash redaction hmac) ∧
      log' = { log with records := log.records ++ [record] } ∧
      disk' = persist hmac log disk record (e.hash redaction hmac) := by
  unfold append at h
  split at h
  · nomatch (Prod.mk.inj h).1
  · rename_i record' hash hrecord
    dsimp only at h
    split at h
    · rename_i hrange
      obtain ⟨e, hseq, hhead, hevent, hjson, rfl⟩ := exists_entry hrecord hrange
      obtain ⟨hcommitted, hlog, hdisk⟩ : some record' = some record ∧ _ = log' ∧ _ = disk' :=
        ⟨(Prod.mk.inj h).1, (Prod.mk.inj (Prod.mk.inj h).2).1, (Prod.mk.inj (Prod.mk.inj h).2).2⟩
      obtain rfl := some.inj hcommitted
      exact ⟨e, hseq, hhead, hevent, hjson, hrecord, hlog.symm, hdisk.symm⟩
    · nomatch (Prod.mk.inj h).1

/-- The call does not throw. -/
def Succeeds (hmac : String → String) (redaction : Redaction) (s : State) : Call → Prop
  | .append event => (append hmac redaction s.log s.disk event).1.isSome
  | _ => True

/-- The record is the entry, as it was appended or as it was read back. -/
def IsRecord (redaction : Redaction) (hmac : String → String) (r : Json) (e : Entry) : Prop :=
  r = e.json redaction hmac ∨ r = e.stored redaction hmac

/-- The chain file holds the entries, and so does the log. -/
structure Recorded (hmac : String → String) (redaction : Redaction) (es : List Entry) (s : State) :
    Prop where
  text : s.disk.text = textOf redaction hmac es
  chained : Chained redaction hmac 0 genesisHash es
  records : List.Forall₂ (IsRecord redaction hmac) s.log.records es
  inRange : es.length ≤ maxArrayLength

namespace Recorded

variable {es : List Entry} {s : State}

theorem length_records (h : Recorded hmac redaction es s) : s.log.records.length = es.length :=
  h.records.length_eq

theorem loaded (h : Recorded hmac redaction es s) :
    s.disk.loaded = { records := es.map (·.stored redaction hmac) } := loaded_entries h.text

theorem headHash (h : Recorded hmac redaction es s) :
    s.log.headHash = some (.str (headFrom redaction hmac genesisHash es)) := by
  have hrecords := forall₂_reverse_iff.mpr h.records
  unfold AuditLog.headHash headFrom
  rw [List.getLast?_eq_head?_reverse, List.getLast?_eq_head?_reverse]
  generalize s.log.records.reverse = rs, es.reverse = es' at hrecords
  cases hrecords with
  | nil => rfl
  | @cons r e _ _ hr =>
    rcases hr with rfl | rfl
    · exact (e.get?_json redaction hmac).mpr (mem_append_right _ (mem_singleton_self _))
    · exact e.stored_hash redaction hmac

/-- An append succeeds as long as there is room in the array, whatever became of the files. -/
theorem succeeds_on (h : Recorded hmac redaction es s) (hroom : es.length < maxArrayLength)
    (event : AuditEvent) (disk : Disk) :
    Succeeds hmac redaction { s with disk } (.append event) := by
  have hrange : s.log.records.length < maxArrayLength := by
    rw [h.length_records]
    exact hroom
  obtain ⟨e, -, -, hrecord⟩ := @record_linked redaction hmac _ _ h.headHash hrange event
  show (Audit.append hmac redaction s.log disk event).1.isSome
  unfold Audit.append
  rw [hrecord]
  dsimp only
  rw [if_pos hrange]
  rfl

theorem succeeds (h : Recorded hmac redaction es s) (hroom : es.length < maxArrayLength)
    (event : AuditEvent) : Succeeds hmac redaction s (.append event) :=
  h.succeeds_on hroom event s.disk

/-- **A process that starts** reads the entries, whatever the anchor says. -/
theorem restart (h : Recorded hmac redaction es s) :
    Recorded hmac redaction es { s with log := AuditLog.load hmac s.disk } where
  text := h.text
  chained := h.chained
  records := by
    show List.Forall₂ _ s.disk.loaded.records es
    rw [h.loaded, forall₂_map_left_iff]
    exact forall₂_same.mpr fun _ _ => .inr rfl
  inRange := h.inRange

/-- **An append** adds its entry; the anchor is signed for it, unless it is frozen. -/
theorem append (paths : AuditPaths) {event : AuditEvent} (h : Recorded hmac redaction es s)
    (hok : Succeeds hmac redaction s (.append event)) :
    ∃ e s', ((auditMachine hmac paths redaction).step s (.append event)).2 = s' ∧
      Recorded hmac redaction (es ++ [e]) s' ∧ s'.log.anchorFrozen = s.log.anchorFrozen ∧
      s'.disk.anchor = if s.log.anchorFrozen then s.disk.anchor
        else some (anchorText hmac (es ++ [e]).length
          (headFrom redaction hmac genesisHash (es ++ [e]))) := by
  obtain ⟨record, hrecord⟩ := isSome_iff_exists.mp hok
  obtain ⟨e, hseq, hhead, -, hjson, hbuilt, hlog, hdisk⟩ := append_cases (Prod.ext hrecord rfl)
  subst hjson
  rw [h.length_records] at hseq
  have hprev : e.prevHash = headFrom redaction hmac genesisHash es := by
    rw [h.headHash] at hhead
    exact (Json.str.inj (some.inj hhead)).symm
  refine ⟨e, ⟨(Audit.append hmac redaction s.log s.disk event).2.1,
    (Audit.append hmac redaction s.log s.disk event).2.2⟩, rfl, ⟨?_, ?_, ?_, ?_⟩, ?_, ?_⟩
  · show (Audit.append hmac redaction s.log s.disk event).2.2.text = _
    rw [hdisk]
    refine (text_append e).trans ?_
    rw [h.text]
    unfold textOf
    rw [flatMap_append, flatMap_singleton]
  · refine chained_concat h.chained ?_ hprev
    rw [hseq, Nat.zero_add]
  · show List.Forall₂ _ (Audit.append hmac redaction s.log s.disk event).2.1.records _
    rw [hlog]
    exact rel_append h.records (List.Forall₂.cons (Or.inl rfl) List.Forall₂.nil)
  · have hrange := e.inRange
    rw [hseq] at hrange
    rw [length_append, length_singleton]
    exact hrange
  · show (Audit.append hmac redaction s.log s.disk event).2.1.anchorFrozen = _
    rw [hlog]
  · show (Audit.append hmac redaction s.log s.disk event).2.2.anchor = _
    rw [hdisk, headFrom_concat, length_append, length_singleton, ← h.length_records]
    rfl

end Recorded

/-! ## One process after the other -/

/-- The files are whole: they hold the entries, and the anchor is theirs. -/
structure Whole (hmac : String → String) (redaction : Redaction) (es : List Entry) (s : State) :
    Prop extends Recorded hmac redaction es s where
  anchor : AnchorOf redaction hmac es s.disk
  unfrozen : s.log.anchorFrozen = false

/-- A process that starts freezes an anchor of the log for more records than it reads. -/
theorem load_frozen {n : Nat} {head : String}
    (h : disk.anchor = some (anchorText hmac n head)) (hn : n ≤ maxArrayLength) :
    (AuditLog.load hmac disk).anchorFrozen = decide (disk.loaded.records.length < n) := by
  unfold AuditLog.load
  rw [readAnchor_own h hn]
  exact decide_eq_decide.mpr Nat.cast_lt

theorem load_unfrozen (htext : disk.text = textOf redaction hmac es)
    (hanchor : AnchorOf redaction hmac es disk) (hrange : es.length ≤ maxArrayLength) :
    (AuditLog.load hmac disk).anchorFrozen = false := by
  rcases hanchor with ⟨-, hnone⟩ | hsome
  · unfold AuditLog.load readAnchor
    rw [hnone]
    rfl
  · rw [load_frozen hsome hrange, loaded_entries htext, length_map]
    exact decide_eq_false (lt_irrefl _)

namespace Whole

variable {es : List Entry} {s : State}

theorem verified (h : Whole hmac redaction es s) : verifyFile hmac paths s.disk =
    some { ok := true, count := es.length, tampered := [] } :=
  verifyFile_own paths h.text h.chained h.anchor h.inRange

theorem restarted (h : Whole hmac redaction es s) :
    Whole hmac redaction es { s with log := AuditLog.load hmac s.disk } where
  toRecorded := h.restart
  anchor := h.anchor
  unfrozen := load_unfrozen h.text h.anchor h.inRange

/-- **An append to whole files leaves them whole.** -/
theorem appended {event : AuditEvent} (h : Whole hmac redaction es s)
    (hok : Succeeds hmac redaction s (.append event)) :
    ∃ e, Whole hmac redaction (es ++ [e])
      ((auditMachine hmac paths redaction).step s (.append event)).2 := by
  obtain ⟨e, s', rfl, hs', hfrozen, hanchor⟩ := h.append paths hok
  refine ⟨e, hs', .inr ?_, hfrozen.trans h.unfrozen⟩
  rw [hanchor, h.unfrozen]
  rfl

end Whole

theorem whole_empty : Whole hmac redaction [] {} :=
  ⟨⟨rfl, trivial, List.Forall₂.nil, Nat.zero_le _⟩, .inl ⟨rfl, rfl⟩, rfl⟩

/-- The files are those of one process after the other, where every append succeeded. -/
def Intact (hmac : String → String) (paths : AuditPaths) (redaction : Redaction) (s : State) :
    Prop :=
  ∃ calls, (auditMachine hmac paths redaction).Always (Succeeds hmac redaction) {} calls ∧
    (auditMachine hmac paths redaction).run {} calls = s

/-- **The files of one process after the other are whole.** -/
theorem Intact.whole {s : State} (h : Intact hmac paths redaction s) :
    ∃ es, Whole hmac redaction es s := by
  obtain ⟨calls, hok, rfl⟩ := h
  refine Machine.Always.invariant (I := fun s => ∃ es, Whole hmac redaction es s) ?_ hok
    ⟨[], whole_empty⟩
  rintro s call ⟨es, hes⟩ hcall
  cases call with
  | restart => exact ⟨es, hes.restarted⟩
  | append event =>
    obtain ⟨e, he⟩ := hes.appended hcall
    exact ⟨_, he⟩
  | verifyFile => exact ⟨es, hes⟩

/-- The event a call appends. -/
def Call.event? : Call → Option AuditEvent
  | .append event => some event
  | _ => none

/-- **Every log verifies**, in whatever order its processes start, append and verify, as long as its
    records fit in an array. -/
theorem run_verifies (calls : List Call) (hroom : calls.length ≤ maxArrayLength) :
    verifyFile hmac paths ((auditMachine hmac paths redaction).run {} calls).disk =
      some { ok := true, count := (calls.filterMap Call.event?).length, tampered := [] } := by
  suffices h : ∃ es, es.length = (calls.filterMap Call.event?).length ∧
      Whole hmac redaction es ((auditMachine hmac paths redaction).run {} calls) by
    obtain ⟨es, hlength, hes⟩ := h
    rw [hes.verified, hlength]
  induction calls using reverseRecOn with
  | nil => exact ⟨[], rfl, whole_empty⟩
  | append_singleton calls call ih =>
    rw [length_append, length_singleton] at hroom
    obtain ⟨es, hlength, hes⟩ := ih (by omega)
    rw [Machine.run_append, filterMap_append, length_append, ← hlength]
    cases call with
    | restart => exact ⟨es, rfl, hes.restarted⟩
    | append event =>
      have hfits := length_filterMap_le Call.event? calls
      obtain ⟨e, he⟩ := hes.appended (hes.succeeds (by omega) event)
      exact ⟨es ++ [e], length_append, he⟩
    | verifyFile => exact ⟨es, rfl, hes⟩

end NexusCode.Audit
