/-
  What the checks find in files the log itself wrote.

    1. `readLines_append`   — lines are read one after the other.
    2. `checkFrom_stored`   — records of the log are checked without an exception, and one that is
       out of place is found.
    3. `checkAnchor_own`    — an anchor of the log is read without an exception, and passes only
       for as many records with the same last hash.
-/
import NexusCode.Audit.Entries

namespace NexusCode.Audit

open Lib Shared List Option

/-! ## Reading -/

theorem readLines_append (front back : List (List Char)) : ∀ n : Nat,
    readLines n (front ++ back) =
      { records := (readLines n front).records ++ (readLines (n + front.length) back).records
        malformedLines :=
          (readLines n front).malformedLines ++ (readLines (n + front.length) back).malformedLines } := by
  induction front with
  | nil => exact fun _ => rfl
  | cons line rest ih =>
    intro n
    rw [cons_append, readLines, readLines, ih (n + 1), length_cons,
      show n + 1 + rest.length = n + (rest.length + 1) by omega]
    dsimp only
    split
    · rfl
    · split <;> rfl

theorem readLines_empty (n : Nat) : readLines n [[]] = {} := rfl

variable {hmac : String → String} {redaction : Redaction}

theorem readLines_line (n : Nat) (e : Entry) :
    readLines n [e.line redaction hmac] = { records := [e.stored redaction hmac] } := by
  obtain ⟨inner, hline⟩ := e.line_open redaction hmac
  have hne : (e.line redaction hmac).isEmpty = false := by rw [hline]; rfl
  rw [readLines, readLines]
  dsimp only
  rw [e.trim_line redaction hmac, hne, if_neg Bool.false_ne_true, e.parse_line redaction hmac]

theorem readLines_unreadable (n : Nat) {line : List Char} (h : Unreadable line) :
    readLines n [line] = { malformedLines := [n] } := by
  obtain ⟨hne, hparse⟩ := h
  have hempty : (JsString.trimList line).isEmpty = false := by
    rw [Bool.eq_false_iff, ne_eq, List.isEmpty_iff]
    exact hne
  rw [readLines, readLines]
  dsimp only
  rw [hempty, if_neg Bool.false_ne_true, hparse]

/-- The characters of the chain file; there are none where there is no file. -/
def Disk.text (disk : Disk) : List Char := (disk.file.getD "").toList

theorem Disk.loaded_eq (disk : Disk) : disk.loaded = readLines 1 (lines disk.text) := by
  unfold Disk.loaded Disk.text
  cases disk.file <;> rfl

/-! ## The chain -/

theorem finding_some (test : Bool) (seq : Unknown) (reason : TamperReason) (text : String) :
    ∃ found, finding test seq reason (some text) = some found ∧ (test = false → found ≠ []) := by
  unfold finding
  cases test with
  | true => exact ⟨[], rfl, nofun⟩
  | false => exact ⟨_, rfl, fun _ => cons_ne_nil _ _⟩

theorem recomputed_stored (e : Entry) :
    ∃ hash, recomputed hmac (e.stored redaction hmac) = some hash := by
  obtain ⟨fields, hfields⟩ := e.stored_obj redaction hmac
  have hprev := e.stored_prevHash redaction hmac
  rw [hfields] at hprev ⊢
  have hlookup : (hashable fields).get? "prevHash" = some (.str e.prevHash) :=
    (Json.field?_filter (p := fun k => decide (k ≠ "hash")) (by decide) fields).trans hprev
  show ∃ hash, computeHash hmac (hashable fields) = some hash
  unfold computeHash
  rw [hlookup]
  exact ⟨_, rfl⟩

/-- **A record of the log is checked without an exception**, and its place is. -/
theorem checkRecord_stored (i : Nat) (prev : String) (e : Entry) :
    ∃ found, checkRecord hmac i (some (.str prev)) (e.stored redaction hmac) = some found ∧
      (e.seq ≠ i → found ≠ []) := by
  obtain ⟨fields, hfields⟩ := e.stored_obj redaction hmac
  have hnull : isNull (e.stored redaction hmac) = false := by rw [hfields]; rfl
  obtain ⟨hash, hhash⟩ := recomputed_stored e
  unfold checkRecord
  rw [hnull, e.stored_seq, e.stored_prevHash, hhash]
  dsimp only
  obtain ⟨place, hplace, hwrong⟩ := finding_some
    (strictEq (some (.num (.fin e.seq))) (count i)) (some (.num (.fin e.seq))) .seqMismatch
    ("record at index " ++ toString i ++ " has seq " ++ (Json.num (.fin e.seq)).text)
  obtain ⟨genesis, hgenesis, -⟩ := finding_some
    (i ≠ 0 || strictEq (some (.str e.prevHash)) (some (.str genesisHash)))
    (some (.num (.fin e.seq))) .genesisMismatch
    ("first record prevHash is " ++ e.prevHash ++ ", expected genesis")
  obtain ⟨link, hlink, -⟩ := finding_some (strictEq (some (.str e.prevHash)) (some (.str prev)))
    (some (.num (.fin e.seq))) .prevHashMismatch
    ("prevHash " ++ e.prevHash ++ " does not link to prior hash " ++ prev)
  obtain ⟨changed, hchanged, -⟩ := finding_some
    (strictEq (some (.str hash)) (some (.str (e.hash redaction hmac))))
    (some (.num (.fin e.seq))) .hashMismatch
    ("record content does not match its hash (recomputed " ++ hash ++ ")")
  refine ⟨place ++ genesis ++ link ++ changed, ?_, fun hseq hnil => ?_⟩
  · rw [e.stored_hash]
    refine (congrArg (bind · _) hplace).trans ?_
    refine (congrArg (bind · _) hgenesis).trans ?_
    refine (congrArg (bind · _) hlink).trans ?_
    exact congrArg (bind · _) hchanged
  · have hplace : place = [] := by
      simp only [append_eq_nil_iff] at hnil
      exact hnil.1.1.1
    refine hwrong ?_ hplace
    refine Bool.eq_false_iff.mpr fun heq => hseq ?_
    exact Nat.cast_injective (of_decide_eq_true heq)

/-- **Records of the log are checked without an exception**, and one that is out of place is
    found. -/
theorem checkFrom_stored (es : List Entry) : ∀ (i : Nat) (prev : String),
    ∃ found, checkFrom hmac i (some (.str prev)) (es.map (·.stored redaction hmac)) = some found ∧
      ((∃ j e, es[j]? = some e ∧ e.seq ≠ i + j) → found ≠ []) := by
  induction es with
  | nil =>
    intro i prev
    refine ⟨[], rfl, ?_⟩
    rintro ⟨j, e, he, -⟩
    nomatch he
  | cons e es ih =>
    intro i prev
    obtain ⟨found, hfound, hplace⟩ := checkRecord_stored i prev e
    obtain ⟨more, hmore, hrest⟩ := ih (i + 1) (e.hash redaction hmac)
    refine ⟨found ++ more, ?_, ?_⟩
    · rw [map_cons, checkFrom, hfound, e.stored_hash]
      exact congrArg (bind · fun more => some (found ++ more)) hmore
    · rintro ⟨j, e', he', hseq⟩ hnil
      obtain ⟨hnil, hnil'⟩ := append_eq_nil_iff.mp hnil
      cases j with
      | zero =>
        obtain rfl := some.inj he'
        exact hplace hseq hnil
      | succ j =>
        refine hrest ⟨j, e', he', ?_⟩ hnil'
        omega

/-! ## The anchor -/

/-- The anchor of so many records with such a last hash. -/
def ownAnchor (hmac : String → String) (n : Nat) (head : String) : Json :=
  .obj [("count", .num (.fin n)), ("head", .str head),
    ("sig", .str (hmac ((Json.num (.fin n)).text ++ ":" ++ head)))]

theorem parse_anchorText {n : Nat} (hn : n ≤ maxArrayLength) (head : String) :
    Json.parse (anchorText hmac n head) = some (ownAnchor hmac n head) := by
  have hvalue : (ownAnchor hmac n head).IsValue := by
    refine ⟨by simp, ?_, trivial, trivial, trivial⟩
    refine JsNumber.isDouble_natCast ?_
    unfold maxArrayLength at hn
    omega
  refine (Json.parse_stringify_plain hvalue).trans (congrArg some ?_)
  show Json.obj (Json.enumerate (Json.arrangedFields (Json.plainFields _))) = _
  rw [Json.enumerate_named]
  · rfl
  · have hkeys : ∀ k ∈ ["count", "head", "sig"], Json.arrayIndex? k = none := by decide
    exact hkeys

theorem anchorSigned_own (n : Nat) (head : String) :
    anchorSigned hmac (ownAnchor hmac n head) = some true := by
  have hsigned : anchorSigned hmac (ownAnchor hmac n head) =
      some (hmac ((Json.num (.fin n)).text ++ ":" ++ head) ==
        hmac ((Json.num (.fin n)).text ++ ":" ++ head)) := rfl
  rw [hsigned, beq_self_eq_true]

theorem readAnchor_own {disk : Disk} {n : Nat} {head : String}
    (h : disk.anchor = some (anchorText hmac n head)) (hn : n ≤ maxArrayLength) :
    readAnchor hmac disk = some (ownAnchor hmac n head) := by
  unfold readAnchor
  rw [h]
  simp only [bind_eq_bind, bind_some, parse_anchorText hn, anchorSigned_own]
  rfl

/-- The last hash the anchor should have. -/
def lastHash (records : List Json) : Unknown :=
  match records.getLast? with
  | some r => r.get? "hash"
  | none => some (.str genesisHash)

/-- **An anchor of the log is checked without an exception**, and only as many records with the
    same last hash pass. -/
theorem checkAnchor_own {paths : AuditPaths} {disk : Disk} {n : Nat} {head : String}
    (h : disk.anchor = some (anchorText hmac n head)) (hn : n ≤ maxArrayLength)
    (records : List Json) (fileMissing : Bool) :
    ∃ found, checkAnchor hmac paths disk records fileMissing = some found ∧
      (found = none ↔ n = records.length ∧ lastHash records = some (.str head)) := by
  have hcount : (ownAnchor hmac n head).get? "count" = some (.num (.fin n)) := rfl
  have hhead : (ownAnchor hmac n head).get? "head" = some (.str head) := rfl
  have hnum : strictEq (some (.num (.fin n))) (count records.length) = true ↔
      n = records.length :=
    ⟨fun heq => Nat.cast_injective (of_decide_eq_true heq),
      fun heq => decide_eq_true (congrArg Nat.cast heq)⟩
  unfold checkAnchor
  rw [h]
  dsimp only
  rw [parse_anchorText hn head]
  dsimp only
  rw [anchorSigned_own, hcount, hhead]
  by_cases hsame : n = records.length
  · have htail : strictEq (some (.str head)) (lastHash records) = true ↔
        lastHash records = some (.str head) := by
      cases hlast : lastHash records with
      | none => exact ⟨nofun, nofun⟩
      | some v =>
        cases v with
        | str s =>
          refine ⟨fun heq => ?_, fun heq => ?_⟩
          · rw [of_decide_eq_true heq]
          · rw [Json.str.inj (some.inj heq)]
            exact decide_eq_true rfl
        | _ => exact ⟨nofun, nofun⟩
    rw [hnum.mpr hsame]
    refine ⟨if strictEq (some (.str head)) (lastHash records) then none
      else anchorMismatch (lastSeq records.length)
        "head anchor hash does not match the file's actual tail (rewritten without the key?)", rfl, ?_⟩
    · rw [← htail]
      constructor
      · intro hnone
        refine ⟨hsame, ?_⟩
        by_contra hne
        rw [if_neg hne] at hnone
        nomatch hnone
      · rintro ⟨-, heq⟩
        rw [if_pos heq]
  · have hdiffer : strictEq (some (.num (.fin n))) (count records.length) = false :=
      Bool.eq_false_iff.mpr fun heq => hsame (hnum.mp heq)
    rw [hdiffer]
    exact ⟨anchorMismatch _ _, rfl, nofun, fun heq => absurd heq.1 hsame⟩

end NexusCode.Audit
