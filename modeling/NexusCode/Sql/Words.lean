/-
  Words of an SQL text, and what trimming and lower-casing leave of them.

    1. `leadingWord`, `HoldsWord` — words by the lexical rules.
    2. `hasWord_iff`              — words by the expressions of the source.
    3. **`lowered_trim_lead`**, **`hasWord_of_holds`** — the one are found by the other.
-/
import NexusCode.Sql.Lexical
import Mathlib

namespace NexusCode.Sql

open Lib List Bool

/-! ## Words -/

/-- A character of a word: a letter, digit or one of `_` and `$`; beyond ASCII, anything but white
    space. -/
def isWordChar (c : Char) : Bool :=
  c.isAlphanum || c = '_' || c = '$' || (128 ≤ c.toNat && !JsString.isWhite c)

/-- The word a text starts with. -/
def leadingWord (text : Text) : Text := (text.dropWhile JsString.isWhite).takeWhile isWordChar

/-- What closes the quotes one is in behind a text, if any. -/
def quotesAfter (d : Dialect) : Option Char → Text → Option Char
  | close, [] => close
  | none, c :: cs => quotesAfter d (d.closer c) cs
  | some close, c :: cs => quotesAfter d (if c = close then none else some close) cs

/-- A text holds a word, in whatever case, outside of quotes. -/
def HoldsWord (d : Dialect) (word text : Text) : Prop :=
  ∃ front shown back, text = front ++ shown ++ back ∧ shown.map Char.toLower = word ∧
    quotesAfter d none front = none ∧ (∀ c ∈ front.getLast?, isWordChar c = false) ∧
    ∀ c ∈ back.head?, isWordChar c = false

/-! ## Characters -/

theorem alphanum_iff (c : Char) : c.isAlphanum = true ↔
    ((65 ≤ c.toNat ∧ c.toNat ≤ 90) ∨ (97 ≤ c.toNat ∧ c.toNat ≤ 122)) ∨
      (48 ≤ c.toNat ∧ c.toNat ≤ 57) := by
  simp only [Char.isAlphanum, Char.isAlpha, Char.isUpper, Char.isLower, Char.isDigit,
    or_eq_true, and_eq_true, decide_eq_true_eq, UInt32.le_iff_toNat_le, ge_iff_le]
  exact Iff.rfl

variable {c : Char}

theorem not_white_of_word (h : isWordChar c = true) : JsString.isWhite c = false := by
  unfold isWordChar at h
  simp only [or_eq_true, and_eq_true, decide_eq_true_eq, alphanum_iff,
    not_eq_true'] at h
  rcases h with ((h | rfl) | rfl) | h
  · simp [JsString.isWhite]
    omega
  · decide
  · decide
  · exact h.2

theorem toLower_of_not_upper (h : ¬ c.isUpper = true) : c.toLower = c := by
  unfold Char.toLower
  refine dif_neg fun hupper => h ?_
  simpa [Char.isUpper] using hupper

theorem lowerChar_of_not_word (h : isWordChar c = false) : lowerChar c = [c] := by
  have hupper : ¬ c.isUpper = true := by
    intro hupper
    have hword : isWordChar c = true := by
      simp [isWordChar, Char.isAlphanum, Char.isAlpha, hupper]
    rw [h] at hword
    cases hword
  unfold lowerChar
  rw [if_neg, if_neg, toLower_of_not_upper hupper]
  · rintro rfl
    exact absurd h (by decide)
  · rintro rfl
    exact absurd h (by decide)

theorem not_regexWord (h : isWordChar c = false) : isRegexWord c = false := by
  unfold isWordChar at h
  simp only [or_eq_false_iff] at h
  unfold isRegexWord
  rw [h.1.1.1, h.1.1.2]
  rfl

theorem letter_regexWord (h : isLetter c = true) : isRegexWord c = true := by
  unfold isLetter at h
  unfold isRegexWord
  rcases or_eq_true_iff.mp h with hlower | hunder
  · simp [Char.isAlphanum, Char.isAlpha, hlower]
  · rw [hunder, Bool.or_true]

theorem not_letter (h : isWordChar c = false) : isLetter c = false := by
  cases hletter : isLetter c with
  | false => rfl
  | true => exact absurd (letter_regexWord hletter) (by rw [not_regexWord h]; exact Bool.false_ne_true)

theorem word_of_isLower (h : c.toLower.isLower = true) : isWordChar c = true := by
  by_cases hupper : c.isUpper = true
  · simp [isWordChar, Char.isAlphanum, Char.isAlpha, hupper]
  · rw [toLower_of_not_upper hupper] at h
    simp [isWordChar, Char.isAlphanum, Char.isAlpha, h]

theorem lowerChar_of_isLower (h : c.toLower.isLower = true) :
    lowerChar c = [c.toLower] := by
  unfold lowerChar
  rw [if_neg, if_neg]
  · rintro rfl
    exact absurd h (by decide)
  · rintro rfl
    exact absurd h (by decide)

variable {back : Text}

theorem head?_lowered (h : ∀ c ∈ back.head?, isWordChar c = false) :
    (lowered back).head? = back.head? := by
  cases back with
  | nil => rfl
  | cons c cs =>
    show (lowerChar c ++ lowered cs).head? = _
    rw [lowerChar_of_not_word (h c rfl)]
    rfl

/-- What is in front of a word stays in front of it in lower case. -/
theorem getLast?_lowered {front : Text} (h : ∀ c ∈ front.getLast?, isWordChar c = false) :
    (lowered front).getLast? = front.getLast? := by
  cases hlast : front.getLast? with
  | none =>
    obtain rfl := List.getLast?_eq_none_iff.mp hlast
    rfl
  | some c =>
    obtain ⟨init, rfl⟩ := List.getLast?_eq_some_iff.mp hlast
    have hc := lowerChar_of_not_word (h c hlast)
    show ((init ++ [c]).flatMap lowerChar).getLast? = _
    rw [flatMap_append, flatMap_singleton, hc, List.getLast?_concat]

/-! ## Trimming -/

theorem rdropWhile_append {front : Text} (h : ∀ c ∈ front.getLast?, JsString.isWhite c = false) :
    (front ++ back).rdropWhile JsString.isWhite = front ++ back.rdropWhile JsString.isWhite := by
  induction back using List.reverseRecOn with
  | nil =>
    rw [append_nil, rdropWhile_nil, append_nil]
    refine rdropWhile_eq_self_iff.mpr fun hne => ?_
    rw [h _ (List.getLast?_eq_some_getLast hne)]
    exact Bool.false_ne_true
  | append_singleton back c ih =>
    rw [← append_assoc]
    by_cases hc : JsString.isWhite c = true
    · rw [rdropWhile_concat_pos _ _ _ hc, rdropWhile_concat_pos _ _ _ hc, ih]
    · rw [rdropWhile_concat_neg _ _ _ hc, rdropWhile_concat_neg _ _ _ hc,
        append_assoc]

theorem head?_rdropWhile
    (h : c ∈ (back.rdropWhile JsString.isWhite).head?) : c ∈ back.head? := by
  obtain ⟨rest, hrest⟩ := rdropWhile_prefix JsString.isWhite back
  rw [← hrest]
  exact mem_head?_append_of_mem_head? h

theorem dropWhile_append {front : Text} (h : ∀ c ∈ back.head?, JsString.isWhite c = false) :
    (front ++ back).dropWhile JsString.isWhite = front.dropWhile JsString.isWhite ++ back := by
  induction front with
  | nil =>
    cases back with
    | nil => rfl
    | cons c cs => exact dropWhile_cons_of_neg (by rw [h c rfl]; exact Bool.false_ne_true)
  | cons c cs ih =>
    by_cases hc : JsString.isWhite c = true
    · rw [cons_append, dropWhile_cons_of_pos hc, dropWhile_cons_of_pos hc, ih]
    · rw [cons_append, dropWhile_cons_of_neg hc, dropWhile_cons_of_neg hc,
        cons_append]

/-- **The leading word** is still in front after trimming and lower-casing. -/
theorem lowered_trim_lead (text : Text) : ∃ back,
    lowered (JsString.trimList text) = lowered (leadingWord text) ++ back ∧
      ∀ c ∈ back.head?, isWordChar c = false := by
  have hsplit : text.dropWhile JsString.isWhite =
      leadingWord text ++ (text.dropWhile JsString.isWhite).dropWhile isWordChar :=
    takeWhile_append_dropWhile.symm
  have hword : ∀ c ∈ (leadingWord text).getLast?, JsString.isWhite c = false := by
    intro c hc
    exact not_white_of_word (mem_takeWhile_imp (mem_of_getLast? hc))
  have hback : ∀ c ∈ (((text.dropWhile JsString.isWhite).dropWhile isWordChar).rdropWhile
      JsString.isWhite).head?, isWordChar c = false := by
    intro c hc
    have hhead := head?_rdropWhile hc
    cases hrest : (text.dropWhile JsString.isWhite).dropWhile isWordChar with
    | nil =>
      rw [hrest] at hhead
      nomatch hhead
    | cons c' cs =>
      rw [hrest] at hhead
      obtain rfl := Option.some.inj hhead
      have hnot := List.head?_dropWhile_not isWordChar (text.dropWhile JsString.isWhite)
      rw [hrest] at hnot
      simpa using hnot
  refine ⟨lowered (((text.dropWhile JsString.isWhite).dropWhile isWordChar).rdropWhile
    JsString.isWhite), ?_, ?_⟩
  · have htrim : JsString.trimList text = leadingWord text ++
        ((text.dropWhile JsString.isWhite).dropWhile isWordChar).rdropWhile JsString.isWhite := by
      unfold JsString.trimList
      conv_lhs => rw [hsplit]
      exact rdropWhile_append hword
    rw [htrim]
    exact flatMap_append
  · rw [head?_lowered hback]
    exact hback

/-! ## Words by the expressions of the source -/

/-- A word is found where it stands between characters that are no part of one. -/
theorem hasWord_iff {word : Text} (hword : word ≠ []) : ∀ {s : Text} {behind : Bool},
    hasWord word behind s = true ↔ ∃ front back, s = front ++ word ++ back ∧
      (front.getLast?.map isRegexWord).getD behind = false ∧
      ∀ c ∈ back.head?, isRegexWord c = false
  | [], behind => by
    constructor
    · intro h
      nomatch h
    · rintro ⟨front, back, h, -⟩
      have hnil := append_eq_nil_iff.mp h.symm
      exact absurd (append_eq_nil_iff.mp hnil.1).2 hword
  | c :: cs, behind => by
    rw [hasWord, or_eq_true, hasWord_iff hword]
    constructor
    · rintro (h | ⟨front, back, rfl, hfront, hback⟩)
      · simp only [and_eq_true, not_eq_true', isPrefixOf_iff_prefix] at h
        obtain ⟨⟨hbehind, ⟨back, hsplit⟩⟩, hback⟩ := h
        refine ⟨[], back, hsplit.symm, hbehind, fun c' hc' => ?_⟩
        rw [← hsplit, drop_left] at hback
        rw [Option.mem_def.mp hc'] at hback
        exact hback
      · refine ⟨c :: front, back, rfl, ?_, hback⟩
        rw [List.getLast?_cons]
        cases hlast : front.getLast? with
        | none =>
          rw [hlast] at hfront
          exact hfront
        | some c' =>
          rw [hlast] at hfront
          exact hfront
    · rintro ⟨front, back, hsplit, hfront, hback⟩
      cases front with
      | nil =>
        left
        have hsplit : c :: cs = word ++ back := hsplit
        simp only [and_eq_true, not_eq_true', isPrefixOf_iff_prefix]
        refine ⟨⟨hfront, hsplit ▸ prefix_append _ _⟩, ?_⟩
        rw [hsplit, drop_left]
        cases hhead : back.head? with
        | none => rfl
        | some c' => exact hback c' hhead
      | cons c' front =>
        right
        obtain ⟨rfl, rfl⟩ := cons.inj hsplit
        refine ⟨front, back, rfl, ?_, hback⟩
        rw [List.getLast?_cons] at hfront
        cases hlast : front.getLast? with
        | none =>
          rw [hlast] at hfront
          exact hfront
        | some c'' =>
          rw [hlast] at hfront
          exact hfront

/-- **A keyword outside of quotes** is found after trimming and lower-casing. -/
theorem hasWord_of_holds {d : Dialect} {word text : Text} (hword : word ≠ [])
    (hlower : ∀ c ∈ word, c.isLower = true) (h : HoldsWord d word text) :
    hasWord word false (lowered (JsString.trimList text)) = true := by
  obtain ⟨front, shown, back, rfl, rfl, -, hfront, hback⟩ := h
  have hne : shown ≠ [] := fun h => hword (by rw [h]; rfl)
  have hletter : ∀ c ∈ shown, c.toLower.isLower = true :=
    fun c hc => hlower c.toLower (mem_map_of_mem hc)
  have hsolid : ∀ c ∈ shown, JsString.isWhite c = false :=
    fun c hc => not_white_of_word (word_of_isLower (hletter c hc))
  -- trimming takes away from both ends only
  have htrim : JsString.trimList (front ++ shown ++ back) =
      front.dropWhile JsString.isWhite ++ shown ++ back.rdropWhile JsString.isWhite := by
    unfold JsString.trimList
    rw [append_assoc, dropWhile_append, ← append_assoc, rdropWhile_append]
    · intro c hc
      rw [List.getLast?_append_of_ne_nil _ hne] at hc
      exact hsolid c (mem_of_getLast? hc)
    · intro c hc
      rw [List.head?_append_of_ne_nil _ hne] at hc
      exact hsolid c (mem_of_head? hc)
  have hshown : lowered shown = shown.map Char.toLower := by
    unfold lowered
    rw [← flatMap_singleton' (shown.map Char.toLower), flatMap_map]
    exact flatMap_congr fun c hc => lowerChar_of_isLower (hletter c hc)
  have hlast : ∀ c ∈ (front.dropWhile JsString.isWhite).getLast?, isWordChar c = false := by
    intro c hc
    obtain ⟨skipped, hskipped⟩ := dropWhile_suffix (l := front) JsString.isWhite
    rw [← hskipped] at hfront
    refine hfront c ?_
    have hnil : front.dropWhile JsString.isWhite ≠ [] := by
      intro h
      rw [h] at hc
      nomatch hc
    rw [List.getLast?_append_of_ne_nil _ hnil]
    exact hc
  have hhead : ∀ c ∈ (back.rdropWhile JsString.isWhite).head?, isWordChar c = false :=
    fun c hc => hback c (head?_rdropWhile hc)
  refine (hasWord_iff hword).mpr ⟨lowered (front.dropWhile JsString.isWhite),
    lowered (back.rdropWhile JsString.isWhite), ?_, ?_, ?_⟩
  · rw [htrim, ← hshown]
    unfold lowered
    rw [flatMap_append, flatMap_append]
  · rw [getLast?_lowered hlast]
    cases h : (front.dropWhile JsString.isWhite).getLast? with
    | none => rfl
    | some c => exact not_regexWord (hlast c h)
  · rw [head?_lowered hhead]
    exact fun c hc => not_regexWord (hhead c hc)

end NexusCode.Sql
