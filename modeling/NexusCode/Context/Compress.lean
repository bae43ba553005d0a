/-
  Cutting the middle out of a text that is too large for its share of the context.

  The cut is made by characters, four for a token, while the estimate of a text is a quarter of its
  characters or the number of its words, whichever is more.  So what is left fits only where its
  words are as few as its characters suggest.

  1. `cut_eq`          — what a text is cut to: its first characters, the marker, its last ones.
  2. `estimate_small`  — a target below the marker's own estimate leaves the marker.
  3. **`respects_iff`** — when a compression keeps to its target, does not grow the text and is the
                         same when it is done twice; `wordy` — a text of one-letter words.
-/
import NexusCode.Lib.JsString
import Mathlib.Algebra.Order.Round
import Mathlib.Data.Rat.Floor
import Mathlib.Tactic.Linarith
import Mathlib.Tactic.NormNum

namespace NexusCode.Context

open Lib List

/-! ## The estimate -/

/-- `/\s/` on a code unit. -/
def isWhiteUnit (u : Nat) : Bool := JsString.isWhite (Char.ofNat u)

/-- The number of runs of `\S+`, given whether the unit before was white. -/
def countWords : Bool → List Nat → Nat
  | _, [] => 0
  | afterWhite, u :: us =>
    if isWhiteUnit u then countWords true us
    else (if afterWhite then 1 else 0) + countWords false us

/-- `estimateTokens(text)`; trimming leaves the words as they are. -/
def estimateTokens (text : List Nat) : Nat := max ((text.length + 3) / 4) (countWords true text)

/-- **Words are counted apart** on both sides of white space. -/
theorem countWords_append (afterWhite : Bool) (l r : List Nat) {u : Nat}
    (hu : isWhiteUnit u = true) :
    countWords afterWhite (l ++ u :: r) = countWords afterWhite l + countWords true r := by
  induction l generalizing afterWhite with
  | nil => simp [countWords, hu]
  | cons v l ih =>
    rw [cons_append, countWords, countWords, ih, ih]
    split
    · rfl
    · omega

theorem countWords_le (afterWhite : Bool) (l : List Nat) :
    2 * countWords afterWhite l ≤ l.length + if afterWhite then 1 else 0 := by
  induction l generalizing afterWhite with
  | nil => exact Nat.zero_le _
  | cons v l ih =>
    have hwhite := ih true
    have hblack := ih false
    rw [if_pos rfl] at hwhite
    rw [if_neg Bool.false_ne_true] at hblack
    rw [countWords, length_cons]
    split
    · omega
    · cases afterWhite with
      | true => simp only [if_true]; omega
      | false => simp only [Bool.false_eq_true, if_false]; omega

/-! ## The cut -/

/-- `MARKER`. -/
def marker : List Nat := JsString.units "\n…[truncated]…\n"

/-- `text.slice(start)`. -/
def sliceFrom (text : List Nat) (start : Rat) : List Nat :=
  if start < 0 then text.drop (text.length - ⌊-start⌋).toNat else text.drop ⌊start⌋.toNat

/-- `budgetChars`. -/
def budgetChars (target : Rat) : Rat := max 0 (target * 4 - marker.length)

/-- `headChars`. -/
def headChars (target : Rat) : Nat := ⌈budgetChars target * (3 / 5)⌉₊

/-- `tailChars`. -/
def tailChars (target : Rat) : Rat := budgetChars target - headChars target

/-- `CompressResult`, with the text in code units. -/
structure Truncated where
  text : List Nat
  tokens : Nat
  summarized : Bool

/-- `truncateMiddle(text, targetTokens, estimate)`. -/
def truncateMiddle (text : List Nat) (targetTokens : Rat) (estimate : List Nat → Nat) :
    Truncated :=
  let current := estimate text
  if targetTokens ≤ 0 then { text := [], tokens := 0, summarized := 0 < text.length }
  else if current ≤ targetTokens then { text, tokens := current, summarized := false }
  else
    let head := text.take (headChars targetTokens)
    let tail := if 0 < tailChars targetTokens then
      sliceFrom text (text.length - tailChars targetTokens) else []
    let out := head ++ marker ++ tail
    { text := out, tokens := estimate out, summarized := true }

/-- The characters a cut keeps at the end. -/
def keptTail (text : List Nat) (target : Rat) : List Nat :=
  text.drop (text.length - ⌈tailChars target⌉₊)

variable {text : List Nat} {target : Rat}

theorem marker_length : marker.length = 15 := by decide +kernel

theorem countWords_marker (afterWhite : Bool) (l r : List Nat) :
    countWords afterWhite (l ++ marker ++ r) = countWords afterWhite l + 1 + countWords true r := by
  obtain ⟨middle, hmarker, hone⟩ : ∃ middle, marker = 10 :: middle ++ [10] ∧
      countWords true middle = 1 := ⟨(marker.drop 1).dropLast, by decide +kernel, by decide +kernel⟩
  have hnewline : isWhiteUnit 10 = true := by decide +kernel
  rw [hmarker, append_assoc, cons_append, cons_append, append_assoc,
    countWords_append _ _ _ hnewline, singleton_append, countWords_append _ _ _ hnewline, hone,
    Nat.add_assoc]

theorem estimate_out (head tail : List Nat) : estimateTokens (head ++ marker ++ tail) =
    max ((head.length + 15 + tail.length + 3) / 4)
      (countWords true head + 1 + countWords true tail) := by
  rw [estimateTokens, countWords_marker, length_append, length_append, marker_length]

theorem estimate_marker : estimateTokens marker = 4 := by decide +kernel

theorem estimate_le (text : List Nat) : (estimateTokens text : Rat) ≤ (text.length + 3) / 2 := by
  have hwords := countWords_le true text
  rw [if_pos rfl] at hwords
  have hestimate : 2 * estimateTokens text ≤ text.length + 3 := by
    unfold estimateTokens
    omega
  have hcast : (2 * estimateTokens text : Rat) ≤ text.length + 3 := by exact_mod_cast hestimate
  linarith

/-- **What a text is cut to.** -/
theorem cut_eq (hpos : 0 < target) (hover : target < estimateTokens text) :
    (truncateMiddle text target estimateTokens).text =
      text.take (headChars target) ++ marker ++ keptTail text target := by
  have hhead : budgetChars target * (3 / 5) ≤ headChars target := Nat.le_ceil _
  unfold truncateMiddle
  dsimp only
  rw [if_neg (not_le.mpr hpos), if_neg (not_le.mpr hover)]
  dsimp only
  refine congrArg (text.take (headChars target) ++ marker ++ ·) ?_
  unfold keptTail
  split
  · rename_i htail
    -- the text is longer than the tail
    have hlen : tailChars target ≤ text.length := by
      have hle := estimate_le text
      have hbudget : budgetChars target = target * 4 - 15 := by
        refine max_eq_right_iff.mpr ?_ |>.trans (by rw [marker_length]; norm_num)
        by_contra hneg
        have hzero : budgetChars target = 0 := max_eq_left (not_le.mp hneg).le
        rw [tailChars, hzero] at htail
        have : (0 : Rat) ≤ headChars target := Nat.cast_nonneg _
        linarith
      rw [tailChars]
      linarith
    rw [sliceFrom, if_neg (not_lt.mpr (sub_nonneg.mpr hlen))]
    congr 1
    have hceil : (⌈tailChars target⌉₊ : Int) = ⌈tailChars target⌉ :=
      Int.natCast_ceil_eq_ceil htail.le
    have hfloor : ⌊(text.length : Rat) - tailChars target⌋ =
        (text.length : Int) - ⌈tailChars target⌉ := by
      rw [sub_eq_add_neg, Int.floor_natCast_add, Int.floor_neg, sub_eq_add_neg]
    rw [hfloor, ← hceil]
    omega
  · rename_i htail
    rw [Nat.ceil_eq_zero.mpr (not_lt.mp htail), Nat.sub_zero, drop_length]

/-! ## What a compression should do -/

/-- The result keeps to the target, if the marker does; it is no larger than the text; and it is not
    changed by doing it again. -/
structure Respects (text : List Nat) (target : Rat) : Prop where
  fits : (estimateTokens marker : Rat) ≤ target →
    (estimateTokens (truncateMiddle text target estimateTokens).text : Rat) ≤ target
  shrinks : estimateTokens (truncateMiddle text target estimateTokens).text ≤ estimateTokens text
  stable : (truncateMiddle (truncateMiddle text target estimateTokens).text target
    estimateTokens).text = (truncateMiddle text target estimateTokens).text

/-- What is kept of the text has as few characters and words as the target allows, next to the
    marker. -/
def Sparse (text : List Nat) (target : Rat) : Prop :=
  let head := text.take (headChars target)
  let tail := keptTail text target
  (((head.length + 15 + tail.length + 3) / 4 : Nat) : Rat) ≤ target ∧
    ((countWords true head + 1 + countWords true tail : Nat) : Rat) ≤ target

theorem truncate_of_fits (hpos : 0 < target) (hfits : (estimateTokens text : Rat) ≤ target) :
    (truncateMiddle text target estimateTokens).text = text := by
  unfold truncateMiddle
  dsimp only
  rw [if_neg (not_le.mpr hpos), if_pos hfits]

/-- Below the marker's estimate at most one character is kept. -/
theorem small_cut (hsmall : target < 4) : headChars target ≤ 1 ∧ ⌈tailChars target⌉₊ = 0 := by
  have hbudget : budgetChars target < 1 := by
    refine max_lt one_pos ?_
    rw [marker_length]
    norm_num
    linarith
  have hnonneg : 0 ≤ budgetChars target := le_max_left _ _
  constructor
  · exact Nat.ceil_le.mpr (by norm_num; linarith)
  · refine Nat.ceil_eq_zero.mpr ?_
    rw [tailChars, sub_nonpos]
    rcases hnonneg.eq_or_lt with hzero | hsome
    · rw [← hzero]
      exact Nat.cast_nonneg _
    · have hone : 0 < headChars target := Nat.ceil_pos.mpr (by linarith)
      have hcast : (1 : Rat) ≤ headChars target := by exact_mod_cast hone
      linarith

theorem estimate_small {head : List Nat} (h : head.length ≤ 1) :
    estimateTokens (head ++ marker) = 4 := by
  have hout := estimate_out head []
  rw [append_nil] at hout
  have hwords := countWords_le true head
  rw [if_pos rfl] at hwords
  rw [hout, length_nil, show countWords true [] = 0 from rfl]
  omega

theorem respects_small (hpos : 0 < target) (hover : target < estimateTokens text)
    (hsmall : target < 4) : Respects text target ↔ 4 ≤ estimateTokens text := by
  obtain ⟨hhead, htail⟩ := small_cut hsmall
  have hcut : ∀ l : List Nat, target < estimateTokens l →
      (truncateMiddle l target estimateTokens).text = l.take (headChars target) ++ marker := by
    intro l hl
    rw [cut_eq hpos hl, keptTail, htail, Nat.sub_zero, drop_length, append_nil]
  have hestimate : estimateTokens (text.take (headChars target) ++ marker) = 4 := by
    refine estimate_small ?_
    rw [length_take]
    exact (min_le_left _ _).trans hhead
  constructor
  · intro h
    have hshrinks := h.shrinks
    rwa [hcut text hover, hestimate] at hshrinks
  · intro h
    refine ⟨fun hmarker => ?_, ?_, ?_⟩
    · rw [estimate_marker] at hmarker
      exact absurd hmarker (not_le.mpr hsmall)
    · rw [hcut text hover, hestimate]
      exact h
    · have hagain : target < estimateTokens (text.take (headChars target) ++ marker) := by
        rw [hestimate]
        exact hsmall
      rw [hcut text hover, hcut _ hagain]
      -- the text is not empty, so its first character is the first one again
      have hlen : headChars target ≤ text.length := by
        rcases text with _ | ⟨u, us⟩
        · have hzero : (estimateTokens ([] : List Nat) : Rat) = 0 := rfl
          rw [hzero] at hover
          exact absurd hover (not_lt.mpr hpos.le)
        · exact hhead.trans (Nat.le_add_left 1 _)
      rw [take_append_of_le_length (by rw [length_take]; omega), take_take, min_self]

/-- From the marker's estimate on, it is the words that decide. -/
theorem respects_large (hpos : 0 < target) (hover : target < estimateTokens text)
    (hlarge : 4 ≤ target) : Respects text target ↔ Sparse text target := by
  have hsparse : Sparse text target ↔
      (estimateTokens (truncateMiddle text target estimateTokens).text : Rat) ≤ target := by
    rw [cut_eq hpos hover, estimate_out, Nat.cast_max, max_le_iff]
    rfl
  rw [hsparse]
  constructor
  · intro h
    refine h.fits ?_
    rw [estimate_marker]
    exact hlarge
  · intro hfits
    refine ⟨fun _ => hfits, ?_, truncate_of_fits hpos hfits⟩
    exact_mod_cast (hfits.trans_lt hover).le

/-- **When a compression respects its target**: the text fits already; or the target is below the
    marker's estimate and the text's is not; or what is kept of the text is sparse enough. -/
theorem respects_iff (text : List Nat) (target : Rat) (hpos : 0 < target) :
    Respects text target ↔ (estimateTokens text : Rat) ≤ target ∨
      target < 4 ∧ 4 ≤ estimateTokens text ∨ 4 ≤ target ∧ Sparse text target := by
  rcases le_or_gt (estimateTokens text : Rat) target with hfits | hover
  · have hsame := truncate_of_fits hpos hfits
    refine iff_of_true ⟨fun _ => ?_, ?_, ?_⟩ (.inl hfits)
    · rw [hsame]
      exact hfits
    · rw [hsame]
    · rw [hsame, hsame]
  · rw [or_iff_right (not_le.mpr hover)]
    rcases lt_or_ge target 4 with hsmall | hlarge
    · rw [respects_small hpos hover hsmall, and_iff_right hsmall,
        or_iff_left fun h => not_le.mpr hsmall h.1]
    · rw [respects_large hpos hover hlarge, and_iff_right hlarge,
        or_iff_right fun h => not_le.mpr h.1 hlarge]

/-- A long line without spaces is cut to its target. -/
theorem respects_line : Respects (List.replicate 100 120) 10 :=
  (respects_iff (List.replicate 100 120) 10 (by norm_num)).mpr
    (.inr (.inr ⟨by norm_num, by
      unfold Sparse
      decide +kernel⟩))

/-- **A text of one-letter words** comes out larger than it was. -/
theorem wordy : ¬ ∀ (text : List Nat) (target : Rat), 0 < target → Respects text target := by
  intro h
  have hshrinks := (h (JsString.units "a a a a a a a a a a a") 10 (by norm_num)).shrinks
  revert hshrinks
  decide +kernel

end NexusCode.Context
