/-
  The verdict an evaluation turn answers with.

  `parseVerdict` searches the answer for `/NEXUS_GOAL_VERDICT:\s*(MET|NOT_MET)\b/g` and accepts it
  only if exactly one of the two verdicts is found.

    1. `verdictAt`, `scan`   — the pattern at one place, and the search, which resumes behind each
                               match.
    2. `scan_eq`             — no match begins inside another, so the search finds every one.
    3. `Names`, `mem_found`  — what the pattern means, in terms of the text alone.
    4. **`parseVerdict_met`** — `met` is answered exactly for a text that names `MET` and not
                               `NOT_MET`.
-/
import NexusCode.Lib.Regex
import Mathlib.Data.List.Infix

namespace NexusCode.Agent

open Lib List Option

/-- `GoalVerdict`. -/
inductive GoalVerdict where
  | met
  | unmet
  | indeterminate
deriving DecidableEq

/-- `GoalAssessment`. -/
structure GoalAssessment where
  verdict : GoalVerdict
  reason : String
deriving DecidableEq

/-! ## The pattern -/

/-- The two verdicts the pattern knows. -/
inductive Token where
  | met
  | notMet
deriving DecidableEq

/-- The text of a verdict. -/
def Token.text : Token → List Char
  | met => "MET".toList
  | notMet => "NOT_MET".toList

/-- `VERDICT_TOKEN`. -/
def verdictToken : String := "NEXUS_GOAL_VERDICT:"

/-- What follows a text at the front of another. -/
def behind (front s : List Char) : Option (List Char) :=
  if front <+: s then some (s.drop front.length) else none

/-- `\b` behind a word character. -/
def wordEnds (rest : List Char) : Bool := !rest.head?.any Regex.isWord

/-- One alternative of the group, and the boundary behind it. -/
def wordAt (t : Token) (s : List Char) : Option (Token × List Char) :=
  ((behind t.text s).filter wordEnds).map (t, ·)

/-- The pattern at the front of a text: the group, and the text behind the match. -/
def verdictAt (s : List Char) : Option (Token × List Char) :=
  (behind verdictToken.toList s).bind fun s =>
    let word := s.dropWhile JsString.isWhite
    (wordAt .met word).or (wordAt .notMet word)

/-- The search, which skips what the last match has consumed. -/
def scan : Nat → List Char → List (Token × List Char)
  | _, [] => []
  | skip + 1, _ :: s => scan skip s
  | 0, c :: s =>
    match verdictAt (c :: s) with
    | some (t, rest) => (t, rest) :: scan (s.length - rest.length) s
    | none => scan 0 s

/-! ## Every match is found -/

variable {s rest : List Char}

theorem behind_eq_some {front : List Char} :
    behind front s = some rest ↔ s = front ++ rest := by
  unfold behind
  constructor
  · intro h
    split at h
    · rename_i hpre
      obtain ⟨t, rfl⟩ := hpre
      rw [drop_left, some.injEq] at h
      rw [h]
    · nomatch h
  · rintro rfl
    rw [if_pos (prefix_append front rest), drop_left]

theorem wordAt_eq_some {t t' : Token} :
    wordAt t s = some (t', rest) ↔ t' = t ∧ s = t.text ++ rest ∧ wordEnds rest = true := by
  unfold wordAt
  rw [map_eq_some_iff]
  constructor
  · rintro ⟨r, hr, heq⟩
    obtain ⟨rfl, rfl⟩ := Prod.mk.inj heq
    obtain ⟨hbehind, hends⟩ := filter_eq_some_iff.mp hr
    exact ⟨rfl, behind_eq_some.mp hbehind, hends⟩
  · rintro ⟨rfl, hs, hends⟩
    exact ⟨rest, filter_eq_some_iff.mpr ⟨behind_eq_some.mpr hs, hends⟩, rfl⟩

theorem dropWhile_white {white : List Char} (hwhite : ∀ c ∈ white, JsString.isWhite c = true)
    (t : Token) (rest : List Char) :
    (white ++ (t.text ++ rest)).dropWhile JsString.isWhite = t.text ++ rest := by
  rw [dropWhile_append_of_pos hwhite]
  cases t with
  | met => exact dropWhile_cons_of_neg (by decide)
  | notMet => exact dropWhile_cons_of_neg (by decide)

/-- **What the pattern matches.** -/
theorem verdictAt_eq_some {t : Token} :
    verdictAt s = some (t, rest) ↔
      ∃ white, (∀ c ∈ white, JsString.isWhite c = true) ∧
        s = verdictToken.toList ++ (white ++ (t.text ++ rest)) ∧ wordEnds rest = true := by
  unfold verdictAt
  rw [bind_eq_some_iff]
  constructor
  · rintro ⟨s', hs', hword⟩
    have hsplit := takeWhile_append_dropWhile (p := JsString.isWhite) (l := s')
    have hfound : s'.dropWhile JsString.isWhite = t.text ++ rest ∧ wordEnds rest = true := by
      rcases or_eq_some_iff.mp hword with h | ⟨-, h⟩
      · obtain ⟨rfl, hfound⟩ := wordAt_eq_some.mp h
        exact hfound
      · obtain ⟨rfl, hfound⟩ := wordAt_eq_some.mp h
        exact hfound
    refine ⟨s'.takeWhile JsString.isWhite, fun c hc => mem_takeWhile_imp hc, ?_, hfound.2⟩
    rw [← hfound.1, hsplit]
    exact behind_eq_some.mp hs'
  · rintro ⟨white, hwhite, rfl, hends⟩
    refine ⟨white ++ (t.text ++ rest), behind_eq_some.mpr rfl, ?_⟩
    dsimp only
    rw [dropWhile_white hwhite]
    cases t with
    | met => rw [wordAt_eq_some.mpr ⟨rfl, rfl, hends⟩, some_or]
    | notMet =>
      have hnot : wordAt .met (Token.notMet.text ++ rest) = none := by
        unfold wordAt behind
        rw [if_neg ?_]
        · rfl
        · rintro ⟨r, hr⟩
          exact absurd (cons.inj hr).1 (by decide)
      rw [hnot, none_or, wordAt_eq_some.mpr ⟨rfl, rfl, hends⟩]

theorem verdictAt_front (h : (verdictAt s).isSome = true) :
    ∃ s', s = 'N' :: 'E' :: s' := by
  obtain ⟨⟨t, rest⟩, h⟩ := isSome_iff_exists.mp h
  obtain ⟨white, -, rfl, -⟩ := verdictAt_eq_some.mp h
  exact ⟨_, rfl⟩

theorem no_match_inside {inside : List Char} (h : 'N' ∉ inside) :
    ∀ r, r <:+ inside → r ≠ [] → verdictAt (r ++ s) = none := by
  intro r hr hne
  obtain ⟨c, r, rfl⟩ := exists_cons_of_ne_nil hne
  rw [← not_isSome_iff_eq_none]
  intro hsome
  obtain ⟨s', hs'⟩ := verdictAt_front hsome
  rw [cons_append, cons.injEq] at hs'
  exact h (hs'.1 ▸ hr.subset mem_cons_self)

/-- The matches at the places of a part of the text are found one place after the other. -/
theorem filterMap_tails_append {inside : List Char}
    (h : ∀ r, r <:+ inside → r ≠ [] → verdictAt (r ++ s) = none) :
    (inside ++ s).tails.filterMap verdictAt = s.tails.filterMap verdictAt := by
  induction inside with
  | nil => rfl
  | cons c inside ih =>
    rw [cons_append, tails_cons, filterMap_cons,
      show verdictAt (c :: (inside ++ s)) = none from h _ suffix_rfl (cons_ne_nil _ _)]
    exact ih fun r hr => h r (hr.trans (suffix_cons c inside))

theorem no_overlap {c : Char} {t : Token}
    (h : verdictAt (c :: s) = some (t, rest)) :
    ∃ inside, s = inside ++ rest ∧
      s.tails.filterMap verdictAt = rest.tails.filterMap verdictAt := by
  obtain ⟨white, hwhite, hs, -⟩ := verdictAt_eq_some.mp h
  obtain rfl : s = ("EXUS_GOAL_VERDICT:".toList ++ white) ++ (t.text ++ rest) :=
    (cons.inj (hs.trans rfl)).2.trans (append_assoc _ _ _).symm
  refine ⟨("EXUS_GOAL_VERDICT:".toList ++ white) ++ t.text, (append_assoc _ _ _).symm, ?_⟩
  have hfront : 'N' ∉ "EXUS_GOAL_VERDICT:".toList ++ white := by
    intro hmem
    rcases mem_append.mp hmem with hmem | hmem
    · exact absurd hmem (by decide)
    · exact absurd (hwhite _ hmem) (by decide)
  rw [filterMap_tails_append (no_match_inside hfront)]
  cases t with
  | met => exact filterMap_tails_append (no_match_inside (by decide))
  | notMet =>
    -- the only `N` of `NOT_MET` is followed by an `O`
    have hnone : verdictAt ('N' :: ("OT_MET".toList ++ rest)) = none := by
      rw [← not_isSome_iff_eq_none]
      intro hsome
      obtain ⟨s', hs'⟩ := verdictAt_front hsome
      exact absurd (cons.inj (cons.inj hs').2).1 (by decide)
    show ('N' :: ("OT_MET".toList ++ rest)).tails.filterMap verdictAt = _
    rw [tails_cons, filterMap_cons, hnone]
    exact filterMap_tails_append (no_match_inside (by decide))

theorem scan_drop (skip : Nat) (s : List Char) : scan skip s = scan 0 (s.drop skip) := by
  induction skip generalizing s with
  | zero => rfl
  | succ skip ih =>
    cases s with
    | nil => rfl
    | cons c s => exact ih s

/-- **The search finds every match**, wherever it begins. -/
theorem scan_eq (s : List Char) : scan 0 s = s.tails.filterMap verdictAt := by
  induction hn : s.length using Nat.strong_induction_on generalizing s with
  | _ n ih =>
    subst hn
    cases s with
    | nil => rfl
    | cons c s =>
      rw [tails_cons, filterMap_cons, scan]
      cases hat : verdictAt (c :: s) with
      | none => exact ih s.length (by simp) s rfl
      | some found =>
        obtain ⟨t, rest⟩ := found
        obtain ⟨inside, hs, htails⟩ := no_overlap hat
        have hdrop : s.drop (s.length - rest.length) = rest := by
          rw [hs, length_append, Nat.add_sub_cancel, drop_left]
        dsimp only
        rw [scan_drop, hdrop, htails]
        have hlen : rest.length < (c :: s).length := by
          rw [hs]
          simp only [length_cons, length_append]
          omega
        rw [ih rest.length hlen rest rfl]

/-! ## The verdict -/

/-- A text names a verdict: the token, white space, the word and its end. -/
def Names (answer : String) (t : Token) : Prop :=
  ∃ pre white rest, answer.toList = pre ++ (verdictToken.toList ++ (white ++ (t.text ++ rest))) ∧
    (∀ c ∈ white, JsString.isWhite c = true) ∧ wordEnds rest = true

/-- The set `found`. -/
def found (answer : String) : List Token := (scan 0 answer.toList).map Prod.fst

theorem mem_found {answer : String} {t : Token} : t ∈ found answer ↔ Names answer t := by
  unfold found Names
  rw [scan_eq, List.mem_map]
  constructor
  · rintro ⟨⟨t', rest⟩, hmem, rfl⟩
    obtain ⟨s, hs, hat⟩ := mem_filterMap.mp hmem
    obtain ⟨pre, hpre⟩ := (mem_tails _ _).mp hs
    obtain ⟨white, hwhite, rfl, hends⟩ := verdictAt_eq_some.mp hat
    exact ⟨pre, white, rest, hpre.symm, hwhite, hends⟩
  · rintro ⟨pre, white, rest, hanswer, hwhite, hends⟩
    refine ⟨(t, rest), mem_filterMap.mpr ⟨_, ?_, verdictAt_eq_some.mpr
      ⟨white, hwhite, rfl, hends⟩⟩, rfl⟩
    exact (mem_tails _ _).mpr ⟨pre, hanswer.symm⟩

instance (answer : String) (t : Token) : Decidable (Names answer t) :=
  decidable_of_iff _ mem_found

/-- The characters `/^[\s\-–—:.]+/` removes. -/
def isLead (c : Char) : Bool := JsString.isWhite c || c ∈ ['-', '–', '—', ':', '.']

/-- The reason behind a match, up to the end of its line. -/
def reasonOf (rest : List Char) : String :=
  String.ofList (JsString.trimList ((rest.takeWhile (· ≠ '\n')).dropWhile isLead))

/-- `parseVerdict(answer)`. -/
def parseVerdict (answer : String) : GoalAssessment :=
  let matched := scan 0 answer.toList
  let reason := ((matched.map fun m => reasonOf m.2).find? (· ≠ "")).getD ""
  match decide (.met ∈ found answer), decide (.notMet ∈ found answer) with
  | false, false => ⟨.indeterminate, "the evaluation did not return a usable verdict"⟩
  | true, true => ⟨.indeterminate, "the evaluation returned conflicting verdicts"⟩
  | true, false =>
    ⟨.met, if reason ≠ "" then reason else "the evaluator judged the objective satisfied"⟩
  | false, true =>
    ⟨.unmet, if reason ≠ "" then reason else "the evaluator judged the objective not yet satisfied"⟩

/-- **The verdict is `met` exactly for an answer that names `MET` and not `NOT_MET`.** -/
theorem parseVerdict_met (answer : String) :
    (parseVerdict answer).verdict = .met ↔ Names answer .met ∧ ¬ Names answer .notMet := by
  rw [← mem_found, ← mem_found]
  unfold parseVerdict
  by_cases hmet : Token.met ∈ found answer <;> by_cases hnot : Token.notMet ∈ found answer <;>
    simp [hmet, hnot]

example : parseVerdict "NEXUS_GOAL_VERDICT: MET - v2 is deployed" = ⟨.met, "v2 is deployed"⟩ := by
  decide +kernel

end NexusCode.Agent
