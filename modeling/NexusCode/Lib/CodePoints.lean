/-
  The code points of an ECMAScript string, lone surrogates included.

  A string is its list of code units here, and a code point the list of the one or two units it is
  written with, as the elements of `Array.from(value)` are strings of one or two units.

  **`codePoints_append`**: a string may be read in two parts, unless the cut lies inside a pair.
-/
import Mathlib.Data.List.Basic
import Mathlib.Tactic.Common

namespace NexusCode.Lib.JsString

open List

/-- The unit opens a surrogate pair. -/
def isHigh (u : Nat) : Bool := 0xD800 ≤ u && u ≤ 0xDBFF

/-- The unit closes a surrogate pair. -/
def isLow (u : Nat) : Bool := 0xDC00 ≤ u && u ≤ 0xDFFF

/-- `Array.from(value)`. -/
def codePoints : List Nat → List (List Nat)
  | [] => []
  | [u] => [[u]]
  | u :: v :: rest =>
    if isHigh u && isLow v then [u, v] :: codePoints rest else [u] :: codePoints (v :: rest)

/-- A pair lies across the cut. -/
def splitsPair (front back : List Nat) : Bool :=
  front.getLast?.any isHigh && back.head?.any isLow

theorem flatten_codePoints (s : List Nat) : (codePoints s).flatten = s := by
  fun_induction codePoints s with
  | case1 => rfl
  | case2 => rfl
  | case3 u v rest hpair ih => rw [flatten_cons, ih]; rfl
  | case4 u v rest hpair ih => rw [flatten_cons, ih]; rfl

/-- **A string in two parts**: the induction is on the code points of the first one. -/
theorem codePoints_append (front back : List Nat) (h : splitsPair front back = false) :
    codePoints (front ++ back) = codePoints front ++ codePoints back := by
  fun_induction codePoints front with
  | case1 => rfl
  | case2 u =>
    cases back with
    | nil => rfl
    | cons v back =>
      have hpair : (isHigh u && isLow v) = false := h
      rw [singleton_append, codePoints, hpair, if_neg Bool.false_ne_true]
      rfl
  | case3 u v rest hpair ih =>
    rw [cons_append, cons_append, codePoints, if_pos hpair, cons_append]
    refine congrArg ([u, v] :: ·) (ih ?_)
    cases rest with
    | nil => rfl
    | cons w rest => exact h
  | case4 u v rest hpair ih =>
    rw [cons_append, cons_append, codePoints, if_neg hpair, cons_append]
    exact congrArg ([u] :: ·) (ih h)

end NexusCode.Lib.JsString
