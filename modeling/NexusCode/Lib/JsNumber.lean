/-
  ECMAScript numbers, without a floating-point unit.

  A finite double is kept as the rational number it stands for; `round` is the rounding of an
  exact rational to the nearest double, ties to even, with overflow to infinity; `toString` is
  the shortest decimal that rounds back.  The sign of zero is dropped: nothing modelled here can
  see it.
-/
import Mathlib.Data.Rat.Defs
import Mathlib.Tactic.Common
import Mathlib.Algebra.GroupWithZero.Nat

namespace NexusCode.Lib

/-- A number value. -/
inductive JsNumber where
  | fin (q : Rat)
  | inf (negative : Bool)
  | nan
deriving DecidableEq

namespace JsNumber

instance (n : Nat) : OfNat JsNumber n := ⟨.fin n⟩

/-- `Number.isInteger(x)`. -/
def isInteger : JsNumber → Bool
  | fin q => q.den == 1
  | _ => false

/-- `Number.isFinite(x)`. -/
def isFinite : JsNumber → Bool
  | fin _ => true
  | _ => false

/-- `x < y`; false when either is `NaN`. -/
def lt : JsNumber → JsNumber → Bool
  | fin a, fin b => decide (a < b)
  | fin _, inf negative => !negative
  | inf negative, fin _ => negative
  | inf a, inf b => a && !b
  | _, _ => false

/-- `x <= y`; false when either is `NaN`. -/
def le : JsNumber → JsNumber → Bool
  | nan, _ => false
  | _, nan => false
  | x, y => !lt y x

/-- `a / b` to the nearest integer, ties to even. -/
def divRound (a b : Nat) : Nat :=
  let q := a / b
  let r := a % b
  if 2 * r < b then q else if b < 2 * r then q + 1 else q + q % 2

/-- `⌊log₂ (a / b)⌋` for positive `a` and `b`. -/
def log2Ratio (a b : Nat) : Int :=
  let k : Int := Nat.log2 a - Nat.log2 b
  if a * 2 ^ (-k).toNat < b * 2 ^ k.toNat then k - 1 else k

/-- The double nearest to the positive ratio `a / b`: its significand and its exponent. -/
def nearest (a b : Nat) : Nat × Int :=
  let e := max (log2Ratio a b - 52) (-1074)
  (divRound (a * 2 ^ (-e).toNat) (b * 2 ^ e.toNat), e)

/-- `n · 2ᵉ` as a rational. -/
def scale (n : Nat) (e : Int) : Rat :=
  if 0 ≤ e then (n * 2 ^ e.toNat : Nat) else mkRat n (2 ^ (-e).toNat)

/-- The nearest double to an exact value. -/
def round (q : Rat) : JsNumber :=
  if q = 0 then fin 0
  else
    let (n, e) := nearest q.num.natAbs q.den
    if 2 ^ 1024 ≤ scale n e then inf (q.num < 0)
    else fin (if q.num < 0 then -scale n e else scale n e)

/-! ## Printing -/

/-- The number of decimal digits of the integer part of `a / b`; zero or less when the ratio is
    below one and starts with that many zeros after the point. -/
def decimalPoint (a b : Nat) : Int :=
  if b ≤ a then (Nat.toDigits 10 (a / b)).length
  else -(((List.range 400).takeWhile fun z => a * 10 ^ (z + 1) < b).length : Int)

/-- The closest `k`-digit decimal to `a / b`, whose point stands after `n` digits. -/
def closest (a b : Nat) (n : Int) (k : Nat) : Nat :=
  let shift := (k : Int) - n
  divRound (a * 10 ^ shift.toNat) (b * 10 ^ (-shift).toNat)

/-- `s · 10^(n - k)`. -/
def decimalValue (s : Nat) (n : Int) (k : Nat) : Rat :=
  let shift := n - (k : Int)
  if 0 ≤ shift then (s * 10 ^ shift.toNat : Nat) else mkRat s (10 ^ (-shift).toNat)

/-- The fewest digits that round back to the positive double `q`, and the place of the point;
    digits that round up to a power of ten move the point instead. -/
def shortest (q : Rat) (n : Int) : Nat × Int :=
  let good := (List.range 17).find? fun k =>
    round (decimalValue (closest q.num.natAbs q.den n (k + 1)) n (k + 1)) == fin q
  let k := (good.getD 16) + 1
  let s := closest q.num.natAbs q.den n k
  if s = 10 ^ k then (10 ^ (k - 1), n + 1) else (s, n)

/-- The layout of `Number::toString` for `k` digits with the point after `n`. -/
def layout (digits : List Char) (n : Int) : List Char :=
  let k : Int := digits.length
  if k ≤ n ∧ n ≤ 21 then digits ++ List.replicate (n - k).toNat '0'
  else if 0 < n ∧ n ≤ 21 then digits.take n.toNat ++ '.' :: digits.drop n.toNat
  else if -6 < n ∧ n ≤ 0 then '0' :: '.' :: (List.replicate (-n).toNat '0' ++ digits)
  else
    let sign := if n - 1 < 0 then '-' else '+'
    let exponent := sign :: Nat.toDigits 10 (n - 1).natAbs
    match digits with
    | [d] => d :: 'e' :: exponent
    | d :: ds => d :: '.' :: (ds ++ 'e' :: exponent)
    | [] => []

/-- `String(x)` for a positive double. -/
def printPositive (q : Rat) : List Char :=
  let (s, n) := shortest q (decimalPoint q.num.natAbs q.den)
  layout (Nat.toDigits 10 s) n

/-- `String(x)`. -/
def toChars : JsNumber → List Char
  | nan => "NaN".toList
  | inf negative => if negative then "-Infinity".toList else "Infinity".toList
  | fin q =>
    if q = 0 then ['0']
    else if q.num < 0 then '-' :: printPositive (-q)
    else printPositive q

example : String.ofList (toChars (round (mkRat 15 10))) = "1.5" := by decide +kernel
example : String.ofList (toChars (round (mkRat 1 10))) = "0.1" := by decide +kernel
example : String.ofList (toChars (round 48000)) = "48000" := by decide +kernel

end JsNumber

end NexusCode.Lib
