/-
  Regular expressions with backtracking, as ECMAScript evaluates them.

  A pattern is run against the text that remains and the character just before it; the answer
  is the list of ALL its matches, each with the text it consumed and the text left over, in the
  order in which the backtracking engine would try them.  The engine's answer is therefore the
  head of the list, `test` asks whether some position has a non-empty list, and a greedy star
  differs from a lazy one only in where it puts the empty match.

  `replaceAll kept dropped by` is the global replacement of the pattern `(kept)dropped` by
  `$1by`; with `kept := eps` it is the replacement of the whole match.
-/
import NexusCode.Lib.JsString

namespace NexusCode.Lib

/-- The pattern constructors.  A class is a predicate on characters, so case-insensitive and
    Unicode-aware variants of a class are just other predicates. -/
inductive Regex where
  /-- The empty pattern. -/
  | eps
  /-- One character of a class. -/
  | chr (p : Char → Bool)
  /-- Concatenation. -/
  | seq (a b : Regex)
  /-- Ordered choice. -/
  | alt (a b : Regex)
  /-- Greedy repetition. -/
  | star (a : Regex)
  /-- Lazy repetition. -/
  | lazyStar (a : Regex)
  /-- `\b` for the given word characters. -/
  | boundary (word : Char → Bool)

namespace Regex

/-- The character before the text left over by a match. -/
def before (prev : Option Char) (consumed : List Char) : Option Char :=
  consumed.getLast?.or prev

/-- Zero or more rounds of a matcher, at most `n`; a round that consumes nothing ends the
    repetition, as in the language. -/
def rounds (m : Option Char → List Char → List (List Char × List Char)) (greedy : Bool) :
    Nat → Option Char → List Char → List (List Char × List Char)
  | 0, _, s => [([], s)]
  | n + 1, prev, s =>
    let more := ((m prev s).filter fun r => !r.1.isEmpty).flatMap fun r =>
      (rounds m greedy n (before prev r.1) r.2).map fun q => (r.1 ++ q.1, q.2)
    if greedy then more ++ [([], s)] else ([], s) :: more

/-- All matches of a pattern at one position, best first. -/
def run : Regex → Option Char → List Char → List (List Char × List Char)
  | eps, _, s => [([], s)]
  | chr _, _, [] => []
  | chr p, _, c :: s => if p c then [([c], s)] else []
  | seq a b, prev, s =>
    (run a prev s).flatMap fun r => (run b (before prev r.1) r.2).map fun q => (r.1 ++ q.1, q.2)
  | alt a b, prev, s => run a prev s ++ run b prev s
  | star a, prev, s => rounds (run a) true (s.length + 1) prev s
  | lazyStar a, prev, s => rounds (run a) false (s.length + 1) prev s
  | boundary word, prev, s =>
    if prev.any word != s.head?.any word then [([], s)] else []

/-- Does the pattern match somewhere from here on? -/
def testFrom (r : Regex) : Option Char → List Char → Bool
  | prev, [] => !(run r prev []).isEmpty
  | prev, c :: s => !(run r prev (c :: s)).isEmpty || testFrom r (some c) s

/-- `re.test(s)`. -/
def test (r : Regex) (s : String) : Bool := testFrom r none s.toList

/-- The match the engine picks for `(kept)dropped` at one position: the text of the group, the
    rest of the match, the text left over. -/
def firstMatch (kept dropped : Regex) (prev : Option Char) (s : List Char) :
    Option (List Char × List Char × List Char) :=
  ((run kept prev s).flatMap fun r =>
    (run dropped (before prev r.1) r.2).map fun q => (r.1, q.1, q.2)).head?

/-- The replacement loop.  A match that consumes nothing is replaced and stepped over. -/
def replaceFrom (kept dropped : Regex) (by' : List Char) :
    Nat → Option Char → List Char → List Char
  | 0, _, s => s
  | n + 1, prev, s =>
    match firstMatch kept dropped prev s, s with
    | some (k, [], _), c :: t =>
      if k.isEmpty then by' ++ c :: replaceFrom kept dropped by' n (some c) t
      else k ++ by' ++ replaceFrom kept dropped by' n (before prev k) ((c :: t).drop k.length)
    | some (k, d, rest), _ =>
      k ++ by' ++ replaceFrom kept dropped by' n (before prev (k ++ d)) rest
    | none, c :: t => c :: replaceFrom kept dropped by' n (some c) t
    | none, [] => []

/-- `s.replace(/(kept)dropped/g, "$1by")`. -/
def replaceAll (kept dropped : Regex) (by' : String) (s : String) : String :=
  String.ofList (replaceFrom kept dropped by'.toList (s.length + 1) none s.toList)

/-! ## Notation-free builders -/

/-- A literal text under a character equivalence: `same` compares a pattern character with a
    text character. -/
def lit (same : Char → Char → Bool) (s : String) : Regex :=
  s.toList.foldr (fun c r => seq (chr (same c)) r) eps

/-- `(?:a|b|…)`. -/
def choice : List Regex → Regex
  | [] => chr fun _ => false
  | [r] => r
  | r :: rs => alt r (choice rs)

/-- Concatenation of a list. -/
def chain (rs : List Regex) : Regex := rs.foldr seq eps

/-- `a?`. -/
def opt (a : Regex) : Regex := alt a eps

/-- `a+`. -/
def plus (a : Regex) : Regex := seq a (star a)

/-- `a{n,}`. -/
def atLeast : Nat → Regex → Regex
  | 0, a => star a
  | n + 1, a => seq a (atLeast n a)

/-- Exact comparison of characters. -/
def exactly (c d : Char) : Bool := c == d

/-- Comparison under the `i` flag, without `u`: ASCII letters fold, nothing else does. -/
def ignoreCase (c d : Char) : Bool := c.toLower == d.toLower

/-- `\w`, the word characters of `\b`. -/
def isWord (c : Char) : Bool := c.isAlphanum || c == '_'

/-- `.`: everything but a line terminator. -/
def isDot (c : Char) : Bool := !(c.toNat ∈ [0xA, 0xD, 0x2028, 0x2029])

end Regex

end NexusCode.Lib
