/-
  Secret scanning and redaction.

  Each rule in turn looks for its matches in what the rules before it have left, and puts the
  placeholder in their place.  Positions count UTF-16 code units; a unit that is half of a surrogate
  pair is in no class of the rules but the negated ones, as is the character it is read as.

    1. `rules`, `scanSecrets`   — the patterns and the scan.
    2. `skeleton`               — where each unit of the result comes from.
    3. `redacted_skeleton`      — the result is its skeleton, filled in from the text.
    4. **`Alike.redacted`**     — texts that differ only where both are replaced redact to the same.
-/
import NexusCode.Lib.Regex
import NexusCode.Rag.Chunks

namespace NexusCode.Rag

open Lib Lib.Regex List

/-- `SECRET_PLACEHOLDER`. -/
def secretPlaceholder : String := "[REDACTED-SECRET]"

/-- A match: how many units of it stay in front, how many are replaced, how many it has. -/
structure Hit where
  keep : Nat
  cut : Nat
  total : Nat
  /-- The callback puts the placeholder there. -/
  replaced : Bool

/-- What a rule finds at one position, after the unit before it. -/
abbrev Rule := Option Char → List Char → Option Hit

/-! ## The patterns -/

/-- A pattern whose matches are replaced as a whole. -/
def structured (pattern : Regex) : Rule := fun prev s =>
  (run pattern prev s).head?.map fun m => ⟨0, m.1.length, m.1.length, true⟩

def verbatim (s : String) : Regex := lit exactly s

def edge : Regex := boundary isWord

/-- `[A-Za-z0-9_-]`. -/
def isTokenChar (c : Char) : Bool := isWord c || c == '-'

/-- `[ A-Z]`. -/
def isLabelChar (c : Char) : Bool := c == ' ' || c.isUpper

/-- `STRUCTURED_PATTERNS`. -/
def structuredPatterns : List Regex :=
  [chain [verbatim "-----BEGIN", star (chr isLabelChar), verbatim "PRIVATE KEY-----",
      lazyStar (chr fun _ => true), verbatim "-----END", star (chr isLabelChar),
      verbatim "PRIVATE KEY-----"],
    chain [edge, verbatim "sk-", opt (choice [verbatim "proj-", verbatim "ant-"]),
      atLeast 20 (chr isTokenChar), edge],
    chain [edge, chr (· ∈ ['r', 's']), verbatim "k_", choice [verbatim "live", verbatim "test"],
      verbatim "_", atLeast 16 (chr Char.isAlphanum), edge],
    chain [edge, verbatim "gh", chr (· ∈ ['p', 'o', 'u', 's', 'r']), verbatim "_",
      atLeast 20 (chr Char.isAlphanum), edge],
    chain [edge, verbatim "github_pat_", atLeast 22 (chr isWord), edge],
    chain [edge, verbatim "xox", chr (· ∈ ['b', 'a', 'p', 'r', 's']), verbatim "-",
      atLeast 10 (chr fun c => c.isAlphanum || c == '-'), edge],
    chain [edge,
      choice [verbatim "AKIA", verbatim "ASIA", verbatim "AGPA", verbatim "AIDA", verbatim "AROA",
        verbatim "ANPA", verbatim "ANVA"],
      atLeast 12 (chr fun c => c.isDigit || c.isUpper), edge],
    chain ([edge, verbatim "AIza"] ++ List.replicate 35 (chr isTokenChar) ++ [edge]),
    chain [edge, verbatim "ya29.", atLeast 20 (chr isTokenChar)],
    chain [edge, verbatim "eyJ", atLeast 10 (chr isTokenChar), verbatim ".",
      atLeast 10 (chr isTokenChar), verbatim ".", atLeast 10 (chr isTokenChar), edge]]

/-- A name of two words, with or without `_` or `-` between them. -/
def words (first second : String) : Regex :=
  chain [lit ignoreCase first, opt (chr (· ∈ ['_', '-'])), lit ignoreCase second]

/-- The first group of `ASSIGNMENT_PATTERN`. -/
def assignmentPrefix : Regex :=
  chain [choice [words "api" "key", lit ignoreCase "apikey", lit ignoreCase "secret",
      words "secret" "key", words "access" "key", words "access" "token", words "auth" "token",
      words "client" "secret", words "private" "key", lit ignoreCase "passwd",
      lit ignoreCase "password", lit ignoreCase "pwd", lit ignoreCase "token",
      lit ignoreCase "bearer", words "session" "token", words "refresh" "token"],
    opt (chr (· ∈ ['"', '\''])), star (chr JsString.isWhite), chr (· ∈ [':', '=']),
    star (chr JsString.isWhite)]

/-- The third group: a value. -/
def assignmentValue : Regex :=
  atLeast 8 (chr fun c => !JsString.isWhite c && c ∉ ['"', '\'', '`'])

/-- `/^\$[A-Za-z{]/`. -/
def isReference : List Char → Bool
  | '$' :: c :: _ => c.isAlpha || c == '\x7b'
  | _ => false

/-- `ASSIGNMENT_PATTERN` with its callback. -/
def assignment : Rule := fun prev s =>
  ((run assignmentPrefix prev s).flatMap fun p =>
    (run (opt (chr (· ∈ ['"', '\'']))) (before prev p.1) p.2).flatMap fun q =>
      (run assignmentValue (before (before prev p.1) q.1) q.2).filterMap fun v =>
        -- the second group once more
        if q.1 <+: v.2 then
          some (⟨p.1.length + q.1.length, v.1.length,
            p.1.length + q.1.length + v.1.length + q.1.length,
            !(v.1 == secretPlaceholder.toList || isReference v.1)⟩ : Hit)
        else none).head?

/-- All rules, in order. -/
def rules : List Rule := structuredPatterns.map structured ++ [assignment]

/-! ## The scan -/

/-- The loop of a global replacement: the spans that are replaced.  No match of a rule is empty. -/
def spansFrom (rule : Rule) : Nat → Option Char → Nat → List Char → List Span
  | 0, _, _, _ => []
  | _ + 1, _, _, [] => []
  | n + 1, prev, pos, c :: s =>
    match rule prev (c :: s) with
    | none => spansFrom rule n (some c) (pos + 1) s
    | some hit =>
      let rest := spansFrom rule n (before prev ((c :: s).take hit.total)) (pos + hit.total)
        ((c :: s).drop hit.total)
      if hit.replaced then ⟨pos + hit.keep, pos + hit.keep + hit.cut⟩ :: rest else rest

/-- The spans of a text that a rule replaces. -/
def Rule.spans (rule : Rule) (units : Text) : List Span :=
  spansFrom rule units.length none 0 (units.map Char.ofNat)

/-- A list with something else in place of spans of it, from a position on. -/
def splice {α : Type} (filler : List α) : List Span → Nat → List α → List α
  | [], _, l => l
  | span :: spans, pos, l =>
    l.take (span.start - pos) ++ filler ++
      splice filler spans span.stop (l.drop (span.stop - pos))

/-- `SecretScanResult`. -/
structure SecretScanResult where
  redacted : Text
  count : Nat

/-- One rule. -/
def scanStep (scan : SecretScanResult) (rule : Rule) : SecretScanResult :=
  let spans := rule.spans scan.redacted
  ⟨splice (JsString.units secretPlaceholder) spans 0 scan.redacted, scan.count + spans.length⟩

/-- `scanSecrets(text)`. -/
def scanSecrets (text : Text) : SecretScanResult := rules.foldl scanStep ⟨text, 0⟩

/-- `redactSecrets(text)`. -/
@[irreducible] def redactSecrets (text : Text) : Text := (scanSecrets text).redacted

/-! ## Where the result comes from -/

/-- Where a unit of the result comes from: a position of the text, or a placeholder. -/
inductive Origin where
  | kept (i : Nat)
  | placed (u : Nat)
  deriving DecidableEq

/-- The unit there. -/
def Origin.unit (text : Text) : Origin → Nat
  | kept i => text.getD i 0
  | placed u => u

/-- One rule, on the origins. -/
def skeletonStep (text : Text) (origins : List Origin) (rule : Rule) : List Origin :=
  splice ((JsString.units secretPlaceholder).map .placed)
    (rule.spans (origins.map (Origin.unit text))) 0 origins

/-- The origins of the units of the result: what is not kept is in a span that is replaced. -/
def skeleton (text : Text) : List Origin :=
  rules.foldl (skeletonStep text) ((List.range text.length).map .kept)

theorem splice_map {α β : Type} (f : α → β) (filler : List α) (spans : List Span) (pos : Nat)
    (l : List α) :
    (splice filler spans pos l).map f = splice (filler.map f) spans pos (l.map f) := by
  induction spans generalizing pos l with
  | nil => rfl
  | cons span spans ih =>
    show (l.take _ ++ filler ++ splice _ _ _ _).map f = _
    rw [map_append, map_append, ih, map_take, map_drop]
    rfl

/-- **The result** is its skeleton, filled in from the text. -/
theorem redacted_skeleton (text : Text) :
    redactSecrets text = (skeleton text).map (Origin.unit text) := by
  have hstep : ∀ (rs : List Rule) (scan : SecretScanResult) (origins : List Origin),
      scan.redacted = origins.map (Origin.unit text) →
        (rs.foldl scanStep scan).redacted =
          (rs.foldl (skeletonStep text) origins).map (Origin.unit text) := by
    intro rs
    induction rs with
    | nil => exact fun _ _ h => h
    | cons rule rs ih =>
      intro scan origins h
      refine ih _ _ ?_
      unfold skeletonStep
      rw [splice_map, map_map, ← h]
      refine congrArg (fun filler => splice filler _ 0 _) ?_
      exact (List.map_id _).symm
  unfold redactSecrets
  refine hstep rules ⟨text, 0⟩ _ ?_
  rw [map_map]
  refine ext_getElem (by rw [length_map, length_range]) fun i hi _ => ?_
  rw [getElem_map, getElem_range]
  show text[i] = text.getD i 0
  rw [getD_eq_getElem?_getD, List.getElem?_eq_getElem hi]
  rfl

/-- Two texts of one length whose scans replace the same spans, and which agree outside of them. -/
structure Alike (a b : Text) : Prop where
  length : a.length = b.length
  spans : skeleton a = skeleton b
  outside : ∀ origin ∈ skeleton a, origin.unit a = origin.unit b

instance (a b : Text) : Decidable (Alike a b) :=
  decidable_of_iff (a.length = b.length ∧ skeleton a = skeleton b ∧
      ∀ origin ∈ skeleton a, origin.unit a = origin.unit b)
    ⟨fun h => ⟨h.1, h.2.1, h.2.2⟩, fun h => ⟨h.length, h.spans, h.outside⟩⟩

/-- **Texts that are alike** redact to the same. -/
theorem Alike.redacted {a b : Text} (h : Alike a b) : redactSecrets a = redactSecrets b := by
  rw [redacted_skeleton, redacted_skeleton, ← h.spans]
  exact map_congr_left h.outside

end NexusCode.Rag
