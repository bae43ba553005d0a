/-
  SQL texts and their comments, by the lexical rules of a dialect.

    1. `Dialect`, `code`     — a text without its comments.
    2. `clean`               — the scanners of the source take for comments just what is one.
    3. **`strip_eq_code`**   — then they leave the text without its comments.
-/
import NexusCode.Sql.Statement

namespace NexusCode.Sql

/-! ## Dialects -/

/-- What a dialect may decide: which characters open a literal or a quoted name and what closes
    it, whether block comments nest, and where a line comment ends. -/
structure Dialect where
  closer : Char → Option Char
  nests : Bool
  endsLine : Char → Bool

/-- Literals, names in double quotes, backticks and brackets. -/
def commonQuotes (c : Char) : Option Char :=
  if c = Char.ofNat 0x27 || c = Char.ofNat 0x22 || c = Char.ofNat 0x60 then some c
  else if c = '[' then some ']'
  else none

/-- The dialect of SQLite. -/
def sqlite : Dialect where
  closer := commonQuotes
  nests := false
  endsLine c := c = '\n'

/-- Where in a text one is: between tokens, in quotes up to a character, in a line comment, or in
    a block comment of some depth (before the second character of an opener or a closer, too). -/
inductive Lex where
  | bare
  | quoted (close : Char)
  | line
  | opening (depth : Nat)
  | block (depth : Nat)
  | closing (depth : Nat)

/-- Where one is behind a character of the code. -/
def Dialect.enter (d : Dialect) (c : Char) : Lex :=
  match d.closer c with
  | some close => .quoted close
  | none => .bare

/-- A text without its comments: each is a space. -/
def code (d : Dialect) : Lex → Text → Text
  | _, [] => []
  | .bare, c :: cs =>
    if c = '-' && cs.head? = some '-' then ' ' :: code d .line cs
    else if c = '/' && cs.head? = some '*' then ' ' :: code d (.opening 1) cs
    else c :: code d (d.enter c) cs
  | .quoted close, c :: cs => c :: code d (if c = close then .bare else .quoted close) cs
  | .line, c :: cs => if d.endsLine c then c :: code d .bare cs else code d .line cs
  | .opening n, _ :: cs => code d (.block n) cs
  | .block n, c :: cs =>
    if c = '*' && cs.head? = some '/' then code d (.closing n) cs
    else if d.nests && c = '/' && cs.head? = some '*' then code d (.opening (n + 1)) cs
    else code d (.block n) cs
  | .closing n, _ :: cs => code d (if n ≤ 1 then .bare else .block (n - 1)) cs

/-- What the scanner for block comments takes for an opener. -/
def opensBlock (c : Char) (cs : Text) : Bool := c = '/' && cs.head? = some '*' && closes cs.tail

/-- What the scanners take for comments is just what is one: nothing in quotes looks like one, in
    a line comment no block comment seems to open and the line ends for both, and a block comment
    is closed and holds no other that counts. -/
def clean (d : Dialect) : Lex → Text → Bool
  | _, [] => true
  | .bare, c :: cs =>
    if c = '-' && cs.head? = some '-' then clean d .line cs
    else if c = '/' && cs.head? = some '*' then closes cs.tail && clean d (.opening 1) cs
    else clean d (d.enter c) cs
  | .quoted close, c :: cs =>
    !(c = '-' && cs.head? = some '-') && !opensBlock c cs &&
      clean d (if c = close then .bare else .quoted close) cs
  | .line, c :: cs =>
    !opensBlock c cs && d.endsLine c = endsLine c &&
      clean d (if d.endsLine c then .bare else .line) cs
  | .opening n, _ :: cs => clean d (.block n) cs
  | .block n, c :: cs =>
    if c = '*' && cs.head? = some '/' then clean d (.closing n) cs
    else !(d.nests && c = '/' && cs.head? = some '*') && clean d (.block n) cs
  | .closing _, _ :: cs => clean d .bare cs

/-! ## What the scanners leave -/

/-- Where the scanner for block comments is. -/
def Lex.blocks : Lex → Block
  | opening _ => .opening
  | block _ => .inside
  | closing _ => .closing
  | _ => .out

/-- Whether the scanner for line comments is in one. -/
def Lex.lines : Lex → Bool
  | line => true
  | _ => false

/-- Not deeper than one comment. -/
def Lex.Flat : Lex → Prop
  | opening n => n = 1
  | block n => n = 1
  | closing n => n = 1
  | _ => True

theorem head?_stripBlocks (cs : Text) :
    (stripBlocks .out cs).head? = some '-' ↔ cs.head? = some '-' := by
  cases cs with
  | nil => exact Iff.rfl
  | cons c cs =>
    rw [stripBlocks]
    split
    · rename_i h
      simp only [Bool.and_eq_true, decide_eq_true_eq] at h
      rw [h.1.1]
      simp
    · rfl

theorem stripBlocks_cons {c : Char} {cs : Text} (h : opensBlock c cs = false) :
    stripBlocks .out (c :: cs) = c :: stripBlocks .out cs := by
  rw [stripBlocks]
  exact if_neg (by rw [← opensBlock, h]; exact Bool.false_ne_true)

theorem stripLines_cons {c : Char} {cs : Text} (h : ¬ (c = '-' ∧ cs.head? = some '-')) :
    stripLines false (c :: stripBlocks .out cs) = c :: stripLines false (stripBlocks .out cs) := by
  rw [stripLines]
  refine if_neg fun hdash => h ?_
  simp only [Bool.and_eq_true, decide_eq_true_eq] at hdash
  exact ⟨hdash.1, (head?_stripBlocks cs).mp hdash.2⟩

/-- **The scanners leave the text without its comments** where it is clean. -/
theorem strip_eq_code (d : Dialect) : ∀ (s : Text) {m : Lex}, m.Flat → clean d m s = true →
    stripLines m.lines (stripBlocks m.blocks s) = code d m s
  | [], m, _, _ => by cases m <;> rfl
  | c :: cs, m, hm, h => by
    have ih := fun {m : Lex} => @strip_eq_code d cs m
    cases m with
    | bare =>
      rw [clean] at h
      rw [code]
      show stripLines false (stripBlocks .out (c :: cs)) = _
      by_cases hdash : (c = '-' && cs.head? = some '-') = true
      · rw [if_pos hdash] at h ⊢
        simp only [Bool.and_eq_true, decide_eq_true_eq] at hdash
        have hnot : opensBlock c cs = false := by rw [hdash.1]; rfl
        rw [stripBlocks_cons hnot, stripLines, if_pos]
        · rw [← ih (m := .line) trivial h]
          rfl
        · simpa [hdash.1] using (head?_stripBlocks cs).mpr hdash.2
      · rw [if_neg hdash] at h ⊢
        have hkeep : ¬ (c = '-' ∧ cs.head? = some '-') := by simpa using hdash
        by_cases hslash : (c = '/' && cs.head? = some '*') = true
        · rw [if_pos hslash] at h ⊢
          obtain ⟨hcloses, h⟩ := Bool.and_eq_true_iff.mp h
          rw [stripBlocks, if_pos (Bool.and_eq_true_iff.mpr ⟨hslash, hcloses⟩), stripLines,
            if_neg (by simp)]
          exact congrArg (' ' :: ·) (ih (m := .opening 1) rfl h)
        · rw [if_neg hslash] at h ⊢
          have hnot : opensBlock c cs = false := by
            rw [opensBlock, Bool.eq_false_iff.mpr hslash]
            rfl
          rw [stripBlocks_cons hnot, stripLines_cons hkeep]
          refine congrArg (c :: ·) ?_
          have hflat : (d.enter c).Flat ∧ (d.enter c).lines = false ∧ (d.enter c).blocks = .out := by
            unfold Dialect.enter
            cases d.closer c <;> exact ⟨trivial, rfl, rfl⟩
          have hrest := ih hflat.1 h
          rwa [hflat.2.1, hflat.2.2] at hrest
    | quoted close =>
      rw [clean] at h
      simp only [Bool.and_eq_true, Bool.not_eq_true'] at h
      obtain ⟨⟨hdash, hnot⟩, h⟩ := h
      have hkeep : ¬ (c = '-' ∧ cs.head? = some '-') := by simpa using hdash
      rw [code]
      show stripLines false (stripBlocks .out (c :: cs)) = _
      rw [stripBlocks_cons hnot, stripLines_cons hkeep]
      refine congrArg (c :: ·) ?_
      by_cases hc : c = close
      · rw [if_pos hc] at h ⊢
        exact ih (m := .bare) trivial h
      · rw [if_neg hc] at h ⊢
        exact ih (m := .quoted close) trivial h
    | line =>
      rw [clean] at h
      simp only [Bool.and_eq_true, Bool.not_eq_true', decide_eq_true_eq] at h
      obtain ⟨⟨hnot, hends⟩, h⟩ := h
      rw [code]
      show stripLines true (stripBlocks .out (c :: cs)) = _
      rw [stripBlocks_cons hnot, stripLines, ← hends]
      by_cases hc : d.endsLine c = true
      · rw [if_pos hc] at h ⊢
        rw [if_pos hc]
        exact congrArg (c :: ·) (ih (m := .bare) trivial h)
      · rw [if_neg hc] at h ⊢
        rw [if_neg hc]
        exact ih (m := .line) trivial h
    | opening n =>
      obtain rfl : n = 1 := hm
      rw [clean] at h
      rw [code]
      show stripLines false (stripBlocks .opening (c :: cs)) = _
      rw [stripBlocks]
      exact ih (m := .block 1) rfl h
    | block n =>
      obtain rfl : n = 1 := hm
      rw [clean] at h
      rw [code]
      show stripLines false (stripBlocks .inside (c :: cs)) = _
      rw [stripBlocks]
      by_cases hc : (c = '*' && cs.head? = some '/') = true
      · rw [if_pos hc] at h ⊢
        rw [if_pos hc]
        exact ih (m := .closing 1) rfl h
      · rw [if_neg hc] at h ⊢
        rw [if_neg hc]
        obtain ⟨hnest, h⟩ := Bool.and_eq_true_iff.mp h
        rw [if_neg fun hn => by rw [hn] at hnest; nomatch hnest]
        exact ih (m := .block 1) rfl h
    | closing n =>
      obtain rfl : n = 1 := hm
      rw [clean] at h
      rw [code]
      show stripLines false (stripBlocks .closing (c :: cs)) = _
      rw [stripBlocks]
      exact ih (m := .bare) trivial h

end NexusCode.Sql
