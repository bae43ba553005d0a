/-
  ECMAScript strings, the part of their library the modelled programs call.

  A value here is a Lean `String`, that is a sequence of Unicode scalar values.  What the
  ECMAScript library measures in UTF-16 code units (`length`, `<`, `slice`) is computed from
  the code units of the scalar values; lone surrogates are the one kind of string left out.

  * `trim`               — `String.prototype.trim`, with `WhiteSpace` and `LineTerminator`;
  * `units`, `length16`  — the code units of a string and their number;
  * `ltUnits`            — the relational operator `<` on strings;
  * `encodeURIComponent` — percent-encoding of every byte outside the unreserved set,
                           with the proof that it loses nothing (`encodeURIComponent_inj`)
                           and never writes a `|` (`bar_notMem_encodeURIComponent`).
-/
import Mathlib.Data.List.DropRight
import Mathlib.Data.List.TakeWhile
import Mathlib.Tactic.Common

namespace NexusCode.Lib.JsString

open List

/-! ## Trimming -/

/-- The code points `String.prototype.trim` removes: `WhiteSpace` and `LineTerminator`. -/
def isWhite (c : Char) : Bool :=
  c.toNat ∈ [0x9, 0xA, 0xB, 0xC, 0xD, 0x20, 0xA0, 0x1680, 0x2028, 0x2029, 0x202F, 0x205F,
    0x3000, 0xFEFF] || (0x2000 ≤ c.toNat && c.toNat ≤ 0x200A)

/-- Trimming on character lists. -/
def trimList (l : List Char) : List Char := (l.dropWhile isWhite).rdropWhile isWhite

/-- `s.trim()`. -/
def trim (s : String) : String := String.ofList (trimList s.toList)

/-- A list that does not start with white space still does not after its tail is trimmed. -/
theorem dropWhile_rdropWhile (l : List Char) (h : l.dropWhile isWhite = l) :
    (l.rdropWhile isWhite).dropWhile isWhite = l.rdropWhile isWhite := by
  cases hl : l.rdropWhile isWhite with
  | nil => rfl
  | cons c t =>
    have hpre : c :: t <+: l := hl ▸ rdropWhile_prefix isWhite l
    obtain ⟨r, hr⟩ := hpre
    have hc : isWhite c = false := by
      by_contra hw
      rw [← hr, cons_append, dropWhile_cons_of_pos (by simpa using hw)] at h
      have hlen := congrArg List.length h
      have hle := (dropWhile_suffix (l := t ++ r) isWhite).length_le
      simp only [length_cons] at hlen
      omega
    exact dropWhile_cons_of_neg (by simp [hc])

theorem trimList_idem (l : List Char) : trimList (trimList l) = trimList l := by
  unfold trimList
  rw [dropWhile_rdropWhile _ (dropWhile_idempotent _ _), rdropWhile_idempotent]

@[simp] theorem trim_idem (s : String) : trim (trim s) = trim s := by
  simp only [trim, String.toList_ofList, trimList_idem]

/-- What starts with something else than white space is only trimmed behind. -/
theorem trimList_cons {c : Char} (hc : isWhite c = false) (cs : List Char) :
    ∃ kept, trimList (c :: cs) = c :: kept ∧ c :: kept <+: c :: cs := by
  have hdrop : (c :: cs).dropWhile isWhite = c :: cs :=
    dropWhile_cons_of_neg (by rw [hc]; exact Bool.false_ne_true)
  unfold trimList
  rw [hdrop]
  have hpre := rdropWhile_prefix (p := isWhite) (l := c :: cs)
  cases hkept : (c :: cs).rdropWhile isWhite with
  | nil =>
    have := rdropWhile_eq_nil_iff.mp hkept c mem_cons_self
    rw [hc] at this
    nomatch this
  | cons d kept =>
    rw [hkept] at hpre
    obtain rfl := (cons_prefix_cons.mp hpre).1
    exact ⟨kept, rfl, hpre⟩

/-- Nothing is trimmed between two characters that are no white space. -/
theorem trimList_between {c d : Char} (hc : isWhite c = false) (hd : isWhite d = false)
    (cs : List Char) : trimList (c :: (cs ++ [d])) = c :: (cs ++ [d]) := by
  unfold trimList
  rw [dropWhile_cons_of_neg (by rw [hc]; exact Bool.false_ne_true), ← cons_append]
  exact rdropWhile_concat_neg _ _ _ (by rw [hd]; exact Bool.false_ne_true)

/-- `s.trim().length === 0`. -/
def isBlank (s : String) : Bool := (trimList s.toList).isEmpty

/-! ## Code units -/

/-- The UTF-16 code units of one scalar value. -/
def unitsOf (c : Char) : List Nat :=
  if c.toNat < 0x10000 then [c.toNat]
  else [0xD800 + (c.toNat - 0x10000) / 0x400, 0xDC00 + (c.toNat - 0x10000) % 0x400]

/-- The UTF-16 code units of a string. -/
def units (s : String) : List Nat := s.toList.flatMap unitsOf

theorem units_append (a b : String) : units (a ++ b) = units a ++ units b := by
  rw [units, String.toList_append, flatMap_append]
  rfl

/-- `s.length`. -/
def length16 (s : String) : Nat := (units s).length

/-- Lexicographic order on code units. -/
def ltList : List Nat → List Nat → Bool
  | _, [] => false
  | [], _ :: _ => true
  | a :: as, b :: bs => a < b || (a == b && ltList as bs)

/-- The relational operator `a < b` on strings. -/
def ltUnits (a b : String) : Bool := ltList (units a) (units b)

/-- The longest prefix of a list of characters that has at most `n` code units. -/
def takeUnits : Nat → List Char → List Char
  | _, [] => []
  | n, c :: cs =>
    if (unitsOf c).length ≤ n then c :: takeUnits (n - (unitsOf c).length) cs else []

/-- `s.slice(0, n)`; a surrogate pair that the cut would split is left out whole. -/
def sliceTo (n : Nat) (s : String) : String := String.ofList (takeUnits n s.toList)

/-! ## Case -/

/-- `s.toLowerCase()` on the ASCII letters, the only ones the modelled patterns look at. -/
def toLowerAscii (s : String) : String := String.ofList (s.toList.map Char.toLower)

/-! ## Percent-encoding -/

/-- The unreserved marks and alphanumerics, which `encodeURIComponent` copies. -/
def isUnreserved (b : UInt8) : Bool :=
  (0x41 ≤ b && b ≤ 0x5A) || (0x61 ≤ b && b ≤ 0x7A) || (0x30 ≤ b && b ≤ 0x39) ||
    b ∈ [0x2D, 0x5F, 0x2E, 0x21, 0x7E, 0x2A, 0x27, 0x28, 0x29]

/-- One upper-case hexadecimal digit. -/
def hexDigit (n : Nat) : Char := "0123456789ABCDEF".toList.getD n '0'

/-- The encoding of one byte of the UTF-8 text. -/
def encodeByte (b : UInt8) : List Char :=
  if isUnreserved b then [Char.ofNat b.toNat]
  else ['%', hexDigit (b.toNat / 16), hexDigit (b.toNat % 16)]

/-- The UTF-8 bytes of a string. -/
def utf8 (s : String) : List UInt8 := s.toList.flatMap String.utf8EncodeChar

/-- `encodeURIComponent(s)`. -/
def encodeURIComponent (s : String) : String := String.ofList ((utf8 s).flatMap encodeByte)

/-- The value of an upper-case hexadecimal digit. -/
def hexValue (c : Char) : Nat := "0123456789ABCDEF".toList.idxOf c

/-- Reading one encoded byte back. -/
def decodeByte : List Char → Option (UInt8 × List Char)
  | '%' :: a :: b :: rest => some (UInt8.ofNat (hexValue a * 16 + hexValue b), rest)
  | c :: rest => some (UInt8.ofNat c.toNat, rest)
  | [] => none

/-- The two shapes of an encoded byte, each holding enough to find the byte again. -/
theorem encodeByte_cases (b : UInt8) :
    (∃ c, encodeByte b = [c] ∧ c ≠ '%' ∧ c ≠ '|' ∧ UInt8.ofNat c.toNat = b) ∨
    (∃ x y, encodeByte b = ['%', x, y] ∧ x ≠ '|' ∧ y ≠ '|' ∧
      UInt8.ofNat (hexValue x * 16 + hexValue y) = b) := by
  have copied : ∀ n : Fin 256, isUnreserved (UInt8.ofNat n) = true →
      Char.ofNat n ≠ '%' ∧ Char.ofNat n ≠ '|' ∧
        UInt8.ofNat (Char.ofNat n).toNat = UInt8.ofNat n := by
    decide +kernel
  have escaped : ∀ n : Fin 256, hexDigit (n / 16) ≠ '|' ∧ hexDigit (n % 16) ≠ '|' ∧
      hexValue (hexDigit (n.val / 16)) * 16 + hexValue (hexDigit (n.val % 16)) = n := by
    decide +kernel
  unfold encodeByte
  by_cases hu : isUnreserved b = true
  · have h := copied ⟨b.toNat, b.toNat_lt⟩ (by simpa using hu)
    rw [if_pos hu]
    exact .inl ⟨_, rfl, h.1, h.2.1, by simpa using h.2.2⟩
  · obtain ⟨hx, hy, hv⟩ := escaped ⟨b.toNat, b.toNat_lt⟩
    rw [if_neg hu]
    refine .inr ⟨_, _, rfl, hx, hy, ?_⟩
    simp only at hv
    rw [hv, UInt8.ofNat_toNat]

/-- The encoded bytes are uniquely readable: a byte written before `rest` is read back. -/
theorem decodeByte_encodeByte (b : UInt8) (rest : List Char) :
    decodeByte (encodeByte b ++ rest) = some (b, rest) := by
  rcases encodeByte_cases b with ⟨c, hc, hne, -, hb⟩ | ⟨x, y, hc, -, -, hb⟩
  · rw [hc]
    show decodeByte (c :: rest) = _
    unfold decodeByte
    split
    · rename_i h
      injection h with h1
      exact absurd h1 hne
    · rename_i h
      injection h with h1 h2
      rw [← h1, ← h2, hb]
    · rename_i h
      nomatch h
  · rw [hc]
    show some (UInt8.ofNat (hexValue x * 16 + hexValue y), rest) = _
    rw [hb]

theorem flatMap_encodeByte_inj : ∀ {l l' : List UInt8},
    l.flatMap encodeByte = l'.flatMap encodeByte → l = l'
  | [], [], _ => rfl
  | [], b :: t, h => by
    have hd := decodeByte_encodeByte b (t.flatMap encodeByte)
    rw [← flatMap_cons, ← h] at hd
    nomatch hd
  | b :: t, [], h => by
    have hd := decodeByte_encodeByte b (t.flatMap encodeByte)
    rw [← flatMap_cons, h] at hd
    nomatch hd
  | b :: t, b' :: t', h => by
    have hd := decodeByte_encodeByte b (t.flatMap encodeByte)
    have hd' := decodeByte_encodeByte b' (t'.flatMap encodeByte)
    rw [← flatMap_cons, h, flatMap_cons, hd'] at hd
    injection hd with hd
    injection hd with h1 h2
    rw [h1, flatMap_encodeByte_inj h2.symm]

theorem utf8_inj {a b : String} (h : utf8 a = utf8 b) : a = b := by
  have hutf : String.ofList a.toList = String.ofList b.toList := by
    apply String.toByteArray_inj.mp
    show (a.toList.flatMap String.utf8EncodeChar).toByteArray
      = (b.toList.flatMap String.utf8EncodeChar).toByteArray
    exact congrArg List.toByteArray h
  rwa [String.ofList_toList, String.ofList_toList] at hutf

theorem encodeURIComponent_inj {a b : String} (h : encodeURIComponent a = encodeURIComponent b) :
    a = b :=
  utf8_inj (flatMap_encodeByte_inj (String.ofList_injective h))

theorem bar_notMem_encodeURIComponent (s : String) : '|' ∉ (encodeURIComponent s).toList := by
  rw [encodeURIComponent, String.toList_ofList]
  intro h
  obtain ⟨b, -, hb⟩ := mem_flatMap.mp h
  rcases encodeByte_cases b with ⟨c, hc, -, hne, -⟩ | ⟨x, y, hc, hx, hy, -⟩
  · rw [hc, mem_singleton] at hb
    exact hne hb.symm
  · rw [hc] at hb
    simp only [mem_cons, not_mem_nil, or_false] at hb
    rcases hb with hb | hb | hb
    · exact absurd hb (by decide)
    · exact hx hb.symm
    · exact hy hb.symm

end NexusCode.Lib.JsString
