/-
  Decoding UTF-8 with replacement characters.

  The decoder is the one of the Encoding Standard: a sequence that breaks off, or a byte that starts
  none, becomes one replacement character each.  A text is the list of its scalar values.

  1. `decode_encode_append` — what was encoded is decoded, whatever follows it.
  2. `starts_le_length` — there are at least as many characters as bytes that can start one, and one
     more if the bytes begin inside a character.
  3. `split_encode` — encoded text cut in front of the start of a character is text twice.
  4. **`decode_chunks_iff`** — encoded text in chunks, each decoded for itself, gives the text back
     exactly if every chunk starts with a character.
-/
import Mathlib.Data.List.Basic
import Mathlib.Tactic.Common

namespace NexusCode.Lib.Utf8

open List Bool

/-! ## The decoder -/

/-- A sequence that has begun: how many bytes it still needs, the bounds of the next one, and the
    bits so far. -/
structure Pending where
  needed : Nat
  lower : Nat
  upper : Nat
  value : Nat
  lower_le : 0x80 ≤ lower
  le_upper : upper ≤ 0xBF

/-- The character that stands for bytes that are none. -/
def replacement : Char := '\uFFFD'

/-- A byte between characters. -/
def start (b : Nat) : List Char × Option Pending :=
  if b ≤ 0x7F then ([Char.ofNat b], none)
  else if 0xC2 ≤ b ∧ b ≤ 0xDF then
    ([], some ⟨1, 0x80, 0xBF, b % 32, Nat.le_refl _, Nat.le_refl _⟩)
  else if 0xE0 ≤ b ∧ b ≤ 0xEF then
    ([], some ⟨2, if b = 0xE0 then 0xA0 else 0x80, if b = 0xED then 0x9F else 0xBF, b % 16,
      by split <;> decide, by split <;> decide⟩)
  else if 0xF0 ≤ b ∧ b ≤ 0xF4 then
    ([], some ⟨3, if b = 0xF0 then 0x90 else 0x80, if b = 0xF4 then 0x8F else 0xBF, b % 8,
      by split <;> decide, by split <;> decide⟩)
  else ([replacement], none)

/-- One byte: the characters it completes, and what has begun after it. -/
def step : Option Pending → Nat → List Char × Option Pending
  | none, b => start b
  | some p, b =>
    if p.lower ≤ b ∧ b ≤ p.upper then
      if p.needed = 1 then ([Char.ofNat (p.value * 64 + b % 64)], none)
      else
        ([], some ⟨p.needed - 1, 0x80, 0xBF, p.value * 64 + b % 64, Nat.le_refl _, Nat.le_refl _⟩)
    else (replacement :: (start b).1, (start b).2)

/-- The bytes that follow, and the end. -/
def decodeFrom : Option Pending → List UInt8 → List Char
  | none, [] => []
  | some _, [] => [replacement]
  | p, b :: bs => (step p b.toNat).1 ++ decodeFrom (step p b.toNat).2 bs

/-- The text of some bytes. -/
def decode (bytes : List UInt8) : List Char := decodeFrom none bytes

/-- The bytes of a text. -/
def encode (text : List Char) : List UInt8 := text.flatMap String.utf8EncodeChar

/-! ## What was encoded is decoded -/

theorem decodeFrom_cons (p : Option Pending) (b : UInt8) (bs : List UInt8) :
    decodeFrom p (b :: bs) = (step p b.toNat).1 ++ decodeFrom (step p b.toNat).2 bs := by
  cases p <;> rfl

variable {b : Nat}

theorem start_ascii (h : b ≤ 0x7F) : start b = ([Char.ofNat b], none) := if_pos h

theorem start_two (h : 0xC2 ≤ b ∧ b ≤ 0xDF) :
    ∃ p, start b = ([], some p) ∧ p.needed = 1 ∧ p.lower = 0x80 ∧ p.upper = 0xBF ∧
      p.value = b % 32 := by
  refine ⟨⟨1, 0x80, 0xBF, b % 32, Nat.le_refl _, Nat.le_refl _⟩, ?_, rfl, rfl, rfl, rfl⟩
  rw [start, if_neg (by omega), if_pos h]

theorem start_three (h : 0xE0 ≤ b ∧ b ≤ 0xEF) :
    ∃ p, start b = ([], some p) ∧ p.needed = 2 ∧
      p.lower = (if b = 0xE0 then 0xA0 else 0x80) ∧ p.upper = (if b = 0xED then 0x9F else 0xBF) ∧
      p.value = b % 16 := by
  refine ⟨⟨2, if b = 0xE0 then 0xA0 else 0x80, if b = 0xED then 0x9F else 0xBF, b % 16,
    by split <;> decide, by split <;> decide⟩, ?_, rfl, rfl, rfl, rfl⟩
  rw [start, if_neg (by omega), if_neg (by omega), if_pos h]

theorem start_four (h : 0xF0 ≤ b ∧ b ≤ 0xF4) :
    ∃ p, start b = ([], some p) ∧ p.needed = 3 ∧
      p.lower = (if b = 0xF0 then 0x90 else 0x80) ∧ p.upper = (if b = 0xF4 then 0x8F else 0xBF) ∧
      p.value = b % 8 := by
  refine ⟨⟨3, if b = 0xF0 then 0x90 else 0x80, if b = 0xF4 then 0x8F else 0xBF, b % 8,
    by split <;> decide, by split <;> decide⟩, ?_, rfl, rfl, rfl, rfl⟩
  rw [start, if_neg (by omega), if_neg (by omega), if_neg (by omega), if_pos h]

theorem decodeFrom_within {p : Pending} (hlow : p.lower ≤ b) (hhigh : b ≤ p.upper)
    (hneeded : p.needed ≠ 1) (bs : List UInt8) :
    ∃ q, decodeFrom (some p) (UInt8.ofNat b :: bs) = decodeFrom (some q) bs ∧
      q.needed = p.needed - 1 ∧ q.lower = 0x80 ∧ q.upper = 0xBF ∧
      q.value = p.value * 64 + b % 64 := by
  have hsmall : b < 256 := by have := p.le_upper; omega
  have hbyte : (UInt8.ofNat b).toNat = b := UInt8.toNat_ofNat_of_lt hsmall
  refine ⟨⟨p.needed - 1, 0x80, 0xBF, p.value * 64 + b % 64, Nat.le_refl _, Nat.le_refl _⟩, ?_,
    rfl, rfl, rfl, rfl⟩
  rw [decodeFrom_cons, hbyte, step, if_pos ⟨hlow, hhigh⟩, if_neg hneeded]
  rfl

theorem decodeFrom_last {p : Pending} (hlow : p.lower ≤ b) (hhigh : b ≤ p.upper)
    (hneeded : p.needed = 1) (bs : List UInt8) :
    decodeFrom (some p) (UInt8.ofNat b :: bs) =
      Char.ofNat (p.value * 64 + b % 64) :: decodeFrom none bs := by
  have hsmall : b < 256 := by have := p.le_upper; omega
  have hbyte : (UInt8.ofNat b).toNat = b := UInt8.toNat_ofNat_of_lt hsmall
  rw [decodeFrom_cons, hbyte, step, if_pos ⟨hlow, hhigh⟩, if_pos hneeded]
  rfl

theorem decodeFrom_start (hb : b < 256) {out : List Char} {p : Option Pending}
    (h : start b = (out, p)) (bs : List UInt8) :
    decodeFrom none (UInt8.ofNat b :: bs) = out ++ decodeFrom p bs := by
  have hbyte : (UInt8.ofNat b).toNat = b := UInt8.toNat_ofNat_of_lt hb
  rw [decodeFrom_cons, hbyte, step, h]

theorem utf8EncodeChar_eq (c : Char) : String.utf8EncodeChar c =
    if c.toNat ≤ 0x7F then [UInt8.ofNat c.toNat]
    else if c.toNat ≤ 0x7FF then
      [UInt8.ofNat (c.toNat / 64 % 32 + 0xC0), UInt8.ofNat (c.toNat % 64 + 0x80)]
    else if c.toNat ≤ 0xFFFF then
      [UInt8.ofNat (c.toNat / 4096 % 16 + 0xE0), UInt8.ofNat (c.toNat / 64 % 64 + 0x80),
        UInt8.ofNat (c.toNat % 64 + 0x80)]
    else [UInt8.ofNat (c.toNat / 262144 % 8 + 0xF0), UInt8.ofNat (c.toNat / 4096 % 64 + 0x80),
      UInt8.ofNat (c.toNat / 64 % 64 + 0x80), UInt8.ofNat (c.toNat % 64 + 0x80)] := rfl

theorem decode_char_append (c : Char) (bs : List UInt8) :
    decodeFrom none (String.utf8EncodeChar c ++ bs) = c :: decodeFrom none bs := by
  have hvalid : c.toNat < 0xD800 ∨ 0xDFFF < c.toNat ∧ c.toNat < 0x110000 := c.valid
  have hchar : Char.ofNat c.toNat = c := Char.ofNat_toNat c
  rw [utf8EncodeChar_eq]
  generalize c.toNat = v at hvalid hchar
  by_cases h1 : v ≤ 0x7F
  · rw [if_pos h1, singleton_append, decodeFrom_start (by omega) (start_ascii h1), hchar]
    rfl
  rw [if_neg h1]
  by_cases h2 : v ≤ 0x7FF
  · obtain ⟨p, hstart, hneeded, hlow, hhigh, hvalue⟩ :=
      start_two (b := v / 64 % 32 + 0xC0) (by omega)
    rw [if_pos h2]
    show decodeFrom none (_ :: _ :: bs) = _
    rw [decodeFrom_start (by omega) hstart, nil_append,
      decodeFrom_last (by omega) (by omega) hneeded, ← hchar]
    congr 2
    omega
  rw [if_neg h2]
  by_cases h3 : v ≤ 0xFFFF
  · obtain ⟨p, hstart, hneeded, hlow, hhigh, hvalue⟩ :=
      start_three (b := v / 4096 % 16 + 0xE0) (by omega)
    obtain ⟨q, hwithin, hneeded', hlow', hhigh', hvalue'⟩ :=
      decodeFrom_within (p := p) (b := v / 64 % 64 + 0x80) (by split at hlow <;> omega)
        (by split at hhigh <;> omega) (by omega) (UInt8.ofNat (v % 64 + 0x80) :: bs)
    rw [if_pos h3]
    show decodeFrom none (_ :: _ :: _ :: bs) = _
    rw [decodeFrom_start (by omega) hstart, nil_append, hwithin,
      decodeFrom_last (by omega) (by omega) (by omega), ← hchar]
    congr 2
    omega
  · obtain ⟨p, hstart, hneeded, hlow, hhigh, hvalue⟩ :=
      start_four (b := v / 262144 % 8 + 0xF0) (by omega)
    obtain ⟨q, hwithin, hneeded', hlow', hhigh', hvalue'⟩ :=
      decodeFrom_within (p := p) (b := v / 4096 % 64 + 0x80) (by split at hlow <;> omega)
        (by split at hhigh <;> omega) (by omega)
        (UInt8.ofNat (v / 64 % 64 + 0x80) :: UInt8.ofNat (v % 64 + 0x80) :: bs)
    obtain ⟨r, hwithin', hneeded'', hlow'', hhigh'', hvalue''⟩ :=
      decodeFrom_within (p := q) (b := v / 64 % 64 + 0x80) (by omega) (by omega) (by omega)
        (UInt8.ofNat (v % 64 + 0x80) :: bs)
    rw [if_neg h3]
    show decodeFrom none (_ :: _ :: _ :: _ :: bs) = _
    rw [decodeFrom_start (by omega) hstart, nil_append, hwithin, hwithin',
      decodeFrom_last (by omega) (by omega) (by omega), ← hchar]
    congr 2
    omega

/-- **What was encoded is decoded**, whatever follows it. -/
theorem decode_encode_append (text : List Char) (bs : List UInt8) :
    decode (encode text ++ bs) = text ++ decode bs := by
  induction text with
  | nil => rfl
  | cons c text ih =>
    show decodeFrom none ((String.utf8EncodeChar c ++ encode text) ++ bs) = _
    rw [append_assoc, decode_char_append]
    exact congrArg (c :: ·) ih

theorem decode_encode (text : List Char) : decode (encode text) = text := by
  have happend := decode_encode_append text []
  rw [append_nil] at happend
  rw [happend]
  exact append_nil text

/-! ## Counting characters -/

/-- A byte that continues a sequence. -/
def isContinuation (b : UInt8) : Bool := 0x80 ≤ b.toNat && b.toNat ≤ 0xBF

/-- How many bytes are none. -/
def starts (bytes : List UInt8) : Nat := bytes.countP fun b => !isContinuation b

/-- The characters that are due for what has begun. -/
def due (p : Option Pending) : Nat := if p.isSome then 1 else 0

theorem due_start (b : Nat) : (start b).1.length + due (start b).2 = 1 := by
  unfold start
  split
  · rfl
  · split
    · rfl
    · split
      · rfl
      · split <;> rfl

theorem due_step (p : Option Pending) (b : UInt8) :
    due p + starts [b] ≤ (step p b.toNat).1.length + due (step p b.toNat).2 := by
  have hone : starts [b] ≤ 1 := countP_le_length
  have hstart := due_start b.toNat
  cases p with
  | none =>
    show 0 + starts [b] ≤ (start b.toNat).1.length + due (start b.toNat).2
    omega
  | some p =>
    show 1 + starts [b] ≤ _
    by_cases hin : p.lower ≤ b.toNat ∧ b.toNat ≤ p.upper
    · have hlow := p.lower_le
      have hhigh := p.le_upper
      have hcontinues : isContinuation b = true :=
        and_eq_true_iff.mpr ⟨decide_eq_true (by omega), decide_eq_true (by omega)⟩
      have hzero : starts [b] = 0 := by
        simp [starts, hcontinues]
      rw [hzero, step, if_pos hin]
      split <;> exact Nat.le_refl _
    · rw [step, if_neg hin]
      show _ ≤ (start b.toNat).1.length + 1 + due (start b.toNat).2
      omega

/-- **There are as many characters as starts**, at least. -/
theorem starts_le_length (p : Option Pending) (bytes : List UInt8) :
    due p + starts bytes ≤ (decodeFrom p bytes).length := by
  induction bytes generalizing p with
  | nil => cases p <;> exact Nat.le_refl _
  | cons b bytes ih =>
    have hstep := due_step p b
    have hrest := ih (step p b.toNat).2
    have hcount : starts ([b] ++ bytes) = starts [b] + starts bytes :=
      countP_append
    rw [singleton_append] at hcount
    rw [decodeFrom_cons, length_append, hcount]
    omega

/-- Bytes that begin inside a character give one character more. -/
theorem starts_lt_length {b : UInt8} (h : isContinuation b = true) (bytes : List UInt8) :
    starts (b :: bytes) < (decode (b :: bytes)).length := by
  have hstart := due_start b.toNat
  have hrest := starts_le_length (start b.toNat).2 bytes
  have hcount : starts (b :: bytes) = starts bytes := by
    simp [starts, h]
  have hdecode : decode (b :: bytes) = (start b.toNat).1 ++ decodeFrom (start b.toNat).2 bytes :=
    decodeFrom_cons none b bytes
  rw [hdecode, length_append, hcount]
  omega

/-- A character begins with a start and goes on with continuations. -/
theorem utf8EncodeChar_shape (c : Char) : ∃ b tail, String.utf8EncodeChar c = b :: tail ∧
    isContinuation b = false ∧ ∀ b' ∈ tail, isContinuation b' = true := by
  have hvalid : c.toNat < 0x110000 := by
    have h : c.toNat < 0xD800 ∨ 0xDFFF < c.toNat ∧ c.toNat < 0x110000 := c.valid
    omega
  have hbyte : ∀ n, n < 256 → (UInt8.ofNat n).toNat = n := fun n h => UInt8.toNat_ofNat_of_lt h
  have htail : ∀ n, isContinuation (UInt8.ofNat (n % 64 + 0x80)) = true := by
    intro n
    unfold isContinuation
    rw [hbyte _ (by omega), and_eq_true_iff]
    exact ⟨decide_eq_true (by omega), decide_eq_true (by omega)⟩
  have hhead : ∀ n, n < 256 → n < 0x80 ∨ 0xBF < n → isContinuation (UInt8.ofNat n) = false := by
    intro n hn h
    unfold isContinuation
    rw [hbyte _ hn, and_eq_false_iff, decide_eq_false_iff_not, decide_eq_false_iff_not]
    omega
  rw [utf8EncodeChar_eq]
  split
  · exact ⟨_, _, rfl, hhead _ (by omega) (.inl (by omega)), fun _ => nofun⟩
  · split
    · refine ⟨_, _, rfl, hhead _ (by omega) (.inr (by omega)), ?_⟩
      exact forall_mem_singleton.mpr (htail _)
    · split
      · refine ⟨_, _, rfl, hhead _ (by omega) (.inr (by omega)), ?_⟩
        exact forall_mem_cons.mpr ⟨htail _, forall_mem_singleton.mpr (htail _)⟩
      · refine ⟨_, _, rfl, hhead _ (by omega) (.inr (by omega)), ?_⟩
        refine forall_mem_cons.mpr ⟨htail _, forall_mem_cons.mpr ⟨htail _, ?_⟩⟩
        exact forall_mem_singleton.mpr (htail _)

theorem starts_encode (text : List Char) : starts (encode text) = text.length := by
  induction text with
  | nil => rfl
  | cons c text ih =>
    obtain ⟨b, tail, hbytes, hhead, htail⟩ := utf8EncodeChar_shape c
    have hcount : starts (encode (c :: text)) = starts (b :: tail) + starts (encode text) := by
      rw [← hbytes]
      exact countP_append
    have hzero : tail.countP (fun b => !isContinuation b) = 0 :=
      countP_eq_zero.mpr fun b' hb' => by rw [htail b' hb']; exact Bool.false_ne_true
    have hone : starts (b :: tail) = 1 := by
      unfold starts
      rw [countP_cons_of_pos (by rw [hhead]; rfl), hzero]
    rw [hcount, hone, ih, length_cons, Nat.add_comm]

/-! ## Cutting encoded text -/

/-- The bytes begin with a character, or there are none. -/
def StartsClean (bytes : List UInt8) : Prop := ∀ b ∈ bytes.head?, isContinuation b = false

instance (bytes : List UInt8) : Decidable (StartsClean bytes) :=
  inferInstanceAs (Decidable (∀ _ ∈ _, _))

/-- **Encoded text cut in front of a character** is text twice. -/
theorem split_encode {text : List Char} {front back : List UInt8} (h : front ++ back = encode text)
    (hback : StartsClean back) :
    ∃ before after, text = before ++ after ∧ front = encode before ∧ back = encode after := by
  induction text generalizing front with
  | nil =>
    obtain ⟨rfl, rfl⟩ := append_eq_nil_iff.mp h
    exact ⟨[], [], rfl, rfl, rfl⟩
  | cons c text ih =>
    have hcons : front ++ back = String.utf8EncodeChar c ++ encode text := h
    rcases append_eq_append_iff.mp hcons with ⟨rest, hrest, hback'⟩ | ⟨rest, rfl, hrest⟩
    · cases front with
      | nil => exact ⟨[], c :: text, rfl, rfl, h⟩
      | cons b front =>
        cases rest with
        | nil =>
          rw [append_nil] at hrest
          exact ⟨[c], text, rfl, by rw [← hrest]; exact (append_nil _).symm, hback'⟩
        | cons b' rest =>
          -- the cut lies inside the character
          obtain ⟨head, tail, hbytes, -, htail⟩ := utf8EncodeChar_shape c
          rw [hbytes] at hrest
          have hmem : b' ∈ tail := by
            rw [(cons.inj hrest).2]
            exact mem_append_right _ (.head _)
          have hclean := hback b' (by rw [hback']; rfl)
          rw [htail b' hmem] at hclean
          nomatch hclean
    · obtain ⟨before, after, rfl, rfl, rfl⟩ := ih hrest.symm
      exact ⟨c :: before, after, rfl, rfl, rfl⟩

variable {chunks : List (List UInt8)}

theorem startsClean_flatten (h : ∀ chunk ∈ chunks, StartsClean chunk) :
    StartsClean chunks.flatten := by
  induction chunks with
  | nil => exact fun _ => nofun
  | cons chunk chunks ih =>
    cases chunk with
    | nil => exact ih fun chunk hchunk => h chunk (.tail _ hchunk)
    | cons b chunk => exact h (b :: chunk) (.head _)

/-- Chunks decoded one by one give a character for every start. -/
theorem starts_flatten_le (chunks : List (List UInt8)) :
    starts chunks.flatten ≤ (chunks.flatMap decode).length := by
  induction chunks with
  | nil => exact Nat.le_refl _
  | cons chunk chunks ih =>
    have hchunk : 0 + starts chunk ≤ (decode chunk).length := starts_le_length none chunk
    have hcount : starts (chunk :: chunks).flatten = starts chunk + starts chunks.flatten :=
      countP_append
    rw [hcount, flatMap_cons, length_append]
    omega

theorem starts_flatten_lt {chunk : List UInt8}
    (hchunk : chunk ∈ chunks) (h : ¬ StartsClean chunk) : starts chunks.flatten < (chunks.flatMap decode).length := by
  induction chunks with
  | nil => nomatch hchunk
  | cons first chunks ih =>
    have hcount : starts (first :: chunks).flatten = starts first + starts chunks.flatten :=
      countP_append
    have hrest := starts_flatten_le chunks
    rw [hcount, flatMap_cons, length_append]
    cases hchunk with
    | head =>
      cases chunk with
      | nil => exact absurd (fun _ => nofun) h
      | cons b bytes =>
        have hcontinues : isContinuation b = true := by
          apply not_eq_false _ |>.mp
          intro hb
          exact h fun b' hb' => Option.some.inj hb' ▸ hb
        have hlt := starts_lt_length hcontinues bytes
        omega
    | tail _ hmem =>
      have hfirst : 0 + starts first ≤ (decode first).length := starts_le_length none first
      have hlt := ih hmem
      omega

/-- **Encoded text in chunks**, each decoded for itself, is the text exactly if every chunk starts
    with a character. -/
theorem decode_chunks_iff {text : List Char}
    (h : chunks.flatten = encode text) :
    chunks.flatMap decode = text ↔ ∀ chunk ∈ chunks, StartsClean chunk := by
  constructor
  · intro htext chunk hchunk
    by_contra hnot
    have hmore := starts_flatten_lt hchunk hnot
    rw [htext, h, starts_encode] at hmore
    omega
  · intro hclean
    induction chunks generalizing text with
    | nil =>
      have hempty := starts_encode text
      rw [← h] at hempty
      exact (length_eq_zero_iff.mp hempty.symm).symm
    | cons chunk chunks ih =>
      obtain ⟨before, after, rfl, rfl, hafter⟩ := split_encode h
        (startsClean_flatten fun chunk hchunk => hclean chunk (.tail _ hchunk))
      rw [flatMap_cons, decode_encode,
        ih hafter fun chunk hchunk => hclean chunk (.tail _ hchunk)]

end NexusCode.Lib.Utf8
