/-
  Every double reads back from its text.

  Seventeen digits lie close enough to a double to round to it (`seventeen_digits`), so the search
  of `JsNumber.shortest` ends with digits that do, and the number grammar reads from each of the
  four layouts the value of the digits that were laid out.

    1. `shortest_spec`    — the digits that are printed round back.
    2. `unsigned_layout`  — the layouts are read.
    3. **`reads_double`** — a double reads back.
-/
import NexusCode.Lib.JsNumberRound
import NexusCode.Lib.JsonRoundTrip

namespace NexusCode.Lib

open JsNumber List Option

namespace JsNumber

/-! ## The digits -/

section Digits

variable {x : ℚ}

theorem ten_zpow_pos (n : ℤ) : (0 : ℚ) < 10 ^ n := zpow_pos (by norm_num) n

theorem abs_closest_sub_le (hx : 0 < x) (n : ℤ) (k : ℕ) :
    |(closest x.num.natAbs x.den n k : ℚ) - x * 10 ^ ((k : ℤ) - n)| ≤ 1 / 2 := by
  obtain ⟨-, hparts⟩ := parts hx
  have hratio := shifted_ratio 10 x.num.natAbs x.den (by decide) (-((k : ℤ) - n))
  rw [hparts, neg_neg, zpow_neg, div_inv_eq_mul] at hratio
  have hclose := abs_divRound_sub_le (x.num.natAbs * 10 ^ ((k : ℤ) - n).toNat)
    (b := x.den * 10 ^ (-((k : ℤ) - n)).toNat) (Nat.mul_pos x.den_pos (by positivity))
  rw [hratio] at hclose
  exact_mod_cast hclose

/-- The closest decimal of `k` digits has `k` digits, or is a power of ten. -/
theorem closest_bounds (hx : 0 < x) {n : ℤ} (hlow : (10 : ℚ) ^ (n - 1) ≤ x) (hhigh : x < 10 ^ n)
    {k : ℕ} (hk : 0 < k) :
    10 ^ (k - 1) ≤ closest x.num.natAbs x.den n k ∧
      closest x.num.natAbs x.den n k ≤ 10 ^ k := by
  have hclose := abs_le.mp (abs_closest_sub_le hx n k)
  have hten : (10 : ℚ) ≠ 0 := by norm_num
  have hpos := ten_zpow_pos ((k : ℤ) - n)
  have h₁ : ((10 ^ (k - 1) : ℕ) : ℚ) ≤ x * 10 ^ ((k : ℤ) - n) := by
    calc ((10 ^ (k - 1) : ℕ) : ℚ) = 10 ^ (n - 1) * 10 ^ ((k : ℤ) - n) := by
          rw [← zpow_add₀ hten, show n - 1 + ((k : ℤ) - n) = ((k - 1 : ℕ) : ℤ) by omega,
            zpow_natCast]
          push_cast
          rfl
      _ ≤ _ := by gcongr
  have h₂ : x * 10 ^ ((k : ℤ) - n) < ((10 ^ k : ℕ) : ℚ) := by
    calc x * 10 ^ ((k : ℤ) - n) < 10 ^ n * 10 ^ ((k : ℤ) - n) := by gcongr
      _ = ((10 ^ k : ℕ) : ℚ) := by
          rw [← zpow_add₀ hten, show n + ((k : ℤ) - n) = (k : ℤ) by ring, zpow_natCast]
          push_cast
          rfl
  generalize closest x.num.natAbs x.den n k = s at hclose ⊢
  generalize 10 ^ (k - 1) = low at h₁ ⊢
  generalize 10 ^ k = high at h₂ ⊢
  constructor
  · have h : (low : ℚ) < s + 1 := by linarith
    have h' : low < s + 1 := by exact_mod_cast h
    omega
  · have h : (s : ℚ) < high + 1 := by linarith
    have h' : s < high + 1 := by exact_mod_cast h
    omega

/-- **Seventeen digits are close enough.** -/
theorem seventeen_digits (hx : IsDouble x) (hpos : 0 < x) {n : ℤ} (hlow : (10 : ℚ) ^ (n - 1) ≤ x) :
    round (decimalValue (closest x.num.natAbs x.den n 17) n 17) = fin x := by
  refine round_of_near hx hpos ?_
  have hclose := abs_closest_sub_le hpos n 17
  generalize closest x.num.natAbs x.den n 17 = s at hclose ⊢
  have hten : (10 : ℚ) ≠ 0 := by norm_num
  have hunit := ten_zpow_pos (n - 17)
  have hvalue : x = x * 10 ^ (((17 : ℕ) : ℤ) - n) * 10 ^ (n - 17) := by
    rw [mul_assoc, ← zpow_add₀ hten, show ((17 : ℕ) : ℤ) - n + (n - 17) = 0 by push_cast; ring,
      zpow_zero, mul_one]
  rw [decimalValue_eq]
  calc |(s : ℚ) * 10 ^ (n - ((17 : ℕ) : ℤ)) - x|
      = |(s : ℚ) - x * 10 ^ (((17 : ℕ) : ℤ) - n)| * 10 ^ (n - 17) := by
        rw [show (n - ((17 : ℕ) : ℤ)) = n - 17 by push_cast; ring]
        generalize x * 10 ^ (((17 : ℕ) : ℤ) - n) = y at hvalue
        rw [hvalue, ← sub_mul, abs_mul, abs_of_pos hunit]
    _ ≤ 1 / 2 * 10 ^ (n - 17) := by gcongr
    _ < x / 2 ^ 54 := by
        have hsplit : (10 : ℚ) ^ (n - 17) = 10 ^ (n - 1) / 10 ^ 16 := by
          rw [show n - 17 = n - 1 - ((16 : ℕ) : ℤ) by push_cast; ring, zpow_sub₀ hten, zpow_natCast]
        rw [hsplit]
        rw [lt_div_iff₀ (by norm_num)]
        norm_num
        linarith

/-- A double is not too small for the search of its decimal point. -/
theorem IsDouble.ge (hx : IsDouble x) (hpos : 0 < x) : (10 : ℚ) ^ (-400 : ℤ) ≤ x := by
  obtain ⟨hvalue, -⟩ := hx.parts hpos
  have hmin : (2 : ℚ) ^ (-1074 : ℤ) ≤ 2 ^ exponent x :=
    zpow_le_zpow_right₀ one_le_two (le_max_right _ _)
  have hsig : (1 : ℚ) ≤ significand x := by
    have hne : significand x ≠ 0 := by
      intro h
      rw [h, Nat.cast_zero, zero_mul] at hvalue
      exact hpos.ne' hvalue
    exact_mod_cast Nat.one_le_iff_ne_zero.mpr hne
  have hpow : (2 : ℕ) ^ 1074 ≤ 10 ^ 400 := by decide +kernel
  have hpow' : (10 : ℚ) ^ (-400 : ℤ) ≤ 2 ^ (-1074 : ℤ) := by
    rw [zpow_neg, zpow_neg]
    refine inv_anti₀ (by positivity) ?_
    rw [show (1074 : ℤ) = ((1074 : ℕ) : ℤ) by rfl, show (400 : ℤ) = ((400 : ℕ) : ℤ) by rfl,
      zpow_natCast, zpow_natCast]
    exact_mod_cast hpow
  calc (10 : ℚ) ^ (-400 : ℤ) ≤ 2 ^ exponent x := hpow'.trans hmin
    _ = 1 * 2 ^ exponent x := (one_mul _).symm
    _ ≤ significand x * 2 ^ exponent x := by gcongr
    _ = x := hvalue.symm

/-- How many indices from `start` on satisfy a condition, without a gap. -/
theorem takeWhile_range' (p : ℕ → Bool) (n : ℕ) : ∀ start : ℕ,
    (∀ i < ((List.range' start n).takeWhile p).length, p (start + i) = true) ∧
      (((List.range' start n).takeWhile p).length < n →
        p (start + ((List.range' start n).takeWhile p).length) = false) := by
  induction n with
  | zero =>
    intro start
    exact ⟨fun _ => nofun, nofun⟩
  | succ n ih =>
    intro start
    rw [range'_succ, takeWhile_cons]
    cases hp : p start with
    | false => exact ⟨fun _ => nofun, fun _ => hp⟩
    | true =>
      obtain ⟨hall, hend⟩ := ih (start + 1)
      rw [if_pos rfl, length_cons]
      refine ⟨fun i hi => ?_, fun h => ?_⟩
      · cases i with
        | zero => exact hp
        | succ i =>
          rw [show start + (i + 1) = start + 1 + i by omega]
          exact hall i (by omega)
      · rw [← Nat.add_assoc, Nat.add_right_comm]
        exact hend (by omega)

/-- **The place of the decimal point.** -/
theorem decimalPoint_spec (hpos : 0 < x) (hge : (10 : ℚ) ^ (-400 : ℤ) ≤ x) :
    (10 : ℚ) ^ (decimalPoint x.num.natAbs x.den - 1) ≤ x ∧
      x < 10 ^ decimalPoint x.num.natAbs x.den := by
  obtain ⟨hnum, hparts⟩ := parts hpos
  have hden : (0 : ℚ) < x.den := Nat.cast_pos.mpr x.den_pos
  generalize x.num.natAbs = a at hnum hparts ⊢
  generalize hb : x.den = b at hden hparts ⊢
  have hb' : 0 < b := by exact_mod_cast hden
  unfold decimalPoint
  split
  · -- the digits of the integer part
    rename_i hle
    have hdiv : 0 < a / b := Nat.div_pos hle hb'
    have hlen : 0 < (Nat.toDigits 10 (a / b)).length := Nat.length_toDigits_pos
    generalize hk : (Nat.toDigits 10 (a / b)).length = k at hlen ⊢
    have hhigh : a / b < 10 ^ k :=
      (Nat.length_toDigits_le_iff (by decide) hlen).mp hk.le
    have hlow : 10 ^ (k - 1) ≤ a / b := by
      rcases Nat.eq_zero_or_pos (k - 1) with h | h
      · rw [h, pow_zero]
        exact hdiv
      · by_contra hlt
        have := (Nat.length_toDigits_le_iff (b := 10) (by decide) h).mpr (not_le.mp hlt)
        omega
    rw [← hparts, show ((k : ℤ) - 1) = ((k - 1 : ℕ) : ℤ) by omega, zpow_natCast, zpow_natCast,
      le_div_iff₀ hden, div_lt_iff₀ hden]
    constructor
    · exact_mod_cast (Nat.le_div_iff_mul_le hb').mp hlow
    · exact_mod_cast (Nat.div_lt_iff_lt_mul hb').mp hhigh
  · -- the zeros after the point
    rename_i hlt
    have hlt' : a < b := not_le.mp hlt
    rw [range_eq_range']
    obtain ⟨hall, hend⟩ := takeWhile_range' (fun z => a * 10 ^ (z + 1) < b) 400 0
    generalize ((List.range' 0 400).takeWhile fun z => a * 10 ^ (z + 1) < b).length = z at hall hend
    have hhigh : a * 10 ^ z < b := by
      cases z with
      | zero => rwa [pow_zero, mul_one]
      | succ z =>
        have h := of_decide_eq_true (hall z (by omega))
        rwa [Nat.zero_add] at h
    have hlow : b ≤ a * 10 ^ (z + 1) := by
      rcases Nat.lt_or_ge z 400 with hz | hz
      · have h := of_decide_eq_false (hend hz)
        rw [Nat.zero_add] at h
        exact not_lt.mp h
      · have hmany : ∀ N : ℕ, (10 : ℚ) ^ (-(N : ℤ)) ≤ x → b ≤ a * 10 ^ N := by
          intro N h
          rw [zpow_neg, zpow_natCast, inv_le_iff_one_le_mul₀ (by positivity), ← hparts,
            div_mul_eq_mul_div, le_div_iff₀ hden, one_mul] at h
          exact_mod_cast h
        exact (hmany 400 hge).trans
          (Nat.mul_le_mul_left a (Nat.pow_le_pow_right (by decide) (by omega)))
    rw [← hparts]
    constructor
    · rw [show -(z : ℤ) - 1 = -((z + 1 : ℕ) : ℤ) by push_cast; ring, zpow_neg, zpow_natCast,
        le_div_iff₀ hden, inv_mul_le_iff₀ (by positivity)]
      rw [mul_comm]
      exact_mod_cast hlow
    · rw [zpow_neg, zpow_natCast, div_lt_iff₀ hden, lt_inv_mul_iff₀ (by positivity)]
      rw [mul_comm]
      exact_mod_cast hhigh

/-- **The digits that are printed** are at most seventeen, and round back. -/
theorem shortest_spec (hx : IsDouble x) (hpos : 0 < x) {n : ℤ} (hlow : (10 : ℚ) ^ (n - 1) ≤ x)
    (hhigh : x < 10 ^ n) : ∃ k, 0 < k ∧ 10 ^ (k - 1) ≤ (shortest x n).1 ∧
      (shortest x n).1 < 10 ^ k ∧
      round (decimalValue (shortest x n).1 (shortest x n).2 k) = fin x := by
  let good := fun k : ℕ =>
    round (decimalValue (closest x.num.natAbs x.den n (k + 1)) n (k + 1)) == fin x
  obtain ⟨j, hj⟩ : ∃ j, (List.range 17).find? good = some j := by
    cases h : (List.range 17).find? good with
    | some j => exact ⟨j, rfl⟩
    | none =>
      have hnot := List.find?_eq_none.mp h 16 (by decide)
      exact absurd (beq_iff_eq.mpr (seventeen_digits hx hpos hlow)) hnot
  have hround : round (decimalValue (closest x.num.natAbs x.den n (j + 1)) n (j + 1)) = fin x :=
    beq_iff_eq.mp (List.find?_some (p := good) hj)
  have hshortest : shortest x n =
      if closest x.num.natAbs x.den n (j + 1) = 10 ^ (j + 1) then (10 ^ j, n + 1)
      else (closest x.num.natAbs x.den n (j + 1), n) := by
    show (let k := ((List.range 17).find? good).getD 16 + 1
      let s := closest x.num.natAbs x.den n k
      if s = 10 ^ k then (10 ^ (k - 1), n + 1) else (s, n)) = _
    rw [hj]
    rfl
  obtain ⟨hge, hle⟩ := closest_bounds hpos hlow hhigh (Nat.succ_pos j)
  refine ⟨j + 1, Nat.succ_pos j, ?_⟩
  rw [hshortest]
  split
  · rename_i hpower
    refine ⟨Nat.le_refl _, Nat.pow_lt_pow_right (by decide) (by omega), ?_⟩
    rw [← hround, hpower, decimalValue_eq, decimalValue_eq]
    congr 1
    push_cast
    rw [pow_succ, mul_assoc, show n + 1 - ((j : ℤ) + 1) = n - ((j : ℤ) + 1) + 1 by ring,
      zpow_add_one₀ (by norm_num : (10 : ℚ) ≠ 0)]
    ring
  · rename_i hpower
    exact ⟨hge, lt_of_le_of_ne hle hpower, hround⟩

end Digits

end JsNumber

namespace Json

/-! ## The value of a run of digits -/

/-- A list of decimal digits. -/
def AllDigits (l : List Char) : Prop := ∀ c ∈ l, c.isDigit = true

theorem decimal_append (l m : List Char) :
    decimal (l ++ m) = 10 ^ m.length * decimal l + decimal m := by
  have h : decimal (l ++ m) = Nat.ofDigitChars 10 m (decimal l) := foldl_append
  rw [h, Nat.ofDigitChars_eq_ofDigitChars_zero]
  rfl

theorem decimal_toDigits (s : ℕ) : decimal (Nat.toDigits 10 s) = s := Nat.ofDigitChars_ten_toDigits

theorem decimal_zeros (z : ℕ) : decimal (List.replicate z '0') = 0 := by
  have h : decimal (List.replicate z '0') = 10 ^ z * 0 := Nat.ofDigitChars_replicate_zero
  rw [h, Nat.mul_zero]

theorem decimal_lt {l : List Char} (h : AllDigits l) : decimal l < 10 ^ l.length := by
  induction l using List.reverseRecOn with
  | nil => exact Nat.one_pos
  | append_singleton l c ih =>
    have hl := ih fun d hd => h d (mem_append_left _ hd)
    have hc : c.toNat - 48 < 10 := by
      have hdigit := h c (mem_append_right _ mem_cons_self)
      simp only [Char.isDigit, Bool.and_eq_true, decide_eq_true_eq] at hdigit
      have h' : c.toNat ≤ 57 := hdigit.2
      omega
    have hlast : decimal [c] = c.toNat - 48 := by
      show 10 * 0 + (c.toNat - 48) = _
      omega
    rw [decimal_append, hlast, length_append, length_singleton, pow_one, pow_succ]
    omega

theorem allDigits_toDigits (s : ℕ) : AllDigits (Nat.toDigits 10 s) :=
  fun _ h => Nat.isDigit_of_mem_toDigits (by decide) (by decide) h

theorem allDigits_zeros (z : ℕ) : AllDigits (List.replicate z '0') := by
  intro c hc
  rw [eq_of_mem_replicate hc]
  rfl

/-- A number of `k` digits has `k` digits, the first not zero. -/
theorem toDigits_spec {s k : ℕ} (hk : 0 < k) (hlow : 10 ^ (k - 1) ≤ s) (hhigh : s < 10 ^ k) :
    (Nat.toDigits 10 s).length = k ∧ (Nat.toDigits 10 s).head? ≠ some '0' := by
  have hle := (Nat.length_toDigits_le_iff (b := 10) (by decide) hk).mpr hhigh
  have hlen : (Nat.toDigits 10 s).length = k := by
    by_contra hne
    have hpos : 0 < (Nat.toDigits 10 s).length := Nat.length_toDigits_pos
    have hshort : (Nat.toDigits 10 s).length ≤ k - 1 := by omega
    have := (Nat.length_toDigits_le_iff (by decide) (by omega)).mp hshort
    omega
  refine ⟨hlen, fun hhead => ?_⟩
  have hdigits := allDigits_toDigits s
  have hvalue := decimal_toDigits s
  cases htext : Nat.toDigits 10 s with
  | nil => exact Nat.toDigits_ne_nil htext
  | cons c cs =>
    rw [htext] at hhead hdigits hvalue hlen
    obtain rfl := some.inj hhead
    have htail := decimal_lt fun d hd => hdigits d (mem_cons_of_mem _ hd)
    have hzero : decimal ('0' :: cs) = decimal cs := rfl
    rw [length_cons] at hlen
    rw [hzero] at hvalue
    rw [show cs.length = k - 1 by omega] at htail
    omega

/-! ## The number grammar -/

/-- The optional fraction. -/
def fractionOf : List Char → Option (List Char × List Char)
  | '.' :: t =>
    let ds := t.takeWhile Char.isDigit
    if ds.isEmpty then none else some (ds, t.dropWhile Char.isDigit)
  | t => some ([], t)

/-- The optional exponent. -/
def exponentOf : List Char → Option (Int × List Char)
  | 'e' :: t => exponentPart t
  | 'E' :: t => exponentPart t
  | t => some (0, t)

variable {rest : List Char}

theorem fractionOf_end (h : ∀ c ∈ rest.head?, c ≠ '.') :
    fractionOf rest = some ([], rest) := by
  cases rest with
  | nil => rfl
  | cons c cs =>
    unfold fractionOf
    split
    · rename_i heq
      exact absurd (cons.inj heq).1 (h c rfl)
    · rfl

theorem exponentOf_bind {β : Type} (r : List Char) (g : Int × List Char → Option β) :
    (match r with
      | 'e' :: t => (exponentPart t).bind g
      | 'E' :: t => (exponentPart t).bind g
      | t => g (0, t)) = (exponentOf r).bind g := by
  unfold exponentOf
  split
  · rfl
  · rfl
  · exact (bind_some _ _).symm

theorem unsigned_eq (s : List Char) : unsigned s =
    if (s.takeWhile Char.isDigit).isEmpty ∨ ((s.takeWhile Char.isDigit).head? = some '0' ∧
      1 < (s.takeWhile Char.isDigit).length) then none
    else (fractionOf (s.dropWhile Char.isDigit)).bind fun x => (exponentOf x.2).bind fun y =>
      some (if 0 ≤ y.1 - (x.1.length : ℤ)
        then ((decimal (s.takeWhile Char.isDigit ++ x.1) * 10 ^ (y.1 - (x.1.length : ℤ)).toNat : ℕ) : ℚ)
        else mkRat (decimal (s.takeWhile Char.isDigit ++ x.1)) (10 ^ (-(y.1 - (x.1.length : ℤ))).toNat),
        y.2) := by
  unfold unsigned
  dsimp only
  split
  · rfl
  · generalize s.dropWhile Char.isDigit = rest
    split
    · rename_i t
      unfold fractionOf
      split
      · rename_i hempty
        simp only [hempty, if_true, bind_eq_bind, bind_none]
      · rename_i hsome
        simp only [if_neg hsome, bind_eq_bind, bind_some]
        exact exponentOf_bind _ _
    · rename_i hno
      have hnone : fractionOf rest = some ([], rest) :=
        fractionOf_end fun c hc hpoint => by
          cases rest with
          | nil => cases hc
          | cons d ds =>
            obtain rfl := some.inj hc
            exact hno ds (by rw [hpoint])
      rw [hnone]
      exact exponentOf_bind _ _

theorem unsigned_parts {s ip fp rest₁ rest₂ : List Char} {e : ℤ}
    (hip : s.takeWhile Char.isDigit = ip) (hrest₁ : s.dropWhile Char.isDigit = rest₁)
    (hne : ip ≠ []) (hzero : ip.head? = some '0' → ip.length ≤ 1)
    (hfraction : fractionOf rest₁ = some (fp, rest₂)) (hexponent : exponentOf rest₂ = some (e, rest)) :
    unsigned s = some (decimal (ip ++ fp) * (10 : ℚ) ^ (e - fp.length), rest) := by
  have hok : ¬ (ip.isEmpty = true ∨ ip.head? = some '0' ∧ 1 < ip.length) := by
    rintro (h | ⟨h, hlen⟩)
    · exact hne (List.isEmpty_iff.mp h)
    · have := hzero h
      omega
  rw [unsigned_eq, hip, hrest₁, if_neg hok, hfraction, bind_some, hexponent,
    bind_some, shifted 10 _ (by decide)]
  rfl

/-- The rest does not continue a run of digits. -/
def EndsDigits (rest : List Char) : Prop := ∀ c ∈ rest.head?, c.isDigit = false

theorem span_digits {l : List Char} (hl : AllDigits l) (hrest : EndsDigits rest) :
    (l ++ rest).takeWhile Char.isDigit = l ∧ (l ++ rest).dropWhile Char.isDigit = rest := by
  have hhead : rest.takeWhile Char.isDigit = [] ∧ rest.dropWhile Char.isDigit = rest := by
    cases rest with
    | nil => exact ⟨rfl, rfl⟩
    | cons c cs =>
      have hc := hrest c rfl
      exact ⟨takeWhile_cons_of_neg (by rw [hc]; exact Bool.false_ne_true),
        dropWhile_cons_of_neg (by rw [hc]; exact Bool.false_ne_true)⟩
  constructor
  · rw [takeWhile_append_of_pos hl, hhead.1, append_nil]
  · rw [dropWhile_append_of_pos hl, hhead.2]

theorem EndsNumber.digits (h : EndsNumber rest) : EndsDigits rest :=
  fun c hc => (h c hc).1

theorem exponentOf_end (h : EndsNumber rest) :
    exponentOf rest = some (0, rest) := by
  cases rest with
  | nil => rfl
  | cons c cs =>
    obtain ⟨-, -, he, hE⟩ := h c rfl
    unfold exponentOf
    split
    · rename_i heq
      exact absurd (cons.inj heq).1 he
    · rename_i heq
      exact absurd (cons.inj heq).1 hE
    · rfl

theorem fractionOf_point {fp : List Char} (hfp : AllDigits fp) (hne : fp ≠ [])
    (hrest : EndsDigits rest) : fractionOf ('.' :: (fp ++ rest)) = some (fp, rest) := by
  obtain ⟨htake, hdrop⟩ := span_digits hfp hrest
  show (let ds := (fp ++ rest).takeWhile Char.isDigit
    if ds.isEmpty then none else some (ds, (fp ++ rest).dropWhile Char.isDigit)) = _
  rw [htake, hdrop]
  exact if_neg fun h => hne (List.isEmpty_iff.mp h)

theorem exponentOf_signed {e : ℤ} (hrest : EndsNumber rest) :
    exponentOf ('e' :: (if e < 0 then '-' else '+') :: (Nat.toDigits 10 e.natAbs ++ rest))
      = some (e, rest) := by
  obtain ⟨htake, hdrop⟩ := span_digits (allDigits_toDigits e.natAbs) hrest.digits
  have hne : ¬ (Nat.toDigits 10 e.natAbs).isEmpty = true :=
    fun h => Nat.toDigits_ne_nil (List.isEmpty_iff.mp h)
  show exponentPart _ = _
  split
  · rename_i hneg
    show (let ds := (Nat.toDigits 10 e.natAbs ++ rest).takeWhile Char.isDigit
      if ds.isEmpty then none else some (-(decimal ds : Int), _)) = _
    rw [htake, if_neg hne, decimal_toDigits, hdrop]
    congr 2
    omega
  · rename_i hneg
    show (let ds := (Nat.toDigits 10 e.natAbs ++ rest).takeWhile Char.isDigit
      if ds.isEmpty then none else some ((decimal ds : Int), _)) = _
    rw [htake, if_neg hne, decimal_toDigits, hdrop]
    congr 2
    omega

/-- **The four layouts are read**, with the value of their digits. -/
theorem unsigned_layout {s k : ℕ} {n : ℤ} (hk : 0 < k)
    (hlow : 10 ^ (k - 1) ≤ s) (hhigh : s < 10 ^ k) (hrest : EndsNumber rest) :
    unsigned (layout (Nat.toDigits 10 s) n ++ rest) = some (decimalValue s n k, rest) := by
  obtain ⟨hlen, hhead⟩ := toDigits_spec hk hlow hhigh
  have hdigits := allDigits_toDigits s
  have hvalue := decimal_toDigits s
  rw [decimalValue_eq]
  generalize Nat.toDigits 10 s = digits at hlen hhead hdigits hvalue ⊢
  have hne : digits ≠ [] := by
    rintro rfl
    exact hk.ne hlen
  have hten : (10 : ℚ) ≠ 0 := by norm_num
  have hpoint : ∀ c ∈ rest.head?, c ≠ '.' := fun c hc => (hrest c hc).2.1
  unfold layout
  dsimp only
  rw [hlen]
  split
  · -- an integer
    rename_i h
    have hall : AllDigits (digits ++ List.replicate (n - k).toNat '0') := fun c hc =>
      (mem_append.mp hc).elim (hdigits c) (allDigits_zeros _ c)
    obtain ⟨htake, hdrop⟩ := span_digits hall hrest.digits
    rw [unsigned_parts htake hdrop (append_ne_nil_of_left_ne_nil hne _) ?_
      (fractionOf_end hpoint) (exponentOf_end hrest)]
    · rw [append_nil, decimal_append, decimal_zeros, hvalue, length_replicate,
        length_nil, Nat.cast_zero, sub_zero, zpow_zero, mul_one]
      congr 2
      obtain ⟨z, hz⟩ := Int.eq_ofNat_of_zero_le (show 0 ≤ n - k by omega)
      rw [hz, Int.toNat_natCast, zpow_natCast]
      push_cast
      ring
    · intro hzero
      rw [List.head?_append_of_ne_nil _ hne] at hzero
      exact absurd hzero hhead
  · split
    · -- a point inside the digits
      rename_i h hin
      have hn : n.toNat < k := by omega
      have htakeDigits : AllDigits (digits.take n.toNat) := fun c hc => hdigits c (mem_of_mem_take hc)
      have hdropDigits : AllDigits (digits.drop n.toNat) := fun c hc => hdigits c (mem_of_mem_drop hc)
      have htakeNe : digits.take n.toNat ≠ [] := by
        intro hnil
        have := congrArg List.length hnil
        rw [length_take, length_nil] at this
        omega
      have hdropNe : digits.drop n.toNat ≠ [] := by
        intro hnil
        have := congrArg List.length hnil
        rw [length_drop, length_nil] at this
        omega
      have hends : EndsDigits ('.' :: (digits.drop n.toNat ++ rest)) := fun c hc => by
        rw [← some.inj hc]
        rfl
      obtain ⟨htake, hdrop⟩ := span_digits htakeDigits hends
      rw [append_assoc, cons_append, unsigned_parts htake hdrop htakeNe ?_
        (fractionOf_point hdropDigits hdropNe hrest.digits) (exponentOf_end hrest)]
      · rw [take_append_drop, hvalue, length_drop, hlen,
          show (0 : ℤ) - ((k - n.toNat : ℕ) : ℤ) = n - k by omega]
      · intro hzero
        rw [List.head?_take, if_neg (by omega)] at hzero
        exact absurd hzero hhead
    · split
      · -- zeros after the point
        rename_i h h' hsmall
        have hall : AllDigits (List.replicate (-n).toNat '0' ++ digits) := fun c hc =>
          (mem_append.mp hc).elim (allDigits_zeros _ c) (hdigits c)
        have hends : EndsDigits ('.' :: ((List.replicate (-n).toNat '0' ++ digits) ++ rest)) :=
          fun c hc => by
            rw [← some.inj hc]
            rfl
        obtain ⟨htake, hdrop⟩ := span_digits (allDigits_zeros 1) hends
        show unsigned (List.replicate 1 '0' ++ ('.' :: ((List.replicate (-n).toNat '0' ++ digits)
          ++ rest))) = _
        rw [unsigned_parts htake hdrop (cons_ne_nil _ _) (fun _ => Nat.le_refl 1)
          (fractionOf_point hall (append_ne_nil_of_right_ne_nil _ hne) hrest.digits)
          (exponentOf_end hrest)]
        rw [decimal_append, decimal_append, decimal_zeros, decimal_zeros, hvalue,
          length_append, length_replicate, hlen]
        congr 2
        rw [show (0 : ℤ) - (((-n).toNat + k : ℕ) : ℤ) = n - k by omega]
        push_cast
        ring
      · -- an exponent
        rename_i h h' hsmall
        have hends : ∀ t : List Char, EndsDigits ('e' :: t) := fun t c hc => by
          rw [← some.inj hc]
          rfl
        have hsign : (if n - 1 < 0 then '-' else '+') :: Nat.toDigits 10 (n - 1).natAbs ++ rest =
          (if n - 1 < 0 then '-' else '+') :: (Nat.toDigits 10 (n - 1).natAbs ++ rest) := rfl
        cases digits with
        | nil => exact absurd rfl hne
        | cons d ds =>
          have hd : AllDigits [d] := fun c hc =>
            hdigits c (by rw [mem_singleton.mp hc]; exact mem_cons_self)
          have hds : AllDigits ds := fun c hc => hdigits c (mem_cons_of_mem d hc)
          cases ds with
          | nil =>
            obtain ⟨htake, hdrop⟩ := span_digits hd (hends ((if n - 1 < 0 then '-' else '+') ::
              (Nat.toDigits 10 (n - 1).natAbs ++ rest)))
            show unsigned ([d] ++ ('e' :: (if n - 1 < 0 then '-' else '+') ::
              (Nat.toDigits 10 (n - 1).natAbs ++ rest))) = _
            rw [unsigned_parts htake hdrop (cons_ne_nil _ _) (fun _ => Nat.le_refl 1)
              (fractionOf_end fun c hc => by rw [← some.inj hc]; decide)
              (exponentOf_signed hrest)]
            rw [append_nil, hvalue, length_nil, show n - 1 - ((0 : ℕ) : ℤ) = n - k by
              rw [← hlen, length_singleton]
              ring]
          | cons d' ds =>
            have hpt : EndsDigits ('.' :: ((d' :: ds) ++ ('e' :: (if n - 1 < 0 then '-' else '+') ::
                (Nat.toDigits 10 (n - 1).natAbs ++ rest)))) := fun c hc => by
              rw [← some.inj hc]
              rfl
            obtain ⟨htake, hdrop⟩ := span_digits hd hpt
            have htext : d :: '.' :: ((d' :: ds) ++ 'e' :: (if n - 1 < 0 then '-' else '+') ::
                Nat.toDigits 10 (n - 1).natAbs) ++ rest = [d] ++ ('.' :: ((d' :: ds) ++ ('e' ::
                  (if n - 1 < 0 then '-' else '+') :: (Nat.toDigits 10 (n - 1).natAbs ++ rest)))) := by
              simp only [cons_append, append_assoc, nil_append]
            show unsigned (d :: '.' :: ((d' :: ds) ++ 'e' :: (if n - 1 < 0 then '-' else '+') ::
                Nat.toDigits 10 (n - 1).natAbs) ++ rest) = _
            rw [htext, unsigned_parts htake hdrop (cons_ne_nil _ _) (fun _ => Nat.le_refl 1)
              (fractionOf_point hds (cons_ne_nil _ _) (hends _)) (exponentOf_signed hrest),
              show [d] ++ d' :: ds = d :: d' :: ds from rfl, hvalue,
              show n - 1 - ((d' :: ds).length : ℤ) = n - k by
                rw [← hlen, length_cons (a := d)]
                push_cast
                ring]

/-! ## Doubles -/

theorem layout_head {digits : List Char} (hne : digits ≠ []) (hdigits : AllDigits digits) (n : ℤ) :
    ∃ c cs, layout digits n = c :: cs ∧ c.isDigit = true := by
  cases digits with
  | nil => exact absurd rfl hne
  | cons d ds =>
    have hd := hdigits d mem_cons_self
    unfold layout
    dsimp only
    split
    · exact ⟨d, _, rfl, hd⟩
    · split
      · rename_i h
        obtain ⟨m, hm⟩ : ∃ m, n.toNat = m + 1 := ⟨n.toNat - 1, by omega⟩
        rw [hm]
        exact ⟨d, _, rfl, hd⟩
      · split
        · exact ⟨'0', _, rfl, rfl⟩
        · cases ds with
          | nil => exact ⟨d, _, rfl, hd⟩
          | cons d' ds => exact ⟨d, _, rfl, hd⟩

/-- The text of a positive double, in front of anything that cannot continue a number. -/
theorem unsigned_printPositive {x : ℚ} (hx : IsDouble x) (hpos : 0 < x) :
    (∃ c cs, printPositive x = c :: cs ∧ c.isDigit = true) ∧
      ∀ rest, EndsNumber rest → ∃ v, unsigned (printPositive x ++ rest) = some (v, rest) ∧
        0 < v ∧ JsNumber.round v = .fin x := by
  obtain ⟨hlow, hhigh⟩ := decimalPoint_spec hpos (hx.ge hpos)
  obtain ⟨k, hk, hge, hlt, hround⟩ := shortest_spec hx hpos hlow hhigh
  refine ⟨layout_head Nat.toDigits_ne_nil (allDigits_toDigits _) _, fun rest hrest => ?_⟩
  refine ⟨_, unsigned_layout hk hge hlt hrest, ?_, hround⟩
  rw [decimalValue_eq]
  have hs : 0 < (shortest x (decimalPoint x.num.natAbs x.den)).1 :=
    lt_of_lt_of_le (Nat.pow_pos (by decide)) hge
  exact mul_pos (Nat.cast_pos.mpr hs) (ten_zpow_pos _)

/-- **Every double reads back.** -/
theorem reads_double {x : ℚ} (hx : IsDouble x) : Reads (.fin x) := by
  refine ⟨rfl, fun rest hrest => ?_⟩
  rcases lt_trichotomy x 0 with hneg | rfl | hpos
  · have hpos : 0 < -x := neg_pos.mpr hneg
    have hnum : x.num < 0 := Rat.num_neg.mpr hneg
    obtain ⟨-, hread⟩ := unsigned_printPositive hx.neg hpos
    obtain ⟨v, hunsigned, hv, hround⟩ := hread rest hrest
    have htext : (JsNumber.fin x).toChars = '-' :: printPositive (-x) := by
      show (if x = 0 then _ else if x.num < 0 then _ else _) = _
      rw [if_neg hneg.ne, if_pos hnum]
    have hminus : JsNumber.round (-v) = .fin x := by
      rw [round_eq hv] at hround
      split at hround
      · nomatch hround
      · rename_i hbound
        rw [round_neg hv, if_neg hbound, fin.inj hround, neg_neg]
    rw [htext]
    show (unsigned (printPositive (-x) ++ rest)).map _ = _
    rw [hunsigned, map_some, hminus]
  · exact (reads_digit (d := 0) (by decide)).2 rest hrest
  · have hnum : ¬ x.num < 0 := not_lt.mpr (Rat.num_pos.mpr hpos).le
    obtain ⟨⟨c, cs, hhead, hdigit⟩, hread⟩ := unsigned_printPositive hx hpos
    obtain ⟨v, hunsigned, -, hround⟩ := hread rest hrest
    have htext : (JsNumber.fin x).toChars = printPositive x := by
      show (if x = 0 then _ else if x.num < 0 then _ else _) = _
      rw [if_neg hpos.ne', if_neg hnum]
    rw [htext]
    have hnumber : number (printPositive x ++ rest) =
        (unsigned (printPositive x ++ rest)).map fun r => (num (JsNumber.round r.1), r.2) := by
      rw [hhead]
      unfold number
      split
      · rename_i heq
        rw [(cons.inj heq).1] at hdigit
        exact absurd hdigit (by decide)
      · rfl
    rw [hnumber, hunsigned, map_some, hround]

end Json

end NexusCode.Lib
