/-
  Rounding to the nearest double, as a fact about rationals.

  `JsNumber.round` works on natural numbers that are shifted into place.  Here the shifts are
  powers with integer exponents, and what remains is the one fact printing needs:

    **`round_of_near`** — whatever lies closer to a double than `2⁻⁵⁴` of it rounds to that double.

  The exponent of a nearby value is that of the double, or one less when the double is a power of
  two and the value lies below it (`exponent_of_near`).
-/
import NexusCode.Lib.JsNumber
import Mathlib.Tactic.Linarith
import Mathlib.Tactic.NormNum
import Mathlib.Tactic.Positivity
import Mathlib.Tactic.FieldSimp
import Mathlib.Tactic.Ring
import Mathlib.Algebra.Order.Field.Power
import Mathlib.Data.Int.Log
import Mathlib.Data.Rat.Floor
import Mathlib.Data.Rat.Cast.Order

namespace NexusCode.Lib.JsNumber

/-! ## Shifts as powers -/

theorem shifted (c n : ℕ) (hc : 0 < c) (e : ℤ) :
    (if 0 ≤ e then ((n * c ^ e.toNat : ℕ) : ℚ) else mkRat n (c ^ (-e).toNat)) = n * (c : ℚ) ^ e := by
  have hc' : (c : ℚ) ≠ 0 := Nat.cast_ne_zero.mpr hc.ne'
  split
  · rename_i h
    obtain ⟨k, rfl⟩ := Int.eq_ofNat_of_zero_le h
    simp
  · rename_i h
    obtain ⟨k, hk⟩ := Int.eq_ofNat_of_zero_le (show 0 ≤ -e by omega)
    obtain rfl : e = -(k : ℤ) := by omega
    rw [neg_neg, Int.toNat_natCast, Rat.mkRat_eq_div, zpow_neg, zpow_natCast]
    push_cast
    rw [div_eq_mul_inv]

theorem shifted_ratio (c a b : ℕ) (hc : 0 < c) (e : ℤ) :
    ((a * c ^ (-e).toNat : ℕ) : ℚ) / ((b * c ^ e.toNat : ℕ) : ℚ) = a / b / (c : ℚ) ^ e := by
  have hc' : (c : ℚ) ≠ 0 := Nat.cast_ne_zero.mpr hc.ne'
  rcases le_total 0 e with h | h
  · obtain ⟨k, rfl⟩ := Int.eq_ofNat_of_zero_le h
    have hzero : (-(k : ℤ)).toNat = 0 := by omega
    rw [hzero, Int.toNat_natCast, zpow_natCast]
    push_cast
    rw [pow_zero, mul_one, div_div]
  · obtain ⟨k, hk⟩ := Int.eq_ofNat_of_zero_le (show 0 ≤ -e by omega)
    obtain rfl : e = -(k : ℤ) := by omega
    have hzero : (-(k : ℤ)).toNat = 0 := by omega
    rw [hzero, neg_neg, Int.toNat_natCast, zpow_neg, zpow_natCast]
    push_cast
    rw [pow_zero, mul_one, div_inv_eq_mul, div_mul_eq_mul_div]

theorem scale_eq (n : ℕ) (e : ℤ) : scale n e = n * (2 : ℚ) ^ e := shifted 2 n (by decide) e

theorem decimalValue_eq (s : ℕ) (n : ℤ) (k : ℕ) :
    decimalValue s n k = s * (10 : ℚ) ^ (n - k) := shifted 10 s (by decide) (n - k)

/-! ## The nearest integer -/

theorem abs_divRound_sub_le (a : ℕ) {b : ℕ} (hb : 0 < b) :
    |(divRound a b : ℚ) - a / b| ≤ 1 / 2 := by
  have hb' : (0 : ℚ) < b := Nat.cast_pos.mpr hb
  have hdiv := Nat.div_add_mod a b
  have hmod := Nat.mod_lt a hb
  have hnat : 2 * (b * divRound a b) ≤ 2 * a + b ∧ 2 * a ≤ 2 * (b * divRound a b) + b := by
    unfold divRound
    dsimp only
    split
    · omega
    · split
      · rw [Nat.mul_add, Nat.mul_one]
        omega
      · rcases Nat.mod_two_eq_zero_or_one (a / b) with h | h
        · rw [h, Nat.add_zero]
          omega
        · rw [h, Nat.mul_add, Nat.mul_one]
          omega
  have h₁ : 2 * ((b : ℚ) * divRound a b) ≤ 2 * a + b := by exact_mod_cast hnat.1
  have h₂ : 2 * (a : ℚ) ≤ 2 * (b * divRound a b) + b := by exact_mod_cast hnat.2
  have hab : (a : ℚ) / b * b = a := div_mul_cancel₀ _ hb'.ne'
  rw [abs_le]
  constructor <;> nlinarith

theorem divRound_of_near {a b m : ℕ} (hb : 0 < b) (h : |(a : ℚ) / b - m| < 1 / 2) :
    divRound a b = m := by
  have hclose := abs_divRound_sub_le a hb
  rw [abs_lt] at h
  rw [abs_le] at hclose
  have h₁ : (divRound a b : ℚ) < m + 1 := by linarith
  have h₂ : (m : ℚ) < divRound a b + 1 := by linarith
  have h₁' : divRound a b < m + 1 := by exact_mod_cast h₁
  have h₂' : m < divRound a b + 1 := by exact_mod_cast h₂
  omega

/-! ## The exponent -/

theorem ratio_between {a b : ℕ} (ha : 0 < a) (hb : 0 < b) :
    (2 : ℚ) ^ ((Nat.log2 a : ℤ) - Nat.log2 b - 1) < a / b ∧
      (a : ℚ) / b < 2 ^ ((Nat.log2 a : ℤ) - Nat.log2 b + 1) := by
  have hb' : (0 : ℚ) < b := Nat.cast_pos.mpr hb
  have htwo : (2 : ℚ) ≠ 0 := two_ne_zero
  have ha₁ : (2 : ℚ) ^ Nat.log2 a ≤ a := by exact_mod_cast Nat.log2_self_le ha.ne'
  have ha₂ : (a : ℚ) < 2 ^ (Nat.log2 a + 1) := by exact_mod_cast Nat.lt_log2_self
  have hb₁ : (2 : ℚ) ^ Nat.log2 b ≤ b := by exact_mod_cast Nat.log2_self_le hb.ne'
  have hb₂ : (b : ℚ) < 2 ^ (Nat.log2 b + 1) := by exact_mod_cast Nat.lt_log2_self
  have hlower : (2 : ℚ) ^ ((Nat.log2 a : ℤ) - Nat.log2 b - 1)
      = 2 ^ Nat.log2 a / 2 ^ (Nat.log2 b + 1) := by
    rw [show (Nat.log2 a : ℤ) - Nat.log2 b - 1 = (Nat.log2 a : ℤ) - ((Nat.log2 b + 1 : ℕ) : ℤ) by
      push_cast; ring, zpow_sub₀ htwo, zpow_natCast, zpow_natCast]
  have hupper : (2 : ℚ) ^ ((Nat.log2 a : ℤ) - Nat.log2 b + 1)
      = 2 ^ (Nat.log2 a + 1) / 2 ^ Nat.log2 b := by
    rw [show (Nat.log2 a : ℤ) - Nat.log2 b + 1 = ((Nat.log2 a + 1 : ℕ) : ℤ) - (Nat.log2 b : ℤ) by
      push_cast; ring, zpow_sub₀ htwo, zpow_natCast, zpow_natCast]
  rw [hlower, hupper]
  constructor
  · rw [div_lt_div_iff₀ (by positivity) hb']
    calc (2 : ℚ) ^ Nat.log2 a * b ≤ a * b := by gcongr
      _ < a * 2 ^ (Nat.log2 b + 1) := by gcongr
  · rw [div_lt_div_iff₀ hb' (by positivity)]
    calc (a : ℚ) * 2 ^ Nat.log2 b ≤ a * b := by gcongr
      _ < 2 ^ (Nat.log2 a + 1) * b := by gcongr

theorem log2Ratio_eq {a b : ℕ} (ha : 0 < a) (hb : 0 < b) :
    log2Ratio a b = Int.log 2 ((a : ℚ) / b) := by
  have hpos : (0 : ℚ) < a / b := div_pos (Nat.cast_pos.mpr ha) (Nat.cast_pos.mpr hb)
  obtain ⟨hlower, hupper⟩ := ratio_between ha hb
  have hlt : ∀ k : ℤ, a * 2 ^ (-k).toNat < b * 2 ^ k.toNat ↔ (a : ℚ) / b < 2 ^ k := by
    intro k
    have hratio := shifted_ratio 2 a b (by decide) k
    rw [← div_lt_one (by positivity : (0 : ℚ) < (2 : ℚ) ^ k),
      show (2 : ℚ) = ((2 : ℕ) : ℚ) by norm_num, ← hratio, div_lt_one (by positivity)]
    exact_mod_cast Iff.rfl
  have hlog : ∀ k : ℤ, (2 : ℚ) ^ k ≤ a / b → (a : ℚ) / b < 2 ^ (k + 1) →
      k = Int.log 2 ((a : ℚ) / b) := by
    intro k h₁ h₂
    have h₁' := (Int.zpow_le_iff_le_log (b := 2) (by decide) hpos).mp (by exact_mod_cast h₁)
    have h₂' := (Int.lt_zpow_iff_log_lt (b := 2) (by decide) hpos).mp (by exact_mod_cast h₂)
    omega
  unfold log2Ratio
  dsimp only
  split
  · rename_i h
    refine hlog _ hlower.le ?_
    rw [sub_add_cancel]
    exact (hlt _).mp h
  · rename_i h
    exact hlog _ (not_lt.mp fun hx => h ((hlt _).mpr hx)) hupper

/-- The exponent of the doubles around a positive value. -/
def exponent (v : ℚ) : ℤ := max (Int.log 2 v - 52) (-1074)

variable {v : ℚ}

theorem exponent_le (hv : 0 < v) {e : ℤ} (h : v < 2 ^ (e + 53)) (he : -1074 ≤ e) :
    exponent v ≤ e := by
  have hlog := (Int.lt_zpow_iff_log_lt (b := 2) (by decide) hv).mp (by exact_mod_cast h)
  unfold exponent
  omega

theorem le_exponent (hv : 0 < v) {e : ℤ} (h : (2 : ℚ) ^ (e + 52) ≤ v) :
    e ≤ exponent v := by
  have hlog := (Int.zpow_le_iff_le_log (b := 2) (by decide) hv).mp (by exact_mod_cast h)
  unfold exponent
  omega

theorem lt_of_exponent (v : ℚ) : v < 2 ^ (exponent v + 53) := by
  have hlog : v < (2 : ℚ) ^ (Int.log 2 v + 1) := by exact_mod_cast Int.lt_zpow_succ_log_self (by decide : 1 < 2) v
  refine hlog.trans_le (zpow_le_zpow_right₀ one_le_two ?_)
  unfold exponent
  omega

theorem le_of_exponent (hv : 0 < v) (h : -1074 < exponent v) :
    (2 : ℚ) ^ (exponent v + 52) ≤ v := by
  have hlog : (2 : ℚ) ^ Int.log 2 v ≤ v := by exact_mod_cast Int.zpow_log_le_self (by decide : 1 < 2) hv
  have heq : exponent v + 52 = Int.log 2 v := by
    unfold exponent at h ⊢
    omega
  rwa [heq]

/-! ## Rounding -/

theorem parts (hv : 0 < v) :
    0 < v.num.natAbs ∧ (v.num.natAbs : ℚ) / v.den = v := by
  have hnum : 0 < v.num := Rat.num_pos.mpr hv
  refine ⟨Int.natAbs_pos.mpr hnum.ne', ?_⟩
  have hcast : ((v.num.natAbs : ℕ) : ℚ) = v.num := by
    have h : ((v.num.natAbs : ℕ) : ℤ) = v.num := Int.natAbs_of_nonneg hnum.le
    rw [← Int.cast_natCast, h]
  rw [hcast, Rat.num_div_den]

/-- The significand the rounding chooses. -/
def significand (v : ℚ) : ℕ := (nearest v.num.natAbs v.den).1

theorem nearest_eq (hv : 0 < v) :
    nearest v.num.natAbs v.den = (significand v, exponent v) := by
  obtain ⟨hnum, hparts⟩ := parts hv
  have hexp : (nearest v.num.natAbs v.den).2 = exponent v := by
    show max (log2Ratio v.num.natAbs v.den - 52) (-1074) = exponent v
    rw [log2Ratio_eq hnum v.den_pos, hparts]
    rfl
  exact Prod.ext rfl hexp

/-- The significand is the integer next to the value in units of its exponent. -/
theorem significand_of_near (hv : 0 < v) {m : ℕ}
    (h : |v / 2 ^ exponent v - m| < 1 / 2) : significand v = m := by
  obtain ⟨hnum, hparts⟩ := parts hv
  have hexp : max (log2Ratio v.num.natAbs v.den - 52) (-1074) = exponent v := by
    rw [log2Ratio_eq hnum v.den_pos, hparts]
    rfl
  have hratio := shifted_ratio 2 v.num.natAbs v.den (by decide) (exponent v)
  rw [hparts] at hratio
  show divRound (_ * 2 ^ (-(max _ _ : ℤ)).toNat) (_ * 2 ^ (max _ _ : ℤ).toNat) = m
  rw [hexp]
  refine divRound_of_near (Nat.mul_pos v.den_pos (by positivity)) ?_
  rw [hratio]
  exact_mod_cast h

theorem round_eq (hv : 0 < v) :
    round v = if (2 : ℚ) ^ 1024 ≤ significand v * (2 : ℚ) ^ exponent v then inf false
      else fin (significand v * (2 : ℚ) ^ exponent v) := by
  have hneg : ¬ v.num < 0 := not_lt.mpr (Rat.num_pos.mpr hv).le
  unfold round
  rw [if_neg hv.ne', nearest_eq hv]
  dsimp only
  rw [scale_eq, if_neg hneg, decide_eq_false hneg]

theorem round_neg (hv : 0 < v) :
    round (-v) = if (2 : ℚ) ^ 1024 ≤ significand v * (2 : ℚ) ^ exponent v then inf true
      else fin (-(significand v * (2 : ℚ) ^ exponent v)) := by
  have hneg : (-v).num < 0 := Rat.num_neg.mpr (neg_lt_zero.mpr hv)
  unfold round
  rw [if_neg (neg_ne_zero.mpr hv.ne'), Rat.neg_num, Rat.neg_den, Int.natAbs_neg, nearest_eq hv]
  dsimp only
  rw [← Rat.neg_num, scale_eq, if_pos hneg, decide_eq_true hneg]

/-- A finite value is a double. -/
def IsDouble (x : ℚ) : Prop := round x = fin x

variable {x : ℚ}

theorem IsDouble.parts (h : IsDouble x) (hx : 0 < x) :
    x = significand x * (2 : ℚ) ^ exponent x ∧ ¬ (2 : ℚ) ^ 1024 ≤ x := by
  rw [IsDouble, round_eq hx] at h
  split at h
  · nomatch h
  · rename_i hbound
    have hvalue := fin.inj h
    rw [hvalue] at hbound
    exact ⟨hvalue.symm, hbound⟩

theorem IsDouble.neg (h : IsDouble x) : IsDouble (-x) := by
  rcases lt_trichotomy x 0 with hx | rfl | hx
  · have hpos : 0 < -x := neg_pos.mpr hx
    have hround := round_neg hpos
    rw [neg_neg, h] at hround
    split at hround
    · nomatch hround
    · rename_i hbound
      rw [IsDouble, round_eq hpos, if_neg hbound]
      have hvalue := fin.inj hround
      rw [eq_neg_iff_add_eq_zero] at hvalue
      congr 1
      linarith
  · rw [neg_zero]
    exact h
  · obtain ⟨hvalue, hbound⟩ := h.parts hx
    rw [IsDouble, round_neg hx, if_neg (by rwa [← hvalue]), ← hvalue]

/-- **The exponent of a value near a double**: that of the double, or one less below a power of
    two. -/
theorem exponent_of_near (hx : IsDouble x) (hpos : 0 < x) (hv : |v - x| < x / 2 ^ 54) :
    0 < v ∧ (exponent v = exponent x ∨
      exponent v = exponent x - 1 ∧ significand x = 2 ^ 52) := by
  obtain ⟨hvalue, -⟩ := hx.parts hpos
  obtain ⟨m, hm⟩ : ∃ m, m = significand x := ⟨_, rfl⟩
  obtain ⟨e, he⟩ : ∃ e, e = exponent x := ⟨_, rfl⟩
  rw [← hm, ← he] at hvalue
  have hunit : (0 : ℚ) < 2 ^ e := by positivity
  have hmin : -1074 ≤ e := by
    rw [he]
    exact le_max_right _ _
  have htop := lt_of_exponent x
  rw [← he, zpow_add₀ two_ne_zero] at htop
  have hmlt : (m : ℚ) + 1 ≤ 2 ^ 53 := by
    have h : (m : ℚ) < 2 ^ 53 := by
      rw [hvalue, mul_comm] at htop
      exact_mod_cast lt_of_mul_lt_mul_left htop hunit.le
    have h' : m < 2 ^ 53 := by exact_mod_cast h
    exact_mod_cast h'
  rw [abs_lt] at hv
  have hvpos : 0 < v := by
    have : x / 2 ^ 54 < x := div_lt_self hpos (by norm_num)
    linarith
  have hle : exponent v ≤ e := by
    refine exponent_le hvpos ?_ hmin
    rw [zpow_add₀ two_ne_zero]
    have : v < x * (1 + 1 / 2 ^ 54) := by
      have := hv.2
      rw [div_eq_mul_one_div] at this
      linarith
    refine this.trans_le ?_
    rw [hvalue]
    have h53 : (2 : ℚ) ^ (53 : ℤ) = 2 ^ 53 := by norm_num
    rw [h53]
    have : (m : ℚ) * (1 + 1 / 2 ^ 54) ≤ 2 ^ 53 := by
      have h0 : (0 : ℚ) ≤ m := Nat.cast_nonneg m
      norm_num at hmlt ⊢
      linarith
    nlinarith
  refine ⟨hvpos, ?_⟩
  rcases hle.eq_or_lt with heq | hlt
  · left
    rw [heq, he]
  · right
    have hnormal : (2 : ℚ) ^ (e + 52) ≤ x := by
      rw [he]
      refine le_of_exponent hpos ?_
      have : -1074 ≤ exponent v := le_max_right _ _
      omega
    rw [zpow_add₀ two_ne_zero, show (2 : ℚ) ^ (52 : ℤ) = 2 ^ 52 by norm_num] at hnormal
    have hmge : (2 : ℚ) ^ 52 ≤ m := by
      rw [hvalue, mul_comm (m : ℚ)] at hnormal
      exact le_of_mul_le_mul_left hnormal hunit
    have hbelow : v < 2 ^ (e + 52) := by
      refine (lt_of_exponent v).trans_le (zpow_le_zpow_right₀ one_le_two ?_)
      omega
    rw [zpow_add₀ two_ne_zero, show (2 : ℚ) ^ (52 : ℤ) = 2 ^ 52 by norm_num] at hbelow
    have hmle : m ≤ 2 ^ 52 := by
      by_contra hgt
      have hge : (2 : ℚ) ^ 52 + 1 ≤ m := by exact_mod_cast not_le.mp hgt
      have h₁ := hv.1
      rw [hvalue] at h₁
      have hsmall : (m : ℚ) / 2 ^ 54 ≤ 1 := by
        rw [div_le_one (by norm_num)]
        refine (le_add_of_nonneg_right zero_le_one).trans (hmlt.trans ?_)
        norm_num
      have : (2 : ℚ) ^ 52 ≤ m - m / 2 ^ 54 := by linarith
      have : (2 : ℚ) ^ e * 2 ^ 52 ≤ 2 ^ e * (m - m / 2 ^ 54) := by gcongr
      have hring : (2 : ℚ) ^ e * (m - m / 2 ^ 54) = m * 2 ^ e - m * 2 ^ e / 2 ^ 54 := by ring
      linarith
    have hmeq : m = 2 ^ 52 := le_antisymm hmle (by exact_mod_cast hmge)
    refine ⟨?_, hm ▸ hmeq⟩
    rw [← he]
    refine le_antisymm (by omega) (le_exponent hvpos ?_)
    have hhalf : (2 : ℚ) ^ (e - 1 + 52) = 2 ^ e * 2 ^ 51 := by
      rw [show e - 1 + 52 = e + 51 by ring, zpow_add₀ two_ne_zero]
      norm_num
    rw [hhalf]
    have h₁ := hv.1
    rw [hvalue, hmeq] at h₁
    push_cast at h₁
    norm_num at h₁ ⊢
    linarith

/-- **A value near a double rounds to it.** -/
theorem round_of_near (hx : IsDouble x) (hpos : 0 < x) (hv : |v - x| < x / 2 ^ 54) :
    round v = fin x := by
  obtain ⟨hvpos, hexp⟩ := exponent_of_near hx hpos hv
  obtain ⟨hvalue, hbound⟩ := hx.parts hpos
  have hunit : (0 : ℚ) < 2 ^ exponent x := by positivity
  suffices h : (significand v : ℚ) * 2 ^ exponent v = x by
    rw [round_eq hvpos, h, if_neg hbound]
  rcases hexp with heq | ⟨heq, hm⟩
  · -- the same exponent, the same significand
    have hsig : significand v = significand x := by
      refine significand_of_near hvpos ?_
      rw [heq]
      have hx' : x / 2 ^ exponent x = significand x := by
        nth_rewrite 1 [hvalue]
        exact mul_div_cancel_right₀ _ hunit.ne'
      rw [← hx', ← sub_div, abs_div, abs_of_pos hunit, div_lt_iff₀ hunit]
      have htop := lt_of_exponent x
      rw [zpow_add₀ two_ne_zero, show (2 : ℚ) ^ (53 : ℤ) = 2 ^ 53 by norm_num] at htop
      refine hv.trans ?_
      rw [div_lt_iff₀ (by positivity)]
      norm_num at htop ⊢
      linarith
    rw [hsig, heq]
    exact hvalue.symm
  · -- one less, twice the significand
    rw [hm] at hvalue
    generalize exponent x = e at hvalue hunit heq
    have hdouble : (2 : ℚ) ^ exponent v = 2 ^ e / 2 := by
      rw [heq, zpow_sub₀ two_ne_zero, zpow_one]
    have htwice : x = ((2 ^ 53 : ℕ) : ℚ) * (2 ^ e / 2) := by
      rw [hvalue]
      push_cast
      ring
    have hhalf : (0 : ℚ) < 2 ^ e / 2 := by linarith
    have hsig : significand v = 2 ^ 53 := by
      refine significand_of_near hvpos ?_
      rw [hdouble]
      have hx' : x / (2 ^ e / 2) = ((2 ^ 53 : ℕ) : ℚ) := by
        rw [htwice]
        exact mul_div_cancel_right₀ _ hhalf.ne'
      rw [← hx', ← sub_div, abs_div, abs_of_pos hhalf, div_lt_iff₀ hhalf]
      refine hv.trans_eq ?_
      rw [htwice]
      push_cast
      ring
    rw [hsig, hdouble]
    exact htwice.symm

/-! ## Which values are doubles -/

theorem isDouble_of_multiple (hpos : 0 < x) {n : ℕ} (h : x = n * (2 : ℚ) ^ exponent x)
    (hbound : x < 2 ^ 1024) : IsDouble x := by
  have hunit : (0 : ℚ) < 2 ^ exponent x := by positivity
  have hsig : significand x = n := by
    refine significand_of_near hpos ?_
    have hdiv : x / 2 ^ exponent x = n := by
      nth_rewrite 1 [h]
      exact mul_div_cancel_right₀ _ hunit.ne'
    rw [hdiv, sub_self, abs_zero]
    norm_num
  rw [IsDouble, round_eq hpos, hsig, ← h, if_neg (not_le.mpr hbound)]

/-- **Fifty-three bits and an exponent in range** make a double. -/
theorem isDouble_scaled {m : ℕ} {e : ℤ} (hm : m ≤ 2 ^ 53) (he : -1074 ≤ e)
    (hbound : (m : ℚ) * 2 ^ e < 2 ^ 1024) : IsDouble (m * 2 ^ e) := by
  have hunit : (0 : ℚ) < 2 ^ e := by positivity
  rcases Nat.eq_zero_or_pos m with rfl | hmpos
  · rw [Nat.cast_zero, zero_mul]
    rfl
  have hpos : (0 : ℚ) < m * 2 ^ e := mul_pos (Nat.cast_pos.mpr hmpos) hunit
  rcases Nat.lt_or_eq_of_le hm with hlt | rfl
  · -- the exponent of the value is at most `e`
    have hle : exponent ((m : ℚ) * 2 ^ e) ≤ e := by
      refine exponent_le hpos ?_ he
      rw [zpow_add₀ two_ne_zero, mul_comm]
      refine mul_lt_mul_of_pos_left ?_ hunit
      exact_mod_cast hlt
    obtain ⟨d, hd⟩ := Int.eq_ofNat_of_zero_le (sub_nonneg.mpr hle)
    refine isDouble_of_multiple hpos (n := m * 2 ^ d) ?_ hbound
    generalize exponent ((m : ℚ) * 2 ^ e) = e' at hd
    obtain rfl : e = e' + d := by omega
    rw [zpow_add₀ two_ne_zero, zpow_natCast]
    push_cast
    ring
  · -- a power of two
    have hexp : exponent (((2 ^ 53 : ℕ) : ℚ) * 2 ^ e) = e + 1 := by
      have hvalue : (((2 ^ 53 : ℕ) : ℚ) * 2 ^ e) = 2 ^ (e + 53) := by
        rw [zpow_add₀ two_ne_zero]
        push_cast
        ring
      rw [hvalue]
      refine le_antisymm (exponent_le (by positivity) ?_ (by omega)) (le_exponent (by positivity) ?_)
      · exact zpow_lt_zpow_right₀ one_lt_two (by omega)
      · exact zpow_le_zpow_right₀ one_le_two (by omega)
    refine isDouble_of_multiple hpos (n := 2 ^ 52) ?_ hbound
    rw [hexp, zpow_add_one₀ two_ne_zero]
    push_cast
    ring

theorem isDouble_natCast {n : ℕ} (h : n ≤ 2 ^ 53) : IsDouble n := by
  have hscaled := isDouble_scaled (e := 0) h (by decide) (by
    rw [zpow_zero, mul_one]
    calc (n : ℚ) ≤ ((2 ^ 53 : ℕ) : ℚ) := Nat.cast_le.mpr h
      _ = (2 : ℚ) ^ 53 := by push_cast; rfl
      _ < 2 ^ 1024 := pow_lt_pow_right₀ one_lt_two (by decide : 53 < 1024))
  rwa [zpow_zero, mul_one] at hscaled

/-- Rounding a double up gives a double: above `2⁵³` there is nothing to round. -/
theorem isDouble_ceil (h : IsDouble x) : IsDouble ((max 0 ⌈x⌉ : ℤ) : ℚ) := by
  rcases le_or_gt x 0 with hx | hx
  · rw [max_eq_left (Int.ceil_le.mpr (by exact_mod_cast hx))]
    rfl
  obtain ⟨hparts, -⟩ := h.parts hx
  have hceil : 0 ≤ ⌈x⌉ := (Int.ceil_pos.mpr hx).le
  rw [max_eq_right hceil]
  rcases le_or_gt 0 (exponent x) with he | he
  · obtain ⟨n, hn⟩ := Int.eq_ofNat_of_zero_le he
    have hwhole : ((⌈x⌉ : ℤ) : ℚ) = x := by
      have hint : x = ((significand x * 2 ^ n : ℕ) : ℤ) := by
        nth_rewrite 1 [hparts]
        rw [hn]
        push_cast
        rfl
      rw [hint, Int.ceil_intCast]
    rwa [hwhole]
  · -- below `2⁵³` every integer is a double
    have hlt : x < 2 ^ (53 : ℤ) :=
      (lt_of_exponent x).trans_le (zpow_le_zpow_right₀ one_le_two (by omega))
    have hle : ⌈x⌉ ≤ 2 ^ 53 := Int.ceil_le.mpr (by push_cast; exact_mod_cast hlt.le)
    obtain ⟨n, hn⟩ := Int.eq_ofNat_of_zero_le hceil
    rw [hn] at hle ⊢
    exact isDouble_natCast (by exact_mod_cast hle)

end NexusCode.Lib.JsNumber
