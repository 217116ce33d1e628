import Mathlib
import LoxLang.Number.Format

/-!
# Rounding intervals

The decimal that is written for a double lies in the interval of the numbers that round to it. No
number lies in the intervals of two doubles, so a decimal that is written stands for one of them.

* `IsDouble`: the mantissas and exponents of finite doubles, one pair for each magnitude;
* `RoundingInterval.Contains`: a rational number in an interval;
* `contains_unique`: it is in the interval of one double only;
* `shortest_contains`: the shortest decimal is in the interval, even if no grid had a point in it;
* `not_contains_whole`: no whole number is in the interval of a double that is not whole.
-/

namespace LoxLang

/-- The magnitudes of finite doubles. Only the smallest exponent has mantissas without the hidden
bit. -/
structure IsDouble (m : Nat) (q : Int) : Prop where
  mantissa : m < 2 ^ 53
  exponent : Binary64.minExponent ≤ q
  normal : 2 ^ 52 ≤ m ∨ q = Binary64.minExponent

/-- The number that a decimal is. -/
def Decimal.value (d : Decimal) : ℚ := d.digits * 10 ^ d.exponent

theorem cast_powerOfTwo (k : Nat) : (powerOfTwo k : ℚ) = 2 ^ k := Nat.cast_pow 2 k

theorem cast_powerOfTen (k : Nat) : (powerOfTen k : ℚ) = 10 ^ k := Nat.cast_pow 10 k

/-- A power with the exponent taken apart into a numerator and a denominator. -/
theorem zpow_eq_div (b : ℚ) (e : ℤ) : b ^ e = b ^ e.toNat / b ^ (-e).toNat := by
  obtain ⟨k, rfl | rfl⟩ := e.eq_nat_or_neg <;> simp

namespace RoundingInterval

/-- The number is between the ends of the interval, or one of them if they are included. -/
def Contains (r : RoundingInterval) (x : ℚ) : Prop :=
  r.low ≤ x * r.den ∧ x * r.den ≤ r.high ∧
    (r.closed = false → r.low < x * r.den ∧ x * r.den < r.high)

/-! ## Points of a grid -/

theorem holds_iff (r : RoundingInterval) (point : Nat) (e : Int) :
    r.holds point e = true ↔ r.Contains (point * 10 ^ e) := by
  have hpositive : (0 : ℚ) < 10 ^ (-e).toNat := by positivity
  have hscale : (point : ℚ) * 10 ^ e * r.den
      = point * 10 ^ e.toNat * r.den / 10 ^ (-e).toNat := by
    rw [zpow_eq_div]
    ring
  have hcast : ((point * powerOfTen e.toNat * r.den : Nat) : ℚ)
      = point * 10 ^ e.toNat * r.den := by
    push_cast [cast_powerOfTen]
    rfl
  unfold holds Contains
  rw [hscale, le_div_iff₀ hpositive, div_le_iff₀ hpositive, lt_div_iff₀ hpositive,
    div_lt_iff₀ hpositive, ← hcast, ← cast_powerOfTen]
  norm_cast
  cases r.closed
  · simp only [Bool.false_eq_true, if_false, Bool.and_eq_true, decide_eq_true_eq, forall_const]
    omega
  · simp

theorem contains_of_onGrid? {r : RoundingInterval} {tie : Tie} {e : Int} {digits : Nat}
    (h : r.onGrid? tie e = some digits) : r.Contains (digits * 10 ^ e) := by
  rw [← holds_iff]
  unfold onGrid? at h
  dsimp only at h
  split at h
  · cases h
  · cases h
    assumption
  · cases h
    assumption
  · split at h
    · cases h
      assumption
    · split at h
      · cases h
        assumption
      · cases tie with
        | up =>
          cases h
          assumption
        | even =>
          have hparity := Nat.mod_two_eq_zero_or_one
            (r.num * powerOfTen (-e).toNat / (r.den * powerOfTen e.toNat))
          cases h
          obtain hparity | hparity := hparity <;> rw [hparity] <;> assumption

/-- The number that the interval is around. -/
def value (r : RoundingInterval) : ℚ := r.num / r.den

/-- The point of a grid at or below the value. -/
theorem below_value {r : RoundingInterval} (hden : 0 < r.den) (e : Int) :
    let below := r.num * powerOfTen (-e).toNat / (r.den * powerOfTen e.toNat)
    r.value - 10 ^ e < below * 10 ^ e ∧ (below : ℚ) * 10 ^ e ≤ r.value := by
  intro below
  have hpositive : (0 : ℚ) < 10 ^ e := by positivity
  have hden' : (0 : ℚ) < r.den := Nat.cast_pos.mpr hden
  have hquotient : r.value = (r.num * powerOfTen (-e).toNat : Nat)
      / (r.den * powerOfTen e.toNat : Nat) * 10 ^ e := by
    push_cast [cast_powerOfTen, value]
    rw [zpow_eq_div]
    field_simp
  have hscale : (0 : ℚ) < (r.den * powerOfTen e.toNat : Nat) := by
    push_cast [cast_powerOfTen]
    positivity
  have hle : (below : ℚ) ≤ (r.num * powerOfTen (-e).toNat : Nat)
      / (r.den * powerOfTen e.toNat : Nat) := Nat.cast_div_le
  have hlt : ((r.num * powerOfTen (-e).toNat : Nat) : ℚ)
      / (r.den * powerOfTen e.toNat : Nat) < below + 1 := by
    rw [div_lt_iff₀ hscale]
    exact_mod_cast Nat.lt_mul_of_div_lt (Nat.lt_succ_self _) (by exact_mod_cast hscale)
  rw [hquotient]
  constructor
  · nlinarith
  · exact mul_le_mul_of_nonneg_right hle hpositive.le

/-- A search finds a point of the interval, or it ends at the last grid right below the value. -/
theorem search_value {r : RoundingInterval} (hden : 0 < r.den) (tie : Tie) (tries : Nat)
    (e : Int) :
    r.Contains (r.search tie tries e).value ∨
      (r.value - 10 ^ (e - tries) < (r.search tie tries e).value ∧
        (r.search tie tries e).value ≤ r.value) := by
  induction tries generalizing e with
  | zero =>
    rw [Nat.cast_zero, sub_zero]
    exact .inr (below_value hden e)
  | succ tries ih =>
    unfold search
    split
    · rename_i h
      exact .inl (contains_of_onGrid? h)
    · have hnext := ih (e - 1)
      rwa [sub_sub, add_comm, ← Nat.cast_succ] at hnext

/-- A number has a digit for every power of ten up to it. -/
theorem ten_pow_le_of_pos {n : Nat} (h : 0 < n) :
    10 ^ ((Nat.toDigits 10 n).length - 1) ≤ n := by
  obtain hlength | hlength := ((Nat.toDigits 10 n).length - 1).eq_zero_or_pos
  · rw [hlength]
    exact h
  · have hdigits := mt (Nat.length_toDigits_le_iff (n := n) (b := 10) (by norm_num) hlength).mpr
    omega

/-- The power of ten that a search starts at is not above the value. -/
theorem floorLog10_le {num den : Nat} (hnum : 0 < num) (hden : 0 < den) :
    (10 : ℚ) ^ floorLog10 num den ≤ num / den := by
  have hden' : (0 : ℚ) < den := Nat.cast_pos.mpr hden
  unfold floorLog10
  generalize hguess : ((Nat.toDigits 10 num).length : Int) - (Nat.toDigits 10 den).length = guess
  dsimp only
  split
  · rename_i hle
    have hpositive : (0 : ℚ) < 10 ^ (-guess).toNat := by positivity
    rw [zpow_eq_div, div_le_div_iff₀ hpositive hden', ← cast_powerOfTen, ← cast_powerOfTen]
    rw [mul_comm] at hle
    exact_mod_cast hle
  · -- `num` reaches the power of its first digit, and `den` is below the next power of its own.
    have hnum := ten_pow_le_of_pos hnum
    have hden : (den : ℚ) ≤ 10 ^ (Nat.toDigits 10 den).length := by
      exact_mod_cast ((Nat.length_toDigits_le_iff (by norm_num) Nat.length_toDigits_pos).mp
        le_rfl).le
    have hpower : (10 : ℚ) ^ (guess - 1)
        = 10 ^ ((Nat.toDigits 10 num).length - 1) / 10 ^ (Nat.toDigits 10 den).length := by
      rw [← zpow_natCast, ← zpow_natCast, ← zpow_sub₀ (by norm_num), ← hguess,
        Nat.cast_sub Nat.length_toDigits_pos, Nat.cast_one]
      ring_nf
    rw [hpower, div_le_div_iff₀ (by positivity) hden']
    exact mul_le_mul (by exact_mod_cast hnum) hden hden'.le (Nat.cast_nonneg _)

/-! ## The interval of a double -/

section
variable {m m' : Nat} {q q' : Int} {x : ℚ}

theorem den_ofDyadic_pos (m : Nat) (q : Int) : 0 < (ofDyadic m q).den := by
  have hpower : 0 < powerOfTwo (-q).toNat := Nat.pow_pos (by decide)
  exact Nat.mul_pos (by decide) hpower

/-- What is left out of four units below the value. -/
def gap (m : Nat) (q : Int) : Nat :=
  if m = Binary64.hiddenBit ∧ Binary64.minExponent < q then 1 else 2

theorem contains_ofDyadic_iff : (ofDyadic m q).Contains x ↔
    (4 * m - gap m q : Nat) * 2 ^ q ≤ 4 * x ∧ 4 * x ≤ (4 * m + 2) * 2 ^ q ∧
      (m % 2 = 1 → (4 * m - gap m q : Nat) * 2 ^ q < 4 * x ∧ 4 * x < (4 * m + 2) * 2 ^ q) := by
  have hpositive : (0 : ℚ) < 2 ^ (-q).toNat := by positivity
  have hclosed : (ofDyadic m q).closed = false ↔ m % 2 = 1 := by
    simp [ofDyadic]
  have hden : x * (ofDyadic m q).den = 4 * x * 2 ^ (-q).toNat := by
    simp only [ofDyadic]
    push_cast [cast_powerOfTwo]
    ring
  have hlow : ((ofDyadic m q).low : ℚ) = (4 * m - gap m q : Nat) * 2 ^ q.toNat := by
    simp only [ofDyadic, gap]
    push_cast [cast_powerOfTwo]
    rfl
  have hhigh : ((ofDyadic m q).high : ℚ) = (4 * m + 2) * 2 ^ q.toNat := by
    simp only [ofDyadic]
    push_cast [cast_powerOfTwo]
    rfl
  unfold Contains
  rw [hclosed, hden, hlow, hhigh, zpow_eq_div, ← mul_div_assoc, ← mul_div_assoc,
    div_le_iff₀ hpositive, le_div_iff₀ hpositive, div_lt_iff₀ hpositive, lt_div_iff₀ hpositive]

theorem value_ofDyadic (m : Nat) (q : Int) : (ofDyadic m q).value = m * 2 ^ q := by
  simp only [ofDyadic, value]
  push_cast [cast_powerOfTwo]
  rw [zpow_eq_div]
  field_simp

theorem gap_le (m : Nat) (q : Int) : 1 ≤ gap m q ∧ gap m q ≤ 2 := by
  unfold gap
  split <;> omega

/-- A double is in its interval, with the numbers that are less than a quarter of a unit below. -/
theorem contains_of_near (hm : 0 < m) (hlow : (m - 1 / 4) * 2 ^ q < x) (hhigh : x ≤ m * 2 ^ q) :
    (ofDyadic m q).Contains x := by
  have hpositive : (0 : ℚ) < 2 ^ q := by positivity
  have hgap : ((4 * m - gap m q : Nat) : ℚ) ≤ 4 * m - 1 := by
    rw [Nat.cast_sub (by have := gap_le m q; omega)]
    have : (1 : ℚ) ≤ gap m q := by exact_mod_cast (gap_le m q).1
    push_cast
    linarith
  have hbelow : ((4 * m - gap m q : Nat) : ℚ) * 2 ^ q < 4 * x := by nlinarith
  have habove : 4 * x < (4 * m + 2) * 2 ^ q := by nlinarith
  exact contains_ofDyadic_iff.mpr ⟨hbelow.le, habove.le, fun _ => ⟨hbelow, habove⟩⟩

theorem contains_self (m : Nat) (q : Int) : (ofDyadic m q).Contains (m * 2 ^ q) := by
  have hpositive : (0 : ℚ) < 2 ^ q := by positivity
  obtain rfl | hm := m.eq_zero_or_pos
  · rw [contains_ofDyadic_iff]
    simp [hpositive.le]
  · exact contains_of_near hm (by nlinarith) le_rfl

/-! ## One double for a number -/

theorem not_contains_of_lt_mantissa (hlt : m < m') (h : (ofDyadic m q).Contains x)
    (h' : (ofDyadic m' q).Contains x) : False := by
  have hpositive : (0 : ℚ) < 2 ^ q := by positivity
  obtain ⟨-, hhigh, hstrict⟩ := contains_ofDyadic_iff.mp h
  obtain ⟨hlow, -, hstrict'⟩ := contains_ofDyadic_iff.mp h'
  have hends := le_of_mul_le_mul_right (hlow.trans hhigh) hpositive
  have hgap := gap_le m' q
  have hends : 4 * m' - gap m' q ≤ 4 * m + 2 := by exact_mod_cast hends
  -- The intervals have an end in common, which belongs to the one with the even mantissa only.
  have hnext : m' = m + 1 := by omega
  have hcommon : 4 * m' - gap m' q = 4 * m + 2 := by omega
  rw [hcommon] at hlow hstrict'
  push_cast at hlow hstrict'
  obtain heven | hodd := Nat.mod_two_eq_zero_or_one m
  · exact absurd (hstrict' (by omega)).1 hhigh.not_gt
  · exact absurd (hstrict hodd).2 hlow.not_gt

theorem not_contains_of_lt_exponent (hdouble : IsDouble m q) (hdouble' : IsDouble m' q')
    (hlt : q < q') (h : (ofDyadic m q).Contains x) (h' : (ofDyadic m' q').Contains x) : False := by
  have hpositive : (0 : ℚ) < 2 ^ q := by positivity
  obtain ⟨-, hhigh, hstrict⟩ := contains_ofDyadic_iff.mp h
  obtain ⟨hlow, -, -⟩ := contains_ofDyadic_iff.mp h'
  have hmin := hdouble.exponent
  have hmantissa := hdouble.mantissa
  have hnormal : 2 ^ 52 ≤ m' := hdouble'.normal.resolve_right (by omega)
  have hpower : 2 * (2 : ℚ) ^ q ≤ 2 ^ q' := by
    rw [← zpow_one_add₀ (by norm_num)]
    exact zpow_le_zpow_right₀ (by norm_num) (by omega)
  -- Right below a power of two the gap is half as wide, so that it is not left out twice.
  have hgap : 2 ^ 54 ≤ 4 * m' - gap m' q' + 1 := by
    unfold gap Binary64.hiddenBit powerOfTwo
    split
    · omega
    · rename_i hne
      have hne : m' ≠ 2 ^ 52 := fun heq => hne ⟨heq, by omega⟩
      omega
  have hgap : (2 ^ 54 : ℚ) ≤ (4 * m' - gap m' q' : Nat) + 1 := by exact_mod_cast hgap
  have hgap : (2 ^ 54 - 1 : ℚ) ≤ (4 * m' - gap m' q' : Nat) := by linarith
  have hends : (2 ^ 54 - 1) * (2 * (2 : ℚ) ^ q) ≤ 4 * x :=
    (mul_le_mul hgap hpower (by positivity) (Nat.cast_nonneg _)).trans hlow
  have hmantissa : (m : ℚ) ≤ 2 ^ 53 - 1 := by
    have hsucc : (m + 1 : ℚ) ≤ 2 ^ 53 := by exact_mod_cast hmantissa
    linarith only [hsucc]
  obtain hmax | hmax := hmantissa.lt_or_eq
  · have hfar : (4 * m + 2) * (2 : ℚ) ^ q < (4 * (2 ^ 53 - 1) + 2) * 2 ^ q :=
      mul_lt_mul_of_pos_right (by linarith only [hmax]) hpositive
    linarith only [hends, hhigh, hfar]
  · have hodd : m % 2 = 1 := by
      have hm : (m : ℚ) = (2 ^ 53 - 1 : Nat) := by
        rw [hmax]
        norm_num
      rw [Nat.cast_inj.mp hm]
      rfl
    have hfar := (hstrict hodd).2
    rw [hmax] at hfar
    linarith only [hends, hfar]

/-- A number is in the interval of one double only. -/
theorem contains_unique (hdouble : IsDouble m q) (hdouble' : IsDouble m' q')
    (h : (ofDyadic m q).Contains x) (h' : (ofDyadic m' q').Contains x) : m = m' ∧ q = q' := by
  obtain hlt | rfl | hlt := lt_trichotomy q q'
  · exact (not_contains_of_lt_exponent hdouble hdouble' hlt h h').elim
  · obtain hlt | rfl | hlt := lt_trichotomy m m'
    · exact (not_contains_of_lt_mantissa hlt h h').elim
    · exact ⟨rfl, rfl⟩
    · exact (not_contains_of_lt_mantissa hlt h' h).elim
  · exact (not_contains_of_lt_exponent hdouble' hdouble hlt h' h).elim

/-! ## The decimal that is written -/

/-- Trailing zeros do not count. -/
theorem value_stripZeros (steps : Nat) (d : Decimal) : (d.stripZeros steps).value = d.value := by
  induction steps generalizing d with
  | zero => rfl
  | succ steps ih =>
    unfold Decimal.stripZeros
    split
    · rename_i hzero
      rw [ih]
      have hdigits : (d.digits : ℚ) = 10 * (d.digits / 10 : Nat) := by
        exact_mod_cast (Nat.mul_div_cancel' (Nat.dvd_of_mod_eq_zero hzero)).symm
      simp only [Decimal.value]
      rw [hdigits, zpow_add_one₀ (by norm_num)]
      ring
    · rfl

/-- The shortest decimal of a double is in its interval. After the last grid the search ends less
than a quarter of a unit below the value. -/
theorem shortest_contains (hdouble : IsDouble m q) (hm : 0 < m) (tie : Tie) :
    (ofDyadic m q).Contains (shortest tie m q).value := by
  unfold shortest
  rw [value_stripZeros]
  have hden := den_ofDyadic_pos m q
  obtain h | ⟨hlow, hhigh⟩ := search_value hden tie 17
    (floorLog10 (ofDyadic m q).num (ofDyadic m q).den)
  · exact h
  · rw [value_ofDyadic] at hlow hhigh
    refine contains_of_near hm (lt_of_le_of_lt ?_ hlow) hhigh
    have hnum : 0 < (ofDyadic m q).num :=
      Nat.mul_pos (by omega) (Nat.pow_pos (by decide))
    have hfirst := floorLog10_le hnum hden
    have hvalue : ((ofDyadic m q).num : ℚ) / (ofDyadic m q).den = m * 2 ^ q := value_ofDyadic m q
    rw [hvalue] at hfirst
    have hpositive : (0 : ℚ) < 2 ^ q := by positivity
    have hmantissa : (m : ℚ) < 2 ^ 53 := by exact_mod_cast hdouble.mantissa
    rw [zpow_sub₀ (by norm_num), Nat.cast_ofNat]
    have hlast : (10 : ℚ) ^ floorLog10 (ofDyadic m q).num (ofDyadic m q).den / 10 ^ (17 : ℤ)
        ≤ 1 / 4 * 2 ^ q := by
      rw [div_le_iff₀ (by positivity)]
      norm_num
      nlinarith
    linarith

/-- No whole number is in the interval of a double that is not whole. -/
theorem not_contains_whole (hwhole : (Binary64.finite false m q).whole? = none) (n : Nat) :
    ¬ (ofDyadic m q).Contains n := by
  intro h
  cases q with
  | ofNat k => cases hwhole
  | negSucc k =>
    have hpositive : (0 : ℚ) < 2 ^ Int.negSucc k := by positivity
    have hscale : (n : ℚ) = (n * 2 ^ (k + 1) : Nat) * 2 ^ Int.negSucc k := by
      push_cast
      rw [zpow_negSucc, mul_assoc, mul_inv_cancel₀ (by positivity), mul_one]
    obtain ⟨hlow, hhigh, -⟩ := contains_ofDyadic_iff.mp h
    rw [hscale, ← mul_assoc] at hlow hhigh
    have hlow := le_of_mul_le_mul_right hlow hpositive
    have hhigh := le_of_mul_le_mul_right hhigh hpositive
    have hlow : 4 * m - gap m (.negSucc k) ≤ 4 * (n * 2 ^ (k + 1)) := by exact_mod_cast hlow
    have hhigh : 4 * (n * 2 ^ (k + 1)) ≤ 4 * m + 2 := by exact_mod_cast hhigh
    have hgap := gap_le m (.negSucc k)
    have hm : m = n * 2 ^ (k + 1) := by omega
    simp [Binary64.whole?, powerOfTwo, hm] at hwhole

/-- A whole double is that number. -/
theorem cast_of_whole? {n : Nat} (hwhole : (Binary64.finite false m q).whole? = some n) :
    (n : ℚ) = m * 2 ^ q := by
  cases q with
  | ofNat k =>
    cases hwhole
    push_cast [cast_powerOfTwo]
    simp
  | negSucc k =>
    simp only [Binary64.whole?] at hwhole
    split at hwhole
    · rename_i hdvd
      cases hwhole
      have hm : (m : ℚ) = powerOfTwo (k + 1) * (m / powerOfTwo (k + 1) : Nat) := by
        exact_mod_cast (Nat.mul_div_cancel' (Nat.dvd_of_mod_eq_zero hdvd)).symm
      rw [hm, cast_powerOfTwo, zpow_negSucc]
      field_simp
    · cases hwhole

end

end RoundingInterval

end LoxLang
