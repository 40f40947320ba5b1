import Mathlib.Algebra.Order.Field.Basic
import Mathlib.Data.Rat.Cast.Order
import NotebookProject.Proofs.Number.Shortest

/-!
# Overflow

Rounding to the nearest number of 64 bits gives one just if the quotient is below a limit: the
middle between the greatest of these numbers and the power of two after it. The middle itself goes
to the power of two, which has the even mantissa, and that is past the greatest number. The same
limit holds for decimals, so whether one is read can be said without reading it.

## Main definitions

* `Binary64.limit`: the least quotient that is not rounded to a number.

## Main results

* `Binary64.isSome_ofRatio`: quotients below the limit are rounded to a number.
* `Binary64.isSome_ofDecimal`: so are decimals.
-/

namespace NotebookProject.Binary64

variable {num den : Nat}

/-- The middle between the greatest number and the next power of two, `2 ^ 1024`. -/
def limit : Nat := (twoTo 54 - 1) * twoTo 970

/-! ## The limit -/

theorem twoTo_lt_limit {k : Nat} (h : k ≤ 1023) : twoTo k < limit := by
  have hmantissa : twoTo 53 < twoTo 54 - 1 := by decide
  calc twoTo k ≤ twoTo 1023 := twoTo_le h
    _ = twoTo 53 * twoTo 970 := twoTo_add 53 970
    _ < limit := Nat.mul_lt_mul_of_pos_right hmantissa (twoTo_pos 970)

theorem limit_lt_twoTo : limit < twoTo 1024 := by
  have hmantissa : twoTo 54 - 1 < twoTo 54 := by decide
  calc limit < twoTo 54 * twoTo 970 := Nat.mul_lt_mul_of_pos_right hmantissa (twoTo_pos 970)
    _ = twoTo 1024 := (twoTo_add 54 970).symm

theorem twoTo_mul (j k : Nat) : twoTo (j * k) = Nat.pow (twoTo j) k := Nat.pow_mul 2 j k

theorem tenTo_mul (j k : Nat) : tenTo (j * k) = Nat.pow (tenTo j) k := Nat.pow_mul 10 j k

theorem twoTo_le_tenTo : twoTo 1024 ≤ tenTo 400 := by
  have hbase : twoTo 64 ≤ tenTo 25 := by decide
  calc twoTo 1024 = Nat.pow (twoTo 64) 16 := twoTo_mul 64 16
    _ ≤ Nat.pow (tenTo 25) 16 := Nat.pow_le_pow_left hbase 16
    _ = tenTo 400 := (tenTo_mul 25 16).symm

/-! ## Quotients -/

/-- Half goes up from an odd number. -/
theorem succ_le_roundHalfEven {k : Nat} (hodd : k % 2 = 1) (hden : 0 < den) :
    k + 1 ≤ roundHalfEven num den ↔ (2 * k + 1) * den ≤ 2 * num := by
  obtain ⟨q, r, hr, rfl⟩ : ∃ q r, r < den ∧ num = den * q + r :=
    ⟨num / den, num % den, Nat.mod_lt _ hden, (Nat.div_add_mod num den).symm⟩
  have hdiv : (den * q + r) / den = q := by
    rw [Nat.mul_add_div hden, Nat.div_eq_of_lt hr, Nat.add_zero]
  have hmod : (den * q + r) % den = r := by rw [Nat.mul_add_mod, Nat.mod_eq_of_lt hr]
  unfold roundHalfEven
  dsimp only
  rw [hdiv, hmod]
  rcases Nat.lt_trichotomy q k with hlt | rfl | hgt
  · have hmul : den * (q + 1) ≤ den * k := Nat.mul_le_mul_left _ hlt
    have hbelow : ¬ (2 * k + 1) * den ≤ 2 * (den * q + r) := by nlinarith
    simp only [hbelow, iff_false]
    split_ifs <;> omega
  · have hhalf : (2 * q + 1) * den ≤ 2 * (den * q + r) ↔ den ≤ 2 * r := by
      constructor <;> intro h <;> nlinarith
    simp only [hhalf, hodd, beq_self_eq_true, Bool.and_true, Bool.or_eq_true, decide_eq_true_eq,
      beq_iff_eq]
    split_ifs <;> omega
  · have hmul : den * (k + 1) ≤ den * q := Nat.mul_le_mul_left _ hgt
    have habove : (2 * k + 1) * den ≤ 2 * (den * q + r) := by nlinarith
    simp only [habove, iff_true]
    split_ifs <;> omega

/-- A carry needs room for one exponent more. -/
theorem isSome_ofRatio_of_pos (negative : Bool) (hnum : 0 < num) {m : Nat}
    (hm : roundHalfEven (num * twoTo (-exponentOf num den).toNat)
      (den * twoTo (exponentOf num den).toNat) = m) :
    (ofRatio negative num den).isSome ↔
      exponentOf num den + (if m = twoTo 53 then 1 else 0) ≤ maxExponent := by
  simp only [ofRatio, hm, beq_iff_eq, hnum.ne', ↓reduceIte]
  by_cases hcarry : m = twoTo 53 <;> simp [hcarry]

/-- A quotient is rounded to a number just if it is below the limit. -/
theorem isSome_ofRatio (negative : Bool) (hden : 0 < den) :
    (ofRatio negative num den).isSome ↔ num < limit * den := by
  obtain rfl | hnum := Nat.eq_zero_or_pos num
  · have hpos : 0 < limit * den := Nat.mul_pos ((twoTo_pos 0).trans (twoTo_lt_limit (by decide))) hden
    simp [ofRatio, hpos]
  obtain ⟨g, hreach, hnot⟩ := exists_reaches hnum hden
  have hexp := exponentOf_eq_of_reaches hreach hnot hnum hden
  have hmin : minExponent = -1074 := rfl
  have hmax : maxExponent = 971 := rfl
  rw [isSome_ofRatio_of_pos negative hnum rfl]
  rcases lt_trichotomy g 971 with hlow | rfl | hhigh
  · -- The exponent leaves room for a carry.
    have hbelow : num < limit * den := by
      have hnext : ¬ Reaches num den 971 := fun h => hnot (h.mono (by omega))
      rw [reaches_iff 971 0 (by omega), twoTo_zero, Nat.mul_one, Nat.not_le] at hnext
      have hlimit : twoTo 52 * twoTo 971 ≤ limit := by
        rw [← twoTo_add]
        exact (twoTo_lt_limit (by decide)).le
      calc num < twoTo 52 * den * twoTo 971 := hnext
        _ = twoTo 52 * twoTo 971 * den := by ring
        _ ≤ limit * den := Nat.mul_le_mul_right _ hlimit
    simp only [hbelow, iff_true]
    split_ifs <;> omega
  · -- The mantissa may be carried over to the next exponent, for which there is no room.
    have hlast : exponentOf num den = 971 := by omega
    have hcarry : roundHalfEven (num * twoTo (-971 : Int).toNat) (den * twoTo (971 : Int).toNat) =
        twoTo 53 ↔ ¬ num < limit * den := by
      have hnext : ¬ Reaches num den (971 + 1) := hnot
      rw [reaches_iff 972 0 (by omega), twoTo_zero, Nat.mul_one, Nat.not_le] at hnext
      have hpos : 0 < den * twoTo 971 := Nat.mul_pos hden (twoTo_pos _)
      have hodd : (twoTo 53 - 1) % 2 = 1 := by decide
      have hround : twoTo 53 - 1 + 1 ≤ roundHalfEven num (den * twoTo 971) ↔
          (2 * (twoTo 53 - 1) + 1) * (den * twoTo 971) ≤ 2 * num := succ_le_roundHalfEven hodd hpos
      have hupper : roundHalfEven num (den * twoTo 971) ≤ twoTo 53 := by
        apply roundHalfEven_le _ hpos
        calc num < twoTo 52 * den * twoTo 972 := hnext
          _ = twoTo 53 * (den * twoTo 971) := by
            rw [twoTo_succ 971, twoTo_succ 52]
            ring
      have hlimit : (2 * (twoTo 53 - 1) + 1) * (den * twoTo 971) = 2 * (limit * den) := by
        have hmantissa : 2 * (twoTo 53 - 1) + 1 = twoTo 54 - 1 := by decide
        rw [hmantissa, twoTo_succ 970, limit]
        ring
      have hmantissa : twoTo 53 - 1 + 1 = twoTo 53 := by decide
      rw [hmantissa, hlimit] at hround
      have hzero : (-971 : Int).toNat = 0 := rfl
      have hpower : (971 : Int).toNat = 971 := rfl
      rw [hzero, hpower, twoTo_zero, Nat.mul_one, Nat.not_lt]
      omega
    rw [hlast, hmax]
    simp only [hcarry]
    split_ifs <;> omega
  · -- There is no room at all.
    have habove : ¬ num < limit * den := by
      have hreach' : Reaches num den 972 := hreach.mono (by omega)
      rw [reaches_iff 972 0 (by omega), twoTo_zero, Nat.mul_one] at hreach'
      have hlimit : limit ≤ twoTo 52 * twoTo 972 := by
        rw [← twoTo_add]
        exact limit_lt_twoTo.le
      apply Nat.not_lt.mpr
      calc limit * den ≤ twoTo 52 * twoTo 972 * den := Nat.mul_le_mul_right _ hlimit
        _ = twoTo 52 * den * twoTo 972 := by ring
        _ ≤ num := hreach'
    simp only [habove, iff_false]
    split_ifs <;> omega

/-! ## Decimals -/

variable {digits : Nat} {exponent : Int}

theorem cast_tenTo (k : Nat) : ((tenTo k : Nat) : ℚ) = 10 ^ (k : Int) := by simp [tenTo]

/-- A decimal as the quotient that is rounded. -/
theorem decimal_eq_ratio (digits : Nat) (exponent : Int) :
    (digits : ℚ) * 10 ^ exponent =
      (digits * tenTo exponent.toNat : Nat) / (tenTo (-exponent).toNat : Nat) := by
  rw [Nat.cast_mul, cast_tenTo, cast_tenTo, mul_div_assoc, ← zpow_sub₀ (by norm_num)]
  congr 2
  omega

/-- A decimal is at most the power of ten that its number of digits gives. -/
theorem decimal_le (digits : Nat) (exponent : Int) :
    (digits : ℚ) * 10 ^ exponent ≤ 10 ^ (digitCount digits + exponent) := by
  have hlt : digits < tenTo (digitCount digits) :=
    (digitCount_le_iff (digitCount_pos digits)).mp le_rfl
  have hdigits : (digits : ℚ) ≤ 10 ^ (digitCount digits : Int) := by
    rw [← cast_tenTo]
    exact Nat.cast_le.mpr hlt.le
  rw [zpow_add₀ (by norm_num)]
  exact mul_le_mul_of_nonneg_right hdigits (zpow_nonneg (by norm_num) exponent)

/-- It is at least the power before that one. -/
theorem le_decimal (hdigits : 0 < digits) (exponent : Int) :
    (10 : ℚ) ^ (digitCount digits + exponent - 1) ≤ digits * 10 ^ exponent := by
  obtain ⟨k, hk⟩ : ∃ k, digitCount digits = k + 1 :=
    Nat.exists_eq_succ_of_ne_zero (digitCount_pos digits).ne'
  have hle : tenTo k ≤ digits := by
    obtain rfl | hpos := Nat.eq_zero_or_pos k
    · exact hdigits
    · by_contra hlt
      have hfew := (digitCount_le_iff hpos).mpr (Nat.not_le.mp hlt)
      omega
  have hcast : (10 : ℚ) ^ (k : Int) ≤ digits := by
    rw [← cast_tenTo]
    exact Nat.cast_le.mpr hle
  have hexponent : (digitCount digits + exponent - 1 : Int) = k + exponent := by omega
  rw [hexponent, zpow_add₀ (by norm_num)]
  exact mul_le_mul_of_nonneg_right hcast (zpow_nonneg (by norm_num) exponent)

theorem one_lt_limit : (1 : ℚ) < limit := by
  have hnat : twoTo 0 < limit := twoTo_lt_limit (by decide)
  exact Nat.one_lt_cast.mpr hnat

theorem limit_le : (limit : ℚ) ≤ 10 ^ (400 : Int) := by
  have hnat : limit ≤ tenTo 400 := limit_lt_twoTo.le.trans twoTo_le_tenTo
  calc (limit : ℚ) ≤ (tenTo 400 : Nat) := Nat.cast_le.mpr hnat
    _ = 10 ^ (400 : Int) := cast_tenTo 400

theorem ofDecimal_zero (negative : Bool) (exponent : Int) :
    ofDecimal negative 0 exponent = some (zero negative) := by
  simp [ofDecimal]

theorem ofDecimal_of_small (negative : Bool)
    (h : (digitCount digits : Int) + exponent < -400) :
    ofDecimal negative digits exponent = some (zero negative) := by
  simp [ofDecimal, h]

theorem ofDecimal_of_large (negative : Bool) (hdigits : 0 < digits)
    (h : 400 < (digitCount digits : Int) + exponent) :
    ofDecimal negative digits exponent = none := by
  have hsmall : ¬ (digitCount digits : Int) + exponent < -400 := by omega
  simp [ofDecimal, hdigits.ne', hsmall, h]

/-- A decimal is read as a number just if it is below the limit. -/
theorem isSome_ofDecimal (negative : Bool) (digits : Nat) (exponent : Int) :
    (ofDecimal negative digits exponent).isSome ↔ (digits : ℚ) * 10 ^ exponent < limit := by
  obtain rfl | hdigits := Nat.eq_zero_or_pos digits
  · have hpos : (0 : ℚ) < limit := one_pos.trans one_lt_limit
    rw [ofDecimal_zero, Nat.cast_zero, zero_mul]
    exact iff_of_true rfl hpos
  by_cases hsmall : (digitCount digits : Int) + exponent < -400
  · have hbelow : (digits : ℚ) * 10 ^ exponent < limit := by
      calc (digits : ℚ) * 10 ^ exponent
          ≤ 10 ^ (digitCount digits + exponent) := decimal_le digits exponent
        _ ≤ 10 ^ (0 : Int) := zpow_le_zpow_right₀ (by norm_num) (by omega)
        _ = 1 := zpow_zero _
        _ < limit := one_lt_limit
    rw [ofDecimal_of_small negative hsmall]
    exact iff_of_true rfl hbelow
  by_cases hlarge : 400 < (digitCount digits : Int) + exponent
  · have habove : (limit : ℚ) ≤ digits * 10 ^ exponent := by
      calc (limit : ℚ) ≤ 10 ^ (400 : Int) := limit_le
        _ ≤ 10 ^ (digitCount digits + exponent - 1) :=
          zpow_le_zpow_right₀ (by norm_num) (by omega)
        _ ≤ digits * 10 ^ exponent := le_decimal hdigits exponent
    rw [ofDecimal_of_large negative hdigits hlarge]
    exact iff_of_false (by simp) habove.not_gt
  · have hden : (0 : ℚ) < (tenTo (-exponent).toNat : Nat) := Nat.cast_pos.mpr (tenTo_pos _)
    rw [ofDecimal_eq_ofRatio negative exponent hdigits (by omega) (by omega),
      isSome_ofRatio negative (tenTo_pos _), decimal_eq_ratio, div_lt_iff₀ hden, ← Nat.cast_mul,
      Nat.cast_lt]

end NotebookProject.Binary64
