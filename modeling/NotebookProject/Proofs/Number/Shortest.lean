import NotebookProject.Proofs.Number.Rounding

/-!
# Shortest decimals

The decimal that stands for a number reads back as that number. It is either found by trying it,
or it has all digits of the number; and zeros at the end of the digits can be dropped, since a
decimal is read by its value alone.
-/

namespace NotebookProject.Binary64

/-! ## Reading decimals -/

theorem digitCount_pos (n : Nat) : 0 < digitCount n := Nat.length_toDigits_pos

theorem digitCount_le_iff {n k : Nat} (hk : 0 < k) : digitCount n ≤ k ↔ n < tenTo k :=
  Nat.length_toDigits_le_iff (by decide) hk

theorem digitCount_mul_ten {n : Nat} (hn : 0 < n) : digitCount (n * 10) = digitCount n + 1 := by
  have hdigits : Nat.toDigits 10 (10 * n + 0) = Nat.toDigits 10 n ++ Nat.toDigits 10 0 :=
    (Nat.toDigits_append_toDigits (by decide) hn (by decide)).symm
  rw [Nat.add_zero, Nat.mul_comm] at hdigits
  unfold digitCount
  rw [hdigits]
  simp

theorem digitCount_mul_tenTo {n : Nat} (hn : 0 < n) (k : Nat) :
    digitCount (n * tenTo k) = digitCount n + k := by
  induction k with
  | zero => simp
  | succ k ih =>
    have hmul : n * tenTo (k + 1) = n * tenTo k * 10 := by
      rw [tenTo_succ]
      ring
    rw [hmul, digitCount_mul_ten (Nat.mul_pos hn (tenTo_pos k)), ih]
    omega

/-- Zeros can be moved from the exponent to the digits. -/
theorem ofDecimal_mul_tenTo (negative : Bool) (digits k : Nat) (exponent : Int) :
    ofDecimal negative (digits * tenTo k) (exponent - k) = ofDecimal negative digits exponent := by
  obtain rfl | hdigits := Nat.eq_zero_or_pos digits
  · simp [ofDecimal]
  have hzero : (digits * tenTo k == 0) = (digits == 0) := by
    simp [hdigits.ne', (tenTo_pos k).ne']
  have hmagnitude : ((digitCount digits + k : Nat) : Int) + (exponent - k) =
      digitCount digits + exponent := by omega
  have hratio : ofRatio negative (digits * tenTo k * tenTo (exponent - k).toNat)
      (tenTo (-(exponent - k)).toNat) =
      ofRatio negative (digits * tenTo exponent.toNat) (tenTo (-exponent).toNat) := by
    apply ofRatio_congr negative _ (tenTo_pos _) (tenTo_pos _)
    have hpowers : tenTo k * tenTo (exponent - k).toNat * tenTo (-exponent).toNat =
        tenTo exponent.toNat * tenTo (-(exponent - k)).toNat := by
      rw [← tenTo_add, ← tenTo_add, ← tenTo_add]
      congr 1
      omega
    rw [Nat.mul_assoc, Nat.mul_assoc, Nat.mul_assoc, ← hpowers, Nat.mul_assoc]
  simp only [ofDecimal, digitCount_mul_tenTo hdigits, hzero, hmagnitude, hratio]

theorem canonical_of_ofDecimal {negative : Bool} {digits : Nat} {exponent : Int} {x : Binary64}
    (h : ofDecimal negative digits exponent = some x) : x.Canonical := by
  simp only [ofDecimal] at h
  split at h
  · obtain rfl := Option.some.inj h
    exact canonical_zero negative
  split at h
  · exact absurd h (by simp)
  exact canonical_of_ofRatio (tenTo_pos _) h

/-- Decimals of moderate size are read by their quotient. -/
theorem ofDecimal_eq_ofRatio (negative : Bool) {digits : Nat} (exponent : Int)
    (hdigits : 0 < digits) (hlower : -400 ≤ (digitCount digits : Int) + exponent)
    (hupper : (digitCount digits : Int) + exponent ≤ 400) :
    ofDecimal negative digits exponent =
      ofRatio negative (digits * tenTo exponent.toNat) (tenTo (-exponent).toNat) := by
  have hsmall : ¬ (digitCount digits : Int) + exponent < -400 := by omega
  have hlarge : ¬ 400 < (digitCount digits : Int) + exponent := by omega
  simp [ofDecimal, hdigits.ne', hsmall, hlarge]

/-! ## All digits of a number -/

/-- The `k`th power of five. -/
def fiveTo (k : Nat) : Nat := Nat.pow 5 k

theorem fiveTo_pos (k : Nat) : 0 < fiveTo k := Nat.pow_pos (by decide)

theorem fiveTo_add (j k : Nat) : fiveTo (j + k) = fiveTo j * fiveTo k := Nat.pow_add 5 j k

theorem tenTo_eq (k : Nat) : tenTo k = twoTo k * fiveTo k := Nat.mul_pow 2 5 k

theorem twoTo_le_fiveTo {j k : Nat} (h : j ≤ 2 * k) : twoTo j ≤ fiveTo k := by
  have hfour : ∀ k, twoTo (2 * k) ≤ fiveTo k := by
    intro k
    induction k with
    | zero => decide
    | succ k ih =>
      have hstep : twoTo (2 * (k + 1)) = 4 * twoTo (2 * k) := by
        rw [Nat.mul_add, twoTo_add, Nat.mul_comm]
        rfl
      have hfive : fiveTo (k + 1) = 5 * fiveTo k := by
        rw [fiveTo_add, Nat.mul_comm]
        rfl
      omega
  exact (twoTo_le h).trans (hfour k)

variable {x : Binary64}

/-- The digits of a canonical number are read by their quotient. -/
theorem Canonical.readsBack_exact (h : x.Canonical) (hx : x.isZero = false) :
    x.readsBack x.exact := by
  have hround := h.ofRatio_eq hx
  have hnum := numerator_pos hx
  have hm : x.mantissa ≠ 0 := by simpa [isZero] using hx
  obtain ⟨hbits, hmin, hmax, -⟩ := h
  have hleast : -1074 ≤ x.exponent := hmin
  have hgreatest : x.exponent ≤ 971 := hmax
  have hbits' : x.mantissa ≤ tenTo 53 := hbits.le.trans (Nat.pow_le_pow_left (by decide) 53)
  unfold readsBack exact
  by_cases hexp : 0 ≤ x.exponent
  · have hsize : digitCount x.numerator ≤ 400 := by
      rw [digitCount_le_iff (by decide)]
      have hpower : twoTo x.exponent.toNat < tenTo 347 := by
        calc twoTo x.exponent.toNat ≤ twoTo 971 := twoTo_le (by omega)
          _ < tenTo 347 := by decide +kernel
      calc x.numerator ≤ tenTo 53 * twoTo x.exponent.toNat := Nat.mul_le_mul_right _ hbits'
        _ < tenTo 53 * tenTo 347 := Nat.mul_lt_mul_of_pos_left hpower (tenTo_pos _)
        _ = tenTo 400 := (tenTo_add 53 347).symm
    have hdenominator : x.denominator = 1 := by
      unfold denominator
      rw [show (-x.exponent).toNat = 0 by omega, twoTo_zero]
    have hdecimal := ofDecimal_eq_ofRatio x.negative 0 hnum (by omega) (by omega)
    rw [hdenominator] at hround
    simp only [hexp, ↓reduceIte, hdecimal]
    simpa using hround
  · obtain ⟨k, hk⟩ : ∃ k : Nat, x.exponent = -(k : Int) := ⟨x.exponent.natAbs, by omega⟩
    have hdigits : 0 < x.mantissa * fiveTo k := Nat.mul_pos (Nat.pos_of_ne_zero hm) (fiveTo_pos k)
    have hupper : digitCount (x.mantissa * fiveTo k) ≤ 400 + k := by
      rw [digitCount_le_iff (by omega)]
      have hfive : fiveTo k ≤ tenTo k := Nat.pow_le_pow_left (by decide) k
      calc x.mantissa * fiveTo k ≤ tenTo 53 * tenTo k := Nat.mul_le_mul hbits' hfive
        _ = tenTo (53 + k) := (tenTo_add _ _).symm
        _ < tenTo (400 + k) := Nat.pow_lt_pow_right (by decide) (by omega)
    have hlower : k ≤ digitCount (x.mantissa * fiveTo k) + 400 := by
      by_contra hlt
      have hsome := digitCount_pos (x.mantissa * fiveTo k)
      have hfew := (digitCount_le_iff (k := k - 401) (by omega)).mp
        (show digitCount (x.mantissa * fiveTo k) ≤ k - 401 by omega)
      have hsplit : fiveTo k = fiveTo (k - 401) * fiveTo 401 := by
        rw [← fiveTo_add]
        congr 1
        omega
      have hpower : twoTo (k - 401) ≤ fiveTo 401 := twoTo_le_fiveTo (by omega)
      have hle : tenTo (k - 401) ≤ x.mantissa * fiveTo k := by
        calc tenTo (k - 401) = fiveTo (k - 401) * twoTo (k - 401) := by rw [tenTo_eq, Nat.mul_comm]
          _ ≤ fiveTo (k - 401) * fiveTo 401 := Nat.mul_le_mul_left _ hpower
          _ = fiveTo k := hsplit.symm
          _ ≤ x.mantissa * fiveTo k := Nat.le_mul_of_pos_left _ (Nat.pos_of_ne_zero hm)
      omega
    have hdecimal := ofDecimal_eq_ofRatio x.negative x.exponent hdigits
      (by omega) (by omega)
    have hpositive : x.exponent.toNat = 0 := by omega
    have hnegative : (-x.exponent).toNat = k := by omega
    have hratio : ofRatio x.negative (x.mantissa * fiveTo k) (tenTo k) =
        ofRatio x.negative x.numerator x.denominator := by
      apply ofRatio_congr _ _ (tenTo_pos k) (denominator_pos x)
      unfold numerator denominator
      rw [hpositive, hnegative, twoTo_zero, tenTo_eq]
      ring
    rw [hpositive, hnegative, tenTo_zero, Nat.mul_one, hratio, hround] at hdecimal
    simp only [hexp, ↓reduceIte, hnegative]
    exact beq_iff_eq.mpr hdecimal

/-! ## The shortest decimal -/

theorem readsBack_stripZeros (fuel : Nat) (d : Decimal) :
    x.readsBack (stripZeros fuel d) = x.readsBack d := by
  induction fuel generalizing d with
  | zero => rfl
  | succ fuel ih =>
    unfold stripZeros
    split
    case isTrue hzero =>
      have hmod : d.digits % 10 = 0 := by grind
      have hdigits : d.digits / 10 * tenTo 1 = d.digits :=
        Nat.div_mul_cancel (Nat.dvd_of_mod_eq_zero hmod)
      have hmove := ofDecimal_mul_tenTo x.negative (d.digits / 10) 1 (d.exponent + 1)
      rw [hdigits, show d.exponent + 1 - (1 : Nat) = d.exponent by omega] at hmove
      rw [ih]
      unfold readsBack
      rw [hmove]
    case isFalse => rfl

theorem Canonical.readsBack_shortest (h : x.Canonical) (hx : x.isZero = false) :
    x.readsBack x.shortest := by
  unfold shortest
  rw [readsBack_stripZeros]
  generalize hfound : ((List.range 17).findSome? fun (k : Nat) =>
    (neighbours x.numerator x.denominator
      (decimalExponent x.numerator x.denominator - k)).find? x.readsBack) = found
  cases found with
  | none => exact h.readsBack_exact hx
  | some d =>
    obtain ⟨k, -, hd⟩ := List.exists_of_findSome?_eq_some hfound
    exact List.find?_some hd

/-- The shortest decimal of a number is read as that number. -/
theorem Canonical.ofDecimal_shortest (h : x.Canonical) (hx : x.isZero = false) :
    ofDecimal x.negative x.shortest.digits x.shortest.exponent = some x :=
  beq_iff_eq.mp (h.readsBack_shortest hx)

theorem Canonical.eq_zero (h : x.Canonical) (hx : x.isZero) : x = zero x.negative := by
  have hm : x.mantissa = 0 := by simpa [isZero] using hx
  have hfull := twoTo_pos 52
  have hexp : x.exponent = minExponent := by
    rcases h.2.2.2 with hbits | hexp
    · omega
    · exact hexp
  cases x
  simp_all [zero]

end NotebookProject.Binary64
