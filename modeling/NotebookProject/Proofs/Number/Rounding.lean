import Mathlib.Tactic.Ring
import Mathlib.Tactic.Linarith
import NotebookProject.Proofs.Tree.Sound

/-!
# Rounding

What `Binary64.ofRatio` gives is a number in canonical form. It depends on the quotient alone,
not on how that is written, and a canonical number is what its own quotient rounds to. The binary
exponent is found from the lengths of numerator and denominator, which leaves two candidates; it
is characterised here by the range that the quotient lies in, so that neither matters later.

## Main definitions

* `Binary64.Reaches`: the quotient has a mantissa of 53 bits or more at this exponent.
-/

namespace NotebookProject

/-! ## Powers -/

@[simp] theorem twoTo_zero : twoTo 0 = 1 := rfl

theorem twoTo_pos (k : Nat) : 0 < twoTo k := Nat.pow_pos (by decide)

theorem twoTo_add (j k : Nat) : twoTo (j + k) = twoTo j * twoTo k := Nat.pow_add 2 j k

theorem twoTo_succ (k : Nat) : twoTo (k + 1) = 2 * twoTo k := by
  rw [Nat.add_comm, twoTo_add]
  rfl

theorem twoTo_le {j k : Nat} (h : j ≤ k) : twoTo j ≤ twoTo k := Nat.pow_le_pow_right (by decide) h

@[simp] theorem tenTo_zero : tenTo 0 = 1 := rfl

theorem tenTo_pos (k : Nat) : 0 < tenTo k := Nat.pow_pos (by decide)

theorem tenTo_add (j k : Nat) : tenTo (j + k) = tenTo j * tenTo k := Nat.pow_add 10 j k

theorem tenTo_succ (k : Nat) : tenTo (k + 1) = 10 * tenTo k := by
  rw [Nat.add_comm, tenTo_add]
  rfl

namespace Binary64

variable {num den num' den' : Nat} {e e' : Int}

/-! ## The binary exponent -/

/-- The quotient has a mantissa of at least 53 bits at this exponent. -/
def Reaches (num den : Nat) (e : Int) : Prop :=
  twoTo 52 * den * twoTo e.toNat ≤ num * twoTo (-e).toNat

instance : Decidable (Reaches num den e) := inferInstanceAs (Decidable (_ ≤ _))

/-- An exponent can be written as any difference. -/
theorem reaches_iff (p q : Nat) (h : e = (p : Int) - q) :
    Reaches num den e ↔ twoTo 52 * den * twoTo p ≤ num * twoTo q := by
  obtain ⟨k, hp, hq⟩ : ∃ k, p = e.toNat + k ∧ q = (-e).toNat + k := ⟨min p q, by omega, by omega⟩
  have hk := twoTo_pos k
  rw [hp, hq, twoTo_add, twoTo_add, ← Nat.mul_assoc, ← Nat.mul_assoc]
  exact (Nat.mul_le_mul_right_iff hk).symm

theorem Reaches.mono (h : Reaches num den e) (he : e' ≤ e) : Reaches num den e' := by
  obtain ⟨k, hk⟩ : ∃ k : Nat, e = e' + k := ⟨(e - e').toNat, by omega⟩
  rw [reaches_iff e.toNat (-e).toNat (by omega)] at h
  rw [reaches_iff e.toNat ((-e).toNat + k) (by omega), twoTo_add, ← Nat.mul_assoc]
  exact h.trans (Nat.le_mul_of_pos_right _ (twoTo_pos k))

theorem reaches_mul {c : Nat} (hc : 0 < c) :
    Reaches (num * c) (den * c) e ↔ Reaches num den e := by
  unfold Reaches
  have hleft : twoTo 52 * (den * c) * twoTo e.toNat = twoTo 52 * den * twoTo e.toNat * c := by ring
  have hright : num * c * twoTo (-e).toNat = num * twoTo (-e).toNat * c := by ring
  rw [hleft, hright]
  exact Nat.mul_le_mul_right_iff hc

/-- The exponent is the last one that the quotient reaches, unless that is below the least. -/
theorem exponentOf_eq_of_reaches {g : Int} (hreach : Reaches num den g)
    (hnot : ¬ Reaches num den (g + 1)) (hnum : 0 < num) (hden : 0 < den) :
    exponentOf num den = max minExponent g := by
  have hfirst : Reaches num den ((num.log2 : Int) - den.log2 - 52 - 1) := by
    rw [reaches_iff num.log2 (den.log2 + 53) (by omega)]
    have hd : den < twoTo (den.log2 + 1) := Nat.lt_log2_self
    have hn : twoTo num.log2 ≤ num := Nat.log2_self_le hnum.ne'
    calc twoTo 52 * den * twoTo num.log2
        ≤ twoTo 52 * twoTo (den.log2 + 1) * num := Nat.mul_le_mul (Nat.mul_le_mul_left _ hd.le) hn
      _ = num * twoTo (den.log2 + 53) := by
        rw [← twoTo_add, Nat.mul_comm]
        congr 2
        omega
  have hlast : ¬ Reaches num den ((num.log2 : Int) - den.log2 - 52 + 1) := by
    rw [reaches_iff num.log2 (den.log2 + 51) (by omega), Nat.not_le]
    have hd : twoTo den.log2 ≤ den := Nat.log2_self_le hden.ne'
    have hn : num < twoTo (num.log2 + 1) := Nat.lt_log2_self
    calc num * twoTo (den.log2 + 51)
        < twoTo (num.log2 + 1) * twoTo (den.log2 + 51) :=
          Nat.mul_lt_mul_of_pos_right hn (twoTo_pos _)
      _ = twoTo 52 * twoTo den.log2 * twoTo num.log2 := by
        simp only [← twoTo_add]
        congr 1
        omega
      _ ≤ twoTo 52 * den * twoTo num.log2 := by gcongr
  have hupper : g < (num.log2 : Int) - den.log2 - 52 + 1 := by
    by_contra hle
    exact hlast (hreach.mono (by omega))
  have hlower : (num.log2 : Int) - den.log2 - 52 - 1 ≤ g := by
    by_contra hlt
    exact hnot (hfirst.mono (by omega))
  generalize hguess : (num.log2 : Int) - den.log2 - 52 = guess at *
  have hexp : exponentOf num den =
      max minExponent (if Reaches num den guess then guess else guess - 1) := by
    rw [← hguess]
    rfl
  rw [hexp]
  by_cases hfits : Reaches num den guess
  · have hle : guess ≤ g := by
      by_contra hlt
      exact hnot (hfits.mono (by omega))
    rw [if_pos hfits]
    omega
  · have hlt : g < guess := by
      by_contra hle
      exact hfits (hreach.mono (by omega))
    rw [if_neg hfits]
    omega

theorem exists_reaches (hnum : 0 < num) (hden : 0 < den) :
    ∃ g, Reaches num den g ∧ ¬ Reaches num den (g + 1) := by
  by_contra hnone
  push Not at hnone
  -- an exponent that is reached from every one below it would be reached at any height
  have hall : ∀ n : Nat, Reaches num den (-(den * twoTo 52 : Nat) + (n : Int)) := by
    intro n
    induction n with
    | zero =>
      rw [reaches_iff 0 (den * twoTo 52) (by omega)]
      have hlt : den * twoTo 52 < twoTo (den * twoTo 52) := Nat.lt_two_pow_self
      calc twoTo 52 * den * twoTo 0
          ≤ twoTo (den * twoTo 52) := by rw [twoTo_zero, Nat.mul_one, Nat.mul_comm]; exact hlt.le
        _ ≤ num * twoTo (den * twoTo 52) := Nat.le_mul_of_pos_left _ hnum
    | succ n ih =>
      have hnext := hnone _ ih
      rwa [show (-(den * twoTo 52 : Nat) : Int) + ((n + 1 : Nat) : Int) =
        -(den * twoTo 52 : Nat) + (n : Int) + 1 by omega]
  have htop := hall (den * twoTo 52 + num)
  rw [reaches_iff num 0 (by omega), twoTo_zero, Nat.mul_one] at htop
  have hlt : num < twoTo num := Nat.lt_two_pow_self
  have hle : twoTo num ≤ twoTo 52 * den * twoTo num :=
    Nat.le_mul_of_pos_left _ (Nat.mul_pos (twoTo_pos _) hden)
  omega

/-! ## Rounding a quotient -/

theorem roundHalfEven_mul {c : Nat} (hc : 0 < c) :
    roundHalfEven (num * c) (den * c) = roundHalfEven num den := by
  have hmod : 2 * (num * c % (den * c)) = 2 * (num % den) * c := by
    rw [Nat.mul_mod_mul_right, Nat.mul_assoc]
  unfold roundHalfEven
  rw [Nat.mul_div_mul_right _ _ hc, hmod]
  have hlt : den * c < 2 * (num % den) * c ↔ den < 2 * (num % den) := Nat.mul_lt_mul_right hc
  have heq : 2 * (num % den) * c = den * c ↔ 2 * (num % den) = den :=
    Nat.mul_left_inj hc.ne'
  simp only [hlt, heq, beq_eq_decide]

theorem roundHalfEven_mul_self (m : Nat) (hden : 0 < den) : roundHalfEven (m * den) den = m := by
  unfold roundHalfEven
  simp [Nat.mul_div_cancel _ hden, hden.ne]

theorem le_roundHalfEven {m : Nat} (h : m * den ≤ num) (hden : 0 < den) :
    m ≤ roundHalfEven num den := by
  have hdiv : m ≤ num / den := (Nat.le_div_iff_mul_le hden).mpr h
  unfold roundHalfEven
  dsimp only
  split_ifs <;> omega

theorem roundHalfEven_le {m : Nat} (h : num < m * den) (hden : 0 < den) :
    roundHalfEven num den ≤ m := by
  have hdiv : num / den < m := (Nat.div_lt_iff_lt_mul hden).mpr h
  unfold roundHalfEven
  dsimp only
  split_ifs <;> omega

theorem ofRatio_mul {c : Nat} (negative : Bool) (hc : 0 < c) (hden : 0 < den) :
    ofRatio negative (num * c) (den * c) = ofRatio negative num den := by
  obtain rfl | hnum := Nat.eq_zero_or_pos num
  · simp [ofRatio]
  obtain ⟨g, hreach, hnot⟩ := exists_reaches hnum hden
  have hexp : exponentOf (num * c) (den * c) = exponentOf num den := by
    rw [exponentOf_eq_of_reaches hreach hnot hnum hden]
    exact exponentOf_eq_of_reaches ((reaches_mul hc).mpr hreach) (mt (reaches_mul hc).mp hnot)
      (Nat.mul_pos hnum hc) (Nat.mul_pos hden hc)
  have hround : ∀ e : Int, roundHalfEven (num * c * twoTo (-e).toNat) (den * c * twoTo e.toNat) =
      roundHalfEven (num * twoTo (-e).toNat) (den * twoTo e.toNat) := by
    intro e
    rw [Nat.mul_right_comm num, Nat.mul_right_comm den, roundHalfEven_mul hc]
  have hzero : (num * c == 0) = (num == 0) := by
    simp [hnum.ne', hc.ne']
  simp only [ofRatio, hexp, hround, hzero]

/-- Equal quotients round to the same number. -/
theorem ofRatio_congr (negative : Bool) (h : num * den' = num' * den) (hden : 0 < den)
    (hden' : 0 < den') : ofRatio negative num den = ofRatio negative num' den' := by
  calc ofRatio negative num den = ofRatio negative (num * den') (den * den') :=
        (ofRatio_mul negative hden' hden).symm
    _ = ofRatio negative (num' * den) (den' * den) := by rw [h, Nat.mul_comm den]
    _ = ofRatio negative num' den' := ofRatio_mul negative hden hden'

theorem canonical_zero (negative : Bool) : (zero negative).Canonical := by
  refine ⟨twoTo_pos 53, Int.le_refl _, ?_, .inr rfl⟩
  change minExponent ≤ maxExponent
  decide

theorem canonical_of_ofRatio {negative : Bool} {x : Binary64} (hden : 0 < den)
    (h : ofRatio negative num den = some x) : x.Canonical := by
  obtain rfl | hnum := Nat.eq_zero_or_pos num
  · obtain rfl : zero negative = x := by simpa [ofRatio] using h
    exact canonical_zero negative
  obtain ⟨g, hreach, hnot⟩ := exists_reaches hnum hden
  have hexp := exponentOf_eq_of_reaches hreach hnot hnum hden
  generalize hm : roundHalfEven (num * twoTo (-exponentOf num den).toNat)
    (den * twoTo (exponentOf num den).toNat) = m
  have hpos : 0 < den * twoTo (exponentOf num den).toNat := Nat.mul_pos hden (twoTo_pos _)
  have hmin : minExponent ≤ exponentOf num den := by omega
  have hcarry : twoTo 53 = 2 * twoTo 52 := twoTo_succ 52
  have hupper : m ≤ twoTo 53 := by
    have hlt : ¬ Reaches num den (exponentOf num den + 1) := by
      intro hreach'
      exact hnot (hreach'.mono (by omega))
    rw [reaches_iff ((exponentOf num den).toNat + 1) (-exponentOf num den).toNat (by omega),
      Nat.not_le, twoTo_succ (exponentOf num den).toNat] at hlt
    rw [← hm]
    refine roundHalfEven_le (hlt.trans_eq ?_) hpos
    rw [hcarry]
    ring
  have hlower : twoTo 52 ≤ m ∨ exponentOf num den = minExponent := by
    by_cases hg : minExponent ≤ g
    · left
      have hreach' : Reaches num den (exponentOf num den) := by rwa [hexp, max_eq_right hg]
      unfold Reaches at hreach'
      rw [← hm]
      exact le_roundHalfEven ((Nat.mul_assoc _ _ _).symm.trans_le hreach') hpos
    · right
      omega
  have hhalf := twoTo_pos 52
  simp only [ofRatio, hnum.ne', beq_iff_eq, hm, ↓reduceIte] at h
  by_cases htop : m = twoTo 53
  · simp only [htop, ↓reduceIte, Option.ite_none_left_eq_some, Option.some.injEq] at h
    obtain ⟨hmax, rfl⟩ := h
    exact ⟨by dsimp only; omega, by dsimp only; omega, by dsimp only; omega, .inl (Nat.le_refl _)⟩
  · simp only [htop, ↓reduceIte, Option.ite_none_left_eq_some, Option.some.injEq] at h
    obtain ⟨hmax, rfl⟩ := h
    exact ⟨by dsimp only; omega, hmin, by dsimp only; omega, hlower⟩

theorem numerator_pos {x : Binary64} (h : x.isZero = false) : 0 < x.numerator := by
  have hm : x.mantissa ≠ 0 := by simpa [isZero] using h
  exact Nat.mul_pos (Nat.pos_of_ne_zero hm) (twoTo_pos _)

theorem denominator_pos (x : Binary64) : 0 < x.denominator := twoTo_pos _

/-- A canonical number is the one that its own quotient rounds to. -/
theorem Canonical.ofRatio_eq {x : Binary64} (h : x.Canonical) (hx : x.isZero = false) :
    ofRatio x.negative x.numerator x.denominator = some x := by
  obtain ⟨hm, hmin, hmax, hfull⟩ := h
  have hnum := numerator_pos hx
  have hden := denominator_pos x
  have hcross : x.numerator * twoTo (-x.exponent).toNat =
      x.mantissa * (x.denominator * twoTo x.exponent.toNat) := by
    unfold numerator denominator
    ring
  have hpos : 0 < x.denominator * twoTo x.exponent.toNat := Nat.mul_pos hden (twoTo_pos _)
  have habove : ¬ Reaches x.numerator x.denominator (x.exponent + 1) := by
    rw [reaches_iff (x.exponent.toNat + 1) (-x.exponent).toNat (by omega), Nat.not_le, hcross,
      twoTo_succ x.exponent.toNat]
    calc x.mantissa * (x.denominator * twoTo x.exponent.toNat)
        < twoTo 53 * (x.denominator * twoTo x.exponent.toNat) :=
          Nat.mul_lt_mul_of_pos_right hm hpos
      _ = twoTo 52 * x.denominator * (2 * twoTo x.exponent.toNat) := by
        rw [show twoTo 53 = 2 * twoTo 52 from twoTo_succ 52]
        ring
  have hexp : exponentOf x.numerator x.denominator = x.exponent := by
    by_cases hreach : Reaches x.numerator x.denominator x.exponent
    · rw [exponentOf_eq_of_reaches hreach habove hnum hden]
      omega
    · have hmin' : x.exponent = minExponent := by
        refine hfull.resolve_left fun hle => hreach ?_
        unfold Reaches
        rw [hcross, Nat.mul_assoc]
        exact Nat.mul_le_mul_right _ hle
      obtain ⟨g, hg, hnot⟩ := exists_reaches hnum hden
      have hlt : g < x.exponent := by
        by_contra hle
        exact hreach (hg.mono (by omega))
      rw [exponentOf_eq_of_reaches hg hnot hnum hden]
      omega
  have hround : roundHalfEven (x.numerator * twoTo (-x.exponent).toNat)
      (x.denominator * twoTo x.exponent.toNat) = x.mantissa := by
    rw [hcross]
    exact roundHalfEven_mul_self _ hpos
  have hcarry : x.mantissa ≠ twoTo 53 := Nat.ne_of_lt hm
  have hinside : ¬ maxExponent < x.exponent := by omega
  simp [ofRatio, hnum.ne', hexp, hround, hcarry, hinside]

end Binary64

end NotebookProject
