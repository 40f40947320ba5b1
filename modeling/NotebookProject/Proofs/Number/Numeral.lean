import NotebookProject.Proofs.Number.Magnitude
import NotebookProject.Proofs.Number.Overflow

/-!
# Numerals

The texts of decimal numbers as Python writes them, without underscores: whole numbers, which have
no zero in front of another digit, and fractions, which have a point or an exponent. Both stand for
a number `digits * 10 ^ exponent`. Reading a fraction is a matter of this grammar, and whether its
number can be represented is a matter of its size.

## Main definitions

* `Decimal.IsInteger`, `Decimal.IsFloat`, `Decimal.IsNumeral`: the grammar.

## Main results

* `Decimal.fraction?_eq_some_iff`: which texts are read, and as which numbers.
* `Decimal.isSome_float?`: which of them can be represented.
-/

namespace NotebookProject.Decimal

open Binary64 (limit)

variable {cs sign body whole tail : List Char} {n : Nat} {e : Int}

/-! ## Grammar -/

/-- A sign, or none. -/
def IsSign (sign : List Char) : Prop := sign = [] ∨ sign = ['+'] ∨ sign = ['-']

/-- Digits, one at least. -/
def IsDigits (ds : List Char) : Prop := ds ≠ [] ∧ ∀ c ∈ ds, c.isDigit

/-- The number that digits stand for. -/
def valueOf (ds : List Char) : Nat := Nat.ofDigitChars 10 ds 0

/-- A whole number: zeros alone, or no zero in front. -/
inductive IsInteger : List Char → Prop where
  | zeros (k : Nat) : IsInteger (List.replicate (k + 1) '0')
  | leading {d : Char} {ds : List Char} (hd : d.isDigit) (hzero : d ≠ '0')
      (hds : ∀ c ∈ ds, c.isDigit) : IsInteger (d :: ds)

/-- An exponent: its mark, a sign or none, and digits. -/
inductive IsExponent : List Char → Int → Prop where
  | intro {mark : Char} {sign ds : List Char} (hmark : mark = 'e' ∨ mark = 'E')
      (hsign : IsSign sign) (hds : IsDigits ds) :
      IsExponent (mark :: (sign ++ ds)) (if sign = ['-'] then -(valueOf ds : Int) else valueOf ds)

/-- A fraction: digits with a point, which may stand before or behind all of them, digits with an
exponent, or both. -/
inductive IsFloat : List Char → Nat → Int → Prop where
  | point {whole places : List Char} (h : IsDigits (whole ++ places)) :
      IsFloat (whole ++ '.' :: places) (valueOf (whole ++ places)) (-places.length)
  | exponent {whole tail : List Char} {e : Int} (h : IsDigits whole) (htail : IsExponent tail e) :
      IsFloat (whole ++ tail) (valueOf whole) e
  | both {whole places tail : List Char} {e : Int} (h : IsDigits (whole ++ places))
      (htail : IsExponent tail e) :
      IsFloat (whole ++ '.' :: (places ++ tail)) (valueOf (whole ++ places)) (e - places.length)

/-- A numeral without its sign, for the number `digits * 10 ^ exponent`. -/
inductive IsNumeral : List Char → Nat → Int → Prop where
  | integer {cs : List Char} (h : IsInteger cs) : IsNumeral cs (valueOf cs) 0
  | float {cs : List Char} {n : Nat} {e : Int} (h : IsFloat cs n e) : IsNumeral cs n e

/-! ## Signs -/

theorem isSign_ite (p : Prop) [Decidable p] : IsSign (if p then ['-'] else []) := by
  unfold IsSign
  split_ifs <;> simp

/-- A sign is taken off from what begins with none. -/
theorem splitSign_append (hsign : IsSign sign) (hminus : body.head? ≠ some '-')
    (hplus : body.head? ≠ some '+') : splitSign (sign ++ body) = (sign == ['-'], body) := by
  rcases hsign with rfl | rfl | rfl
  · rw [List.nil_append]
    unfold splitSign
    split <;> simp_all
  · rfl
  · rfl

theorem exists_splitSign (cs : List Char) :
    ∃ sign body, IsSign sign ∧ cs = sign ++ body ∧ splitSign cs = (sign == ['-'], body) := by
  unfold splitSign
  split
  · exact ⟨['-'], _, .inr (.inr rfl), rfl, rfl⟩
  · exact ⟨['+'], _, .inr (.inl rfl), rfl, rfl⟩
  · exact ⟨[], cs, .inl rfl, rfl, rfl⟩

theorem IsDigits.head? {ds : List Char} (h : IsDigits ds) :
    ds.head? ≠ some '-' ∧ ds.head? ≠ some '+' := by
  obtain ⟨hne, hdigits⟩ := h
  obtain ⟨d, rest, rfl⟩ := List.exists_cons_of_ne_nil hne
  have hd := hdigits d List.mem_cons_self
  constructor
  · intro hminus
    obtain rfl := Option.some.inj hminus
    exact absurd hd (by decide)
  · intro hplus
    obtain rfl := Option.some.inj hplus
    exact absurd hd (by decide)

theorem IsDigits.nat?_eq {ds : List Char} (h : IsDigits ds) : nat? 10 ds = some (valueOf ds) :=
  nat?_eq_some_iff.mpr ⟨h.1, h.2, rfl⟩

theorem nat?_eq_valueOf {ds : List Char} : nat? 10 ds = some n ↔ IsDigits ds ∧ valueOf ds = n := by
  rw [nat?_eq_some_iff, IsDigits, and_assoc, valueOf]

/-! ## Fractions -/

theorem exponent?_eq_some_iff :
    exponent? tail = some e ↔ tail = [] ∧ e = 0 ∨ IsExponent tail e := by
  constructor
  · intro h
    cases tail with
    | nil => exact .inl ⟨rfl, (Option.some.inj h).symm⟩
    | cons mark rest =>
      obtain ⟨sign, ds, hsign, rfl, hsplit⟩ := exists_splitSign rest
      simp only [exponent?, hsplit, Bool.or_eq_true, beq_iff_eq, Option.ite_none_right_eq_some,
        Option.map_eq_some_iff] at h
      obtain ⟨hmark, m, hm, rfl⟩ := h
      obtain ⟨k, hk, hcast⟩ := Option.bind_eq_some_iff.mp hm
      obtain ⟨hds, rfl⟩ := nat?_eq_valueOf.mp hk
      obtain rfl := Option.some.inj hcast
      exact .inr (.intro hmark hsign hds)
  · rintro (⟨rfl, rfl⟩ | ⟨hmark, hsign, hds⟩)
    · rfl
    · rw [exponent?, splitSign_append hsign hds.head?.1 hds.head?.2]
      simp [hmark, hds.nat?_eq]

theorem spanDigits_eq (cs : List Char) :
    ∃ ds rest, spanDigits cs = (ds, rest) ∧ cs = ds ++ rest :=
  ⟨_, _, rfl, List.takeWhile_append_dropWhile.symm⟩

/-- What is read of a fraction without a point. -/
theorem fraction?_of_head? (hpoint : tail.head? ≠ some '.')
    (hspan : spanDigits (whole ++ tail) = (whole, tail)) :
    fraction? (whole ++ tail) =
      if whole.isEmpty then none
      else (exponent? tail).bind fun e => (nat? 10 whole).map fun n => (n, e) := by
  unfold fraction?
  rw [hspan]
  cases tail with
  | nil => simp
  | cons c rest =>
    have hc : c ≠ '.' := by simpa using hpoint
    simp [hc]

/-- The texts that are read as fractions are those of the grammar and digits alone. -/
theorem fraction?_eq_some_iff :
    fraction? cs = some (n, e) ↔ IsDigits cs ∧ n = valueOf cs ∧ e = 0 ∨ IsFloat cs n e := by
  constructor
  · intro h
    obtain ⟨whole, rest, hspan, rfl⟩ := spanDigits_eq cs
    by_cases hpoint : rest.head? = some '.'
    · obtain ⟨after, rfl⟩ := List.head?_eq_some_iff.mp hpoint
      obtain ⟨places, tail, hplaces, rfl⟩ := spanDigits_eq after
      simp only [fraction?, hspan, hplaces, Option.ite_none_left_eq_some, Option.bind_eq_some_iff,
        Option.map_eq_some_iff] at h
      obtain ⟨-, exponent, hexponent, m, hm, heq⟩ := h
      obtain ⟨hdigits, rfl⟩ := nat?_eq_valueOf.mp hm
      obtain ⟨rfl, rfl⟩ := Prod.mk.inj heq
      rcases exponent?_eq_some_iff.mp hexponent with ⟨rfl, rfl⟩ | htail
      · rw [List.append_nil, zero_sub]
        exact .inr (.point hdigits)
      · exact .inr (.both hdigits htail)
    · simp only [fraction?_of_head? hpoint hspan, Option.ite_none_left_eq_some,
        Option.bind_eq_some_iff, Option.map_eq_some_iff] at h
      obtain ⟨-, exponent, hexponent, m, hm, heq⟩ := h
      obtain ⟨hdigits, rfl⟩ := nat?_eq_valueOf.mp hm
      obtain ⟨rfl, rfl⟩ := Prod.mk.inj heq
      rcases exponent?_eq_some_iff.mp hexponent with ⟨rfl, rfl⟩ | htail
      · rw [List.append_nil]
        exact .inl ⟨hdigits, rfl, rfl⟩
      · exact .inr (.exponent hdigits htail)
  · rintro (⟨hdigits, rfl, rfl⟩ | hfloat)
    · have hread := fraction?_whole hdigits.2 hdigits.1 hdigits.nat?_eq exponent?_nil
      rwa [List.append_nil] at hread
    · cases hfloat with
      | @point whole places h =>
        obtain ⟨hwhole, hplaces⟩ := List.forall_mem_append.mp h.2
        have hread := fraction?_point hwhole hplaces h.1 h.nat?_eq exponent?_nil
        rwa [List.append_nil, zero_sub] at hread
      | exponent h htail =>
        exact fraction?_whole h.2 h.1 h.nat?_eq (exponent?_eq_some_iff.mpr (.inr htail))
      | both h htail =>
        obtain ⟨hwhole, hplaces⟩ := List.forall_mem_append.mp h.2
        exact fraction?_point hwhole hplaces h.1 h.nat?_eq (exponent?_eq_some_iff.mpr (.inr htail))

/-! ## Numerals -/

theorem IsInteger.isDigits (h : IsInteger cs) : IsDigits cs := by
  cases h with
  | zeros k => exact ⟨by simp, isDigit_replicate (k + 1)⟩
  | leading hd _ hds => exact ⟨List.cons_ne_nil _ _, List.forall_mem_cons.mpr ⟨hd, hds⟩⟩

/-- A fraction is not taken for a whole number. -/
theorem IsFloat.exists_not_isDigit (h : IsFloat cs n e) : ∃ c ∈ cs, c.isDigit = false := by
  have hmark : ∀ {tail e}, IsExponent tail e → ∃ c ∈ tail, c.isDigit = false := by
    rintro tail e ⟨hmark, -, -⟩
    refine ⟨_, List.mem_cons_self, ?_⟩
    rcases hmark with rfl | rfl <;> rfl
  cases h with
  | point => exact ⟨'.', by simp, rfl⟩
  | exponent _ htail =>
    obtain ⟨c, hc, hdigit⟩ := hmark htail
    exact ⟨c, List.mem_append_right _ hc, hdigit⟩
  | both => exact ⟨'.', by simp, rfl⟩

theorem IsNumeral.fraction?_eq (h : IsNumeral cs n e) : fraction? cs = some (n, e) := by
  cases h with
  | integer h => exact fraction?_eq_some_iff.mpr (.inl ⟨h.isDigits, rfl, rfl⟩)
  | float h => exact fraction?_eq_some_iff.mpr (.inr h)

/-- A numeral begins with no sign, since nothing that does is read as a fraction. -/
theorem IsNumeral.head?_ne (h : IsNumeral cs n e) {c : Char} (hc : c = '-' ∨ c = '+') :
    cs.head? ≠ some c := by
  intro hhead
  obtain ⟨rest, rfl⟩ := List.head?_eq_some_iff.mp hhead
  have hread := h.fraction?_eq
  rcases hc with rfl | rfl <;> simp [fraction?, spanDigits] at hread

theorem IsNumeral.splitSign_eq (h : IsNumeral body n e) (hsign : IsSign sign) :
    splitSign (sign ++ body) = (sign == ['-'], body) :=
  splitSign_append hsign (h.head?_ne (.inl rfl)) (h.head?_ne (.inr rfl))

/-- A numeral with its sign is read by rounding the number that it stands for. -/
theorem IsNumeral.float?_eq (h : IsNumeral body n e) (hsign : IsSign sign) :
    float? (sign ++ body) = Binary64.ofDecimal (sign == ['-']) n e := by
  unfold float?
  rw [h.splitSign_eq hsign]
  dsimp only
  rw [h.fraction?_eq, Option.bind_some]

/-- It can be represented just if that number is below the limit. -/
theorem IsNumeral.isSome_float? (h : IsNumeral body n e) (hsign : IsSign sign) :
    (float? (sign ++ body)).isSome ↔ (n : ℚ) * 10 ^ e < limit := by
  rw [h.float?_eq hsign, Binary64.isSome_ofDecimal]

/-! ## Numbers -/

/-- The text is a numeral of the kind of the number and stands for it: exactly for a whole number,
and for a fraction when it is rounded. -/
inductive Denotes : List Char → Number → Prop where
  | integer {sign body : List Char} (hsign : IsSign sign) (h : IsInteger body) :
      Denotes (sign ++ body) (.int (if sign = ['-'] then -(valueOf body : Int) else valueOf body))
  | float {sign body : List Char} {n : Nat} {e : Int} {x : Binary64} (hsign : IsSign sign)
      (h : IsFloat body n e) (hx : Binary64.ofDecimal (sign == ['-']) n e = some x) :
      Denotes (sign ++ body) (.float x)

/-- The digits of a number other than zero have no zero in front. -/
theorem exists_leading {n : Nat} (hn : 0 < n) :
    ∃ d ds, Nat.toDigits 10 n = d :: ds ∧ d ≠ '0' := by
  induction n using Nat.strongRecOn with
  | ind n ih =>
    rw [Nat.toDigits_eq_if (by decide)]
    split_ifs with hlt
    · have hdigit : ∀ n < 10, 0 < n → n.digitChar ≠ '0' := by decide
      exact ⟨_, [], rfl, hdigit n hlt hn⟩
    · obtain ⟨d, ds, hds, hd⟩ := ih (n / 10) (by omega) (by omega)
      exact ⟨d, _, by rw [hds, List.cons_append], hd⟩

theorem isInteger_toDigits (n : Nat) : IsInteger (Nat.toDigits 10 n) := by
  obtain rfl | hn := Nat.eq_zero_or_pos n
  · exact .zeros 0
  · obtain ⟨d, ds, hdigits, hd⟩ := exists_leading hn
    have hall := isDigit_toDigits n
    rw [hdigits] at hall ⊢
    obtain ⟨hfirst, hrest⟩ := List.forall_mem_cons.mp hall
    exact .leading hfirst hd hrest

/-- The text of a number denotes it, if whole fractions keep a point in it. -/
theorem denotes_render {layout : FloatLayout} (hlayout : layout.fraction) {x : Number}
    (hx : x.InRange) : Denotes (x.render layout) x := by
  cases x with
  | int n =>
    have hsign : IsSign (if n < 0 then ['-'] else []) := isSign_ite _
    have hvalue : valueOf (Nat.toDigits 10 n.natAbs) = n.natAbs := Nat.ofDigitChars_ten_toDigits
    have hdenotes := Denotes.integer hsign (isInteger_toDigits n.natAbs)
    have hint : (if (if n < 0 then ['-'] else []) = ['-'] then
        -(valueOf (Nat.toDigits 10 n.natAbs) : Int)
        else valueOf (Nat.toDigits 10 n.natAbs)) = n := by
      rw [hvalue]
      by_cases hn : n < 0
      · rw [if_pos hn, if_pos rfl]
        omega
      · rw [if_neg hn, if_neg (by decide)]
        omega
    rwa [hint] at hdenotes
  | float x =>
    have hsign : IsSign (if x.negative then ['-'] else []) := isSign_ite _
    have hnegative : ((if x.negative then ['-'] else []) == ['-']) = x.negative := by
      cases x.negative <;> rfl
    obtain ⟨m, e, hread, hvalue⟩ := layout.fraction?_magnitude hx
    obtain ⟨c, hc, hdigit⟩ := layout.exists_not_isDigit_magnitude hlayout x
    have hfloat : IsFloat (layout.magnitude x) m e := by
      refine (fraction?_eq_some_iff.mp hread).resolve_left fun hdigits => ?_
      simp [hdigits.1.2 c hc] at hdigit
    rw [Number.render, layout.render_eq]
    exact .float hsign hfloat (hnegative.symm ▸ hvalue)

end NotebookProject.Decimal
