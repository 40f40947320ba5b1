import NotebookProject.Proofs.Number.Numeral

/-!
# The order of digits

Texts are ordered by the first character in which they differ. Digits of one length are then in the
order of their numbers, and digits of two lengths in the order that their numbers have once zeros
are added to the end of the shorter text.

## Main results

* `Decimal.lt_iff_valueOf_lt`: the order of digits of one length.
* `Decimal.lt_iff_valueOf_le`: the order of digits of two lengths.
-/

namespace NotebookProject.Decimal

variable {cs ds : List Char} {c d : Char} {x y a b p k : Nat}

/-- The number of a digit. -/
def digitOf (c : Char) : Nat := c.toNat - '0'.toNat

theorem digitOf_le (h : c.isDigit) : digitOf c ≤ 9 := by
  have hhigh : c.toNat ≤ 57 := (Char.isDigit_iff_toNat.mp h).2
  have hzero : '0'.toNat = 48 := rfl
  unfold digitOf
  omega

theorem digitOf_lt_digitOf (hc : c.isDigit) (hd : d.isDigit) : digitOf c < digitOf d ↔ c < d := by
  have hlow : 48 ≤ c.toNat ∧ 48 ≤ d.toNat :=
    ⟨(Char.isDigit_iff_toNat.mp hc).1, (Char.isDigit_iff_toNat.mp hd).1⟩
  have hlt : c < d ↔ c.toNat < d.toNat := Char.lt_def.trans UInt32.lt_iff_toNat_lt
  have hzero : '0'.toNat = 48 := rfl
  rw [hlt, digitOf, digitOf]
  omega

theorem valueOf_cons (c : Char) (cs : List Char) :
    valueOf (c :: cs) = tenTo cs.length * digitOf c + valueOf cs := by
  rw [valueOf, Nat.ofDigitChars_cons, Nat.ofDigitChars_eq_ofDigitChars_zero, Nat.mul_zero,
    Nat.zero_add]
  rfl

theorem valueOf_lt (h : ∀ c ∈ cs, c.isDigit) : valueOf cs < tenTo cs.length := by
  induction cs with
  | nil => decide
  | cons c cs ih =>
    obtain ⟨hc, hcs⟩ := List.forall_mem_cons.mp h
    have hdigit := Nat.mul_le_mul_left (tenTo cs.length) (digitOf_le hc)
    have hrest := ih hcs
    rw [valueOf_cons, List.length_cons, tenTo_succ]
    omega

/-- Numbers of two digits in any base are compared by the first digit that differs. -/
theorem mul_add_lt_mul_add_iff (ha : a < p) (hb : b < p) :
    p * x + a < p * y + b ↔ x < y ∨ x = y ∧ a < b := by
  rcases Nat.lt_trichotomy x y with hlt | rfl | hgt
  · have hmul : p * x + p ≤ p * y := Nat.mul_succ p x ▸ Nat.mul_le_mul_left p hlt
    omega
  · omega
  · have hmul : p * y + p ≤ p * x := Nat.mul_succ p y ▸ Nat.mul_le_mul_left p hgt
    omega

/-- Digits of one length are ordered as their numbers are. -/
theorem lt_iff_valueOf_lt (hcs : ∀ c ∈ cs, c.isDigit) (hds : ∀ d ∈ ds, d.isDigit)
    (hlength : cs.length = ds.length) : cs < ds ↔ valueOf cs < valueOf ds := by
  induction cs generalizing ds with
  | nil =>
    obtain rfl : ds = [] := List.length_eq_zero_iff.mp hlength.symm
    simp
  | cons c cs ih =>
    obtain ⟨d, ds, rfl⟩ := List.exists_cons_of_length_eq_add_one hlength.symm
    obtain ⟨hc, hcs⟩ := List.forall_mem_cons.mp hcs
    obtain ⟨hd, hds⟩ := List.forall_mem_cons.mp hds
    have hrest : cs.length = ds.length := Nat.succ.inj hlength
    have heq : c = d ↔ digitOf c = digitOf d := by
      have hlt := digitOf_lt_digitOf hc hd
      have hgt := digitOf_lt_digitOf hd hc
      grind
    rw [List.cons_lt_cons_iff, ih hcs hds hrest, ← digitOf_lt_digitOf hc hd, heq, valueOf_cons,
      valueOf_cons, hrest, mul_add_lt_mul_add_iff (hrest ▸ valueOf_lt hcs) (valueOf_lt hds)]

theorem valueOf_append_zeros (cs : List Char) (k : Nat) :
    valueOf (cs ++ List.replicate k '0') = valueOf cs * tenTo k := by
  rw [valueOf, Nat.ofDigitChars_append, Nat.ofDigitChars_replicate_zero, Nat.mul_comm]
  rfl

/-- A shorter text of digits stands before a longer one unless it is behind it with zeros added to
its end. -/
theorem lt_iff_not_lt_append_zeros (hk : k ≠ 0) (hds : ∀ d ∈ ds, d.isDigit)
    (hlength : ds.length = cs.length + k) : cs < ds ↔ ¬ ds < cs ++ List.replicate k '0' := by
  induction cs generalizing ds with
  | nil =>
    have hne : ds ≠ [] := by
      rintro rfl
      simp at hlength
      omega
    have hzeros : valueOf (List.replicate k '0') = 0 :=
      (valueOf_append_zeros [] k).trans (Nat.zero_mul _)
    have hnot : ¬ ds < List.replicate k '0' := by
      rw [lt_iff_valueOf_lt hds (isDigit_replicate k) (by simpa using hlength), hzeros]
      exact Nat.not_lt_zero _
    obtain ⟨d, ds, rfl⟩ := List.exists_cons_of_ne_nil hne
    simp [hnot]
  | cons c cs ih =>
    obtain ⟨d, ds, rfl⟩ : ∃ d rest, ds = d :: rest :=
      List.exists_cons_of_length_eq_add_one (n := cs.length + k) (by simp at hlength; omega)
    have hrest := ih (List.forall_mem_cons.mp hds).2 (by simp at hlength; omega)
    rw [List.cons_append, List.cons_lt_cons_iff, List.cons_lt_cons_iff, hrest]
    rcases lt_trichotomy c d with hlt | rfl | hgt
    · simp [hlt, hlt.ne', hlt.asymm]
    · simp
    · simp [hgt, hgt.ne', hgt.asymm]

/-- Digits are ordered as the numbers that they become with zeros at the end, up to the length of
the longer text. Where these are equal the shorter text comes first. -/
theorem lt_iff_valueOf_le (hk : k ≠ 0) (hcs : ∀ c ∈ cs, c.isDigit) (hds : ∀ d ∈ ds, d.isDigit)
    (hlength : ds.length = cs.length + k) : cs < ds ↔ valueOf cs * tenTo k ≤ valueOf ds := by
  have hzeros := List.forall_mem_append.mpr ⟨hcs, isDigit_replicate k⟩
  rw [lt_iff_not_lt_append_zeros hk hds hlength, lt_iff_valueOf_lt hds hzeros (by simp [hlength]),
    valueOf_append_zeros, Nat.not_lt]

end NotebookProject.Decimal
