import NotebookProject.Number.Decimal
import NotebookProject.Proofs.Number.Layout
import NotebookProject.Proofs.Number.Shortest

/-!
# Reading numbers back

Whole numbers are read from their digits, and the text of a finite number in any layout is read
as that number.
-/

namespace NotebookProject

open Binary64

namespace Decimal

variable {cs whole digits tail : List Char} {n : Nat}

/-! ## Digits -/

theorem digit?_of_isDigit {c : Char} (h : c.isDigit) :
    digit? 10 c = some (c.toNat - '0'.toNat) := by
  rw [Char.isDigit_iff_toNat] at h
  have hlower : '0' ≤ c := h.1
  have hupper : c ≤ '9' := h.2
  have hlt : c.toNat - '0'.toNat < 10 := by
    have : '9'.toNat = '0'.toNat + 9 := rfl
    omega
  simp only [digit?, hlower, hupper, decide_true, Bool.and_self, ↓reduceIte, hlt]

theorem digitsFrom_eq (h : ∀ c ∈ cs, c.isDigit) (n : Nat) :
    digitsFrom 10 n cs = some (Nat.ofDigitChars 10 cs n) := by
  induction cs generalizing n with
  | nil => rfl
  | cons c cs ih =>
    obtain ⟨hc, hcs⟩ := List.forall_mem_cons.mp h
    rw [digitsFrom, digit?_of_isDigit hc, Option.bind_some, ih hcs, Nat.ofDigitChars_cons,
      Nat.mul_comm]

theorem nat?_eq (h : ∀ c ∈ cs, c.isDigit) (hne : cs ≠ []) :
    nat? 10 cs = some (Nat.ofDigitChars 10 cs 0) := by
  simp [nat?, hne, digitsFrom_eq h]

theorem isDigit_toDigits (n : Nat) : ∀ c ∈ Nat.toDigits 10 n, c.isDigit :=
  fun _ => Nat.isDigit_of_mem_toDigits (by decide) (by decide)

@[simp] theorem nat?_toDigits (n : Nat) : nat? 10 (Nat.toDigits 10 n) = some n := by
  rw [nat?_eq (isDigit_toDigits n) Nat.toDigits_ne_nil, Nat.ofDigitChars_ten_toDigits]

theorem isDigit_replicate (k : Nat) : ∀ c ∈ List.replicate k '0', c.isDigit := by
  intro c hc
  rw [List.eq_of_mem_replicate hc]
  rfl

theorem nat?_append_zeros (n k : Nat) :
    nat? 10 (Nat.toDigits 10 n ++ List.replicate k '0') = some (n * tenTo k) := by
  have hdigits := List.forall_mem_append.mpr ⟨isDigit_toDigits n, isDigit_replicate k⟩
  rw [nat?_eq hdigits (by simp), Nat.ofDigitChars_append, Nat.ofDigitChars_ten_toDigits,
    Nat.ofDigitChars_replicate_zero, Nat.mul_comm]
  rfl

theorem nat?_zeros_append (n k : Nat) :
    nat? 10 (List.replicate k '0' ++ Nat.toDigits 10 n) = some n := by
  have hdigits := List.forall_mem_append.mpr ⟨isDigit_replicate k, isDigit_toDigits n⟩
  rw [nat?_eq hdigits (by simp), Nat.ofDigitChars_append, Nat.ofDigitChars_replicate_zero,
    Nat.mul_zero, Nat.ofDigitChars_ten_toDigits]

/-- A character that is no digit of the radix ends every attempt. -/
theorem nat?_eq_none {radix : Nat} {c : Char} (hc : c ∈ cs) (hdigit : digit? radix c = none) :
    nat? radix cs = none := by
  have hfrom : ∀ n, digitsFrom radix n cs = none := by
    intro n
    induction cs generalizing n with
    | nil => simp at hc
    | cons d cs ih =>
      rcases List.mem_cons.mp hc with rfl | hc
      · rw [digitsFrom, hdigit, Option.bind_none]
      · cases hd : digit? radix d with
        | none => rw [digitsFrom, hd, Option.bind_none]
        | some m => rw [digitsFrom, hd, Option.bind_some, ih hc]
  unfold nat?
  split
  · rfl
  · exact hfrom 0

/-- The text begins with a digit. -/
def StartsDigit (cs : List Char) : Prop := ∃ d rest, cs = d :: rest ∧ d.isDigit

theorem StartsDigit.append (h : StartsDigit cs) (ds : List Char) : StartsDigit (cs ++ ds) := by
  obtain ⟨d, rest, rfl, hd⟩ := h
  exact ⟨d, rest ++ ds, rfl, hd⟩

theorem startsDigit_of_digits (h : ∀ c ∈ digits, c.isDigit) (hne : digits ≠ []) :
    StartsDigit digits := by
  obtain ⟨d, rest, rfl⟩ := List.exists_cons_of_ne_nil hne
  exact ⟨d, rest, rfl, h d (List.mem_cons_self ..)⟩

theorem startsDigit_toDigits (n : Nat) : StartsDigit (Nat.toDigits 10 n) :=
  startsDigit_of_digits (isDigit_toDigits n) Nat.toDigits_ne_nil

/-- A text that begins with a digit has no sign. -/
theorem StartsDigit.splitSign_eq (h : StartsDigit cs) : splitSign cs = (false, cs) := by
  obtain ⟨d, rest, rfl, hd⟩ := h
  have hminus : d ≠ '-' := by rintro rfl; exact absurd hd (by decide)
  have hplus : d ≠ '+' := by rintro rfl; exact absurd hd (by decide)
  unfold splitSign
  split <;> simp_all

theorem spanDigits_append (h : ∀ c ∈ digits, c.isDigit) (htail : ¬ tail.head?.any Char.isDigit) :
    spanDigits (digits ++ tail) = (digits, tail) := by
  have hnone : tail.takeWhile Char.isDigit = [] ∧ tail.dropWhile Char.isDigit = tail := by
    cases tail with
    | nil => exact ⟨rfl, rfl⟩
    | cons c tail => simp_all
  unfold spanDigits
  rw [List.takeWhile_append_of_pos h, List.dropWhile_append_of_pos h, hnone.1, hnone.2,
    List.append_nil]

/-! ## Fractions -/

theorem exponent?_eq_none {c : Char} (h : c ≠ 'e' ∧ c ≠ 'E') (rest : List Char) :
    exponent? (c :: rest) = none := by
  simp [exponent?, h]

/-- No exponent begins with a digit or a point. -/
theorem head?_of_exponent? {e : Int} (h : exponent? tail = some e) :
    tail.head? ≠ some '.' ∧ ¬ tail.head?.any Char.isDigit := by
  cases tail with
  | nil => simp
  | cons c rest =>
    by_cases hc : c = 'e' ∨ c = 'E'
    · rcases hc with rfl | rfl <;> exact ⟨by simp, Bool.not_eq_true _ ▸ rfl⟩
    · rw [exponent?_eq_none (not_or.mp hc)] at h
      cases h

theorem fraction?_whole {e : Int} (hwhole : ∀ c ∈ whole, c.isDigit) (hne : whole ≠ [])
    (hn : nat? 10 whole = some n) (he : exponent? tail = some e) :
    fraction? (whole ++ tail) = some (n, e) := by
  obtain ⟨hpoint, hdigit⟩ := head?_of_exponent? he
  unfold fraction?
  rw [spanDigits_append hwhole hdigit]
  cases tail with
  | nil => simp [hne, he, hn]
  | cons c rest =>
    have hc : c ≠ '.' := by simpa using hpoint
    simp [hne, he, hn, hc]

theorem fraction?_point {places : List Char} {e : Int} (hwhole : ∀ c ∈ whole, c.isDigit)
    (hplaces : ∀ c ∈ places, c.isDigit) (hne : whole ++ places ≠ [])
    (hn : nat? 10 (whole ++ places) = some n) (he : exponent? tail = some e) :
    fraction? (whole ++ '.' :: (places ++ tail)) = some (n, e - places.length) := by
  have hnot : (whole.isEmpty && places.isEmpty) = false := by
    rw [← Bool.not_eq_true]
    simpa using hne
  unfold fraction?
  rw [spanDigits_append hwhole (Bool.not_eq_true _ ▸ rfl)]
  simp only [spanDigits_append hplaces (head?_of_exponent? he).2]
  simp [hnot, he, hn]

@[simp] theorem exponent?_nil : exponent? [] = some 0 := rfl

/-! ## Characters of what is read -/

theorem isDigit_of_digit? {c : Char} {d : Nat} (h : digit? 10 c = some d) : c.isDigit := by
  by_contra hc
  have hrange : ¬ ('0' ≤ c ∧ c ≤ '9') := fun hrange => hc (Char.isDigit_iff_toNat.mpr hrange)
  simp only [digit?, Bool.and_eq_true, decide_eq_true_eq, hrange, ↓reduceIte,
    Option.ite_none_right_eq_some] at h
  split_ifs at h <;> omega

theorem isDigit_of_nat? {n : Nat} (h : nat? 10 cs = some n) : ∀ c ∈ cs, c.isDigit := by
  intro c hc
  cases hdigit : digit? 10 c with
  | none => simp [nat?_eq_none hc hdigit] at h
  | some d => exact isDigit_of_digit? hdigit

/-- The texts of numbers are the digits, at least one, and zeros in front do not matter. -/
theorem nat?_eq_some_iff {n : Nat} :
    nat? 10 cs = some n ↔ cs ≠ [] ∧ (∀ c ∈ cs, c.isDigit) ∧ Nat.ofDigitChars 10 cs 0 = n := by
  constructor
  · intro h
    have hne : cs ≠ [] := by
      rintro rfl
      cases h
    have hdigits := isDigit_of_nat? h
    rw [nat?_eq hdigits hne] at h
    exact ⟨hne, hdigits, Option.some.inj h⟩
  · rintro ⟨hne, hdigits, rfl⟩
    exact nat?_eq hdigits hne

/-- The characters of decimal fractions. -/
def isFractional (c : Char) : Bool := isNumeral c || c == 'E'

theorem isFractional_of_isDigit {c : Char} (h : c.isDigit) : isFractional c := by
  simp [isFractional, isNumeral, h]

theorem isFractional_of_splitSign (h : ∀ c ∈ (splitSign cs).2, isFractional c) :
    ∀ c ∈ cs, isFractional c := by
  unfold splitSign at h
  split at h
  · exact List.forall_mem_cons.mpr ⟨rfl, h⟩
  · exact List.forall_mem_cons.mpr ⟨rfl, h⟩
  · exact h

theorem isFractional_of_spanDigits (h : ∀ c ∈ (spanDigits cs).2, isFractional c) :
    ∀ c ∈ cs, isFractional c := by
  rw [← List.takeWhile_append_dropWhile (p := Char.isDigit) (l := cs)]
  exact List.forall_mem_append.mpr
    ⟨fun c hc => isFractional_of_isDigit (List.all_eq_true.mp List.all_takeWhile c hc), h⟩

theorem isFractional_of_exponent? {e : Int} (h : exponent? cs = some e) :
    ∀ c ∈ cs, isFractional c := by
  cases cs with
  | nil => simp
  | cons c rest =>
    simp only [exponent?, Bool.or_eq_true, beq_iff_eq, Option.ite_none_right_eq_some,
      Option.map_eq_some_iff] at h
    obtain ⟨hc, e, he, -⟩ := h
    obtain ⟨n, hn, -⟩ := Option.bind_eq_some_iff.mp he
    refine List.forall_mem_cons.mpr ⟨by rcases hc with rfl | rfl <;> rfl, ?_⟩
    exact isFractional_of_splitSign fun d hd => isFractional_of_isDigit (isDigit_of_nat? hn d hd)

theorem isFractional_of_fraction? {r : Nat × Int} (h : fraction? cs = some r) :
    ∀ c ∈ cs, isFractional c := by
  simp only [fraction?, Option.ite_none_left_eq_some, Option.bind_eq_some_iff] at h
  obtain ⟨-, e, he, -⟩ := h
  have hrest := isFractional_of_exponent? he
  refine isFractional_of_spanDigits ?_
  split at hrest
  · next rest hpoint =>
    rw [hpoint]
    exact List.forall_mem_cons.mpr ⟨rfl, isFractional_of_spanDigits hrest⟩
  · exact hrest

/-- A text that is read as a number consists of the characters of numbers. -/
theorem isFractional_of_float? {x : Binary64} (h : float? cs = some x) :
    ∀ c ∈ cs, isFractional c := by
  obtain ⟨r, hr, -⟩ := Option.bind_eq_some_iff.mp h
  exact isFractional_of_splitSign (isFractional_of_fraction? hr)

theorem ne_nil_of_float? {x : Binary64} (h : float? cs = some x) : cs ≠ [] := by
  rintro rfl
  simp [float?, splitSign, fraction?, spanDigits] at h

end Decimal

/-! ## Layouts -/

namespace FloatLayout

open Decimal

theorem exponent?_digits (sign : List Char) {n : Nat} {negative : Bool}
    (h : splitSign (sign ++ Nat.toDigits 10 n) = (negative, Nat.toDigits 10 n)) :
    exponent? ('e' :: (sign ++ Nat.toDigits 10 n)) = some (if negative then -(n : Int) else n) := by
  simp [exponent?, h]

theorem exponent?_scientific (signed : Bool) (exponent : Int) :
    exponent? ((if 0 ≤ exponent then (if signed then ['e', '+'] else ['e']) else ['e', '-']) ++
      Nat.toDigits 10 exponent.natAbs) = some exponent := by
  by_cases hexp : 0 ≤ exponent
  · have habs : ((exponent.natAbs : Nat) : Int) = exponent := Int.natAbs_of_nonneg hexp
    have hplain : splitSign ([] ++ Nat.toDigits 10 exponent.natAbs) =
        (false, Nat.toDigits 10 exponent.natAbs) :=
      (startsDigit_toDigits exponent.natAbs).splitSign_eq
    rw [if_pos hexp]
    cases signed with
    | true => exact (exponent?_digits ['+'] rfl).trans (congrArg some habs)
    | false => exact (exponent?_digits [] hplain).trans (congrArg some habs)
  · have habs : -((exponent.natAbs : Nat) : Int) = exponent := by omega
    rw [if_neg hexp]
    exact (exponent?_digits ['-'] rfl).trans (congrArg some habs)

theorem fraction?_scientific (signed : Bool) (n : Nat) (exponent : Int) :
    fraction? (scientific signed (Nat.toDigits 10 n) exponent) =
      some (n, exponent - ((Nat.toDigits 10 n).length - 1 : Nat)) := by
  have hdigits := isDigit_toDigits n
  have hread := nat?_toDigits n
  have hne : Nat.toDigits 10 n ≠ [] := Nat.toDigits_ne_nil
  have hexp := exponent?_scientific signed exponent
  unfold scientific
  generalize Nat.toDigits 10 n = ds at *
  rw [List.append_assoc]
  match ds with
  | [] => exact absurd rfl hne
  | [d] =>
    rw [fraction?_whole hdigits hne hread hexp]
    simp
  | d :: e :: rest =>
    obtain ⟨hd, hrest⟩ := List.forall_mem_cons.mp hdigits
    have hwhole : ∀ c ∈ [d], c.isDigit := by simpa using hd
    exact fraction?_point hwhole hrest (by simp) hread hexp

theorem fraction?_places (fraction : Bool) (n : Nat) (point : Int) (negative : Bool) :
    ∃ m e, fraction? (places fraction (Nat.toDigits 10 n) point) = some (m, e) ∧
      ofDecimal negative m e =
        ofDecimal negative n (point - (Nat.toDigits 10 n).length) := by
  have hdigits := isDigit_toDigits n
  unfold places
  by_cases hpoint : point ≤ 0
  · obtain ⟨k, hk⟩ : ∃ k : Nat, point = -(k : Int) := ⟨point.natAbs, by omega⟩
    have hzeros : (-point).toNat = k := by omega
    have hwhole : ∀ c ∈ ['0'], c.isDigit := isDigit_replicate 1
    have hplaces := List.forall_mem_append.mpr ⟨isDigit_replicate k, hdigits⟩
    have hread := nat?_zeros_append n (k + 1)
    have hfraction := fraction?_point hwhole hplaces (by simp) hread exponent?_nil
    rw [List.append_nil] at hfraction
    rw [if_pos hpoint, hzeros]
    refine ⟨_, _, hfraction, ?_⟩
    congr 1
    simp only [List.length_append, List.length_replicate]
    omega
  by_cases hlen : point.toNat < (Nat.toDigits 10 n).length
  · have hsplit := List.take_append_drop point.toNat (Nat.toDigits 10 n)
    have hwhole : ∀ c ∈ (Nat.toDigits 10 n).take point.toNat, c.isDigit :=
      fun c hc => hdigits c (List.mem_of_mem_take hc)
    have hplaces : ∀ c ∈ (Nat.toDigits 10 n).drop point.toNat, c.isDigit :=
      fun c hc => hdigits c (List.mem_of_mem_drop hc)
    have hread : nat? 10 ((Nat.toDigits 10 n).take point.toNat ++
        (Nat.toDigits 10 n).drop point.toNat) = some n := by
      rw [hsplit, nat?_toDigits]
    have hfraction := fraction?_point hwhole hplaces (by simp) hread exponent?_nil
    rw [List.append_nil] at hfraction
    rw [if_neg hpoint]
    simp only [hlen, ↓reduceIte]
    refine ⟨_, _, hfraction, ?_⟩
    congr 1
    simp only [List.length_drop]
    omega
  · obtain ⟨k, hk⟩ : ∃ k : Nat, point.toNat = (Nat.toDigits 10 n).length + k :=
      ⟨point.toNat - (Nat.toDigits 10 n).length, by omega⟩
    have hzeros : point.toNat - (Nat.toDigits 10 n).length = k := by omega
    have hexp : point - ((Nat.toDigits 10 n).length : Int) = k := by omega
    have hwhole := List.forall_mem_append.mpr ⟨hdigits, isDigit_replicate k⟩
    have hne : Nat.toDigits 10 n ++ List.replicate k '0' ≠ [] := by simp
    simp only [hpoint, ↓reduceIte, hlen, hzeros, hexp]
    cases fraction with
    | true =>
      have hread : nat? 10 (Nat.toDigits 10 n ++ List.replicate k '0' ++ ['0']) =
          some (n * tenTo (k + 1)) := by
        rw [List.append_assoc, ← List.replicate_succ', nat?_append_zeros]
      have hfraction := fraction?_point hwhole (isDigit_replicate 1) (by simp) hread
        exponent?_nil
      refine ⟨_, _, hfraction, ?_⟩
      rw [← ofDecimal_mul_tenTo negative n (k + 1) k]
      congr 1
      simp only [List.length_replicate]
      omega
    | false =>
      have hread := nat?_append_zeros n k
      have hfraction := fraction?_whole hwhole hne hread exponent?_nil
      refine ⟨_, _, hfraction, ?_⟩
      rw [← ofDecimal_mul_tenTo negative n k k]
      congr 1
      omega

theorem startsDigit_places (fraction : Bool) (n : Nat) (point : Int) :
    StartsDigit (places fraction (Nat.toDigits 10 n) point) := by
  have hdigits := isDigit_toDigits n
  unfold places
  dsimp only
  split_ifs with hpoint hlen
  · exact ⟨'0', _, rfl, rfl⟩
  · have hne : (Nat.toDigits 10 n).take point.toNat ≠ [] := by
      simp only [ne_eq, List.take_eq_nil_iff, Nat.toDigits_ne_nil, or_false]
      omega
    exact (startsDigit_of_digits (fun c hc => hdigits c (List.mem_of_mem_take hc)) hne).append _
  · exact ((startsDigit_toDigits n).append _).append _
  · exact ((startsDigit_toDigits n).append _).append _

theorem startsDigit_scientific (signed : Bool) (n : Nat) (exponent : Int) :
    StartsDigit (scientific signed (Nat.toDigits 10 n) exponent) := by
  obtain ⟨d, rest, hdigits, hd⟩ := startsDigit_toDigits n
  unfold scientific
  rw [hdigits]
  cases rest with
  | nil => exact ⟨d, _, rfl, hd⟩
  | cons e rest => exact ⟨d, _, rfl, hd⟩

/-- The text of a number without its sign. -/
def magnitude (layout : FloatLayout) (x : Binary64) : List Char :=
  if x.isZero then (if layout.fraction then ['0', '.', '0'] else ['0'])
  else
    let d := x.shortest
    let ds := Nat.toDigits 10 d.digits
    let exponent := d.exponent + ds.length - 1
    if layout.positional exponent then places layout.fraction ds (exponent + 1)
    else scientific layout.signed ds exponent

theorem render_eq (layout : FloatLayout) (x : Binary64) :
    layout.render x = (if x.negative then ['-'] else []) ++ layout.magnitude x := rfl

theorem startsDigit_magnitude (layout : FloatLayout) (x : Binary64) :
    StartsDigit (layout.magnitude x) := by
  unfold magnitude
  dsimp only
  split_ifs
  · exact ⟨'0', _, rfl, rfl⟩
  · exact ⟨'0', _, rfl, rfl⟩
  · exact startsDigit_places _ _ _
  · exact startsDigit_scientific _ _ _

theorem fraction?_magnitude (layout : FloatLayout) {x : Binary64} (h : x.Canonical) :
    ∃ m e, fraction? (layout.magnitude x) = some (m, e) ∧ ofDecimal x.negative m e = some x := by
  by_cases hzero : x.isZero
  · have hx : ofDecimal x.negative 0 (-1) = some x ∧ ofDecimal x.negative 0 0 = some x := by
      rw [h.eq_zero hzero]
      exact ⟨rfl, rfl⟩
    unfold magnitude
    rw [if_pos hzero]
    split_ifs
    · exact ⟨0, -1, rfl, hx.1⟩
    · exact ⟨0, 0, rfl, hx.2⟩
  · have hx := h.ofDecimal_shortest (Bool.eq_false_iff.mpr hzero)
    have hlength : 0 < (Nat.toDigits 10 x.shortest.digits).length := Nat.length_toDigits_pos
    unfold magnitude
    rw [if_neg hzero]
    dsimp only
    split_ifs
    · obtain ⟨m, e, hread, hvalue⟩ := fraction?_places layout.fraction x.shortest.digits
        (x.shortest.exponent + (Nat.toDigits 10 x.shortest.digits).length - 1 + 1) x.negative
      refine ⟨m, e, hread, hvalue.trans ?_⟩
      rw [← hx]
      congr 1
      omega
    · refine ⟨_, _, fraction?_scientific _ _ _, ?_⟩
      rw [← hx]
      congr 1
      omega

theorem splitSign_render (layout : FloatLayout) (x : Binary64) :
    splitSign (layout.render x) = (x.negative, layout.magnitude x) := by
  rw [render_eq]
  cases x.negative with
  | true => rfl
  | false => exact (startsDigit_magnitude layout x).splitSign_eq

/-- A canonical number is read back from its text in any layout. -/
theorem float?_render (layout : FloatLayout) {x : Binary64} (h : x.Canonical) :
    float? (layout.render x) = some x := by
  obtain ⟨m, e, hread, hvalue⟩ := fraction?_magnitude layout h
  unfold float?
  rw [splitSign_render]
  dsimp only
  rw [hread, Option.bind_some]
  exact hvalue

end FloatLayout

/-- A number is written as digits after a minus sign or none. -/
theorem Number.render_eq (layout : FloatLayout) (x : Number) :
    ∃ body, Decimal.StartsDigit body ∧ (x.render layout = body ∨ x.render layout = '-' :: body) := by
  cases x with
  | int n =>
    refine ⟨_, Decimal.startsDigit_toDigits n.natAbs, ?_⟩
    by_cases hn : n < 0
    · exact .inr (by simp [render, hn])
    · exact .inl (by simp [render, hn])
  | float x =>
    refine ⟨_, layout.startsDigit_magnitude x, ?_⟩
    cases hx : x.negative with
    | true => exact .inr (by simp [render, FloatLayout.render_eq, hx])
    | false => exact .inl (by simp [render, FloatLayout.render_eq, hx])

end NotebookProject
