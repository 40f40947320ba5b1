import NotebookProject.Proofs.Number.Reading

/-!
# Magnitudes

The text of a number without its sign: digits with at most a point among them, or such a text and
a signed exponent. A whole number has digits alone and a fraction has a point or an exponent, so
that the kind of a number can be told from its text when it is read.

## Main definitions

* `Decimal.IsMagnitude`: the two forms of a magnitude.
* `Decimal.number?`: reads a number of either kind.

## Main results

* `Number.exists_magnitude`: every number is written as a sign or none and a magnitude.
* `Number.number?_render`: it is read back from that text as a number of its kind.
-/

namespace NotebookProject

namespace Decimal

variable {cs front back : List Char}

/-! ## Forms -/

/-- Digits and points, the first of them a digit. -/
def IsPlain (cs : List Char) : Prop := StartsDigit cs ∧ ∀ c ∈ cs, c.isDigit ∨ c = '.'

/-- A plain text, or one with a signed exponent. -/
inductive IsMagnitude : List Char → Prop where
  | plain {cs : List Char} (h : IsPlain cs) : IsMagnitude cs
  | exponential {front back : List Char} {sign : Char} (hfront : IsPlain front)
      (hsign : sign = '+' ∨ sign = '-') (hback : IsPlain back) :
      IsMagnitude (front ++ 'e' :: sign :: back)

theorem isPlain_toDigits (n : Nat) : IsPlain (Nat.toDigits 10 n) :=
  ⟨startsDigit_toDigits n, fun c hc => .inl (isDigit_toDigits n c hc)⟩

theorem IsMagnitude.startsDigit (h : IsMagnitude cs) : StartsDigit cs := by
  cases h with
  | plain h => exact h.1
  | exponential hfront => exact hfront.1.append _

end Decimal

namespace FloatLayout

open Decimal

theorem isPlain_places (fraction : Bool) (n : Nat) (point : Int) :
    IsPlain (places fraction (Nat.toDigits 10 n) point) := by
  have hdigits : ∀ c ∈ Nat.toDigits 10 n, c.isDigit ∨ c = '.' :=
    fun c hc => .inl (isDigit_toDigits n c hc)
  have hzeros : ∀ k, ∀ c ∈ List.replicate k '0', c.isDigit ∨ c = '.' :=
    fun k c hc => .inl (isDigit_replicate k c hc)
  refine ⟨startsDigit_places fraction n point, ?_⟩
  unfold places
  dsimp only
  split_ifs
  · exact List.forall_mem_cons.mpr ⟨.inl rfl, List.forall_mem_cons.mpr ⟨.inr rfl,
      List.forall_mem_append.mpr ⟨hzeros _, hdigits⟩⟩⟩
  · exact List.forall_mem_append.mpr ⟨fun c hc => hdigits c (List.mem_of_mem_take hc),
      List.forall_mem_cons.mpr ⟨.inr rfl, fun c hc => hdigits c (List.mem_of_mem_drop hc)⟩⟩
  · exact List.forall_mem_append.mpr ⟨List.forall_mem_append.mpr ⟨hdigits, hzeros _⟩, by simp⟩
  · exact List.forall_mem_append.mpr ⟨List.forall_mem_append.mpr ⟨hdigits, hzeros _⟩, by simp⟩

theorem isMagnitude_scientific (n : Nat) (exponent : Int) :
    IsMagnitude (scientific true (Nat.toDigits 10 n) exponent) := by
  have hdigits := isPlain_toDigits n
  have hback := isPlain_toDigits exponent.natAbs
  obtain ⟨d, rest, hcons, hd⟩ := startsDigit_toDigits n
  rw [hcons] at hdigits
  obtain ⟨front, hfront, hsplit⟩ : ∃ front, IsPlain front ∧
      scientific true (Nat.toDigits 10 n) exponent = front ++
        ((if 0 ≤ exponent then ['e', '+'] else ['e', '-']) ++ Nat.toDigits 10 exponent.natAbs) := by
    rw [hcons]
    cases rest with
    | nil => exact ⟨[d], hdigits, by simp [scientific]⟩
    | cons e rest =>
      refine ⟨d :: '.' :: e :: rest, ⟨⟨d, '.' :: e :: rest, rfl, hd⟩, ?_⟩, by simp [scientific]⟩
      exact List.forall_mem_cons.mpr ⟨.inl hd, List.forall_mem_cons.mpr
        ⟨.inr rfl, (List.forall_mem_cons.mp hdigits.2).2⟩⟩
  rw [hsplit]
  by_cases hexponent : 0 ≤ exponent
  · rw [if_pos hexponent]
    exact .exponential hfront (.inl rfl) hback
  · rw [if_neg hexponent]
    exact .exponential hfront (.inr rfl) hback

/-- Exponents are signed in the layouts that give magnitudes. -/
theorem isMagnitude_magnitude {layout : FloatLayout} (h : layout.signed) (x : Binary64) :
    IsMagnitude (layout.magnitude x) := by
  unfold magnitude
  dsimp only
  split_ifs
  · exact .plain ⟨⟨'0', ['.', '0'], rfl, rfl⟩, by simp⟩
  · exact .plain ⟨⟨'0', [], rfl, rfl⟩, by simp⟩
  · exact .plain (isPlain_places _ _ _)
  · rw [h]
    exact isMagnitude_scientific _ _

/-- A fraction is not taken for a whole number. -/
theorem exists_not_isDigit_magnitude {layout : FloatLayout} (h : layout.fraction) (x : Binary64) :
    ∃ c ∈ layout.magnitude x, c.isDigit = false := by
  have hpoint : ∀ ds point, '.' ∈ places true ds point := by
    intro ds point
    unfold places
    simp only [↓reduceIte]
    split_ifs <;> simp
  have hexponent : ∀ ds exponent, 'e' ∈ scientific layout.signed ds exponent := by
    intro ds exponent
    unfold scientific
    split_ifs <;> simp
  unfold magnitude
  simp only [h, ↓reduceIte]
  split_ifs
  · exact ⟨'.', by simp, rfl⟩
  · exact ⟨'.', hpoint _ _, rfl⟩
  · exact ⟨'e', hexponent _ _, rfl⟩

end FloatLayout

/-! ## Reading numbers of both kinds -/

/-- A number: a whole number has digits only, and no zero in front of another digit. -/
def Decimal.number? (cs : List Char) : Option Number :=
  let (negative, body) := splitSign cs
  if body.all Char.isDigit then
    ((nat? 10 body).filter fun n => Nat.toDigits 10 n == body).map fun (n : Nat) =>
      .int (if negative then -(n : Int) else n)
  else (float? cs).map .float

namespace Number

open Decimal

theorem exists_magnitude (layout : FloatLayout) (h : layout.signed) (n : Number) :
    ∃ sign body, n.render layout = sign ++ body ∧ (sign = [] ∨ sign = ['-']) ∧
      IsMagnitude body := by
  cases n with
  | int n =>
    refine ⟨_, _, rfl, ?_, .plain (isPlain_toDigits n.natAbs)⟩
    split_ifs <;> simp
  | float x =>
    refine ⟨_, _, layout.render_eq x, ?_, layout.isMagnitude_magnitude h x⟩
    split_ifs <;> simp

theorem number?_int (n : Int) :
    number? ((if n < 0 then ['-'] else []) ++ Nat.toDigits 10 n.natAbs) = some (.int n) := by
  have hdigits : (Nat.toDigits 10 n.natAbs).all Char.isDigit :=
    List.all_eq_true.mpr (isDigit_toDigits n.natAbs)
  have hread : (nat? 10 (Nat.toDigits 10 n.natAbs)).filter
      (fun m => Nat.toDigits 10 m == Nat.toDigits 10 n.natAbs) = some n.natAbs := by
    simp [Option.filter]
  by_cases hn : n < 0
  · have hvalue : -((n.natAbs : Nat) : Int) = n := by omega
    have hsplit : splitSign (['-'] ++ Nat.toDigits 10 n.natAbs) =
        (true, Nat.toDigits 10 n.natAbs) := rfl
    simp only [hn, ↓reduceIte, number?, hsplit, hdigits, hread, Option.map_some, hvalue]
  · have hvalue : ((n.natAbs : Nat) : Int) = n := by omega
    have hsplit : splitSign ([] ++ Nat.toDigits 10 n.natAbs) =
        (false, Nat.toDigits 10 n.natAbs) := (startsDigit_toDigits n.natAbs).splitSign_eq
    simp only [hn, ↓reduceIte, number?, hsplit, hdigits, hread, Option.map_some, hvalue]
    rfl

/-- A number is read back from its text, if whole fractions keep a point in it. -/
theorem number?_render {layout : FloatLayout} (h : layout.fraction) {n : Number} (hn : n.InRange) :
    number? (n.render layout) = some n := by
  cases n with
  | int n => exact number?_int n
  | float x =>
    obtain ⟨c, hc, hdigit⟩ := layout.exists_not_isDigit_magnitude h x
    have hall : (layout.magnitude x).all Char.isDigit = false :=
      List.all_eq_false.mpr ⟨c, hc, by simp [hdigit]⟩
    have hread := layout.float?_render hn
    simp only [render, number?, layout.splitSign_render, hall, hread]
    rfl

end Number

end NotebookProject
