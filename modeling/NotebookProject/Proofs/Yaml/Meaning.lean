import NotebookProject.Proofs.Number.Reading
import NotebookProject.Yaml.Decode
import NotebookProject.Yaml.Written

/-!
# The meaning of written numbers

The text of a number in range is read as that number when it stands as a plain scalar: it is none
of the words, a whole number has no zero in front, and a fraction has a point or an exponent.
-/

namespace NotebookProject.Yaml

open Decimal FloatLayout

variable {cs : List Char}

namespace Meaning

/-- Words have a letter that no number has. -/
theorem contains_eq_false (words : List String)
    (hwords : words.all (fun w => w.toList.any fun c => !isNumeral c) = true)
    (h : ∀ c ∈ cs, isNumeral c) : words.contains (String.ofList cs) = false := by
  rw [← Bool.not_eq_true, List.contains_iff_mem]
  intro hmem
  have hword := List.all_eq_true.mp hwords _ hmem
  rw [String.toList_ofList, List.any_eq_true] at hword
  obtain ⟨c, hc, hnot⟩ := hword
  rw [h c hc] at hnot
  exact absurd hnot (by decide)

theorem bool?_eq_none (h : ∀ c ∈ cs, isNumeral c) : bool? (String.ofList cs) = none := by
  unfold bool?
  rw [contains_eq_false trueWords (by decide) h,
    contains_eq_false falseWords (by decide) h]
  rfl

theorem magnitude?_eq (h : ∀ c ∈ cs, isNumeral c) : magnitude? cs = nat? 10 cs := by
  unfold magnitude?
  split <;> first
    | rfl
    | exact absurd (h _ (List.mem_cons_of_mem _ (List.mem_cons_self ..))) (by decide)

/-! ## Whole numbers -/

theorem head?_toDigits {n : Nat} (hn : n ≠ 0) : (Nat.toDigits 10 n).head? ≠ some '0' := by
  induction n using Nat.strongRecOn with
  | ind n ih =>
    by_cases hlt : n < 10
    · have hsingle : ∀ n < 10, n ≠ 0 → [n.digitChar].head? ≠ some '0' := by decide
      rw [Nat.toDigits_of_lt_base hlt]
      exact hsingle n hlt hn
    · have hrest := ih (n / 10) (by omega) (by omega)
      rw [Nat.toDigits_of_base_le (by decide) (by omega), List.head?_append_of_ne_nil _
        Nat.toDigits_ne_nil]
      exact hrest

theorem isPadded_toDigits (n : Nat) : isPadded (Nat.toDigits 10 n) = false := by
  unfold isPadded
  rw [(startsDigit_toDigits n).splitSign_eq]
  by_cases hn : n = 0
  · subst hn
    rfl
  · simp [head?_toDigits hn]

theorem isPadded_minus_toDigits (n : Nat) : isPadded ('-' :: Nat.toDigits 10 n) = false := by
  have hplain := isPadded_toDigits n
  unfold isPadded at hplain ⊢
  rw [(startsDigit_toDigits n).splitSign_eq] at hplain
  exact hplain

theorem int?_render (layout : FloatLayout) {n : Int} (h : (Number.int n).InRange) :
    int? ((Number.int n).render layout) = some (.int n) := by
  obtain ⟨hlower, hupper⟩ := h
  have hdigits : ∀ c ∈ Nat.toDigits 10 n.natAbs, isNumeral c := fun c => isNumeral_of_mem_toDigits
  have hmagnitude : magnitude? (Nat.toDigits 10 n.natAbs) = some n.natAbs := by
    rw [magnitude?_eq hdigits, nat?_toDigits]
  unfold int?
  by_cases hn : n < 0
  · have htext : (Number.int n).render layout = '-' :: Nat.toDigits 10 n.natAbs := by
      simp [Number.render, hn]
    have hsign : splitSign ('-' :: Nat.toDigits 10 n.natAbs) =
        (true, Nat.toDigits 10 n.natAbs) := rfl
    have hle : n.natAbs ≤ twoTo 63 := by omega
    have habs : -(n.natAbs : Int) = n := by omega
    rw [htext, hsign, isPadded_minus_toDigits]
    simp only [Bool.false_eq_true, ↓reduceIte, hmagnitude, Option.bind_some, hle]
    rw [habs]
  · have htext : (Number.int n).render layout = Nat.toDigits 10 n.natAbs := by
      simp [Number.render, hn]
    have hlt : n.natAbs < twoTo 64 := by omega
    have habs : (n.natAbs : Int) = n := by omega
    rw [htext, (startsDigit_toDigits _).splitSign_eq, isPadded_toDigits]
    simp only [Bool.false_eq_true, ↓reduceIte, hmagnitude, Option.bind_some, hlt]
    rw [habs]

/-! ## Fractions -/

/-- A text that is not digits alone is no whole number. -/
theorem int?_eq_none {c : Char} (h : ∀ c ∈ cs, isNumeral c) (hc : c ∈ (splitSign cs).2)
    (hdigit : digit? 10 c = none) : int? cs = none := by
  have hbody : ∀ c ∈ (splitSign cs).2, isNumeral c := by
    intro d hd
    unfold splitSign at hd
    split at hd <;> grind
  unfold int?
  dsimp only
  split
  · rfl
  · rw [magnitude?_eq hbody, nat?_eq_none hc hdigit]
    rfl

theorem isPadded_eq_false {c : Char} (hc : c ∈ (splitSign cs).2) (hdigit : c.isDigit = false) :
    isPadded cs = false := by
  have hall : (splitSign cs).2.all Char.isDigit = false := by
    rw [List.all_eq_false]
    exact ⟨c, hc, by simp [hdigit]⟩
  unfold isPadded
  simp [hall]

/-- A point or the letter of an exponent: what a fraction has and a whole number has not. -/
theorem exists_mem_magnitude (layout : FloatLayout) (hlayout : layout.fraction = true)
    (x : Binary64) :
    ∃ c ∈ layout.magnitude x, digit? 10 c = none ∧ c.isDigit = false := by
  have hpoint : digit? 10 '.' = none ∧ '.'.isDigit = false := ⟨rfl, rfl⟩
  have hletter : digit? 10 'e' = none ∧ 'e'.isDigit = false := ⟨rfl, rfl⟩
  unfold magnitude
  dsimp only
  split_ifs
  · exact ⟨'.', by simp, hpoint⟩
  · unfold places
    dsimp only
    split_ifs <;> exact ⟨'.', by simp, hpoint⟩
  · refine ⟨'e', ?_, hletter⟩
    unfold scientific
    split_ifs <;> simp

theorem render_ne_nil (x : Number) : x.render writtenFloat ≠ [] := by
  obtain ⟨body, ⟨d, rest, rfl, -⟩, htext | htext⟩ := x.render_eq writtenFloat <;> simp [htext]

theorem number?_render {x : Binary64} (h : x.Canonical) :
    number? (String.ofList (writtenFloat.render x)) = some (.float x) := by
  have hnumerals := writtenFloat.isNumeral_render x
  have hbody : ∀ c ∈ (splitSign (writtenFloat.render x)).2, isNumeral c := by
    intro d hd
    unfold splitSign at hd
    split at hd <;> grind
  have hread := writtenFloat.float?_render h
  unfold number?
  rw [String.toList_ofList]
  dsimp only
  rw [contains_eq_false infinityWords (by decide) hbody,
    contains_eq_false notANumberWords (by decide) hnumerals, hread]
  rfl

/-- What a number means that was written. -/
def ofNumber : Number → Meaning
  | .int n => .int n
  | .float x => .float x

theorem ofPlain_render {x : Number} (h : x.InRange) :
    ofPlain (String.ofList (x.render writtenFloat)) = ofNumber x := by
  have hnumerals := x.isNumeral_render writtenFloat
  have hnull := contains_eq_false nullWords (by decide) hnumerals
  have hempty : (String.ofList (x.render writtenFloat)).isEmpty = false := by
    rw [← Bool.not_eq_true, String.isEmpty_iff, String.ofList_eq_empty_iff]
    exact render_ne_nil x
  unfold ofPlain
  rw [hempty, hnull, bool?_eq_none hnumerals, String.toList_ofList]
  cases x with
  | int n =>
    simp only [Bool.or_self, Bool.false_eq_true, ↓reduceIte, int?_render writtenFloat h]
    rfl
  | float x =>
    obtain ⟨c, hc, hdigit, hisDigit⟩ := exists_mem_magnitude writtenFloat rfl x
    have hsign : (splitSign (writtenFloat.render x)).2 = writtenFloat.magnitude x := by
      rw [splitSign_render]
    rw [← hsign] at hc
    have hint := int?_eq_none hnumerals hc hdigit
    have hpadded := isPadded_eq_false hc hisDigit
    have hnumber := number?_render h
    simp only [Number.render] at hint hpadded ⊢
    simp [hint, hpadded, hnumber]
    rfl

/-! ## Ranges -/

/-- The numbers that a scalar can mean are those of trees. -/
def InRange : Meaning → Prop
  | .int n => (Number.int n).InRange
  | .float x => x.Canonical
  | _ => True

theorem inRange_of_int? {cs : List Char} {m : Meaning} (h : int? cs = some m) : m.InRange := by
  have hpos := twoTo_pos 64
  simp only [int?] at h
  by_cases hpadded : isPadded cs
  · rw [if_pos hpadded] at h
    cases h
  rw [if_neg hpadded] at h
  obtain ⟨n, -, hn⟩ := Option.bind_eq_some_iff.mp h
  split_ifs at hn <;> obtain rfl := Option.some.inj hn
  · simp only [InRange, Number.InRange]
    omega
  · trivial
  · simp only [InRange, Number.InRange]
    omega
  · trivial

theorem inRange_of_number? {s : String} {m : Meaning} (h : number? s = some m) : m.InRange := by
  simp only [number?] at h
  split_ifs at h with hinfinite hnot
  · obtain rfl := Option.some.inj h
    trivial
  · obtain rfl := Option.some.inj h
    trivial
  · obtain ⟨x, hx, rfl⟩ := Option.map_eq_some_iff.mp h
    obtain ⟨⟨digits, exponent⟩, -, hdecimal⟩ := Option.bind_eq_some_iff.mp hx
    exact Binary64.canonical_of_ofDecimal hdecimal

theorem inRange_ofPlain (s : String) : (ofPlain s).InRange := by
  unfold ofPlain
  by_cases hnull : s.isEmpty || nullWords.contains s
  · rw [if_pos hnull]
    trivial
  rw [if_neg hnull]
  cases bool? s with
  | some b => trivial
  | none =>
    cases hint : int? s.toList with
    | some m => exact inRange_of_int? hint
    | none =>
      cases hpadded : isPadded s.toList with
      | true => trivial
      | false =>
        cases hnumber : number? s with
        | some m => exact inRange_of_number? hnumber
        | none => trivial

end Meaning

end NotebookProject.Yaml
