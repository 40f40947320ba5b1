import NotebookProject.Proofs.Number.Numeral
import NotebookProject.Proofs.Schema.Slider
import NotebookProject.Proofs.Source.Value
import NotebookProject.Source.Notebook

/-!
# Sources of sliders

The value of a slider is a text, and its source is an assignment of that text, without the blanks
around it, if it is a numeral with a number that can be represented. Nothing else gets into the
source this way, and numerals get there digit by digit. A number that a document has in place of the
text is always a value of this kind, and its text denotes it.

## Main definitions

* `IsNumber`: a numeral with a sign or none, and a number that can be represented.

## Main results

* `slider_literals`: the sources of sliders, and those of sliders that have numbers as their values.
-/

namespace NotebookProject

namespace Source

open Binary64 (limit)
open Decimal (IsSign IsNumeral IsInteger IsDigits Denotes)

variable {cs : List Char} {s : String}

/-! ## Numerals -/

/-- A numeral with a sign or none, and a number that can be represented. -/
inductive IsNumber : List Char → Prop where
  | intro {sign body : List Char} {n : Nat} {e : Int} (hsign : IsSign sign)
      (h : IsNumeral body n e) (hlimit : (n : ℚ) * 10 ^ e < limit) : IsNumber (sign ++ body)

theorem isWhole_iff (h : IsDigits cs) : isWhole cs ↔ IsInteger cs := by
  constructor
  · intro hwhole
    obtain ⟨d, ds, rfl⟩ := List.exists_cons_of_ne_nil h.1
    rcases (Bool.or_eq_true _ _).mp hwhole with hzeros | hhead
    · have hall : ∀ c ∈ d :: ds, c = '0' := by simpa using hzeros
      have hcs := List.eq_replicate_of_mem hall
      rw [List.length_cons] at hcs
      rw [hcs]
      exact .zeros ds.length
    · obtain ⟨hd, hds⟩ := List.forall_mem_cons.mp h.2
      exact .leading hd (by simpa using hhead) hds
  · intro hinteger
    cases hinteger with
    | zeros k => simp [isWhole]
    | leading _ hzero _ => simp [isWhole, hzero]

/-- What is read as a fraction is a numeral if it is not digits with a zero in front of them. -/
theorem isNumeral_of_fraction? {body : List Char} {n : Nat} {e : Int}
    (hread : Decimal.fraction? body = some (n, e))
    (hwhole : (!body.all Char.isDigit || isWhole body) = true) : IsNumeral body n e := by
  rcases Decimal.fraction?_eq_some_iff.mp hread with ⟨hdigits, rfl, rfl⟩ | hfloat
  · have hall : body.all Char.isDigit := List.all_eq_true.mpr hdigits.2
    rw [hall, Bool.not_true, Bool.false_or] at hwhole
    exact .integer ((isWhole_iff hdigits).mp hwhole)
  · exact .float hfloat

theorem whole_of_isNumeral {body : List Char} {n : Nat} {e : Int} (h : IsNumeral body n e) :
    (!body.all Char.isDigit || isWhole body) = true := by
  cases h with
  | integer h => rw [(isWhole_iff h.isDigits).mpr h, Bool.or_true]
  | float h =>
    obtain ⟨c, hc, hdigit⟩ := h.exists_not_isDigit
    have hall : body.all Char.isDigit = false := List.all_eq_false.mpr ⟨c, hc, by simp [hdigit]⟩
    rw [hall, Bool.not_false, Bool.true_or]

/-- The values that get into the source, and the text that they have there. -/
theorem numeric?_eq (s : String) :
    (IsNumber (Text.trim s.toList) ∧ numeric? s = some (String.ofList (Text.trim s.toList))) ∨
      (¬ IsNumber (Text.trim s.toList) ∧ numeric? s = none) := by
  unfold numeric?
  generalize Text.trim s.toList = cs
  dsimp only
  by_cases hnumber : IsNumber cs
  · refine .inl ⟨hnumber, ?_⟩
    obtain ⟨hsign, hnumeral, hlimit⟩ := hnumber
    have hfinite := (hnumeral.isSome_float? hsign).mpr hlimit
    rw [hnumeral.splitSign_eq hsign, hfinite, whole_of_isNumeral hnumeral]
    rfl
  · refine .inr ⟨hnumber, ?_⟩
    obtain ⟨sign, body, hsign, rfl, hsplit⟩ := Decimal.exists_splitSign cs
    rw [hsplit]
    refine if_neg fun hcond => hnumber ?_
    obtain ⟨hfinite, hwhole⟩ := (Bool.and_eq_true _ _).mp hcond
    obtain ⟨x, hx⟩ := Option.isSome_iff_exists.mp hfinite
    unfold Decimal.float? at hx
    rw [hsplit] at hx
    obtain ⟨⟨n, e⟩, hread, hdecimal⟩ := Option.bind_eq_some_iff.mp hx
    have hnumeral := isNumeral_of_fraction? hread hwhole
    have hsome : (Binary64.ofDecimal (sign == ['-']) n e).isSome :=
      Option.isSome_iff_exists.mpr ⟨x, hdecimal⟩
    exact .intro hsign hnumeral ((Binary64.isSome_ofDecimal _ n e).mp hsome)

theorem isNumber_iff : IsNumber (Text.trim s.toList) ↔ (numeric? s).isSome := by
  rcases numeric?_eq s with ⟨hnumber, hsome⟩ | ⟨hnot, hnone⟩
  · simp [hnumber, hsome]
  · simp [hnot, hnone]

/-! ## Numbers -/

theorem trim_eq_self (h : ∀ c ∈ cs, Text.isBlank c = false) : Text.trim cs = cs := by
  have hfront : ∀ ds : List Char, (∀ c ∈ ds, Text.isBlank c = false) → Text.trimFront ds = ds := by
    intro ds hds
    cases ds with
    | nil => rfl
    | cons d ds => simp [Text.trimFront, hds d List.mem_cons_self]
  rw [Text.trim, hfront cs h, hfront _ (by simpa using h), List.reverse_reverse]

theorem cast_lt_limit {n : Nat} (h : n ≤ twoTo 64) : (n : ℚ) < limit := by
  have hlimit : twoTo 64 < limit := Binary64.twoTo_lt_limit (by decide)
  exact Nat.cast_lt.mpr (h.trans_lt hlimit)

/-- The text of a number in range can be represented. -/
theorem isNumber_of_denotes {x : Number} (hx : x.InRange) (h : Denotes cs x) : IsNumber cs := by
  cases h with
  | @integer sign body hsign hbody =>
    refine .intro hsign (.integer hbody) ?_
    have hvalue : Decimal.valueOf body ≤ twoTo 64 := by
      obtain ⟨hlower, hupper⟩ := hx
      have hpower : twoTo 64 = 2 * twoTo 63 := twoTo_succ 63
      split_ifs at hlower hupper <;> omega
    rw [zpow_zero, mul_one]
    exact cast_lt_limit hvalue
  | @float sign body n e x hsign hbody hdecimal =>
    have hsome : (Binary64.ofDecimal (sign == ['-']) n e).isSome :=
      Option.isSome_iff_exists.mpr ⟨x, hdecimal⟩
    exact .intro hsign (.float hbody) ((Binary64.isSome_ofDecimal _ n e).mp hsome)

theorem trim_jsonNumber (x : Number) : Text.trim (Tree.jsonNumber x) = Tree.jsonNumber x := by
  have hall : ∀ c ∈ numberChars, Text.isBlank c = false :=
    List.all_iff_forall_prop.mp (by decide)
  apply trim_eq_self
  intro c hc
  have hnumeral : Decimal.isFractional c := by
    simp [Decimal.isFractional, x.isNumeral_render Tree.jsonFloat c hc]
  exact hall c (mem_numberChars hnumeral)

theorem slider_eq (f : SliderInput) :
    (IsNumber (Text.trim f.value.toList) ∧
        slider f = .ok (nameOf f.base.variableName ++ " = " ++
          String.ofList (Text.trim f.value.toList))) ∨
      (¬ IsNumber (Text.trim f.value.toList) ∧
        slider f = .error (.invalidSlider f.base.variableName f.value)) := by
  unfold slider
  rcases numeric?_eq f.value with ⟨hnumber, hsome⟩ | ⟨hnot, hnone⟩
  · exact .inl ⟨hnumber, by rw [hsome]; rfl⟩
  · exact .inr ⟨hnot, by rw [hnone]⟩

/-- The text of a number in range is always a value of a slider. -/
theorem slider_jsonNumber {f : SliderInput} {x : Number}
    (hvalue : f.value = String.ofList (Tree.jsonNumber x)) (hx : x.InRange) :
    slider f = .ok (nameOf f.base.variableName ++ " = " ++ String.ofList (Tree.jsonNumber x)) := by
  have hnumber : IsNumber (Tree.jsonNumber x) :=
    isNumber_of_denotes hx (Decimal.denotes_render rfl hx)
  have htrim : Text.trim f.value.toList = Tree.jsonNumber x := by
    rw [hvalue, String.toList_ofList, trim_jsonNumber]
  rcases slider_eq f with ⟨-, hok⟩ | ⟨hnot, -⟩
  · rwa [htrim] at hok
  · rw [htrim] at hnot
    exact absurd hnumber hnot

end Source

open Source Schema

/-- A slider has a source just if its value is a number without the blanks around it, and then its
source is an assignment of this text; otherwise the value is refused. If the value of a slider in a
document is a number and the document has no issues but at this value, then the document is valid
and the slider has a source: an assignment of a text that denotes the number. -/
theorem slider_literals :
    (∀ (b : Block) (f : SliderInput) (run : RunMetadata) (record : ExecutionRecord)
        (activated : List String), b.body = .task (.inputSlider f) run record →
      (IsNumber (Text.trim f.value.toList) ∧
          b.source activated = .ok (nameOf f.base.variableName ++ " = " ++
            String.ofList (Text.trim f.value.toList))) ∨
        (¬ IsNumber (Text.trim f.value.toList) ∧
          b.source activated = .error (.invalidSlider f.base.variableName f.value))) ∧
      ∀ (t u : Tree) (n b : Nat) (x : Number), t.blockAt? n b = some u → IsSlider u (.number x) →
        x.InRange → (∀ i ∈ issuesOf t, sliderPath n b <+: i.path) →
        ∃ (file : ProjectFile) (block : Block) (f : SliderInput) (run : RunMetadata)
          (record : ExecutionRecord) (text : List Char),
          validate t = .ok file ∧ file.blockAt? ⟨n, b⟩ = some block ∧
          block.body = .task (.inputSlider f) run record ∧ Decimal.Denotes text x ∧
          ∀ activated, block.source activated =
            .ok (nameOf f.base.variableName ++ " = " ++ String.ofList text) := by
  have hsource : ∀ (b : Block) (f : SliderInput) run record activated,
      b.body = .task (.inputSlider f) run record → b.source activated = slider f := by
    intro b f run record activated hbody
    rw [Block.source, hbody]
    rfl
  constructor
  · intro b f run record activated hbody
    rw [hsource b f run record activated hbody]
    exact slider_eq f
  · intro t u n b x hblock hslider hx hother
    obtain ⟨file, block, f, run, record, hvalid, hat, hbody, hvalue⟩ :=
      slider_of_number hslider hblock hother
    refine ⟨file, block, f, run, record, Tree.jsonNumber x, hvalid, hat, hbody,
      Decimal.denotes_render rfl hx, fun activated => ?_⟩
    rw [hsource block f run record activated hbody, slider_jsonNumber hvalue hx]

/-- A slider with this value. -/
def sliderBlock (value : String) : Block where
  header := ⟨"b", "g", "0", none, none⟩
  content := none
  layout := ⟨none, none, none, none, none, none, none⟩
  body := .task (.inputSlider ⟨⟨"n", none⟩, value, .int 0, .int 100, .int 1⟩) default default
  extra := []

/-- A document with a slider that has this number as its value. -/
def sliderTree (x : Number) : Tree :=
  singleNotebook [.record [("blockGroup", .string "g"), ("id", .string "b"),
    ("metadata", .record [("deepnote_variable_name", .string "n"), (valueKey, .number x)]),
    ("sortingKey", .string "a"), ("type", .string "input-slider")]]

/-- A point may stand in front of the digits, and a zero may not. A number as large as this one is
denoted by a text with an exponent. -/
theorem slider_literals_sliderBlock :
    (sliderBlock " -.5e01\n").source [] = .ok "n = -.5e01" ∧
      (sliderBlock "007").source [] = .error (.invalidSlider "n" "007") ∧
      ∃ (file : ProjectFile) (block : Block) (f : SliderInput) (text : List Char),
        validate (sliderTree (.float ⟨false, 5000000000000000, 1⟩)) = .ok file ∧
        file.blockAt? ⟨0, 0⟩ = some block ∧
        Decimal.Denotes text (.float ⟨false, 5000000000000000, 1⟩) ∧
        block.source [] = .ok (nameOf f.base.variableName ++ " = " ++ String.ofList text) := by
  obtain ⟨hblocks, htrees⟩ := slider_literals
  refine ⟨?_, ?_, ?_⟩
  · obtain ⟨-, hsource⟩ | ⟨hnot, -⟩ := hblocks (sliderBlock " -.5e01\n") _ _ _ [] rfl
    · exact hsource
    · have hnumeric : (numeric? " -.5e01\n").isSome := by decide
      exact absurd (isNumber_iff.mpr hnumeric) hnot
  · obtain ⟨hnumber, -⟩ | ⟨-, hsource⟩ := hblocks (sliderBlock "007") _ _ _ [] rfl
    · have hnumeric : ¬ (numeric? "007").isSome := by decide
      exact absurd (isNumber_iff.mp hnumber) hnumeric
    · exact hsource
  · have hx : (Number.float ⟨false, 5000000000000000, 1⟩).InRange := by
      simp [Number.InRange, Binary64.Canonical, Binary64.minExponent, Binary64.maxExponent, twoTo]
    have hnone : issuesOf (sliderTree (.float ⟨false, 5000000000000000, 1⟩)) = [] := by
      decide
    obtain ⟨file, block, f, run, record, text, hvalid, hat, -, hdenotes, hsource⟩ :=
      htrees (sliderTree (.float ⟨false, 5000000000000000, 1⟩)) _ 0 0 _ rfl
        (.intro (by decide) rfl rfl) hx (by simp [hnone])
    exact ⟨file, block, f, text, hvalid, hat, hdenotes, hsource []⟩

end NotebookProject
