import NotebookProject.Proofs.Number.Reading
import NotebookProject.Source.Notebook

/-!
# Names of date ranges

The name that is stored for a date range is a number of days behind a fixed word, or one of six
names. Any other name that begins like one of these is refused, and all names that do not stand for
no dates. The three tests that the name is put to overlap, so it is shown here that they never
disagree, and which names each of them lets through.

## Main definitions

* `NamedRange`: what a name can stand for.
* `NamedRange.Denotes`: what a name does stand for.

## Main results

* `Block.namedRange_source`: every name has the source of the one range that it stands for, or is
  refused.
-/

namespace NotebookProject

open Source

/-- A range that a name can stand for. -/
inductive NamedRange where
  | lastDays (days : Nat)
  | relative (r : RelativeRange)
  | unset
  deriving DecidableEq, Repr

namespace NamedRange

/-- The assignment of the range, with the number of days in decimal. -/
def source (name : String) : NamedRange → String
  | .lastDays days =>
    "from datetime import datetime as _deepnote_datetime, timedelta as _deepnote_timedelta\n" ++
    name ++ " = [_deepnote_datetime.now().date() - _deepnote_timedelta(days=" ++
    String.ofList (Nat.toDigits 10 days) ++ "), _deepnote_datetime.now().date()]"
  | .relative .past7Days =>
    "from datetime import datetime as _deepnote_datetime, timedelta as _deepnote_timedelta\n" ++
    name ++ " = [_deepnote_datetime.now().date() - _deepnote_timedelta(days=7), " ++
    "_deepnote_datetime.now().date()]"
  | .relative .past14Days =>
    "from datetime import datetime as _deepnote_datetime, timedelta as _deepnote_timedelta\n" ++
    name ++ " = [_deepnote_datetime.now().date() - _deepnote_timedelta(days=14), " ++
    "_deepnote_datetime.now().date()]"
  | .relative .pastMonth =>
    "from datetime import datetime as _deepnote_datetime\n" ++
    "from dateutil.relativedelta import relativedelta as _deepnote_relativedelta\n" ++
    name ++ " = [_deepnote_datetime.now().date() - _deepnote_relativedelta(months=1), " ++
    "_deepnote_datetime.now().date()]"
  | .relative .past3Months =>
    "from datetime import datetime as _deepnote_datetime\n" ++
    "from dateutil.relativedelta import relativedelta as _deepnote_relativedelta\n" ++
    name ++ " = [_deepnote_datetime.now().date() - _deepnote_relativedelta(months=3), " ++
    "_deepnote_datetime.now().date()]"
  | .relative .past6Months =>
    "from datetime import datetime as _deepnote_datetime\n" ++
    "from dateutil.relativedelta import relativedelta as _deepnote_relativedelta\n" ++
    name ++ " = [_deepnote_datetime.now().date() - _deepnote_relativedelta(months=6), " ++
    "_deepnote_datetime.now().date()]"
  | .relative .pastYear =>
    "from datetime import datetime as _deepnote_datetime\n" ++
    "from dateutil.relativedelta import relativedelta as _deepnote_relativedelta\n" ++
    name ++ " = [_deepnote_datetime.now().date() - _deepnote_relativedelta(years=1), " ++
    "_deepnote_datetime.now().date()]"
  | .unset => name ++ " = [None, None]"

/-- The name begins as those of ranges that end today do. -/
def LooksRelative (word : String) : Prop :=
  "past".toList <+: word.toList ∨ customDaysWord.toList <+: word.toList

/-- What a name stands for. -/
inductive Denotes : String → NamedRange → Prop where
  | lastDays {digits : List Char} (hne : digits ≠ []) (hdigits : ∀ c ∈ digits, c.isDigit)
      (hword : Nat.ofDigitChars 10 digits 0 < twoTo 64) :
      Denotes (customDaysWord ++ String.ofList digits) (.lastDays (Nat.ofDigitChars 10 digits 0))
  | relative (r : RelativeRange) : Denotes r.name (.relative r)
  | unset {word : String} (h : ¬ LooksRelative word) : Denotes word .unset

variable {word : String} {days : Nat} {r : RelativeRange}

/-! ## What the tests let through -/

theorem daysBack_eq_source (name : String) (days : Nat) :
    RelativeRange.daysBack name days = (NamedRange.lastDays days).source name := by
  unfold RelativeRange.daysBack source
  rw [Nat.toString_eq_ofList_toDigits]

/-- Each of the six ranges has its own text, which depends on the name alone. -/
theorem relative_source (name : String) (r : RelativeRange) :
    r.source name = (NamedRange.relative r).source name := by
  cases r with
  | past7Days | past14Days =>
    change RelativeRange.daysBack name _ = _ ++ name ++ _ ++ _
    unfold RelativeRange.daysBack
    simp only [String.append_assoc]
    refine congrArg (_ ++ ·) (congrArg (name ++ ·) ?_)
    decide
  | pastMonth | past3Months | past6Months | pastYear =>
    change RelativeRange.calendarBack name _ = _ ++ _ ++ name ++ _ ++ _
    unfold RelativeRange.calendarBack
    simp only [String.append_assoc]
    refine congrArg (_ ++ ·) (congrArg (_ ++ ·) (congrArg (name ++ ·) ?_))
    decide

theorem looksRelative_iff :
    LooksRelative word ↔ (word.startsWith "past" || word.startsWith customDaysWord) = true := by
  rw [Bool.or_eq_true, String.startsWith_string_iff, String.startsWith_string_iff]
  rfl

theorem customDays?_eq_some_iff :
    customDays? word = some days ↔ Denotes word (.lastDays days) := by
  constructor
  · intro h
    obtain ⟨hword, hfilter⟩ := Option.ite_none_right_eq_some.mp h
    obtain ⟨digits, hdigits⟩ := List.isPrefixOf_iff_prefix.mp hword
    rw [← hdigits, List.drop_left, Option.filter_eq_some_iff] at hfilter
    obtain ⟨hnat, hsmall⟩ := hfilter
    obtain ⟨hne, hall, rfl⟩ := Decimal.nat?_eq_some_iff.mp hnat
    have heq : word = customDaysWord ++ String.ofList digits := by
      rw [← String.toList_inj, String.toList_append, String.toList_ofList, hdigits]
    rw [heq]
    exact .lastDays hne hall (of_decide_eq_true hsmall)
  · rintro ⟨hne, hall, hsmall⟩
    simp [customDays?, Decimal.nat?_eq hall hne, hsmall]

theorem ofName?_eq_ok_iff : RelativeRange.ofName? word = .ok r ↔ Denotes word (.relative r) := by
  have hnames : ∀ r, RelativeRange.ofName? r.name = .ok r := by
    intro r
    cases r <;> decide
  constructor
  · intro h
    unfold RelativeRange.ofName? at h
    split at h
    · rename_i found hfound
      obtain rfl : found = r := Except.ok.inj h
      have hname : found.name = word := by simpa using List.find?_some hfound
      exact hname ▸ .relative found
    · cases h
  · rintro ⟨⟩
    exact hnames r

theorem ofName?_eq_error (h : ∀ r, ¬ Denotes word (.relative r)) :
    RelativeRange.ofName? word = .error (.unknownRange word) := by
  cases hname : RelativeRange.ofName? word with
  | ok r => exact absurd (ofName?_eq_ok_iff.mp hname) (h r)
  | error e =>
    unfold RelativeRange.ofName? at hname
    split at hname
    · cases hname
    · exact congrArg Except.error (Except.error.inj hname).symm

/-! ## No name stands for two ranges -/

theorem Denotes.not_looksRelative (h : Denotes word .unset) : ¬ LooksRelative word := by
  cases h with
  | unset hplain => exact hplain

theorem Denotes.looksRelative_of_lastDays (h : Denotes word (.lastDays days)) :
    LooksRelative word := by
  cases h
  apply Or.inr
  rw [String.toList_append]
  exact List.prefix_append _ _

theorem Denotes.looksRelative_of_relative (h : Denotes word (.relative r)) :
    LooksRelative word := by
  cases h
  apply Or.inl
  cases r <;> decide

theorem Denotes.not_relative (h : Denotes word (.lastDays days)) :
    ¬ Denotes word (.relative r) := by
  intro hr
  have hdays := customDays?_eq_some_iff.mpr h
  have hnone : customDays? r.name = none := by cases r <;> decide
  cases hr
  rw [hnone] at hdays
  cases hdays

theorem Denotes.unique {range other : NamedRange} (h : Denotes word range)
    (h' : Denotes word other) : range = other := by
  cases range with
  | lastDays days =>
    cases other with
    | lastDays days' =>
      have hdays := (customDays?_eq_some_iff.mpr h).symm.trans (customDays?_eq_some_iff.mpr h')
      rw [Option.some.inj hdays]
    | relative r => exact absurd h' h.not_relative
    | unset => exact absurd h.looksRelative_of_lastDays h'.not_looksRelative
  | relative r =>
    cases other with
    | lastDays days => exact absurd h h'.not_relative
    | relative r' =>
      have hname := (ofName?_eq_ok_iff.mpr h).symm.trans (ofName?_eq_ok_iff.mpr h')
      rw [Except.ok.inj hname]
    | unset => exact absurd h.looksRelative_of_relative h'.not_looksRelative
  | unset =>
    cases other with
    | lastDays days => exact absurd h'.looksRelative_of_lastDays h.not_looksRelative
    | relative r => exact absurd h'.looksRelative_of_relative h.not_looksRelative
    | unset => rfl

/-! ## Sources -/

/-- A name that stands for a range has its source. -/
theorem Denotes.dateRange_eq {f : DateRangeInput} {range : NamedRange}
    (hvalue : f.value = .named word) (h : Denotes word range) :
    dateRange f = .ok (range.source (nameOf f.base.variableName)) := by
  unfold dateRange
  rw [hvalue]
  dsimp only
  cases range with
  | lastDays days =>
    rw [customDays?_eq_some_iff.mpr h]
    dsimp only
    rw [daysBack_eq_source]
  | relative r =>
    have hdays : customDays? word = none := by
      rw [Option.eq_none_iff_forall_not_mem]
      intro days hdays
      exact (customDays?_eq_some_iff.mp hdays).not_relative h
    rw [hdays]
    dsimp only
    rw [if_pos (looksRelative_iff.mp h.looksRelative_of_relative), ofName?_eq_ok_iff.mpr h,
      ← relative_source]
    rfl
  | unset =>
    have hdays : customDays? word = none := by
      rw [Option.eq_none_iff_forall_not_mem]
      intro days hdays
      exact h.not_looksRelative (customDays?_eq_some_iff.mp hdays).looksRelative_of_lastDays
    rw [hdays]
    dsimp only
    rw [if_neg (mt looksRelative_iff.mpr h.not_looksRelative)]
    rfl

/-- A name that stands for nothing is refused. -/
theorem dateRange_eq_error {f : DateRangeInput} (hvalue : f.value = .named word)
    (h : ∀ range, ¬ Denotes word range) : dateRange f = .error (.unknownRange word) := by
  have hlooks : LooksRelative word := by
    by_contra hplain
    exact h .unset (.unset hplain)
  have hdays : customDays? word = none := by
    rw [Option.eq_none_iff_forall_not_mem]
    intro days hdays
    exact h _ (customDays?_eq_some_iff.mp hdays)
  unfold dateRange
  rw [hvalue]
  dsimp only
  rw [hdays]
  dsimp only
  rw [if_pos (looksRelative_iff.mp hlooks), ofName?_eq_error fun r => h _]
  rfl

end NamedRange

open NamedRange

/-- A name of a date range either stands for one range, and then its block has the source of that
range, the same as that of any other block whose name stands for it; or it begins as the names of
ranges do, stands for none, and is refused. -/
theorem Block.namedRange_source {b : Block} {f : DateRangeInput} {run : RunMetadata}
    {record : ExecutionRecord} {word : String}
    (hbody : b.body = .task (.inputDateRange f) run record) (hvalue : f.value = .named word)
    (activated : List String) :
    (∃ range, Denotes word range ∧ (∀ other, Denotes word other → other = range) ∧
      b.source activated = .ok (range.source (nameOf f.base.variableName)) ∧
      ∀ (c : Block) (g : DateRangeInput) (run' : RunMetadata) (record' : ExecutionRecord)
        (word' : String) (activated' : List String),
        c.body = .task (.inputDateRange g) run' record' → g.value = .named word' →
        Denotes word' range → nameOf g.base.variableName = nameOf f.base.variableName →
        c.source activated' = b.source activated) ∨
    (LooksRelative word ∧ (∀ range, ¬ Denotes word range) ∧
      b.source activated = .error (.unknownRange word)) := by
  have hsource : ∀ (c : Block) (g : DateRangeInput) run' record' activated',
      c.body = .task (.inputDateRange g) run' record' → c.source activated' = dateRange g := by
    intro c g run' record' activated' hc
    rw [Block.source, hc]
    rfl
  rw [hsource b f run record activated hbody]
  by_cases h : ∃ range, Denotes word range
  · obtain ⟨range, hrange⟩ := h
    refine .inl ⟨range, hrange, fun other hother => hother.unique hrange,
      hrange.dateRange_eq hvalue, ?_⟩
    intro c g run' record' word' activated' hc hg hword' hname
    rw [hsource c g run' record' activated' hc, hword'.dateRange_eq hg, hrange.dateRange_eq hvalue,
      hname]
  · have hnone := not_exists.mp h
    refine .inr ⟨?_, hnone, dateRange_eq_error hvalue hnone⟩
    by_contra hplain
    exact h ⟨.unset, .unset hplain⟩

/-- A date range of this name. -/
def namedRangeBlock (word : String) : Block where
  header := ⟨"b", "g", "0", none, none⟩
  content := none
  layout := ⟨none, none, none, none, none, none, none⟩
  body := .task (.inputDateRange ⟨⟨"my period", none⟩, .named word⟩) default default
  extra := []

/-- Zeros in front of the number do not matter. A line end behind it does. -/
theorem Block.namedRange_source_customDays :
    (namedRangeBlock "customDays007").source [] =
        .ok ((NamedRange.lastDays 7).source "my_period") ∧
      (namedRangeBlock "customDays7\n").source [] = .error (.unknownRange "customDays7\n") := by
  have hname : nameOf "my period" = "my_period" := by decide
  constructor
  · have hdays : Denotes "customDays007" (.lastDays 7) :=
      customDays?_eq_some_iff.mp (by decide)
    obtain ⟨range, -, hunique, hsource, -⟩ | ⟨-, hnone, -⟩ :=
      Block.namedRange_source (b := namedRangeBlock "customDays007") rfl rfl []
    · rw [hsource, ← hunique _ hdays, hname]
    · exact absurd hdays (hnone _)
  · obtain ⟨range, hrange, -⟩ | ⟨-, -, hsource⟩ :=
      Block.namedRange_source (b := namedRangeBlock "customDays7\n") rfl rfl []
    · have hlooks : LooksRelative "customDays7\n" := .inr (by decide)
      have hdays : customDays? "customDays7\n" = none := by decide
      cases range with
      | lastDays days => simp [customDays?_eq_some_iff.mpr hrange] at hdays
      | relative r =>
        have hok := ofName?_eq_ok_iff.mpr hrange
        have hnone : (RelativeRange.ofName? "customDays7\n").toOption = none := by decide
        simp [hok, Except.toOption] at hnone
      | unset => exact absurd hlooks hrange.not_looksRelative
    · exact hsource

end NotebookProject
