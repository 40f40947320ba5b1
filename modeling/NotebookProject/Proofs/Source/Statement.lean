import NotebookProject.Proofs.Source.Value

/-!
# Statements

Stored code apart, the source of a block that runs is a few comment lines, mostly none, and a
statement made of slots. To the slots of the skeletons this adds those of calls of notebooks, check
boxes, sliders, buttons and named date ranges.

## Main definitions

* `Job.remarks`: the comment lines of a job.
* `Job.statement`: the slots of its statement.

## Main results

* `Job.source_eq_statement`: they make up the source.
* `Job.wellFormed_statement`: no slot of a statement runs into the next one.
-/

namespace NotebookProject

namespace Source

open Python

variable {before after : String} {xs : List Slot}

/-! ## Comments -/

/-- The line holds a comment and nothing else. -/
def isCommentLine (l : String) : Bool :=
  l.toList.head? == some '#' && l.toList.all fun c => c != '\n' && c != '\r'

theorem comment_stays_on_line (s : String) : ∀ c ∈ (comment s).toList, c ≠ '\n' ∧ c ≠ '\r' := by
  have hchar : ∀ d, ∀ c ∈ commentChar d, c ≠ '\n' ∧ c ≠ '\r' := by
    intro d
    unfold commentChar
    split_ifs <;> simp_all
  intro c hc
  obtain ⟨d, -, hd⟩ := List.mem_flatMap.mp (by simpa [comment] using hc)
  exact hchar d c hd

theorem isCommentLine_append {heading : String} (h : isCommentLine heading) (s : String) :
    isCommentLine (heading ++ comment s) := by
  obtain ⟨hhead, hall⟩ := Bool.and_eq_true_iff.mp h
  refine Bool.and_eq_true_iff.mpr ⟨?_, ?_⟩
  · cases hheading : heading.toList <;> simp_all
  · have hcomment := comment_stays_on_line s
    simpa [hall] using hcomment

/-! ## Calls of notebooks -/

/-- The line that says which exports are bound to which names. -/
def exportSummary (exports : List (String × String)) : String :=
  if exports.isEmpty then "(none)" else commaSeparated (exports.map fun e => e.1 ++ " -> " ++ e.2)

/-- The comment lines over a call. -/
def callRemarks (f : FunctionFields) (id : String) : List String :=
  ["# Notebook function: " ++ comment id,
   "# Inputs: " ++ comment (Tree.record (f.inputs.getD [])).toJson,
   "# Exports: " ++ comment (exportSummary (enabledExports f))]

/-- The mappings of the enabled exports, whose local names are made from the stored ones. -/
def enabledMappings (f : FunctionFields) : List (String × ExportMapping) :=
  (f.exports.getD []).filter fun e => e.2.enabled

/-- The names that a call is assigned to. -/
def targetSlots (f : FunctionFields) : List Slot :=
  if (enabledMappings f).isEmpty then []
  else separated ((enabledMappings f).map fun e => [.name e.2.variableName]) ++ [.code " = "]

/-- The lines of a call. -/
def callSlots (f : FunctionFields) (id : String) : List Slot :=
  slotLines
    [targetSlots f ++ [.code "_dntk.run_notebook_function("],
     [.code "    ", .text id, .code ","],
     .code "    inputs=" :: (literalSlots (.record (f.inputs.getD [])) ++ [.code ","]),
     .code "    export_mappings=" :: (.code "\x7b" :: (separated ((enabledExports f).map fun e =>
       entrySlots e.1 [.text e.2]) ++ [.code "\x7d"]) ++ [.code ","]),
     [.code ")"]]

theorem enabledExports_eq (f : FunctionFields) :
    enabledExports f = (enabledMappings f).map fun e => (e.1, nameOf e.2.variableName) := rfl

theorem commaSeparated_isEmpty {s : String} (ss : List String) (h : s ≠ "") :
    (commaSeparated (s :: ss)).isEmpty = false := by
  cases ss <;> simp [commaSeparated, h]

theorem nameOf_ne_empty (stored : String) : nameOf stored ≠ "" := by
  obtain ⟨c, rest, hname, -⟩ := exists_toList_nameOf stored
  intro hempty
  simp [hempty] at hname

theorem render_targetSlots (f : FunctionFields) :
    render (targetSlots f) =
      (if (commaSeparated ((enabledExports f).map fun e => e.2)).isEmpty then ""
        else commaSeparated ((enabledExports f).map fun e => e.2) ++ " = ") := by
  rw [enabledExports_eq]
  cases hmappings : enabledMappings f with
  | nil => simp [targetSlots, hmappings, commaSeparated]
  | cons e es =>
    have hne := commaSeparated_isEmpty (es.map fun e => nameOf e.2.variableName)
      (nameOf_ne_empty e.2.variableName)
    simp [targetSlots, hmappings, render_separated, Function.comp_def, hne]

theorem render_callSlots (f : FunctionFields) {id : String} (h : f.notebookId = some id) :
    notebookFunction f = joinLines (callRemarks f id ++ [render (callSlots f id)]) := by
  simp [notebookFunction, h, callSlots, callRemarks, exportSummary, render_slotLines, joinLines,
    render_targetSlots, render_literalSlots, render_separated, dictionaryOf, Function.comp_def,
    String.append_assoc]

/-- A line with a value in it. -/
theorem isLine_of_isValue (hxs : IsValue xs) (hbefore : opensValue before)
    (hafter : closesValue after) (hfirst : Slot.wellFormed [.code "\n", .code before])
    (hlast : Slot.wellFormed [.code after, .code "\n"]) :
    isLine (.code before :: (xs ++ [.code after])) := by
  have hsplit := Slot.wellFormed_split (a := .code after) (.code before :: xs) [.code "\n"]
  have hvalue := hxs before after hbefore hafter
  have hboth : Slot.wellFormed (.code before :: (xs ++ [.code after, .code "\n"])) := by
    simp only [List.cons_append] at hsplit
    rw [hsplit, hvalue, hlast]
    rfl
  have hline := Slot.wellFormed_split (a := .code before) [.code "\n"]
    (xs ++ [.code after, .code "\n"])
  simp only [isLine, List.cons_append, List.append_assoc, List.nil_append] at hline ⊢
  rw [hline, hboth]
  exact Bool.and_eq_true_iff.mpr ⟨hfirst, rfl⟩

theorem isLine_targets (f : FunctionFields) :
    isLine (targetSlots f ++ [.code "_dntk.run_notebook_function("]) := by
  cases hmappings : enabledMappings f with
  | nil =>
    rw [targetSlots, hmappings]
    decide
  | cons e es =>
    have hnames : IsValue (separated ((e :: es).map fun e => [Slot.name e.2.variableName])) :=
      isValue_separated (List.cons_ne_nil _ _) fun l hl => by
        obtain ⟨e, -, rfl⟩ := List.mem_map.mp hl
        exact isValue_name _
    have hvalue := hnames "\n" " = " (by decide) (by decide)
    have hcall : Slot.wellFormed
        [.code " = ", .code "_dntk.run_notebook_function(", .code "\n"] := by decide
    have hsplit := Slot.wellFormed_split (a := .code " = ")
      (.code "\n" :: separated ((e :: es).map fun e => [Slot.name e.2.variableName]))
      [.code "_dntk.run_notebook_function(", .code "\n"]
    simp only [isLine, targetSlots, hmappings, List.isEmpty_cons, Bool.false_eq_true, ↓reduceIte,
      List.append_assoc, List.cons_append, List.nil_append] at hsplit ⊢
    rw [hsplit, hvalue, hcall]
    rfl

theorem wellFormed_callSlots (f : FunctionFields) (id : String) :
    Slot.wellFormed (callSlots f id) := by
  refine wellFormed_slotLines ?_
  have hinputs := isValue_literalSlots (.record (f.inputs.getD []))
  have hmappings : IsValue (.code "\x7b" :: (separated ((enabledExports f).map fun e =>
      entrySlots e.1 [.text e.2]) ++ [.code "\x7d"])) :=
    isValue_dictionary fun l hl => by
      obtain ⟨e, -, rfl⟩ := List.mem_map.mp hl
      exact isValue_entry e.1 (isValue_text e.2)
  simp only [List.forall_mem_cons, List.not_mem_nil, false_implies, implies_true, and_true]
  refine ⟨isLine_targets f, ?_, ?_, ?_, by decide⟩
  · exact isLine_of_isValue (isValue_text id) (by decide) (by decide) (by decide) (by decide)
  · exact isLine_of_isValue hinputs (by decide) (by decide) (by decide) (by decide)
  · exact isLine_of_isValue hmappings (by decide) (by decide) (by decide) (by decide)

/-! ## Inputs and buttons -/

theorem wellFormed_assignSlots (stored : String) (h : IsValue xs) :
    Slot.wellFormed (assignSlots stored xs) := by
  have hvalue : Slot.wellFormed (.code " = " :: xs) := Slot.wellFormed_dropLast
    (h " = " "\n" (by decide) (by decide))
  exact Bool.and_eq_true_iff.mpr ⟨rfl, hvalue⟩

theorem numeric?_value {s n : String} (h : numeric? s = some n) : IsValue [.code n] := by
  have hnumeric := Option.ite_none_right_eq_some.mp h
  obtain rfl := Option.some.inj hnumeric.2
  obtain ⟨x, hx⟩ := Option.isSome_iff_exists.mp (Bool.and_eq_true_iff.mp hnumeric.1).1
  refine isValue_number (fun hnil => ?_) fun c hc => ?_
  · exact Decimal.ne_nil_of_float? hx (by simpa using congrArg String.toList hnil)
  · exact mem_numberChars (Decimal.isFractional_of_float? hx c (by simpa using hc))

def buttonSlots (f : ButtonFields) (activated : List String) : List Slot :=
  match f.behavior, nonEmpty? f.variableName with
  | some .setVariable, some stored =>
    assignSlots stored [.code (truth (activated.contains (nameOf stored)))]
  | _, _ => []

theorem render_buttonSlots (f : ButtonFields) (activated : List String) :
    render (buttonSlots f activated) = button f activated := by
  cases hbehavior : f.behavior with
  | none => simp [buttonSlots, button, hbehavior]
  | some behavior =>
    cases behavior <;> cases hname : nonEmpty? f.variableName <;>
      simp [buttonSlots, button, hbehavior, hname, assignSlots, assign, String.append_assoc]

theorem wellFormed_buttonSlots (f : ButtonFields) (activated : List String) :
    Slot.wellFormed (buttonSlots f activated) := by
  unfold buttonSlots
  split
  · exact wellFormed_assignSlots _ (isValue_truth _)
  · rfl

/-! ## Named date ranges -/

def daysBackSlots (stored : String) (days : Nat) : List Slot :=
  [.code "from datetime import datetime as _deepnote_datetime, timedelta as _deepnote_timedelta\n",
   .name stored,
   .code " = [_deepnote_datetime.now().date() - _deepnote_timedelta(days=",
   .code (toString days),
   .code "), _deepnote_datetime.now().date()]"]

def calendarBackSlots (stored period : String) : List Slot :=
  [.code "from datetime import datetime as _deepnote_datetime\n",
   .code "from dateutil.relativedelta import relativedelta as _deepnote_relativedelta\n",
   .name stored,
   .code " = [_deepnote_datetime.now().date() - _deepnote_relativedelta(",
   .code period,
   .code "), _deepnote_datetime.now().date()]"]

def relativeSlots (stored : String) : RelativeRange → List Slot
  | .past7Days => daysBackSlots stored 7
  | .past14Days => daysBackSlots stored 14
  | .pastMonth => calendarBackSlots stored "months=1"
  | .past3Months => calendarBackSlots stored "months=3"
  | .past6Months => calendarBackSlots stored "months=6"
  | .pastYear => calendarBackSlots stored "years=1"

/-- The slots of a named range; a name that no source can be made for has none. -/
def namedRangeSlots (stored word : String) : List Slot :=
  match customDays? word with
  | some days => daysBackSlots stored days
  | none =>
    if word.startsWith "past" || word.startsWith customDaysWord then
      match RelativeRange.ofName? word with
      | .ok r => relativeSlots stored r
      | .error _ => []
    else [.name stored, .code " = [None, None]"]

theorem render_daysBackSlots (stored : String) (days : Nat) :
    render (daysBackSlots stored days) = RelativeRange.daysBack (nameOf stored) days := by
  unfold RelativeRange.daysBack daysBackSlots
  rw [render_cons, render_cons, render_cons, render_cons, render_cons, render_nil,
    String.append_empty, String.append_assoc, String.append_assoc, String.append_assoc]
  rfl

theorem render_calendarBackSlots (stored period : String) :
    render (calendarBackSlots stored period) =
      RelativeRange.calendarBack (nameOf stored) period := by
  unfold RelativeRange.calendarBack calendarBackSlots
  rw [render_cons, render_cons, render_cons, render_cons, render_cons, render_cons, render_nil,
    String.append_empty, String.append_assoc, String.append_assoc, String.append_assoc,
    String.append_assoc]
  rfl

theorem render_relativeSlots (stored : String) (r : RelativeRange) :
    render (relativeSlots stored r) = r.source (nameOf stored) := by
  cases r with
  | past7Days | past14Days => exact render_daysBackSlots stored _
  | _ => exact render_calendarBackSlots stored _

/-- The three forms of a named range that has a source. -/
theorem namedRange_cases {f : DateRangeInput} {word s : String} (hf : f.value = .named word)
    (h : dateRange f = .ok s) :
    (∃ days, namedRangeSlots f.base.variableName word = daysBackSlots f.base.variableName days ∧
      s = RelativeRange.daysBack (nameOf f.base.variableName) days) ∨
    (∃ r, namedRangeSlots f.base.variableName word = relativeSlots f.base.variableName r ∧
      s = r.source (nameOf f.base.variableName)) ∨
    (namedRangeSlots f.base.variableName word =
        [.name f.base.variableName, .code " = [None, None]"] ∧
      s = nameOf f.base.variableName ++ " = [None, None]") := by
  rw [dateRange, hf] at h
  dsimp only at h
  unfold namedRangeSlots
  cases hdays : customDays? word with
  | some days =>
    rw [hdays] at h
    exact .inl ⟨days, rfl, (Except.ok.inj h).symm⟩
  | none =>
    rw [hdays] at h
    dsimp only at h ⊢
    split_ifs at h ⊢ with hrelative
    · cases hr : RelativeRange.ofName? word with
      | error e => simp [hr, Except.map] at h
      | ok r =>
        rw [hr] at h
        exact .inr (.inl ⟨r, rfl, (Except.ok.inj h).symm⟩)
    · exact .inr (.inr ⟨rfl, (Except.ok.inj h).symm⟩)

theorem render_namedRangeSlots {f : DateRangeInput} {word s : String} (hf : f.value = .named word)
    (h : dateRange f = .ok s) : s = render (namedRangeSlots f.base.variableName word) := by
  obtain ⟨days, hslots, rfl⟩ | ⟨r, hslots, rfl⟩ | ⟨hslots, rfl⟩ := namedRange_cases hf h
  · rw [hslots, render_daysBackSlots]
  · rw [hslots, render_relativeSlots]
  · rw [hslots]
    rfl

theorem toList_toString_nat (n : Nat) : (toString n).toList = Nat.toDigits 10 n := by
  simp

theorem isValue_days (days : Nat) : IsValue [.code (toString days)] := by
  have hdigits : ∀ c ∈ (toString days).toList, c ∈ numberChars := fun c hc => by
    rw [toList_toString_nat] at hc
    exact mem_numberChars
      (Decimal.isFractional_of_isDigit (Decimal.isDigit_toDigits days c hc))
  refine isValue_number (fun hnil => ?_) hdigits
  have hlist := congrArg String.toList hnil
  rw [toList_toString_nat] at hlist
  exact Nat.toDigits_ne_nil hlist

/-- A line of code that ends between two tokens. -/
theorem wellFormed_import {piece : String} {cs : List Char} (hcs : piece.toList = cs)
    (h : cs.all isClean && (readFrom .between cs).any fun q => q.2 == .between) {a : Slot}
    {rest : List Slot} (ha : a.follows .between) (hrest : Slot.wellFormed (a :: rest)) :
    Slot.wellFormed (.code piece :: a :: rest) := by
  obtain ⟨hclean, hread⟩ := Bool.and_eq_true_iff.mp h
  obtain ⟨q, hq, hbetween⟩ := (Option.any_eq_true _ _).mp hread
  obtain hmode : q.2 = .between := beq_iff_eq.mp hbetween
  refine Bool.and_eq_true_iff.mpr ⟨?_, hrest⟩
  rw [Slot.mode?_code hcs, if_pos hclean, hq, Option.map_some, hmode]
  simpa [Mode.finish] using ha

/-- A name in front of code that begins with a blank. -/
theorem wellFormed_assigned (stored : String) {piece : String} {cs : List Char}
    (hcs : piece.toList = ' ' :: cs) (h : opensValue piece) :
    Slot.wellFormed [.name stored, .code piece] := by
  have hfinish : ∀ r ∈ readyModes, r.finish.isSome := by decide
  obtain ⟨r, hr, hmem⟩ := (Option.any_eq_true _ _).mp h
  have hfollows : (Slot.code piece).follows (.word ['f']) := by
    rw [Slot.follows, hcs]
    rfl
  refine Bool.and_eq_true_iff.mpr ⟨?_, ?_⟩
  · simpa [Slot.mode?, Mode.finish] using hfollows
  · simp [Slot.wellFormed, hr, hfinish r (List.contains_iff_mem.mp hmem)]

theorem wellFormed_daysBackSlots (stored : String) (days : Nat) :
    Slot.wellFormed (daysBackSlots stored days) := by
  have hopens : opensValue " = [_deepnote_datetime.now().date() - _deepnote_timedelta(days=" :=
    opensValue_of_chars String.toList_ofList (by decide +kernel)
  have hcloses : closesValue "), _deepnote_datetime.now().date()]" :=
    closesValue_of_chars String.toList_ofList (by decide +kernel) rfl
  have hsplit := Slot.wellFormed_split
    (a := .code " = [_deepnote_datetime.now().date() - _deepnote_timedelta(days=")
    [.code "from datetime import datetime as _deepnote_datetime, timedelta as _deepnote_timedelta\n",
      .name stored]
    [.code (toString days), .code "), _deepnote_datetime.now().date()]"]
  refine hsplit.trans (Bool.and_eq_true_iff.mpr ⟨?_, isValue_days days _ _ hopens hcloses⟩)
  exact wellFormed_import String.toList_ofList (by decide +kernel) rfl
    (wellFormed_assigned stored String.toList_ofList hopens)

theorem wellFormed_calendarBackSlots (stored : String) {period : String}
    (h : IsValue [.code period]) : Slot.wellFormed (calendarBackSlots stored period) := by
  have hopens : opensValue " = [_deepnote_datetime.now().date() - _deepnote_relativedelta(" :=
    opensValue_of_chars String.toList_ofList (by decide +kernel)
  have hcloses : closesValue "), _deepnote_datetime.now().date()]" :=
    closesValue_of_chars String.toList_ofList (by decide +kernel) rfl
  have hsplit := Slot.wellFormed_split
    (a := .code " = [_deepnote_datetime.now().date() - _deepnote_relativedelta(")
    [.code "from datetime import datetime as _deepnote_datetime\n",
      .code "from dateutil.relativedelta import relativedelta as _deepnote_relativedelta\n",
      .name stored]
    [.code period, .code "), _deepnote_datetime.now().date()]"]
  refine hsplit.trans (Bool.and_eq_true_iff.mpr ⟨?_, h _ _ hopens hcloses⟩)
  exact wellFormed_import String.toList_ofList (by decide +kernel)
    (by rw [Slot.follows, String.toList_ofList (l := 'f' :: _)]; rfl)
    (wellFormed_import String.toList_ofList (by decide +kernel) rfl
      (wellFormed_assigned stored String.toList_ofList hopens))

theorem wellFormed_relativeSlots (stored : String) (r : RelativeRange) :
    Slot.wellFormed (relativeSlots stored r) := by
  have hperiod {period : String} {n : Char} (hstarts : startsValue (.code period))
      (hmode : (Slot.code period).mode? = some (.number [n])) (hends : endsValue (.number [n])) :=
    wellFormed_calendarBackSlots stored (isValue_single hstarts hmode hends)
  cases r with
  | past7Days | past14Days => exact wellFormed_daysBackSlots stored _
  | pastMonth | pastYear => exact hperiod (n := '1') (by decide) (by decide) (by decide)
  | past3Months => exact hperiod (n := '3') (by decide) (by decide) (by decide)
  | past6Months => exact hperiod (n := '6') (by decide) (by decide) (by decide)

theorem wellFormed_namedRangeSlots (stored word : String) :
    Slot.wellFormed (namedRangeSlots stored word) := by
  unfold namedRangeSlots
  split
  · exact wellFormed_daysBackSlots stored _
  · split_ifs
    · split
      · exact wellFormed_relativeSlots stored _
      · rfl
    · rfl

end Source

/-! ## Sources of jobs -/

open Source Python

/-- The comment lines over the statement of a job. -/
def Job.remarks : Job → List String
  | .notebookFunction f => match f.notebookId with
    | some id => callRemarks f id
    | none => ["# Notebook function: Not configured"]
  | _ => []

/-- The slots of a job's statement. Stored code is no statement of this kind. -/
def Job.statement (activated : List String) (content : String) : Job → List Slot
  | .notebookFunction f => match f.notebookId with
    | some id => callSlots f id
    | none => [.code "pass"]
  | .button f => buttonSlots f activated
  | .inputCheckbox f => assignSlots f.base.variableName [.code (truth f.value)]
  | .inputSlider f => match numeric? f.value with
    | some n => assignSlots f.base.variableName [.code n]
    | none => []
  | .inputDateRange f => match f.value with
    | .between first last => rangeSlots f.base.variableName first last
    | .named word => namedRangeSlots f.base.variableName word
  | job => job.skeleton content

theorem Job.isCommentLine_remarks (job : Job) : ∀ l ∈ job.remarks, isCommentLine l := by
  cases job with
  | notebookFunction f =>
    simp only [remarks]
    split
    · simp only [callRemarks, List.forall_mem_cons]
      exact ⟨isCommentLine_append (by decide) _, isCommentLine_append (by decide) _,
        isCommentLine_append (by decide) _, by simp⟩
    · decide
  | _ => simp [remarks]

theorem Job.wellFormed_statement (activated : List String) (content : String) (job : Job) :
    Slot.wellFormed (job.statement activated content) := by
  cases job with
  | notebookFunction f =>
    simp only [statement]
    split
    · exact wellFormed_callSlots f _
    · rfl
  | button f => exact wellFormed_buttonSlots f activated
  | inputCheckbox f => exact wellFormed_assignSlots _ (isValue_truth f.value)
  | inputSlider f =>
    simp only [statement]
    split
    · next n hn => exact wellFormed_assignSlots _ (numeric?_value hn)
    · rfl
  | inputDateRange f =>
    simp only [statement]
    split
    · exact wellFormed_rangeSlots ..
    · exact wellFormed_namedRangeSlots ..
  | code => rfl
  | sql f => exact wellFormed_skeleton (.sql f) content
  | visualization f => exact wellFormed_skeleton (.visualization f) content
  | bigNumber f => exact wellFormed_skeleton (.bigNumber f) content
  | inputText f | inputTextarea f => exact wellFormed_skeleton (.inputText f) content
  | inputSelect f => exact wellFormed_skeleton (.inputSelect f) content
  | inputDate f => exact wellFormed_skeleton (.inputDate f) content
  | inputFile f => exact wellFormed_skeleton (.inputFile f) content

/-- The source of a job that is not stored code: comment lines and a statement. -/
theorem Job.source_eq_statement {job : Job} (hjob : job.kind ≠ .code) {activated : List String}
    {run : RunMetadata} {content s : String} (h : job.source activated run content = .ok s) :
    s = joinLines (job.remarks ++ [render (job.statement activated content)]) := by
  cases job with
  | code => exact absurd rfl hjob
  | notebookFunction f =>
    rw [← Except.ok.inj h]
    cases hid : f.notebookId with
    | some id => simp only [remarks, statement, hid, render_callSlots f hid]
    | none => simp [remarks, statement, Source.notebookFunction, hid, joinLines]
  | button f =>
    rw [← Except.ok.inj h, statement, render_buttonSlots]
    rfl
  | inputCheckbox f =>
    rw [← Except.ok.inj h]
    change checkbox f = render (assignSlots f.base.variableName [.code (truth f.value)])
    simp [assignSlots, checkbox, assign, String.append_assoc]
  | inputSlider f =>
    simp only [source, slider] at h
    cases hn : numeric? f.value with
    | none => simp [hn] at h
    | some n =>
      obtain rfl : assign f.base.variableName n = s := by simpa [hn] using h
      simp only [statement, hn]
      change _ = render (assignSlots f.base.variableName [.code n])
      simp [assignSlots, assign, String.append_assoc]
  | inputDateRange f =>
    cases hvalue : f.value with
    | named word =>
      rw [render_namedRangeSlots hvalue h]
      simp only [statement, hvalue]
      rfl
    | between first last =>
      have htemplated : (Job.inputDateRange f).isTemplated := by simp [isTemplated, hvalue]
      have hsource := source_eq_render htemplated activated run content
      rw [h] at hsource
      rw [Except.ok.inj hsource]
      simp only [statement, skeleton, hvalue]
      rfl
  | _ => exact Except.ok.inj (h.symm.trans (source_eq_render rfl activated run content))

end NotebookProject
