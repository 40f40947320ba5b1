import NotebookProject.Proofs.Source.Statement

/-!
# Reserved words

The names in a source are made from stored text: they consist of word characters and do not begin
with a digit. That is what an identifier looks like, but a few words that look so are reserved for
the language and can be neither assigned nor read. A stored name that spells one of them, blanks
apart, is made into that very word; no other stored name is.

## Main definitions

* `reservedWords`: the words that no name may be.
* `spellsReserved`: the stored names that are made into one of them.
* `Job.boundNames`: the stored names that the source of a job binds or reads.

## Main results

* `Block.usable_names`: the names in the source of a block are identifiers, and they can be used
  unless the stored name spells a reserved word.
-/

namespace NotebookProject

namespace Source

open Text
open Python (Slot render tokens? tokensOf)

/-! ## Identifiers -/

/-- A letter or an underscore, and after it letters, digits and underscores. -/
def isIdentifier (s : String) : Bool :=
  match s.toList with
  | [] => false
  | c :: rest => isNameStart c && rest.all isWord

/-- The words that the language keeps for itself. -/
def reservedWords : List String :=
  ["False", "None", "True", "and", "as", "assert", "async", "await", "break", "class", "continue",
   "def", "del", "elif", "else", "except", "finally", "for", "from", "global", "if", "import", "in",
   "is", "lambda", "nonlocal", "not", "or", "pass", "raise", "return", "try", "while", "with",
   "yield"]

/-- A name that can be assigned and read. -/
def isUsable (s : String) : Bool := isIdentifier s && !reservedWords.contains s

/-- Without blanks, and but for characters that no name holds and digits in front, the stored name
is a reserved word. -/
def spellsReserved (stored : String) : Bool :=
  stored.toList.all (fun c => !isBlank c) &&
    reservedWords.contains
      (String.ofList ((stored.toList.filter isWord).dropWhile Char.isDigit))

theorem isIdentifier_nameOf (stored : String) : isIdentifier (nameOf stored) := by
  obtain ⟨c, rest, hname, hstart, hword⟩ := exists_toList_nameOf stored
  obtain ⟨-, hrest⟩ := List.forall_mem_cons.mp hword
  rw [isIdentifier, hname]
  exact Bool.and_eq_true_iff.mpr ⟨hstart, List.all_eq_true.mpr hrest⟩

/-! ## Which stored names give a reserved word -/

variable {cs : List Char} {stored : String}

theorem collapseRuns_eq_self (h : ∀ c ∈ cs, isBlank c = false) :
    collapseRuns isBlank '_' cs = cs := by
  fun_induction collapseRuns isBlank '_' cs with
  | case1 | case3 => rfl
  | case2 | case4 | case5 => simp_all
  | case6 d e rest hd ih => rw [ih (List.forall_mem_cons.mp h).2]

/-- A run of blanks leaves an underscore. -/
theorem underscore_mem_collapseRuns (h : ∃ c ∈ cs, isBlank c) :
    '_' ∈ collapseRuns isBlank '_' cs := by
  fun_induction collapseRuns isBlank '_' cs with
  | case1 => simp at h
  | case2 | case5 => exact List.mem_cons_self
  | case3 d hd => simp [hd] at h
  | case4 d e rest hd he ih => exact ih ⟨e, List.mem_cons_self, he⟩
  | case6 d e rest hd ih =>
    obtain ⟨c, hc, hblank⟩ := h
    rcases List.mem_cons.mp hc with rfl | hc
    · exact absurd hblank hd
    · exact List.mem_cons_of_mem _ (ih ⟨c, hc, hblank⟩)

theorem mem_dropWhile_of_mem {p : Char → Bool} {c : Char} (hc : c ∈ cs) (hp : p c = false) :
    c ∈ cs.dropWhile p := by
  rw [← List.takeWhile_append_dropWhile (p := p) (l := cs)] at hc
  rcases List.mem_append.mp hc with hc | hc
  · have hall := List.all_eq_true.mp List.all_takeWhile c hc
    simp [hp] at hall
  · exact hc

theorem dropWhile_congr {p q : Char → Bool} (h : ∀ c ∈ cs, p c = q c) :
    cs.dropWhile p = cs.dropWhile q := by
  induction cs with
  | nil => rfl
  | cons c cs ih =>
    obtain ⟨hc, hcs⟩ := List.forall_mem_cons.mp h
    simp only [List.dropWhile_cons, hc, ih hcs]

/-- Without blanks a name loses the characters that cannot stand in it and digits in front. -/
theorem nameChars_of_no_blank (h : ∀ c ∈ cs, isBlank c = false) :
    nameChars cs = (cs.filter isWord).dropWhile Char.isDigit := by
  rw [nameChars, collapseRuns_eq_self h]
  exact dropWhile_congr fun c hc => isNameStart_eq (List.mem_filter.mp hc).2

/-- A blank leaves an underscore in the name. -/
theorem underscore_mem_nameChars (h : ∃ c ∈ cs, isBlank c) : '_' ∈ nameChars cs :=
  mem_dropWhile_of_mem (List.mem_filter.mpr ⟨underscore_mem_collapseRuns h, rfl⟩) rfl

theorem nameOf_mem_reservedWords (stored : String) :
    nameOf stored ∈ reservedWords ↔ spellsReserved stored := by
  have hempty : "" ∉ reservedWords := by decide
  have hdefault : defaultName ∉ reservedWords := by decide
  have hplain : ∀ w ∈ reservedWords, '_' ∉ w.toList := by decide
  by_cases hblank : ∃ c ∈ stored.toList, isBlank c
  · have hunderscore := underscore_mem_nameChars hblank
    have hname : nameOf stored ∉ reservedWords := fun hmem => by
      have hne : (nameChars stored.toList).isEmpty = false := by
        cases hcs : nameChars stored.toList <;> simp_all
      refine hplain _ hmem ?_
      simpa [nameOf, hne] using hunderscore
    have hspells : spellsReserved stored = false := by
      obtain ⟨c, hc, hcblank⟩ := hblank
      refine Bool.and_eq_false_iff.mpr (.inl (List.all_eq_false.mpr ⟨c, hc, ?_⟩))
      simp [hcblank]
    simp [hname, hspells]
  · have hblank' : ∀ c ∈ stored.toList, isBlank c = false := by simpa using hblank
    have hall : stored.toList.all (fun c => !isBlank c) = true :=
      List.all_eq_true.mpr fun c hc => by simp [hblank' c hc]
    rw [spellsReserved, hall, Bool.true_and, ← nameChars_of_no_blank hblank',
      List.contains_iff_mem]
    cases hcs : nameChars stored.toList with
    | nil => simp [nameOf, hcs, hdefault, hempty]
    | cons c cs => simp [nameOf, hcs]

theorem isUsable_nameOf (stored : String) :
    isUsable (nameOf stored) ↔ ¬ spellsReserved stored := by
  have hreserved := nameOf_mem_reservedWords stored
  simp only [isUsable, isIdentifier_nameOf, Bool.true_and, Bool.not_eq_true',
    ← List.contains_iff_mem] at hreserved ⊢
  rw [← Bool.not_eq_true, hreserved]

/-! ## Names in slots -/

/-- The stored names whose slots stand among these, in order. -/
def namesIn (slots : List Slot) : List String :=
  slots.filterMap fun
    | .name stored | .format stored => some stored
    | _ => none

@[simp] theorem namesIn_nil : namesIn [] = [] := rfl

@[simp] theorem namesIn_append (xs ys : List Slot) :
    namesIn (xs ++ ys) = namesIn xs ++ namesIn ys :=
  List.filterMap_append

@[simp] theorem namesIn_code (piece : String) (slots : List Slot) :
    namesIn (.code piece :: slots) = namesIn slots := rfl

@[simp] theorem namesIn_text (value : String) (slots : List Slot) :
    namesIn (.text value :: slots) = namesIn slots := rfl

@[simp] theorem namesIn_json (t : Tree) (slots : List Slot) :
    namesIn (.json t :: slots) = namesIn slots := rfl

@[simp] theorem namesIn_name (stored : String) (slots : List Slot) :
    namesIn (.name stored :: slots) = stored :: namesIn slots := rfl

@[simp] theorem namesIn_format (stored : String) (slots : List Slot) :
    namesIn (.format stored :: slots) = stored :: namesIn slots := rfl

theorem namesIn_slotLines (ls : List (List Slot)) :
    namesIn (slotLines ls) = ls.flatMap namesIn := by
  induction ls with
  | nil => rfl
  | cons l rest ih => cases rest <;> simp_all [slotLines]

theorem namesIn_separated (ls : List (List Slot)) :
    namesIn (separated ls) = ls.flatMap namesIn := by
  induction ls with
  | nil => rfl
  | cons l rest ih => cases rest <;> simp_all [separated]

theorem namesIn_commaSlots (ss : List String) : namesIn (commaSlots ss) = [] := by
  induction ss with
  | nil => rfl
  | cons s rest ih => cases rest <;> simp_all [commaSlots]

mutual

theorem namesIn_literalSlots : (t : Tree) → namesIn (literalSlots t) = []
  | .null | .bool _ | .number _ | .string _ => rfl
  | .list items => by simp [literalSlots, namesIn_separated, namesIn_itemSlots items]
  | .record entries => by simp [literalSlots, namesIn_separated, namesIn_entriesSlots entries]

theorem namesIn_itemSlots : (ts : List Tree) → (itemSlots ts).flatMap namesIn = []
  | [] => rfl
  | t :: rest => by simp [itemSlots, namesIn_literalSlots t, namesIn_itemSlots rest]

theorem namesIn_entriesSlots : (es : List (String × Tree)) → (entriesSlots es).flatMap namesIn = []
  | [] => rfl
  | (k, t) :: rest => by
    simp [entriesSlots, entrySlots, namesIn_literalSlots t, namesIn_entriesSlots rest]

end

end Source

open Source
open Python (Slot render tokens? tokensOf tokens?_render)

/-- The stored names that the source of a job binds or reads, in the order in which they stand
there. -/
def Job.boundNames : Job → List String
  | .code _ => []
  | .sql f => match nonEmpty? f.variableName with
    | some stored => [stored, stored]
    | none => []
  | .notebookFunction f =>
    if f.notebookId.isSome then (enabledMappings f).map fun e => e.2.variableName else []
  | .visualization f => match nonEmpty? f.variableName, f.spec with
    | some stored, some _ => [stored]
    | _, _ => []
  | .button f => match f.behavior, nonEmpty? f.variableName with
    | some .setVariable, some stored => [stored]
    | _, _ => []
  | .bigNumber f => (nonEmpty? f.value).toList ++ (nonEmpty? f.comparisonValue).toList
  | .inputText f | .inputTextarea f => [f.base.variableName]
  | .inputCheckbox f => [f.base.variableName]
  | .inputSelect f => [f.base.variableName]
  | .inputSlider f => [f.base.variableName]
  | .inputDate f => [f.base.variableName]
  | .inputDateRange f => [f.base.variableName]
  | .inputFile f => [f.base.variableName]

theorem namesIn_callSlots (f : FunctionFields) (id : String) :
    namesIn (callSlots f id) = (enabledMappings f).map fun e => e.2.variableName := by
  have htargets : namesIn (targetSlots f) = (enabledMappings f).map fun e => e.2.variableName := by
    unfold targetSlots
    split_ifs with hnil
    · simp [List.isEmpty_iff.mp hnil]
    · simp only [namesIn_append, namesIn_separated, List.flatMap_map, namesIn_code, namesIn_name,
        namesIn_nil, List.append_nil]
      exact List.map_eq_flatMap.symm
  simp [callSlots, namesIn_slotLines, htargets, namesIn_literalSlots, namesIn_separated,
    List.flatMap_map, entrySlots]

theorem namesIn_formattedSlot (variableName : Option String) (slots : List Slot) :
    namesIn (formattedSlot variableName :: slots) =
      (nonEmpty? variableName).toList ++ namesIn slots := by
  cases hname : nonEmpty? variableName <;> simp [formattedSlot, hname]

theorem nonEmpty?_some_getD (s : Option String) : nonEmpty? (some (s.getD "")) = nonEmpty? s := by
  cases s <;> rfl

theorem namesIn_bigNumberSlots (f : BigNumberFields) :
    namesIn (bigNumberSlots f) =
      (nonEmpty? f.value).toList ++ (nonEmpty? f.comparisonValue).toList := by
  simp only [bigNumberSlots, namesIn_slotLines]
  split_ifs with hcompared
  · simp [namesIn_formattedSlot, nonEmpty?_some_getD]
  · -- Without a comparison there is no variable for it.
    have hvalue : nonEmpty? f.comparisonValue = none := by
      have hempty : (f.comparisonValue.getD "").isEmpty := by simp_all
      cases hother : f.comparisonValue <;> simp_all [nonEmpty?]
    simp [namesIn_formattedSlot, hvalue]

theorem namesIn_selectionSlots (f : SelectInput) : namesIn (selectionSlots f) = [] := by
  unfold selectionSlots
  split
  · simp [namesIn_commaSlots]
  · split_ifs <;> rfl

theorem namesIn_dateOfSlots (s : String) : namesIn (dateOfSlots s) = [] := by
  unfold dateOfSlots
  split_ifs <;> rfl

theorem namesIn_relativeSlots (stored : String) (r : RelativeRange) :
    namesIn (relativeSlots stored r) = [stored] := by
  cases r <;> rfl

theorem namesIn_namedRangeSlots {f : DateRangeInput} {word s : String} (hf : f.value = .named word)
    (h : dateRange f = .ok s) :
    namesIn (namedRangeSlots f.base.variableName word) = [f.base.variableName] := by
  obtain ⟨days, hslots, -⟩ | ⟨r, hslots, -⟩ | ⟨hslots, -⟩ := namedRange_cases hf h
  · rw [hslots]
    rfl
  · rw [hslots, namesIn_relativeSlots]
  · rw [hslots]
    rfl

/-- Each stored name that a source binds or reads has a slot of its own, and no other has one. -/
theorem Job.namesIn_statement {job : Job} {activated : List String} {run : RunMetadata}
    {content s : String} (h : job.source activated run content = .ok s) :
    namesIn (job.statement activated content) = job.boundNames := by
  cases job with
  | code => rfl
  | sql f =>
    cases hname : nonEmpty? f.variableName <;>
      simp [statement, skeleton, sqlSlots, boundNames, hname, slotLines, assignSlots]
  | notebookFunction f =>
    cases hid : f.notebookId <;> simp [statement, boundNames, hid, namesIn_callSlots]
  | visualization f =>
    cases hname : nonEmpty? f.variableName <;> cases hspec : f.spec <;>
      simp [statement, skeleton, chartSlots, boundNames, hname, hspec]
  | button f =>
    cases hbehavior : f.behavior with
    | none => simp [statement, buttonSlots, boundNames, hbehavior]
    | some behavior =>
      cases behavior <;> cases hname : nonEmpty? f.variableName <;>
        simp [statement, buttonSlots, boundNames, hbehavior, hname, assignSlots]
  | bigNumber f => exact namesIn_bigNumberSlots f
  | inputText f | inputTextarea f | inputCheckbox f => rfl
  | inputSelect f =>
    simp [statement, skeleton, assignSlots, boundNames, namesIn_selectionSlots]
  | inputSlider f =>
    simp only [source, slider] at h
    cases hn : numeric? f.value with
    | none => simp [hn] at h
    | some n => simp [statement, boundNames, hn, assignSlots]
  | inputDate f =>
    simp only [statement, skeleton, dateSlots, boundNames]
    split_ifs <;> rfl
  | inputDateRange f =>
    cases hvalue : f.value with
    | named word => simpa [statement, boundNames, hvalue] using namesIn_namedRangeSlots hvalue h
    | between first last =>
      simp [statement, boundNames, hvalue, rangeSlots, namesIn_dateOfSlots]
  | inputFile f =>
    simp only [statement, skeleton, assignSlots, boundNames]
    split_ifs <;> rfl

/-- The source of a block, stored code apart, is comment lines and a statement in which each stored
name that it binds or reads is one name. That name looks like an identifier, and it is one unless
the stored name spells a reserved word. -/
theorem Block.usable_names {b : Block} {job : Job} {run : RunMetadata} {record : ExecutionRecord}
    (hbody : b.body = .task job run record) (hjob : job.kind ≠ .code) {activated : List String}
    {s : String} (h : b.source activated = .ok s) :
    ∃ slots, s = joinLines (job.remarks ++ [render slots]) ∧
      (∀ l ∈ job.remarks, isCommentLine l) ∧
      tokens? (render slots) = some (tokensOf slots) ∧
      namesIn slots = job.boundNames ∧
      ∀ stored ∈ job.boundNames, isIdentifier (nameOf stored) ∧
        (isUsable (nameOf stored) ↔ ¬ spellsReserved stored) := by
  simp only [Block.source, hbody] at h
  exact ⟨job.statement activated b.text, job.source_eq_statement hjob h, job.isCommentLine_remarks,
    tokens?_render (job.wellFormed_statement activated b.text), job.namesIn_statement h,
    fun stored _ => ⟨isIdentifier_nameOf stored, isUsable_nameOf stored⟩⟩

/-- A text input with the value `x`. -/
def textInput (variableName : String) : Block where
  header := ⟨"b", "g", "0", none, none⟩
  content := none
  layout := ⟨none, none, none, none, none, none, none⟩
  body := .task (.inputText ⟨⟨variableName, none⟩, "x", none⟩)
    ⟨none, none, none, none, none, none, none, none, none, none, none, none, none⟩
    ⟨none, none, none, none⟩
  extra := []

theorem Block.usable_names_textInput :
    (textInput "2nd class").source [] = .ok "nd_class = 'x'" ∧
      ∃ slots, "nd_class = 'x'" = joinLines [render slots] ∧
        tokens? (render slots) = some (tokensOf slots) ∧
        namesIn slots = ["2nd class"] ∧
        isUsable (nameOf "2nd class") := by
  have hsource : (textInput "2nd class").source [] = .ok "nd_class = 'x'" := by decide +kernel
  obtain ⟨slots, hs, -, htokens, hnames, husable⟩ :=
    Block.usable_names (b := textInput "2nd class") rfl (by decide) hsource
  have hspells : ¬ spellsReserved "2nd class" := by decide +kernel
  exact ⟨hsource, slots, hs, htokens, hnames,
    (husable "2nd class" (List.mem_singleton.mpr rfl)).2.mpr hspells⟩

/-- A stored name that spells a reserved word is assigned as that word. -/
theorem Block.unusable_name_textInput :
    (textInput "class").source [] = .ok "class = 'x'" ∧
      tokens? "class = 'x'" = some
        [.name ['c', 'l', 'a', 's', 's'], .operator ['='], .text ['x']] ∧
      "class" ∈ reservedWords ∧ isUsable (nameOf "class") = false := by
  decide +kernel

end NotebookProject
