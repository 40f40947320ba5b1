import NotebookProject.Proofs.Schema.Record
import NotebookProject.Schema.Metadata

/-!
# Block metadata is lawful

The laws of every layer of block metadata and of the fields of every kind of block. Each proof
follows the description of its fields; what is left to check is that the keys differ, which is
done once for a whole record, where its layers meet.
-/

namespace NotebookProject.Schema

open Fields Codec

variable {h : Nat}

/-! ## Values of more than one kind -/

theorem lawful_embedMode : embedMode.Lawful h := by
  refine lawful_of_read_iff (fun path t => ?_) fun {path t a} => ?_
  · cases t <;> simp [embedMode]
  · cases a <;> cases t <;> simp [embedMode]

theorem selectValue_read_eq_ok {path : Path} {t : Tree} {v : SelectValue} :
    selectValue.read path t = .ok v ↔
      (∃ s, t = .string s ∧ v = .single s) ∨
      ∃ ss, (list string).read path t = .ok ss ∧ v = .multiple ss := by
  cases t with
  | string s => simpa [selectValue, list] using eq_comm
  | list ts =>
    simp only [selectValue, Reading.map_eq_ok_iff, reduceCtorEq, false_and, exists_false, false_or]
    grind
  | _ => simp [selectValue, list]

theorem lawful_selectValue : selectValue.Lawful (h + 1) where
  honest path t := by
    cases t with
    | list ts => exact ((lawful_string (h := h)).list.honest path (.list ts)).map _
    | _ => simp [selectValue]
  present {_ _ v} _ _ := by cases v <;> rfl
  reread ht hr other := by
    refine selectValue_read_eq_ok.mpr ?_
    rcases selectValue_read_eq_ok.mp hr with ⟨s, rfl, rfl⟩ | ⟨ss, hss, rfl⟩
    · exact .inl ⟨s, rfl, rfl⟩
    · exact .inr ⟨ss, (lawful_string (h := h)).list.reread ht hss other, rfl⟩
  sound ht hr hn := by
    rcases selectValue_read_eq_ok.mp hr with ⟨s, rfl, rfl⟩ | ⟨ss, hss, rfl⟩
    · exact Tree.sound_string s
    · exact lawful_string.list.sound ht hss hn

/-- A slider's value is written as text, also where a number was read. -/
theorem lawful_sliderValue : sliderValue.Lawful h where
  honest path t := by cases t <;> simp [sliderValue]
  present _ _ := rfl
  reread _ _ _ := rfl
  sound _ _ _ := Tree.sound_string _

theorem rangeValue_read_eq_ok {path : Path} {t : Tree} {v : RangeValue} :
    rangeValue.read path t = .ok v ↔ t = rangeValue.write v := by
  cases v <;> simp only [rangeValue] <;> split <;> simp_all

theorem lawful_rangeValue : rangeValue.Lawful h := by
  refine lawful_of_read_iff (fun path t => ?_) rangeValue_read_eq_ok
  simp only [rangeValue]
  split <;> simp

/-! ## Defaults -/

theorem default_string (s : String) : string.Default h s :=
  ⟨rfl, fun _ _ => rfl, fun _ => Tree.sound_string s⟩

theorem default_bool (b : Bool) : bool.Default h b :=
  ⟨rfl, fun _ _ => rfl, fun _ => Tree.sound_bool b⟩

theorem default_sliderValue (s : String) : sliderValue.Default h s :=
  ⟨rfl, fun _ _ => rfl, fun _ => Tree.sound_string s⟩

theorem default_single (s : String) : selectValue.Default h (.single s) :=
  ⟨rfl, fun _ _ => rfl, fun _ => Tree.sound_string s⟩

theorem default_named (s : String) : rangeValue.Default h (.named s) :=
  ⟨rfl, fun _ _ => rfl, fun _ => Tree.sound_string s⟩

theorem default_number {x : Number} (hx : x.InRange) : number.Default h x :=
  ⟨rfl, fun _ _ => rfl, fun _ => Tree.sound_number.mpr hx⟩

theorem default_nil {α : Type} (c : Codec α) : c.list.Default (h + 1) [] := by
  refine ⟨rfl, fun _ _ => rfl, fun {n} hn => ?_⟩
  obtain ⟨m, rfl⟩ := Nat.exists_eq_add_of_le' (Nat.le_trans (Nat.le_add_left 1 h) hn)
  simp [list]

/-! ## Layers -/

theorem lawful_layoutFields : layoutFields.Lawful h :=
  (lawful_optional _ lawful_bool
    |>.and (lawful_optional _ lawful_bool)
    |>.and (lawful_optional _ lawful_bool)
    |>.and (lawful_optional _ lawful_number)
    |>.and (lawful_optional _ lawful_string)
    |>.and (lawful_optional _ lawful_string)
    |>.and (lawful_optional _ lawful_number)).imap fun _ => rfl

theorem lawful_runFields : runFields.Lawful h :=
  (lawful_optional _ lawful_bool
    |>.and (lawful_optional _ lawful_bool)
    |>.andFirst (lawful_optional _ lawful_embedMode)
    |>.and (lawful_optional _ lawful_number)
    |>.and (lawful_optional _ lawful_number)
    |>.and (lawful_optional _ lawful_string)
    |>.and (lawful_optional _ lawful_string)
    |>.and (lawful_optional _ lawful_bool)
    |>.and (lawful_optional _ lawful_number)
    |>.and (lawful_optional _ lawful_bool)
    |>.and (lawful_optional _ lawful_entries)
    |>.and (lawful_optional _ lawful_bool)
    |>.and (lawful_optional _ lawful_bool)).imap fun _ => rfl

theorem lawful_executionFields : executionFields.Lawful h :=
  (lawful_optional _ lawful_signed
    |>.and (lawful_optional _ lawful_timestamp)
    |>.and (lawful_optional _ lawful_timestamp)
    |>.and (lawful_optional _ lawful_trees)).imap fun _ => rfl

theorem lawful_imageFields : imageFields.Lawful h :=
  (lawful_optional _ lawful_string
    |>.and (lawful_optional _ lawful_string)
    |>.and (lawful_optional _ lawful_string)).imap fun _ => rfl

theorem lawful_cellFields (kind : CellKind) : (cellFields kind).Lawful h := by
  cases kind with
  | image => exact lawful_imageFields.variant fun _ => rfl
  | todo => exact (lawful_optional _ lawful_bool).variant fun _ => rfl
  | callout => exact (lawful_optional _ lawful_string).variant fun _ => rfl
  | _ => exact lawful_constant _

/-! ## Computations -/

theorem lawful_codeFields : codeFields.Lawful h := lawful_optional _ lawful_string

theorem lawful_sqlFields : sqlFields.Lawful h :=
  (lawful_optional _ lawful_string
    |>.and (lawful_optional _ (lawful_choice _ _))
    |>.and (lawful_optional _ lawful_string)
    |>.and (lawful_optional _ lawful_bool)
    |>.and (lawful_optional _ lawful_string)).imap fun _ => rfl

theorem lawful_exportMapping : exportMapping.Lawful (h + 1) := by
  have hfields := lawful_withDefault "enabled" lawful_bool (default_bool (h := h) false)
    |>.and (lawful_required "variable_name" lawful_string)
  exact hfields.openRecord (by decide) fun _ => rfl

theorem lawful_functionFields : functionFields.Lawful (h + 2) :=
  (lawful_nullable _ lawful_string
    |>.and (lawful_optional _ lawful_entries)
    |>.and (lawful_optional _ lawful_exportMapping.dictionary)).imap fun _ => rfl

theorem lawful_chartFilter : chartFilter.Lawful (h + 1) := by
  have hfields := lawful_optional (h := h) "advancedFilters" lawful_trees
  exact hfields.openRecord (by decide) fun _ => rfl

theorem lawful_chartFields : chartFields.Lawful (h + 1) :=
  (lawful_optional _ lawful_string
    |>.and (lawful_optional _ lawful_tree)
    |>.and (lawful_optional _ lawful_chartFilter)).imap fun _ => rfl

theorem lawful_buttonFields : buttonFields.Lawful h :=
  (lawful_optional _ lawful_string
    |>.and (lawful_optional _ lawful_string)
    |>.and (lawful_optional _ (lawful_choice _ _))
    |>.and (lawful_optional _ lawful_string)).imap fun _ => rfl

theorem lawful_bigNumberFields : bigNumberFields.Lawful h :=
  (lawful_optional _ lawful_string
    |>.and (lawful_optional _ lawful_string)
    |>.and (lawful_optional _ lawful_string)
    |>.and (lawful_optional _ lawful_bool)
    |>.and (lawful_optional _ lawful_string)
    |>.and (lawful_optional _ lawful_string)
    |>.and (lawful_optional _ lawful_string)
    |>.and (lawful_optional _ lawful_string)).imap fun _ => rfl

/-! ## Inputs -/

theorem lawful_inputBase : inputBase.Lawful h :=
  (lawful_unlessAbsent _ lawful_string (default_string _)
    |>.and (lawful_optional _ lawful_string)).imap fun _ => rfl

theorem lawful_textInput : textInput.Lawful h :=
  (lawful_inputBase
    |>.and (lawful_withDefault _ lawful_string (default_string _))
    |>.and (lawful_optional _ lawful_string)).imap fun _ => rfl

theorem lawful_checkboxInput : checkboxInput.Lawful h :=
  (lawful_inputBase
    |>.and (lawful_withDefault _ lawful_bool (default_bool _))
    |>.and (lawful_optional _ lawful_string)).imap fun _ => rfl

theorem lawful_selectInput : selectInput.Lawful (h + 1) :=
  (lawful_inputBase
    |>.and (lawful_withDefault _ lawful_selectValue (default_single _))
    |>.and (lawful_withDefault _ lawful_string.list (default_nil _))
    |>.and (lawful_optional _ lawful_string.list)
    |>.and (lawful_optional _ lawful_string)
    |>.and (lawful_optional _ lawful_string)
    |>.and (lawful_optional _ lawful_bool)
    |>.and (lawful_optional _ lawful_bool)).imap fun _ => rfl

theorem inRange_of_lt {n : Nat} (hn : n < 1000) : (Number.int n).InRange := by
  have hlow : 0 < twoTo 63 := by decide
  have hhigh : 1000 < twoTo 64 := by decide
  simp only [Number.InRange]
  omega

theorem lawful_sliderInput : sliderInput.Lawful h :=
  (lawful_inputBase
    |>.and (lawful_withDefault _ lawful_sliderValue (default_sliderValue _))
    |>.and (lawful_withDefault _ lawful_number (default_number (inRange_of_lt (n := 0) (by omega))))
    |>.and (lawful_withDefault _ lawful_number
      (default_number (inRange_of_lt (n := 100) (by omega))))
    |>.and (lawful_withDefault _ lawful_number
      (default_number (inRange_of_lt (n := 1) (by omega))))).imap fun _ => rfl

theorem lawful_dateInput : dateInput.Lawful h :=
  (lawful_inputBase
    |>.and (lawful_withDefault _ lawful_string (default_string _))
    |>.and (lawful_optional _ lawful_signed)).imap fun _ => rfl

theorem lawful_dateRangeInput : dateRangeInput.Lawful (h + 1) :=
  (lawful_inputBase
    |>.and (lawful_withDefault _ lawful_rangeValue (default_named _))).imap fun _ => rfl

theorem lawful_fileInput : fileInput.Lawful h :=
  (lawful_inputBase
    |>.and (lawful_withDefault _ lawful_string (default_string _))
    |>.and (lawful_optional _ lawful_string)).imap fun _ => rfl

theorem lawful_jobFields (kind : TaskKind) : (jobFields kind).Lawful (h + 2) := by
  cases kind with
  | code => exact lawful_codeFields.variant fun _ => rfl
  | sql => exact lawful_sqlFields.variant fun _ => rfl
  | notebookFunction => exact lawful_functionFields.variant fun _ => rfl
  | visualization => exact lawful_chartFields.variant fun _ => rfl
  | button => exact lawful_buttonFields.variant fun _ => rfl
  | bigNumber => exact lawful_bigNumberFields.variant fun _ => rfl
  | inputText => exact lawful_textInput.variant fun _ => rfl
  | inputTextarea => exact lawful_textInput.variant fun _ => rfl
  | inputCheckbox => exact lawful_checkboxInput.variant fun _ => rfl
  | inputSelect => exact lawful_selectInput.variant fun _ => rfl
  | inputSlider => exact lawful_sliderInput.variant fun _ => rfl
  | inputDate => exact lawful_dateInput.variant fun _ => rfl
  | inputDateRange => exact lawful_dateRangeInput.variant fun _ => rfl
  | inputFile => exact lawful_fileInput.variant fun _ => rfl

end NotebookProject.Schema
