import NotebookProject.Proofs.Source.Line
import NotebookProject.Proofs.Source.Script
import NotebookProject.Proofs.Source.Statement

/-!
# Null characters

No source with a null character can be loaded, not even one with the character in a comment. A
literal spells a null character out, a name drops it and JSON text escapes it, so no statement
holds one. Comments and stored code keep it. The null characters of a script are therefore those of
the names of its notebooks, of the ids and enabled exports of the calls in them, and of stored code.

## Main definitions

* `Notebook.verbatim`: the texts of a notebook that keep their null characters in its script.

## Main results

* `ProjectFile.null_mem_script`: a script holds a null character if and only if one of these texts
  does.
-/

namespace NotebookProject

namespace Source

open Python (tokens? tokens?_render render)

theorem null_mem_terminators : '\x00' ∈ terminators := by decide

/-- A source that can be read holds no null character. -/
theorem holds_null_of_tokens? {s : String} (h : (tokens? s).isSome) : holds '\x00' s = false := by
  unfold tokens? at h
  split_ifs at h with hnull
  · simp at h
  · simpa [holds] using hnull

theorem holds_null_joinLines (lines : List String) :
    holds '\x00' (joinLines lines) = lines.any (holds '\x00') :=
  holds_intercalate rfl lines

theorem holds_null_paragraphs (parts : List String) :
    holds '\x00' (paragraphs parts) = parts.any (holds '\x00') :=
  holds_intercalate rfl parts

/-! ## Sources of jobs -/

/-- Stored code is set up by lines without it. -/
theorem holds_null_code (tableState : Option Entries) (content : String) :
    holds '\x00' (code tableState content) = holds '\x00' content := by
  have hif : holds '\x00' "if '_dntk' in globals():" = false :=
    holds_of_chars String.toList_ofList
  have hcall : holds '\x00' "  _dntk.dataframe_utils.configure_dataframe_formatter(" = false :=
    holds_of_chars String.toList_ofList
  have hend : holds '\x00' ")" = false := rfl
  have helse : holds '\x00' "else:" = false := rfl
  have hassign : holds '\x00' "  _deepnote_current_table_attrs = " = false :=
    holds_of_chars String.toList_ofList
  have hempty : holds '\x00' "" = false := rfl
  simp [code, holds_null_joinLines, holds_append, holds_quote null_mem_terminators, hif, hcall, hend,
    helse, hassign, hempty]

/-- In the line that lists the exports only their own names may hold one, not the local ones. -/
theorem holds_null_exportSummary (f : FunctionFields) :
    holds '\x00' (exportSummary (enabledExports f)) =
      (enabledMappings f).any fun e => holds '\x00' e.1 := by
  rw [enabledExports_eq, exportSummary]
  cases hmappings : enabledMappings f with
  | nil => rfl
  | cons e es =>
    have harrow : holds '\x00' " -> " = false := rfl
    simp [holds_commaSeparated null_mem_terminators, holds_append,
      holds_nameOf null_mem_terminators, harrow, Function.comp_def]

theorem holds_null_callRemarks (f : FunctionFields) (id : String) :
    (callRemarks f id).any (holds '\x00') =
      (holds '\x00' id || (enabledMappings f).any fun e => holds '\x00' e.1) := by
  have hid : holds '\x00' "# Notebook function: " = false := holds_of_chars String.toList_ofList
  have hinputs : holds '\x00' "# Inputs: " = false := rfl
  have hexports : holds '\x00' "# Exports: " = false := rfl
  simp [callRemarks, holds_append, holds_comment, holds_toJson null_mem_terminators,
    holds_null_exportSummary, hid, hinputs, hexports]

end Source

open Source
open Python (render tokens?_render)

/-- The texts of a job that keep their null characters in its source. -/
def Job.verbatim (content : String) : Job → List String
  | .code _ => [content]
  | .notebookFunction f => match f.notebookId with
    | some id => id :: (enabledMappings f).map Prod.fst
    | none => []
  | _ => []

theorem Job.holds_null_remarks {job : Job} (hjob : job.kind ≠ .code) (content : String) :
    job.remarks.any (holds '\x00') = (job.verbatim content).any (holds '\x00') := by
  cases job with
  | code => exact absurd rfl hjob
  | notebookFunction f =>
    cases hid : f.notebookId with
    | some id => simp [remarks, verbatim, hid, holds_null_callRemarks, Function.comp_def]
    | none =>
      simp only [remarks, verbatim, hid]
      rfl
  | _ => rfl

/-- The source of a job holds a null character if and only if one of these texts does. -/
theorem Job.holds_null_source {job : Job} {activated : List String} {run : RunMetadata}
    {content s : String} (h : job.source activated run content = .ok s) :
    holds '\x00' s = (job.verbatim content).any (holds '\x00') := by
  by_cases hjob : job.kind = .code
  · cases job with
    | code =>
      rw [← Except.ok.inj h, holds_null_code]
      simp [verbatim]
    | _ => cases hjob
  · have hstatement : holds '\x00' (render (job.statement activated content)) = false :=
      holds_null_of_tokens? (by rw [tokens?_render (job.wellFormed_statement activated content)]; rfl)
    rw [job.source_eq_statement hjob h, holds_null_joinLines, List.any_append,
      job.holds_null_remarks hjob content]
    simp [hstatement]

/-! ## Scripts -/

/-- The texts of a block that keep their null characters in its source. -/
def Block.verbatim (b : Block) : List String :=
  match b.body with
  | .cell _ => []
  | .task job _ _ => job.verbatim b.text

/-- The texts of a notebook that keep their null characters in its script. -/
def Notebook.verbatim (n : Notebook) : List String := n.name :: n.blocks.flatMap Block.verbatim

theorem Block.holds_null_source {b : Block} {activated : List String} {s : String}
    (h : b.source activated = .ok s) : holds '\x00' s = b.verbatim.any (holds '\x00') := by
  unfold Block.source at h
  unfold Block.verbatim
  cases hbody : b.body with
  | cell =>
    rw [hbody] at h
    rw [← Except.ok.inj h]
    rfl
  | task job run record =>
    rw [hbody] at h
    exact Job.holds_null_source h

/-- Results have a property where what they are the results of has it. -/
theorem any_of_map_ok {α β ε : Type} {f : α → Except ε β} {p : α → Bool} {q : β → Bool}
    {xs : List α} {ys : List β} (hp : ∀ x y, f x = .ok y → q y = p x)
    (h : xs.map f = ys.map .ok) : ys.any q = xs.any p := by
  induction xs generalizing ys with
  | nil =>
    obtain rfl : ys = [] := by simpa using h.symm
    rfl
  | cons x xs ih =>
    cases ys with
    | nil => cases h
    | cons y ys =>
      obtain ⟨hx, hxs⟩ := List.cons.inj h
      rw [List.any_cons, List.any_cons, hp x y hx, ih hxs]

variable {activated : List String} {s : String}

theorem Notebook.holds_null_source {n : Notebook} (h : n.source activated = .ok s) :
    holds '\x00' s = (n.blocks.flatMap Block.verbatim).any (holds '\x00') := by
  rw [Notebook.source, blockSources_eq_mapM] at h
  cases hparts : n.blocks.mapM (Block.source activated) with
  | error e => simp [hparts, Except.map] at h
  | ok parts =>
    obtain rfl : paragraphs (parts.filter fun s => !s.isEmpty) = s := by
      simpa [hparts, Except.map] using h
    -- A source that is left out is empty.
    have hfilter : (parts.filter fun s => !s.isEmpty).any (holds '\x00') =
        parts.any (holds '\x00') := by
      rw [List.any_filter]
      refine List.any_congr rfl fun s => ?_
      cases hs : s.isEmpty with
      | true => simp [String.isEmpty_iff.mp hs, holds]
      | false => rfl
    rw [holds_null_paragraphs, hfilter, List.any_flatMap,
      any_of_map_ok (fun b s => Block.holds_null_source) (mapM_eq_ok_iff.mp hparts)]

theorem Notebook.holds_null_script {n : Notebook} (h : n.script activated = .ok s) :
    holds '\x00' s = n.verbatim.any (holds '\x00') := by
  rw [Notebook.script] at h
  cases hsource : n.source activated with
  | error e => simp [hsource] at h
  | ok source =>
    have hheading : holds '\x00' ("# " ++ comment n.name) = holds '\x00' n.name := by
      rw [holds_append, holds_comment]
      rfl
    have hnotebook := Notebook.holds_null_source hsource
    rw [hsource] at h
    rw [← Except.ok.inj h, Notebook.verbatim, List.any_cons, ← hnotebook]
    split_ifs with hempty
    · rw [hheading, String.isEmpty_iff.mp hempty]
      exact (Bool.or_false _).symm
    · simp [holds_null_paragraphs, hheading]

/-- The script of the chosen notebooks holds a null character if and only if stored code, the name
of a notebook or the id or an enabled export of a call does. All other stored text gets into the
script without its null characters. -/
theorem ProjectFile.null_mem_script {f : ProjectFile} {wanted : Option String}
    (h : f.script wanted activated = .ok s) :
    ∃ ns, f.select wanted = .ok ns ∧
      ('\x00' ∈ s.toList ↔ ∃ n ∈ ns, ∃ text ∈ n.verbatim, '\x00' ∈ text.toList) := by
  rw [ProjectFile.script] at h
  cases hselect : f.select wanted with
  | error e => simp [hselect] at h
  | ok ns =>
    refine ⟨ns, rfl, ?_⟩
    rw [hselect] at h
    dsimp only at h
    rw [notebookSections_eq_mapM] at h
    cases hparts : ns.mapM (Notebook.script (activated.map nameOf)) with
    | error e => simp [hparts, Except.map] at h
    | ok parts =>
      obtain rfl : paragraphs parts = s := by simpa [hparts, Except.map] using h
      have hnull : holds '\x00' (paragraphs parts) =
          ns.any fun n => n.verbatim.any (holds '\x00') := by
        rw [holds_null_paragraphs,
          any_of_map_ok (fun n s => Notebook.holds_null_script) (mapM_eq_ok_iff.mp hparts)]
      have hiff := Bool.eq_iff_iff.mp hnull
      simpa [holds] using hiff

/-- A document with a notebook in which one text input stands. Its value is the null character. -/
def nullInput (notebookName : String) : Tree :=
  .record [
    ("metadata", .record [("createdAt", .string "2024-06-01T12:00:00Z")]),
    ("project", .record [
      ("id", .string "p"),
      ("name", .string "P"),
      ("notebooks", .list [.record [
        ("blocks", .list [.record [
          ("blockGroup", .string "g"),
          ("id", .string "b"),
          ("metadata", .record [
            ("deepnote_variable_name", .string "x"),
            ("deepnote_variable_value", .string "\x00")]),
          ("sortingKey", .string "0"),
          ("type", .string "input-text")]]),
        ("id", .string "n"),
        ("name", .string notebookName)]])]),
    ("version", .string "1.0.0")]

/-- The value of an input is spelt out. -/
theorem ProjectFile.null_mem_script_nullInput :
    ∃ f s, Schema.validate (nullInput "N") = .ok f ∧ f.script none [] = .ok s ∧
      '\x00' ∉ s.toList := by
  have hscript : (Schema.validate (nullInput "N")).map (fun f =>
      (f.script none [], f.notebooks.map Notebook.verbatim)) =
      .ok (.ok "# N\n\nx = '\\x00'", [["N"]]) := by
    decide +kernel
  cases hvalid : Schema.validate (nullInput "N") with
  | error e => simp [hvalid, Except.map] at hscript
  | ok f =>
    rw [hvalid] at hscript
    obtain ⟨hs, hverbatim⟩ := Prod.mk.inj (Except.ok.inj hscript)
    obtain ⟨ns, hns, hnull⟩ := ProjectFile.null_mem_script hs
    obtain rfl : f.notebooks = ns := Except.ok.inj hns
    refine ⟨f, _, rfl, hs, fun hmem => ?_⟩
    obtain ⟨n, hn, text, htext, hmem⟩ := hnull.mp hmem
    have hall : ∀ texts ∈ f.notebooks.map Notebook.verbatim, ∀ text ∈ texts,
        '\x00' ∉ text.toList := by
      rw [hverbatim]
      decide
    exact hall _ (List.mem_map_of_mem hn) text htext hmem

/-- The name of a notebook is not, though no code is stored. -/
theorem ProjectFile.null_mem_script_notebookName :
    ∃ f s, Schema.validate (nullInput "a\x00") = .ok f ∧
      (∀ b ∈ f.blocks, b.kind ≠ .task .code) ∧
      f.script none [] = .ok s ∧ '\x00' ∈ s.toList := by
  have hscript : (Schema.validate (nullInput "a\x00")).map (fun f =>
      (f.script none [], f.blocks.map Block.kind)) =
      .ok (.ok "# a\x00\n\nx = '\\x00'", [.task .inputText]) := by
    decide +kernel
  cases hvalid : Schema.validate (nullInput "a\x00") with
  | error e => simp [hvalid, Except.map] at hscript
  | ok f =>
    rw [hvalid] at hscript
    obtain ⟨hs, hkinds⟩ := Prod.mk.inj (Except.ok.inj hscript)
    refine ⟨f, _, rfl, fun b hb hcode => ?_, hs, by decide⟩
    have hkind : BlockKind.task TaskKind.code ∈ f.blocks.map Block.kind :=
      hcode ▸ List.mem_map_of_mem hb
    rw [hkinds] at hkind
    exact absurd hkind (by decide)

end NotebookProject
