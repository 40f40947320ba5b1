import NotebookProject.Proofs.Source.Evaluation
import NotebookProject.Proofs.Source.Line
import NotebookProject.Proofs.Source.Statement

/-!
# Calls of notebooks

The source of a call of a notebook shows the enabled exports three times: in a comment, as the names
that the call is assigned to, and as a dictionary among its arguments. Read back from its tokens,
the call has the stored id, inputs and exports as arguments, and the targets are the values of the
dictionary in order. No stored text adds a line to the source, in the comments or in the call.

## Main definitions

* `Call`, `Call.ofTokens?`: a call, read from its tokens.
* `callLines`: the lines of a call.

## Main results

* `Block.call_coherent`: what the call of a notebook is read as.
-/

namespace NotebookProject

namespace Source

open Python (Slot Token Mode isClean render tokens? tokensFrom tokensOf readFrom)

/-- A call: the names that it is assigned to, the path of the function and its arguments. -/
structure Call where
  targets : List String
  function : List String
  args : List (Option String × Tree)

namespace Call

/-- The names in front of an equals sign, and the tokens behind it. -/
def targets? : List Token → Option (List String × List Token)
  | .name cs :: .operator ['='] :: rest => some ([String.ofList cs], rest)
  | .name cs :: .operator [','] :: rest =>
    (targets? rest).map fun r => (String.ofList cs :: r.1, r.2)
  | _ => none

/-- The arguments up to the end of a call. -/
def args? (ts : List Token) : Option (List (Option String × Tree)) :=
  match Reader.run ⟨[.arguments [] none], .wanting⟩ ts with
  | some ⟨_, .closed args⟩ => some args
  | _ => none

/-- Reads a call of a function of a module. It may be assigned to names. -/
def ofTokens? (ts : List Token) : Option Call :=
  let (targets, rest) := (targets? ts).getD ([], ts)
  match rest with
  | .name module :: .operator ['.'] :: .name function :: .operator ['('] :: rest =>
    (args? rest).map fun args => ⟨targets, [String.ofList module, String.ofList function], args⟩
  | _ => none

end Call

/-! ## Targets -/

theorem targets?_names (names : List String) (hne : names ≠ []) (rest : List Token) :
    Call.targets? (tokensOf (separated (names.map fun s => [.name s])) ++
      .operator ['='] :: rest) = some (names.map nameOf, rest) := by
  induction names with
  | nil => exact absurd rfl hne
  | cons s names ih =>
    cases names with
    | nil => simp [separated, Call.targets?]
    | cons t names =>
      have hnames := ih (List.cons_ne_nil t names)
      simp only [List.map_cons] at hnames ⊢
      simp only [separated, tokensOf_cons, Slot.tokens_name, tokens_comma, List.cons_append,
        List.nil_append, Call.targets?, hnames, Option.map_some, String.ofList_toList]

/-- A call without targets has no equals sign in front. -/
theorem targets?_targetSlots (f : FunctionFields) (rest : List Token) :

    (Call.targets? (tokensOf (targetSlots f) ++ .name "_dntk".toList :: .operator ['.'] :: rest)).getD
      ([], tokensOf (targetSlots f) ++ .name "_dntk".toList :: .operator ['.'] :: rest) =
      ((enabledExports f).map Prod.snd, .name "_dntk".toList :: .operator ['.'] :: rest) := by
  have hequals : (Slot.code " = ").tokens = [.operator ['=']] := rfl
  rw [enabledExports_eq]
  cases hmappings : enabledMappings f with
  | nil => simp [targetSlots, hmappings, Call.targets?]
  | cons e es =>
    have hnames := targets?_names ((e :: es).map fun e => e.2.variableName) (by simp)
      (.name "_dntk".toList :: .operator ['.'] :: rest)
    simp only [targetSlots, hmappings, List.isEmpty_cons, Bool.false_eq_true, ↓reduceIte,
      tokensOf_append, tokensOf_cons, tokensOf_nil, hequals, List.append_nil, List.append_assoc,
      List.singleton_append, List.map_map, Function.comp_def] at hnames ⊢
    rw [hnames]
    simp

/-! ## Arguments -/

/-- The enabled exports with the names that they are bound to. -/
def exportTree (f : FunctionFields) : Tree :=
  .record ((enabledExports f).map fun e => (e.1, .string e.2))

theorem entriesSlots_map_string (exports : List (String × String)) :
    entriesSlots (exports.map fun e => (e.1, Tree.string e.2)) =
      exports.map fun e => entrySlots e.1 [.text e.2] := by
  induction exports with
  | nil => rfl
  | cons e exports ih => simp [entriesSlots, literalSlots, ih]

theorem sound_exportTree {f : FunctionFields} (h : ((f.exports.getD []).map Prod.fst).Nodup) :
    (exportTree f).Sound 1 := by
  have hkeys : ((enabledExports f).map fun e => e.1).Sublist ((f.exports.getD []).map Prod.fst) := by
    rw [enabledExports_eq, List.map_map]
    exact List.filter_sublist.map Prod.fst
  refine Tree.sound_record.mpr ⟨?_, ?_⟩
  · rw [List.map_map]
    exact h.sublist hkeys
  · intro e he
    obtain ⟨x, -, rfl⟩ := List.mem_map.mp he
    exact Tree.sound_string x.2

/-- The tokens between the parentheses of a call, the closing one included. -/
def argumentTokens (f : FunctionFields) (id : String) : List Token :=
  .newline :: .text id.toList :: .operator [','] :: .newline :: .name "inputs".toList ::
    .operator ['='] :: (tokensOf (literalSlots (.record (f.inputs.getD []))) ++
    .operator [','] :: .newline :: .name "export_mappings".toList :: .operator ['='] ::
    (tokensOf (literalSlots (exportTree f)) ++ [.operator [','], .newline, .operator [')']]))

theorem tokensOf_callSlots (f : FunctionFields) (id : String) :
    tokensOf (callSlots f id) = tokensOf (targetSlots f) ++
      .name "_dntk".toList :: .operator ['.'] :: .name "run_notebook_function".toList ::
      .operator ['('] :: argumentTokens f id := by
  have hcall : (Slot.code "_dntk.run_notebook_function(").tokens = [.name "_dntk".toList,
      .operator ['.'], .name "run_notebook_function".toList, .operator ['(']] := by decide
  have hline : (Slot.code "\n").tokens = [.newline] := rfl
  have hindent : (Slot.code "    ").tokens = [] := rfl
  have hcomma : (Slot.code ",").tokens = [.operator [',']] := rfl
  have hend : (Slot.code ")").tokens = [.operator [')']] := rfl
  have hinputs : (Slot.code "    inputs=").tokens = [.name "inputs".toList, .operator ['=']] := by
    decide
  have hmappings : (Slot.code "    export_mappings=").tokens =
      [.name "export_mappings".toList, .operator ['=']] := by
    decide
  have htree : Slot.code "\x7b" :: (separated ((enabledExports f).map fun e =>
      entrySlots e.1 [.text e.2]) ++ [.code "\x7d"]) = literalSlots (exportTree f) := by
    rw [exportTree, literalSlots, entriesSlots_map_string]
  rw [callSlots, htree]
  simp only [slotLines, tokensOf_append, tokensOf_cons, tokensOf_nil, hcall, hline, hindent, hcomma,
    hend, hinputs, hmappings, Slot.tokens_text, argumentTokens, List.append_assoc, List.cons_append,
    List.nil_append, List.append_nil]

/-- An argument with a keyword, and the comma behind it. -/
theorem run_argument {args : List (Option String × Tree)} {key : String} {t : Tree} {n : Nat}
    (hkey : Reader.constant? key.toList = none) (hargs : Reader.admits args (some key))
    (ht : t.Sound n) (rest : List Token) :
    Reader.run ⟨[.arguments args none], .wanting⟩ (.name key.toList :: .operator ['='] ::
      (tokensOf (literalSlots t) ++ .operator [','] :: rest)) =
      Reader.run ⟨[.arguments (args ++ [(some key, t)]) none], .wanting⟩ rest := by
  have hname : Reader.step ⟨[.arguments args none], .wanting⟩ (.name key.toList) =
      some ⟨[.arguments args none], .keyword key⟩ := by
    simp [Reader.step, hkey]
  have hequals : Reader.step ⟨[.arguments args none], .keyword key⟩ (.operator ['=']) =
      some ⟨[.arguments args (some key)], .wanting⟩ := rfl
  have hcomma : Reader.step ⟨[.arguments args (some key)], .done t⟩ (.operator [',']) =
      some ⟨[.arguments (args ++ [(some key, t)]) none], .wanting⟩ := by
    simp [Reader.step, Reader.close?, hargs]
  rw [Reader.run_cons, hname, Option.bind_some, Reader.run_cons, hequals, Option.bind_some,
    Reader.run_append, run_literalSlots t n ht, Option.bind_some, Reader.run_cons, hcomma,
    Option.bind_some]

/-- The arguments of a call: the id, and under their keywords the inputs and the exports. -/
theorem args?_argumentTokens {f : FunctionFields} {n : Nat} (id : String)
    (hinputs : (Tree.record (f.inputs.getD [])).Sound n)
    (hexports : ((f.exports.getD []).map Prod.fst).Nodup) :
    Call.args? (argumentTokens f id) = some [(none, .string id),
      (some "inputs", .record (f.inputs.getD [])), (some "export_mappings", exportTree f)] := by
  have hline : ∀ stack, Reader.step ⟨stack, .wanting⟩ .newline = some ⟨stack, .wanting⟩ :=
    fun _ => rfl
  have hcomma : Reader.step ⟨[.arguments [] none], .done (.string id)⟩ (.operator [',']) =
      some ⟨[.arguments [(none, .string id)] none], .wanting⟩ := rfl
  have hend : ∀ args, Reader.step ⟨[.arguments args none], .wanting⟩ (.operator [')']) =
      some ⟨[], .closed args⟩ := fun _ => rfl
  rw [Call.args?, argumentTokens, Reader.run_cons, hline, Option.bind_some, Reader.run_cons,
    step_text, Option.bind_some, Reader.run_cons, hcomma, Option.bind_some, Reader.run_cons, hline,
    Option.bind_some, run_argument (by decide) rfl hinputs, Reader.run_cons, hline,
    Option.bind_some, run_argument (by decide) rfl (sound_exportTree hexports), Reader.run_cons,
    hline, Option.bind_some, Reader.run_cons, hend, Option.bind_some, Reader.run_nil]
  rfl

theorem ofTokens?_callSlots {f : FunctionFields} {n : Nat} (id : String)
    (hinputs : (Tree.record (f.inputs.getD [])).Sound n)
    (hexports : ((f.exports.getD []).map Prod.fst).Nodup) :
    Call.ofTokens? (tokensOf (callSlots f id)) = some
      { targets := (enabledExports f).map Prod.snd
        function := ["_dntk", "run_notebook_function"]
        args := [(none, .string id), (some "inputs", .record (f.inputs.getD [])),
          (some "export_mappings", exportTree f)] } := by
  rw [Call.ofTokens?, tokensOf_callSlots, targets?_targetSlots]
  simp only [args?_argumentTokens id hinputs hexports, Option.map_some, String.ofList_toList]

/-! ## Lines -/

/-- The lines of the statement of a call. -/
def callLines (f : FunctionFields) (id : String) : List String :=
  let targets := commaSeparated ((enabledExports f).map fun e => e.2)
  [(if targets.isEmpty then "" else targets ++ " = ") ++ "_dntk.run_notebook_function(",
   "    " ++ quote id ++ ",",
   "    inputs=" ++ literal (.record (f.inputs.getD [])) ++ ",",
   "    export_mappings=" ++
     dictionaryOf ((enabledExports f).map fun e => quote e.1 ++ ": " ++ quote e.2) ++ ",",
   ")"]

theorem notebookFunction_eq_lines {f : FunctionFields} {id : String} (h : f.notebookId = some id) :
    notebookFunction f = joinLines (callRemarks f id ++ callLines f id) := by
  simp only [notebookFunction, h]
  rfl

/-- The names that a call is assigned to stay on a line. -/
theorem holds_targets {c : Char} (hc : c ∈ terminators) (f : FunctionFields) :
    holds c (commaSeparated ((enabledExports f).map fun e => e.2)) = false := by
  rw [holds_commaSeparated hc, enabledExports_eq, List.map_map]
  simp [holds_nameOf hc]

/-- The lines of a call hold no character that ends a line. -/
theorem holds_callLines {c : Char} (hc : c ∈ terminators) (f : FunctionFields) (id : String) :
    ∀ l ∈ callLines f id, holds c l = false := by
  have hcode : ∀ c ∈ terminators, ∀ piece ∈ ["_dntk.run_notebook_function(", "    ", ",",
      "    inputs=", "    export_mappings=", ")", " = ", ""], holds c piece = false :=
    List.all_iff_forall_prop.mp (by decide)
  have hpiece := hcode c hc
  simp only [List.forall_mem_cons] at hpiece
  obtain ⟨hcall, hindent, hcomma, hinputs, hmappings, hend, hequals, hempty, -⟩ := hpiece
  have hentries : ((enabledExports f).map fun e => quote e.1 ++ ": " ++ quote e.2).any (holds c) =
      false := by
    simp [holds_entry hc, holds_quote hc]
  simp only [callLines, List.forall_mem_cons, holds_append, hcall, hindent, hcomma, hinputs,
    hmappings, hend, holds_quote hc, holds_literal hc, holds_dictionaryOf hc, hentries]
  refine ⟨?_, by simp⟩
  split_ifs
  · rw [hempty]
    rfl
  · rw [holds_append, holds_targets hc, hequals]
    rfl

theorem holds_of_isCommentLine {l : String} (h : isCommentLine l) {c : Char}
    (hc : c = '\n' ∨ c = '\r') : holds c l = false := by
  have hall := List.all_eq_true.mp (Bool.and_eq_true_iff.mp h).2
  refine holds_eq_false fun d hd => ?_
  have hd := hall d hd
  rintro rfl
  rcases hc with rfl | rfl <;> simp at hd

/-- No stored text adds a line to a call. -/
theorem holds_lines {f : FunctionFields} {id : String}
    (hcomments : ∀ l ∈ callRemarks f id, isCommentLine l) :
    ∀ l ∈ callRemarks f id ++ callLines f id, holds '\n' l = false ∧ holds '\r' l = false := by
  refine List.forall_mem_append.mpr ⟨fun l hl => ?_, fun l hl => ?_⟩
  · have hcomment := hcomments l hl
    exact ⟨holds_of_isCommentLine hcomment (.inl rfl), holds_of_isCommentLine hcomment (.inr rfl)⟩
  · exact ⟨holds_callLines (by decide) f id l hl, holds_callLines (by decide) f id l hl⟩

/-! ## Comments and the statement under them -/

/-- A comment goes up to the end of its line. -/
theorem readFrom_commentLine {l : String} (h : isCommentLine l) :
    readFrom .between (l.toList ++ ['\n']) =
      some ([.comment l.toList.tail, .newline], .between) := by
  have hcomment : ∀ cs before : List Char, (∀ c ∈ cs, c ≠ '\n') →
      readFrom (.comment before) (cs ++ ['\n']) =
        some ([.comment (before ++ cs), .newline], .between) := by
    intro cs
    induction cs with
    | nil =>
      intro before _
      simp [readFrom, Mode.step, Mode.extend?, Mode.finish, Mode.begin, Python.isBlank]
    | cons c cs ih =>
      intro before hcs
      obtain ⟨hc, hcs⟩ := List.forall_mem_cons.mp hcs
      have hstep : (Mode.comment before).step c = some ([], .comment (before ++ [c])) := by
        simp [Mode.step, Mode.extend?, hc]
      simp [readFrom, hstep, ih _ hcs]
  obtain ⟨hhead, hall⟩ := Bool.and_eq_true_iff.mp h
  cases hl : l.toList with
  | nil => simp [hl] at hhead
  | cons c rest =>
    rw [hl] at hhead hall
    obtain rfl : c = '#' := by simpa using hhead
    have hrest : ∀ c ∈ rest, c ≠ '\n' := by
      rw [List.all_eq_true] at hall
      intro c hc
      have hne := hall c (List.mem_cons_of_mem _ hc)
      simp only [Bool.and_eq_true, bne_iff_ne] at hne
      exact hne.1
    have hopen : Mode.between.step '#' = some ([], .comment []) := rfl
    simp [readFrom, hopen, hcomment rest [] hrest]

/-- Comment lines over a statement are read as comments, and the statement as if it stood alone. -/
theorem tokensFrom_remarks {remarks : List String} (h : ∀ l ∈ remarks, isCommentLine l)
    (statement : String) :
    tokensFrom .between (joinLines (remarks ++ [statement])).toList =
      (tokensFrom .between statement.toList).map fun ts =>
        remarks.flatMap (fun l => [.comment l.toList.tail, .newline]) ++ ts := by
  induction remarks with
  | nil => simp [joinLines]
  | cons l rest ih =>
    obtain ⟨hl, hrest⟩ := List.forall_mem_cons.mp h
    have hjoin : (joinLines (l :: rest ++ [statement])).toList =
        l.toList ++ ['\n'] ++ (joinLines (rest ++ [statement])).toList := by
      cases rest <;> simp [joinLines, String.intercalate_cons_cons]
    rw [hjoin, Python.tokensFrom_append (readFrom_commentLine hl), ih hrest]
    simp [Function.comp_def]

/-- Without null characters the whole source of a call can be read. -/
theorem tokens?_notebookFunction {f : FunctionFields} {id : String} (h : f.notebookId = some id)
    (hcomments : ∀ l ∈ callRemarks f id, isCommentLine l)
    (hnull : holds '\x00' (notebookFunction f) = false) :
    tokens? (notebookFunction f) =
      some ((callRemarks f id).flatMap (fun l => [.comment l.toList.tail, .newline]) ++
        tokensOf (callSlots f id)) := by
  have hreturn : holds '\r' (notebookFunction f) = false := by
    rw [notebookFunction_eq_lines h, joinLines, holds_intercalate rfl, List.any_eq_false]
    exact fun l hl => by simp [(holds_lines hcomments l hl).2]
  have hclean : ∀ c ∈ (notebookFunction f).toList, isClean c := by
    intro c hc
    have hne : ∀ d, holds d (notebookFunction f) = false → c ≠ d := by
      rintro d hd rfl
      simp [holds, hc] at hd
    simp [isClean, hne _ hnull, hne _ hreturn]
  rw [Python.tokens?_of_clean hclean, render_callSlots f h, tokensFrom_remarks hcomments,
    Python.tokensFrom_render (wellFormed_callSlots f id)]
  rfl

end Source

open Source
open Python (Token tokens? tokensOf render)

/-- The source of a configured call is three comment lines and one statement. The statement is read
as a call with the stored id, the stored inputs and, as a dictionary, the enabled exports with the
names that they are bound to; it is assigned to these names, in the same order, or to none. The
source has eight lines whatever is stored. Exports that are not enabled make no difference to it.
Unless a null character got into a comment, the whole source can be read. -/
theorem Block.call_coherent {b : Block} {f : FunctionFields} {run : RunMetadata}
    {record : ExecutionRecord} {id : String} {n : Nat}
    (hbody : b.body = .task (.notebookFunction f) run record) (hid : f.notebookId = some id)
    (hinputs : (Tree.record (f.inputs.getD [])).Sound n)
    (hexports : ((f.exports.getD []).map Prod.fst).Nodup) (activated : List String) :
    ∃ s remarks statement ts, b.source activated = .ok s ∧
      s = joinLines (remarks ++ [statement]) ∧
      remarks.length = 3 ∧ (∀ l ∈ remarks, isCommentLine l) ∧
      tokens? statement = some ts ∧
      Call.ofTokens? ts = some
        { targets := (enabledExports f).map Prod.snd
          function := ["_dntk", "run_notebook_function"]
          args := [(none, .string id), (some "inputs", .record (f.inputs.getD [])),
            (some "export_mappings",
              .record ((enabledExports f).map fun e => (e.1, .string e.2)))] } ∧
      (∃ lines, s = joinLines lines ∧ lines.length = 8 ∧
        ∀ l ∈ lines, holds '\n' l = false ∧ holds '\r' l = false) ∧
      (∀ g : FunctionFields, g.notebookId = f.notebookId → g.inputs = f.inputs →
        enabledMappings g = enabledMappings f → notebookFunction g = s) ∧
      (holds '\x00' s = false → tokens? s =
        some (remarks.flatMap (fun l => [.comment l.toList.tail, .newline]) ++ ts)) := by
  have hcomments : ∀ l ∈ callRemarks f id, isCommentLine l := by
    simpa [Job.remarks, hid] using (Job.notebookFunction f).isCommentLine_remarks
  refine ⟨notebookFunction f, callRemarks f id, render (callSlots f id), tokensOf (callSlots f id),
    by simp only [Block.source, hbody, Job.source], render_callSlots f hid, rfl, hcomments,
    Python.tokens?_render (wellFormed_callSlots f id), ofTokens?_callSlots id hinputs hexports,
    ⟨callRemarks f id ++ callLines f id, notebookFunction_eq_lines hid, rfl, holds_lines hcomments⟩,
    fun g hgid hginputs hgexports => ?_, tokens?_notebookFunction hid hcomments⟩
  have hsame : enabledExports g = enabledExports f := by
    rw [enabledExports_eq, hgexports, enabledExports_eq]
  unfold notebookFunction
  rw [hgid, hginputs, hsame]

/-- A call with an export that is enabled and one that is not. -/
def exportingCall : FunctionFields where
  notebookId := some "nb\n1"
  inputs := some [("ratio", .number (.float ⟨true, 0, -1074⟩)), ("tags", .list [.null, .string "'"])]
  exports := some [("debug", ⟨false, "debug", []⟩), ("kpis", ⟨true, "my kpis", []⟩)]

theorem Block.call_coherent_exportingCall :
    ∃ s remarks statement ts,
      (Block.mk ⟨"b", "g", "0", none, none⟩ none ⟨none, none, none, none, none, none, none⟩
        (.task (.notebookFunction exportingCall) default default) []).source [] = .ok s ∧
      s = joinLines (remarks ++ [statement]) ∧ remarks.length = 3 ∧ tokens? statement = some ts ∧
      Call.ofTokens? ts = some
        { targets := ["my_kpis"]
          function := ["_dntk", "run_notebook_function"]
          args := [(none, .string "nb\n1"), (some "inputs", .record
              [("ratio", .number (.float ⟨true, 0, -1074⟩)), ("tags", .list [.null, .string "'"])]),
            (some "export_mappings", .record [("kpis", .string "my_kpis")])] } := by
  have hexports : enabledExports exportingCall = [("kpis", "my_kpis")] := by decide +kernel
  have hzero : (Number.float ⟨true, 0, -1074⟩).InRange := by
    refine ⟨?_, ?_, ?_, .inr rfl⟩ <;> decide
  have hinputs : (Tree.record (exportingCall.inputs.getD [])).Sound 2 := by
    refine Tree.sound_record.mpr ⟨by decide, ?_⟩
    simp [exportingCall, hzero]
  obtain ⟨s, remarks, statement, ts, hs, hlines, hlength, -, htokens, hcall, -⟩ :=
    Block.call_coherent (f := exportingCall)
      (b := ⟨⟨"b", "g", "0", none, none⟩, none, ⟨none, none, none, none, none, none, none⟩,
        .task (.notebookFunction exportingCall) default default, []⟩) rfl rfl hinputs (by decide) []
  rw [hexports] at hcall
  exact ⟨s, remarks, statement, ts, hs, hlines, hlength, htokens, hcall⟩

end NotebookProject
