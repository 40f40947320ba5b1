import NotebookProject.Proofs.Source.Slot
import NotebookProject.Source.Notebook
import NotebookProject.Text.Blank

/-!
# Preludes of stored code

Stored code stands behind a few lines that set up its table view. Both are put into a template,
which is split at its places before any value is known: a value is never looked at for places of its
own, so code that holds the marks of a template comes out as it is stored. The lines in front of it
end with an empty line, and what the lexer makes of the code does not depend on them.

## Main definitions

* `Template.render?`: fills in the places of a template.
* `codePrelude`: the lines in front of stored code.

## Main results

* `Block.code_verbatim`: the source of a block of code.
-/

namespace NotebookProject

namespace Source

open Python

/-! ## Templates -/

namespace Template

/-- A part of a template. -/
inductive Piece where
  | fixed (text : String)
  /-- The place of a value, which may stand there as a literal. -/
  | place (name : String) (quoted : Bool)
  deriving DecidableEq

/-- The place that is described between two pairs of braces: a name, and a filter or none. -/
def place? (inner : List Char) : Option Piece :=
  let name := String.ofList (Text.trim (inner.takeWhile (· != '|')))
  match inner.dropWhile (· != '|') with
  | [] => some (.place name false)
  | _ :: filter => if Text.trim filter == "pystr".toList then some (.place name true) else none

/-- The pieces of a template, behind `front` and perhaps inside of a place. Other marks than those
of places are refused. -/
def pieces? (inside : Bool) (front : List Char) : List Char → Option (List Piece)
  | [] => if inside then none else some [.fixed (String.ofList front)]
  | '\x7d' :: '\x7d' :: rest =>
    if inside then (place? front).bind fun p => (pieces? false [] rest).map (p :: ·)
    else pieces? false (front ++ ['\x7d', '\x7d']) rest
  | '\x7b' :: c :: rest =>
    if inside || c == '%' || c == '#' then none
    else if c == '\x7b' then (pieces? true [] rest).map (.fixed (String.ofList front) :: ·)
    else pieces? false (front ++ ['\x7b', c]) rest
  | c :: rest => pieces? inside (front ++ [c]) rest

/-- The text of a piece. A value that is missing is an error. -/
def Piece.fill? (values : List (String × String)) : Piece → Option String
  | fixed text => some text
  | place name quoted => (values.lookup name).map fun v => if quoted then quote v else v

/-- No part of a mark. -/
def isPlain (c : Char) : Bool := c != '\x7b' && c != '\x7d'

/-- The line feed at the end of a template is not part of it. -/
def dropLineFeed (cs : List Char) : List Char :=
  if cs.getLast? == some '\n' then cs.dropLast else cs

/-- Fills in the places of a template. -/
def render? (template : String) (values : List (String × String)) : Option String :=
  (pieces? false [] (dropLineFeed template.toList)).bind fun ps =>
    (ps.mapM (Piece.fill? values)).map String.join

variable {cs inner rest : List Char} {p : Piece}

@[simp] theorem dropLineFeed_append (cs : List Char) : dropLineFeed (cs ++ ['\n']) = cs := by
  simp [dropLineFeed]

theorem pieces?_nil : pieces? false [] [] = some [.fixed ""] := rfl

/-- Text without braces belongs to the piece that it stands in. -/
theorem pieces?_append (inside : Bool) (front : List Char)
    (hcs : cs.all isPlain) (rest : List Char) :
    pieces? inside front (cs ++ rest) = pieces? inside (front ++ cs) rest := by
  induction cs generalizing front with
  | nil => simp
  | cons c cs ih =>
    rw [List.all_cons, Bool.and_eq_true] at hcs
    obtain ⟨hc, hcs⟩ := hcs
    have hopen : c ≠ '\x7b' := by
      rintro rfl
      cases hc
    have hclose : c ≠ '\x7d' := by
      rintro rfl
      cases hc
    have hstep : pieces? inside front (c :: (cs ++ rest)) =
        pieces? inside (front ++ [c]) (cs ++ rest) := by
      rw [pieces?.eq_def]
      split <;> simp_all
    rw [List.cons_append, hstep, ih _ hcs, List.append_assoc, List.singleton_append]

/-- A place ends the text in front of it. -/
theorem pieces?_place (hcs : cs.all isPlain) (hp : place? inner = some p)
    (hinner : inner.all isPlain) (rest : List Char) :
    pieces? false [] (cs ++ '\x7b' :: '\x7b' :: (inner ++ '\x7d' :: '\x7d' :: rest)) =
      (pieces? false [] rest).map fun ps => .fixed (String.ofList cs) :: p :: ps := by
  have hopen : ∀ front cs, pieces? false front ('\x7b' :: '\x7b' :: cs) =
      (pieces? true [] cs).map (.fixed (String.ofList front) :: ·) := fun _ _ => rfl
  have hclose : pieces? true inner ('\x7d' :: '\x7d' :: rest) =
      (place? inner).bind fun p => (pieces? false [] rest).map (p :: ·) := rfl
  rw [pieces?_append false [] hcs, List.nil_append, hopen, pieces?_append true [] hinner,
    List.nil_append, hclose, hp, Option.bind_some, Option.map_map]
  rfl

/-- The characters of a literal are looked at as they stand in it. -/
theorem all_isPlain (h : cs.all isPlain) : (String.ofList cs).toList.all isPlain := by
  rw [String.toList_ofList]
  exact h

theorem place?_ofList (h : place? inner = some p) :
    place? (String.ofList inner).toList = some p := by
  rw [String.toList_ofList]
  exact h

end Template

/-! ## Preludes -/

/-- The text of a table view: compact JSON, an empty record if none is stored. -/
def tableText : Option Entries → String
  | some es => (Tree.record es).toJson
  | none => "\x7b\x7d"

/-- The lines up to the first literal of the table view. -/
def formatterCode : String :=
  "if '_dntk' in globals():\n  _dntk.dataframe_utils.configure_dataframe_formatter("

/-- The lines between the two literals. -/
def attributeCode : String := ")\nelse:\n  _deepnote_current_table_attrs = "

/-- The template of code. -/
def codeTemplate : String :=
  formatterCode ++ ("\x7b\x7b" ++ " table_state|pystr " ++ "\x7d\x7d") ++ attributeCode ++
  ("\x7b\x7b" ++ " table_state|pystr " ++ "\x7d\x7d") ++ "\n\n" ++
  ("\x7b\x7b" ++ " content " ++ "\x7d\x7d") ++ "\n"

/-- The lines in front of stored code. They depend on the table view alone. -/
def codePrelude (tableState : Option Entries) : String :=
  formatterCode ++ (quote (tableText tableState) ++ (attributeCode ++
    (quote (tableText tableState) ++ "\n\n")))

/-- The tokens in front of the first literal of the table view. -/
def formatterTokens : List Token :=
  [.name "if".toList, .text "_dntk".toList, .name "in".toList, .name "globals".toList,
   .operator ['('], .operator [')'], .operator [':'], .newline,
   .name "_dntk".toList, .operator ['.'], .name "dataframe_utils".toList, .operator ['.'],
   .name "configure_dataframe_formatter".toList, .operator ['(']]

/-- The tokens between the two literals. -/
def attributeTokens : List Token :=
  [.operator [')'], .newline, .name "else".toList, .operator [':'], .newline,
   .name "_deepnote_current_table_attrs".toList, .operator ['=']]

/-- The tokens of a prelude with this text of the table view. -/
def preludeTokens (json : List Char) : List Token :=
  formatterTokens ++ .text json :: (attributeTokens ++ [.text json, .newline, .newline])

variable {tableState : Option Entries} {content : String}

theorem code_eq (tableState : Option Entries) (content : String) :
    code tableState content = codePrelude tableState ++ content := by
  have hformatter : formatterCode =
      "if '_dntk' in globals():" ++ ("\n" ++
        "  _dntk.dataframe_utils.configure_dataframe_formatter(") := rfl
  have hattribute : attributeCode =
      ")" ++ ("\n" ++ ("else:" ++ ("\n" ++ "  _deepnote_current_table_attrs = "))) := rfl
  have hblank : "\n\n" = "\n" ++ ("" ++ "\n") := rfl
  rw [codePrelude, hformatter, hattribute, hblank]
  cases tableState <;>
    simp [-String.reduceAppend, code, tableText, joinLines, String.append_assoc]

theorem pieces?_codeTemplate :
    Template.pieces? false [] (Template.dropLineFeed codeTemplate.toList) =
      some [.fixed formatterCode, .place "table_state" true, .fixed attributeCode,
        .place "table_state" true, .fixed "\n\n", .place "content" false, .fixed ""] := by
  have hopen : "\x7b\x7b".toList = ['\x7b', '\x7b'] := rfl
  have hclose : "\x7d\x7d".toList = ['\x7d', '\x7d'] := rfl
  have hline : "\n".toList = ['\n'] := rfl
  have hformatter : formatterCode.toList.all Template.isPlain := Template.all_isPlain rfl
  have hattribute : attributeCode.toList.all Template.isPlain := Template.all_isPlain rfl
  have hblank : "\n\n".toList.all Template.isPlain := Template.all_isPlain rfl
  have hstate : " table_state|pystr ".toList.all Template.isPlain := Template.all_isPlain rfl
  have hcontent : " content ".toList.all Template.isPlain := Template.all_isPlain rfl
  have hplace : Template.place? " table_state|pystr ".toList =
      some (.place "table_state" true) := Template.place?_ofList (by decide)
  have hplace' : Template.place? " content ".toList =
      some (.place "content" false) := Template.place?_ofList (by decide)
  simp only [codeTemplate, String.toList_append, hopen, hclose, hline,
    Template.dropLineFeed_append]
  simp only [List.append_assoc, List.cons_append, List.nil_append]
  rw [Template.pieces?_place hformatter hplace hstate,
    Template.pieces?_place hattribute hplace hstate, Template.pieces?_place hblank hplace' hcontent,
    Template.pieces?_nil, String.ofList_toList, String.ofList_toList, String.ofList_toList]
  simp only [Option.map_some]

/-- Filling in the template gives the prelude and the code as it is stored. -/
theorem render?_codeTemplate (tableState : Option Entries) (content : String) :
    Template.render? codeTemplate
        [("table_state", tableText tableState), ("content", content)] =
      some (codePrelude tableState ++ content) := by
  have hstate : [("table_state", tableText tableState), ("content", content)].lookup "table_state" =
      some (tableText tableState) := rfl
  have hcontent : [("table_state", tableText tableState), ("content", content)].lookup "content" =
      some content := rfl
  rw [Template.render?, pieces?_codeTemplate]
  simp [Template.Piece.fill?, hstate, hcontent, codePrelude, String.join, String.append_assoc]

/-! ## Tokens of a prelude -/

/-- The slots of a prelude up to the empty line. -/
def preludeSlots (tableState : Option Entries) : List Slot :=
  [.code formatterCode, .text (tableText tableState), .code attributeCode,
   .text (tableText tableState)]

theorem codePrelude_eq (tableState : Option Entries) :
    codePrelude tableState = render (preludeSlots tableState ++ [.code "\n\n"]) := by
  simp [codePrelude, preludeSlots]

theorem wellFormed_preludeSlots (tableState : Option Entries) :
    Slot.wellFormed (preludeSlots tableState ++ [.code "\n\n"]) := by
  have hformatter : formatterCode.toList = _ := String.toList_ofList
  have hattribute : attributeCode.toList = _ := String.toList_ofList
  have hblank : "\n\n".toList = _ := String.toList_ofList
  have hcall : (Slot.code formatterCode).mode? = some (.operator ['(']) := by
    rw [Slot.mode?_code hformatter]
    decide
  have hassign : (Slot.code attributeCode).mode? = some .between := by
    rw [Slot.mode?_code hattribute]
    decide
  have hfollows : ∀ m, (Slot.code attributeCode).follows m = m.breaks ')' := by
    intro m
    simp only [Slot.follows, hattribute]
    rfl
  have hlast : ∀ m, (Slot.code "\n\n").follows m = m.breaks '\n' := by
    intro m
    simp only [Slot.follows, hblank]
    rfl
  have hend : (Slot.code "\n\n").mode? = some .between := by
    rw [Slot.mode?_code hblank]
    decide
  have htext : ∀ value, (Slot.text value).mode? = some (.doubled [] '\'') := fun _ => rfl
  have hquote : ∀ m value, (Slot.text value).follows m = m.breaks '\'' := fun _ _ => rfl
  simp only [preludeSlots, List.cons_append, List.nil_append, Slot.wellFormed, hcall, hassign,
    hfollows, hlast, hend, htext, hquote, Option.any_some]
  decide

theorem tokensOf_prelude (tableState : Option Entries) :
    tokensOf (preludeSlots tableState ++ [.code "\n\n"]) =
      preludeTokens (tableText tableState).toList := by
  have hformatter : (Slot.code formatterCode).tokens = formatterTokens := by
    have hcs : formatterCode.toList = _ := String.toList_ofList
    rw [Slot.tokens, hcs]
    decide
  have hattribute : (Slot.code attributeCode).tokens = attributeTokens := by
    have hcs : attributeCode.toList = _ := String.toList_ofList
    rw [Slot.tokens, hcs]
    decide
  have hblank : (Slot.code "\n\n").tokens = [.newline, .newline] := by decide
  simp [preludeSlots, tokensOf, hformatter, hattribute, hblank, preludeTokens]

/-- What stands behind a prelude is read as it is on its own. -/
theorem tokens?_prelude_append (tableState : Option Entries) (content : String) :
    tokens? (codePrelude tableState ++ content) =
      (tokens? content).map (preludeTokens (tableText tableState).toList ++ ·) := by
  have hlast : readFrom .between "\n\n".toList = some ([.newline, .newline], .between) := rfl
  rw [codePrelude_eq, tokens?_render_append (wellFormed_preludeSlots tableState) hlast,
    tokensOf_prelude]

theorem tokens?_prelude (tableState : Option Entries) :
    tokens? (codePrelude tableState) = some (preludeTokens (tableText tableState).toList) := by
  rw [codePrelude_eq, tokens?_render (wellFormed_preludeSlots tableState), tokensOf_prelude]

end Source

open Source
open Python (Token tokens?)

/-- The source of a block of code is a prelude and the code as it is stored, and that is what its
template gives. The prelude holds two literals with the text of the table view, and nothing else in
it depends on the block. Behind it the code has the tokens that it has on its own. -/
theorem Block.code_verbatim {b : Block} {variableName : Option String} {run : RunMetadata}
    {record : ExecutionRecord} (hbody : b.body = .task (.code variableName) run record)
    (activated : List String) :
    b.source activated = .ok (codePrelude run.tableState ++ b.content.getD "") ∧
      Template.render? codeTemplate
          [("table_state", tableText run.tableState), ("content", b.content.getD "")] =
        some (codePrelude run.tableState ++ b.content.getD "") ∧
      tokens? (codePrelude run.tableState) =
        some (formatterTokens ++ .text (tableText run.tableState).toList ::
          (attributeTokens ++ [.text (tableText run.tableState).toList, .newline, .newline])) ∧
      tokens? (codePrelude run.tableState ++ b.content.getD "") =
        (tokens? (b.content.getD "")).map
          (preludeTokens (tableText run.tableState).toList ++ ·) := by
  refine ⟨?_, render?_codeTemplate _ _, tokens?_prelude _, tokens?_prelude_append _ _⟩
  rw [Block.source, hbody, ← code_eq]
  rfl

/-- Code that holds the marks of a template, behind a table view with a quote in it. -/
def bracesBlock : Block where
  header := ⟨"b", "g", "0", none, none⟩
  content := some "\x7b\x7b x \x7d\x7d \x7b% if %\x7d\n\n"
  layout := ⟨none, none, none, none, none, none, none⟩
  body := .task (.code none)
    { (default : RunMetadata) with tableState := some [("f", .string "it's")] } default
  extra := []

theorem Block.code_verbatim_bracesBlock :
    bracesBlock.source [] = .ok (("if '_dntk' in globals():\n" ++
        "  _dntk.dataframe_utils.configure_dataframe_formatter('\x7b\"f\":\"it\\'s\"\x7d')\n" ++
        "else:\n  _deepnote_current_table_attrs = '\x7b\"f\":\"it\\'s\"\x7d'\n\n") ++
      "\x7b\x7b x \x7d\x7d \x7b% if %\x7d\n\n") := by
  obtain ⟨hsource, -⟩ := Block.code_verbatim (b := bracesBlock) rfl []
  have hquote : quote (tableText (some [("f", .string "it's")])) =
      "'\x7b\"f\":\"it\\'s\"\x7d'" := by
    decide
  have hprelude : codePrelude (some [("f", .string "it's")]) = "if '_dntk' in globals():\n" ++
        "  _dntk.dataframe_utils.configure_dataframe_formatter('\x7b\"f\":\"it\\'s\"\x7d')\n" ++
        "else:\n  _deepnote_current_table_attrs = '\x7b\"f\":\"it\\'s\"\x7d'\n\n" := by
    rw [codePrelude, hquote]
    rfl
  rw [hsource, ← hprelude]
  rfl

end NotebookProject
