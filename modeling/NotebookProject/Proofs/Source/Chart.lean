import NotebookProject.Proofs.Source.Literal
import NotebookProject.Proofs.Source.Skeleton
import NotebookProject.Source.Notebook

/-!
# Calls of charts

A chart is a call with two literals. Its specification is JSON text in three double quotes: the
quotes and backslashes of the JSON text are escaped once more, so that no quote of it is taken for
one of the three that end the literal, and no backslash at its end takes the first of them. Its
filters are JSON text in single quotes.

## Main definitions

* `readTripleQuoted?`: reads a literal in three double quotes.
* `chartTokens`: the tokens of a call.

## Main results

* `Block.chart_literals`: both literals of a chart evaluate to the JSON text that is stored, and
  end where they should.
-/

namespace NotebookProject

namespace Source

open Python

/-! ## Literals in triple quotes -/

/-- Reads the literal in three double quotes that a text begins with. -/
def readTripleQuoted? : List Char → Option (Token × List Char)
  | '"' :: '"' :: '"' :: rest => (Mode.openLiteral [] '"' true).read? rest
  | _ => none

/-- Three quotes end a literal of which no quote is open. -/
theorem read?_closing (value rest : List Char) :
    Literal.read? ⟨[], '"', true, value, 0, .none⟩ ('"' :: '"' :: '"' :: rest) =
      some (.text value, rest) := by
  have hclean : isClean '"' := rfl
  simp [Literal.read?_cons hclean, Literal.step, Literal.plain, Literal.token]

/-- The literal of a text evaluates to the text and ends at its own closing quotes, whatever
follows. -/
theorem readTripleQuoted?_tripleQuoted {cs : List Char} (hcs : ∀ c ∈ cs, isClean c)
    (rest : List Char) : readTripleQuoted? (tripleQuoted cs ++ rest) = some (.text cs, rest) := by
  have hsource : tripleQuoted cs ++ rest =
      '"' :: '"' :: '"' :: (cs.flatMap tripleChar ++ '"' :: '"' :: '"' :: rest) := by
    simp [tripleQuoted]
  have hchars : ∀ c ∈ cs, ∀ d ∈ tripleChar c, isClean d := fun c hc => isClean_tripleChar (hcs c hc)
  rw [hsource, readTripleQuoted?, Literal.read?_flatMap readFrom_tripleChar hchars, read?_closing]

/-! ## Tokens of a chart -/

/-- The filters of a chart, none if none are stored. -/
def chartFilters (f : ChartFields) : Tree := .list ((f.filter.bind fun c => c.advanced).getD [])

/-- The source in front of the specification. -/
def chartOpening (stored : String) : String := "_dntk.DeepnoteChart(" ++ nameOf stored ++ ", "

/-- The source behind the specification. -/
def chartClosing (f : ChartFields) : String :=
  ", attach_selection=True, filters=" ++ (quote (chartFilters f).toJson ++ ")")

/-- The tokens in front of the specification. -/
def openingTokens (stored : String) : List Token :=
  [.name "_dntk".toList, .operator ['.'], .name "DeepnoteChart".toList, .operator ['('],
   .name (nameOf stored).toList, .operator [',']]

/-- The tokens behind the specification. -/
def closingTokens (f : ChartFields) : List Token :=
  [.operator [','], .name "attach_selection".toList, .operator ['='], .name "True".toList,
   .operator [','], .name "filters".toList, .operator ['='], .text (chartFilters f).json,
   .operator [')']]

variable {f : ChartFields} {stored : String} {spec : Tree}

theorem chart_eq (hname : nonEmpty? f.variableName = some stored) (hspec : f.spec = some spec) :
    chart f = chartOpening stored ++ (String.ofList (tripleQuoted spec.json) ++ chartClosing f) := by
  unfold chart chartOpening chartClosing chartFilters
  rw [hname, hspec]
  simp only [String.append_assoc]

theorem chart_eq_empty (f : ChartFields) :
    chart f = "" ↔ f.variableName = none ∨ f.variableName = some "" ∨ f.spec = none := by
  have hname : nonEmpty? f.variableName = none ↔
      f.variableName = none ∨ f.variableName = some "" := by
    cases hstored : f.variableName <;> simp [nonEmpty?]
  rw [← or_assoc, ← hname]
  cases hstored : nonEmpty? f.variableName <;> cases hspec : f.spec <;>
    simp [chart, hstored, hspec]

theorem tokens?_chart (hname : nonEmpty? f.variableName = some stored)
    (hspec : f.spec = some spec) :
    tokens? (chart f) = some (openingTokens stored ++ .text spec.json :: closingTokens f) := by
  have hopening : (Slot.code "_dntk.DeepnoteChart(").tokens =
      [.name "_dntk".toList, .operator ['.'], .name "DeepnoteChart".toList, .operator ['(']] := by
    decide
  have hclosing : (Slot.code ", attach_selection=True, filters=").tokens =
      [.operator [','], .name "attach_selection".toList, .operator ['='], .name "True".toList,
       .operator [','], .name "filters".toList, .operator ['=']] := by
    decide
  have hcomma : (Slot.code ", ").tokens = [.operator [',']] := by decide
  have hend : (Slot.code ")").tokens = [.operator [')']] := by decide
  rw [← render_chartSlots, tokens?_render (wellFormed_chartSlots f)]
  simp [chartSlots, hname, hspec, tokensOf, hopening, hclosing, hcomma, hend, openingTokens,
    closingTokens, chartFilters, Tree.toJson]

/-- The literal of the specification, with what follows it in the call. -/
theorem readTripleQuoted?_spec (spec : Tree) (f : ChartFields) :
    readTripleQuoted? (tripleQuoted spec.json ++ (chartClosing f).toList) =
      some (.text spec.json, (chartClosing f).toList) :=
  readTripleQuoted?_tripleQuoted (fun c hc => isClean_of_isVisible (Tree.isVisible_json spec c hc)) _

/-- The literal of the filters, with the parenthesis that follows it. -/
theorem readQuoted?_filters (f : ChartFields) :
    readQuoted? (quote (chartFilters f).toJson ++ ")").toList =
      some (.text (chartFilters f).json, [')']) := by
  have hsource : (quote (chartFilters f).toJson ++ ")").toList =
      '\'' :: ((chartFilters f).json.flatMap quotedChar ++ ['\'', ')']) := by
    simp [quote, quoted, Tree.toJson]
  rw [hsource, readQuoted?,
    Literal.read?_flatMap readFrom_quotedChar fun c _ => isClean_quotedChar c,
    Literal.read?_cons rfl]
  rfl

end Source

open Source
open Python (Token tokens? readQuoted?)

/-- The source of a chart is empty if the name of its variable or its specification is missing.
Otherwise it is a call in which two literals stand: the one in three double quotes evaluates to the
JSON text of the specification, the one in single quotes to that of the filters, and each of them
ends at its own closing quotes. -/
theorem Block.chart_literals {b : Block} {f : ChartFields} {run : RunMetadata}
    {record : ExecutionRecord} (hbody : b.body = .task (.visualization f) run record)
    (activated : List String) :
    ∃ s, b.source activated = .ok s ∧
      (s = "" ↔ f.variableName = none ∨ f.variableName = some "" ∨ f.spec = none) ∧
      ∀ stored spec, f.variableName = some stored → stored ≠ "" → f.spec = some spec →
        s.toList = (chartOpening stored).toList ++
          (tripleQuoted spec.json ++ (chartClosing f).toList) ∧
        readTripleQuoted? (tripleQuoted spec.json ++ (chartClosing f).toList) =
          some (.text spec.json, (chartClosing f).toList) ∧
        chartClosing f =
          ", attach_selection=True, filters=" ++ (quote (chartFilters f).toJson ++ ")") ∧
        readQuoted? (quote (chartFilters f).toJson ++ ")").toList =
          some (.text (chartFilters f).json, [')']) ∧
        (f.filter.bind (fun c => c.advanced) = none → (chartFilters f).json = ['[', ']']) ∧
        tokens? s = some (openingTokens stored ++ .text spec.json :: closingTokens f) := by
  refine ⟨chart f, by simp only [Block.source, hbody, Job.source], chart_eq_empty f, ?_⟩
  intro stored spec hstored hne hspec
  have hname : nonEmpty? f.variableName = some stored := by simp [nonEmpty?, hstored, hne]
  refine ⟨?_, readTripleQuoted?_spec spec f, rfl, readQuoted?_filters f,
    fun hnone => ?_, tokens?_chart hname hspec⟩
  · rw [chart_eq hname hspec, String.toList_append, String.toList_append, String.toList_ofList]
  · rw [chartFilters, hnone]
    rfl

/-- A chart whose specification is a text of quotes and backslashes. -/
def quotesChart : ChartFields := ⟨some "sales df", some (.string "\"\"\"); (\\\""), none⟩

theorem Block.chart_literals_quotesChart :
    ∃ s, (Block.mk ⟨"b", "g", "0", none, none⟩ none ⟨none, none, none, none, none, none, none⟩
        (.task (.visualization quotesChart) default default) []).source [] = .ok s ∧ s ≠ "" ∧
      chartClosing quotesChart = ", attach_selection=True, filters='[]')" ∧
      readTripleQuoted? (tripleQuoted (Tree.string "\"\"\"); (\\\"").json ++
          (chartClosing quotesChart).toList) =
        some (.text (Tree.string "\"\"\"); (\\\"").json, (chartClosing quotesChart).toList) := by
  obtain ⟨s, hs, hempty, hliterals⟩ := Block.chart_literals (f := quotesChart)
    (b := ⟨⟨"b", "g", "0", none, none⟩, none, ⟨none, none, none, none, none, none, none⟩,
      .task (.visualization quotesChart) default default, []⟩) rfl []
  obtain ⟨-, hspec, -⟩ := hliterals "sales df" _ rfl (by decide) rfl
  refine ⟨s, hs, fun h => ?_, by decide +kernel, hspec⟩
  simpa [quotesChart] using hempty.mp h

end NotebookProject
