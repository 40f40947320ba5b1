import NotebookProject.Proofs.Document.Reader.Token
import NotebookProject.Proofs.RoundTrip

/-!
# Soundness of the feature scan

A text that is read uses none of the refused features. The scan does not read YAML, so this holds
as far as it keeps its place among the nodes: in a text of regular style, with block and flow
collections. In other texts it can lose its place, and then features pass it by.

## Main results

* `Document.used_of_parse`: the events of a text that is read use no refused feature.
-/

namespace NotebookProject.Document

open Feature

variable {limits : Limits} {text : List Char} {t : Tree}

/-- The events of a text of regular style that is read use no refused feature. -/
theorem used_of_parse (hstyle : Regular text) (h : parse limits text = .ok t) :
    used ((Yaml.EventStream.ofText text).events.map (·.event)) = [] := by
  obtain ⟨-, -, hfind, -⟩ := parse_eq_ok_iff.mp h
  exact used_eq_nil (hstyle.harmless hfind)

/-- A document of regular style. What is in quotes, in a comment or in a block scalar is no feature,
and neither is what stands within a plain scalar, be it in flow collections or outside. -/
def regularText : List Char :=
  ("a b: c\n  d # &x\nk: \"*x\n  &y\"\nf: \x7b'&p': [q\n &r], \"*\": # *u\n \x7b\x7d\x7d\n" ++
    "l:\n- '!t'\n- |\n  <<: *x\n").toList

def regularTree : Tree :=
  .record [("a b", .string "c d"),
    ("f", .record [("&p", .list [.string "q &r"]), ("*", .record [])]),
    ("k", .string "*x &y"), ("l", .list [.string "!t", .string "<<: *x\n"])]

theorem used_of_parse_regularText :
    Regular regularText ∧ parse .standard regularText = .ok regularTree ∧
      used ((Yaml.EventStream.ofText regularText).events.map (·.event)) = [] := by
  have hstyle : Regular regularText := by decide +kernel
  have hread : parse .standard regularText = .ok regularTree := by decide +kernel
  exact ⟨hstyle, hread, used_of_parse hstyle hread⟩

/-- A text that is not of regular style: its first value begins below its key. -/
def hangingText : List Char := "a:\n  b\n \"c\nd: &x 1\ne: *x\n".toList

/-- The quote in the first value is taken for the beginning of a node, so that the rest of the text
is passed over. -/
theorem used_hangingText :
    parse .standard hangingText =
        .ok (.record [("a", .string "b \"c"), ("d", .number (.int 1)), ("e", .number (.int 1))]) ∧
      used ((Yaml.EventStream.ofText hangingText).events.map (·.event)) = [.anchor, .alias] := by
  decide +kernel

end NotebookProject.Document
