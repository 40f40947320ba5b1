import Mathlib.Tactic.SplitIfs
import NotebookProject.Markup.Cell
import NotebookProject.Number.Decimal

/-!
# Image elements

The Markdown of an image is an HTML element whose attributes show stored text. Here it is read as a
browser reads a start tag, one character at a time: a quoted value ends at its quote, and the tag at
the first `>` that is in no quoted value. None of the stored texts can end its value, and the values
say what they should: the address with its references replaced is the one that is stored.

## Main definitions

* `Markup.startTag?`: reads a start tag.
* `Markup.decodeReferences`: replaces character references by the characters they stand for.

## Main results

* `Block.startTag?_markup`: the Markdown of an image as a start tag.
-/

namespace NotebookProject

namespace Markup

/-! ## Start tags -/

/-- A start tag with its attributes in their order. -/
structure StartTag where
  name : String
  attributes : List (String × String)
  selfClosing : Bool
  deriving DecidableEq, Repr

/-- Where the reading of a start tag stands. -/
inductive TagPhase where
  | name
  /-- Where an attribute or the end of the tag can follow. -/
  | gap
  | key
  /-- Behind blanks after the name of an attribute. -/
  | afterKey
  /-- Behind the `=` of an attribute. -/
  | beforeValue
  /-- In a value that ends at this quote. -/
  | quoted (quote : Char)
  /-- In a value without quotes. -/
  | unquoted
  /-- Behind a `/` between attributes. -/
  | slash
  deriving DecidableEq, Repr

/-- What has been read of a start tag. -/
structure TagReader where
  phase : TagPhase
  name : List Char
  attributes : List (String × String)
  /-- The name of the attribute that is being read. -/
  key : List Char
  /-- The value of the attribute that is being read. -/
  value : List Char
  deriving DecidableEq, Repr

/-- The blanks within a tag. -/
def isTagBlank (c : Char) : Bool :=
  c == ' ' || c == '\t' || c == '\n' || c == '\r' || c == '\x0c'

namespace TagReader

/-- The attribute that is being read is complete. -/
def store (r : TagReader) : TagReader :=
  { phase := .gap, name := r.name, key := [], value := []
    attributes := r.attributes ++ [(String.ofList r.key, String.ofList r.value)] }

/-- The tag is complete. -/
def tag (r : TagReader) (selfClosing : Bool) : StartTag :=
  ⟨String.ofList r.name, r.attributes, selfClosing⟩

/-- A character where an attribute or the end of the tag can follow. -/
def stepGap (r : TagReader) (c : Char) : TagReader ⊕ StartTag :=
  if isTagBlank c then .inl { r with phase := .gap }
  else if c == '/' then .inl { r with phase := .slash }
  else if c == '>' then .inr (r.tag false)
  else .inl { r with phase := .key, key := [c] }

/-- Reads one character. -/
def step (r : TagReader) (c : Char) : TagReader ⊕ StartTag :=
  match r.phase with
  | .name =>
    if isTagBlank c || c == '/' || c == '>' then r.stepGap c
    else .inl { r with name := r.name ++ [c] }
  | .gap => r.stepGap c
  | .key =>
    if isTagBlank c then .inl { r with phase := .afterKey }
    else if c == '=' then .inl { r with phase := .beforeValue }
    else if c == '/' || c == '>' then r.store.stepGap c
    else .inl { r with key := r.key ++ [c] }
  | .afterKey =>
    if isTagBlank c then .inl r
    else if c == '=' then .inl { r with phase := .beforeValue }
    else r.store.stepGap c
  | .beforeValue =>
    if isTagBlank c then .inl r
    else if c == '"' || c == '\'' then .inl { r with phase := .quoted c }
    else if c == '>' then r.store.stepGap c
    else .inl { r with phase := .unquoted, value := [c] }
  | .quoted q => if c == q then .inl r.store else .inl { r with value := r.value ++ [c] }
  | .unquoted =>
    if isTagBlank c || c == '>' then r.store.stepGap c
    else .inl { r with value := r.value ++ [c] }
  | .slash => if c == '>' then .inr (r.tag true) else r.stepGap c

/-- The tag and the text behind it. -/
def read (r : TagReader) : List Char → Option (StartTag × List Char)
  | [] => none
  | c :: rest =>
    match r.step c with
    | .inl r => r.read rest
    | .inr tag => some (tag, rest)

/-- A reader between attributes. -/
def between (name : List Char) (attributes : List (String × String)) : TagReader :=
  ⟨.gap, name, attributes, [], []⟩

end TagReader

/-- The start tag at the front of a text, and the text behind it. -/
def startTag? : List Char → Option (StartTag × List Char)
  | '<' :: c :: rest =>
    if c.isAlpha then TagReader.read ⟨.name, [c], [], [], []⟩ rest else none
  | _ => none

namespace TagReader

variable {r s : TagReader} {c : Char} {cs rest name key value : List Char}
  {attributes : List (String × String)}

theorem read_cons (h : r.step c = .inl s) : r.read (c :: rest) = s.read rest := by
  rw [read, h]

/-- A quoted value goes up to its quote. -/
theorem read_quoted {q : Char} (h : q ∉ cs) :
    read ⟨.quoted q, name, attributes, key, value⟩ (cs ++ q :: rest) =
      (store ⟨.quoted q, name, attributes, key, value ++ cs⟩).read rest := by
  induction cs generalizing value with
  | nil => exact read_cons (by simp [step])
  | cons c cs ih =>
    obtain ⟨hc, hcs⟩ : q ≠ c ∧ q ∉ cs := by simpa using h
    have hstep : step ⟨.quoted q, name, attributes, key, value⟩ c =
        .inl ⟨.quoted q, name, attributes, key, value ++ [c]⟩ := by
      simp [step, Ne.symm hc]
    rw [List.cons_append, read_cons hstep, ih hcs, List.append_assoc, List.singleton_append]

/-- Whether a character can stand in the name of an attribute. -/
def isKeyChar (c : Char) : Bool := !(isTagBlank c || c == '=' || c == '/' || c == '>')

theorem read_key (h : cs.all isKeyChar) :
    read ⟨.key, name, attributes, key, value⟩ (cs ++ '=' :: '"' :: rest) =
      read ⟨.quoted '"', name, attributes, key ++ cs, value⟩ rest := by
  induction cs generalizing key with
  | nil => simp [read, step, isTagBlank]
  | cons c cs ih =>
    obtain ⟨hc, hcs⟩ : isKeyChar c = true ∧ cs.all isKeyChar = true := by simpa using h
    have hstep : step ⟨.key, name, attributes, key, value⟩ c =
        .inl ⟨.key, name, attributes, key ++ [c], value⟩ := by
      simp_all [step, isKeyChar]
    rw [List.cons_append, read_cons hstep, ih hcs, List.append_assoc, List.singleton_append]

theorem read_space :
    (between name attributes).read (' ' :: rest) = (between name attributes).read rest := rfl

/-- One attribute with a value in double quotes. -/
theorem read_attribute {s : String} (hc : isKeyChar c) (hcs : cs.all isKeyChar)
    (hs : '"' ∉ s.toList) :
    (between name attributes).read (c :: cs ++ '=' :: '"' :: s.toList ++ '"' :: rest) =
      (between name (attributes ++ [(String.ofList (c :: cs), s)])).read rest := by
  have hkey : (between name attributes).step c = .inl ⟨.key, name, attributes, [c], []⟩ := by
    simp_all [step, stepGap, between, isKeyChar]
  simp only [List.cons_append, List.append_assoc]
  rw [read_cons hkey, read_key hcs, read_quoted hs, store, List.nil_append, String.ofList_toList]
  rfl

end TagReader

/-! ## Character references -/

/-- The characters that have a name in references. -/
def namedCharacters : List (List Char × Char) :=
  [("amp".toList, '&'), ("lt".toList, '<'), ("gt".toList, '>'), ("quot".toList, '"'),
   ("apos".toList, '\'')]

/-- The character with the code that is given in these digits. -/
def ofDigits? (radix : Nat) (digits : List Char) : Option Char :=
  (Decimal.nat? radix digits).bind fun n => if n.isValidChar then some (Char.ofNat n) else none

/-- The character that the text between `&` and `;` stands for: one that has a name, or whose code
is given in decimal or hexadecimal digits. -/
def referent? : List Char → Option Char
  | '#' :: 'x' :: digits | '#' :: 'X' :: digits => ofDigits? 16 digits
  | '#' :: digits => ofDigits? 10 digits
  | name => namedCharacters.lookup name

/-- Replaces the references of a text in one pass. The text may begin inside of one, with `pending`
already read behind its `&`. What is no reference is kept. -/
def decodeFrom (pending : Option (List Char)) : List Char → List Char
  | [] => pending.elim [] ('&' :: ·)
  | c :: rest =>
    match pending with
    | none => if c == '&' then decodeFrom (some []) rest else c :: decodeFrom none rest
    | some name =>
      if c == ';' then
        ((referent? name).elim ('&' :: name ++ [';']) fun d => [d]) ++ decodeFrom none rest
      else if c == '&' then '&' :: name ++ decodeFrom (some []) rest
      else if c == '#' || c.isAlphanum then decodeFrom (some (name ++ [c])) rest
      else '&' :: name ++ c :: decodeFrom none rest

/-- The text with its character references replaced. -/
def decodeReferences (s : String) : String := String.ofList (decodeFrom none s.toList)

/-- The characters that attributes show as references. -/
def referred : List Char := ['&', '<', '>', '"', '\'']

theorem mem_referred {c : Char} :
    c ∈ referred ↔ c = '&' ∨ c = '<' ∨ c = '>' ∨ c = '"' ∨ c = '\'' := by
  simp only [referred, List.mem_cons, List.not_mem_nil, or_false]

theorem attributeChar_of_not_mem {c : Char} (h : c ∉ referred) : attributeChar c = [c] := by
  simp_all [referred, attributeChar]

/-- A character that is written for an attribute is read back. -/
theorem decodeFrom_attributeChar (c : Char) (rest : List Char) :
    decodeFrom none (attributeChar c ++ rest) = c :: decodeFrom none rest := by
  by_cases h : c ∈ referred
  · obtain rfl | rfl | rfl | rfl | rfl := mem_referred.mp h <;> rfl
  · have hand : c ≠ '&' := by
      rintro rfl
      exact h (by decide)
    simp [attributeChar_of_not_mem h, decodeFrom, hand]

theorem decodeReferences_attributeText (s : String) : decodeReferences (attributeText s) = s := by
  have hdecode : ∀ cs, decodeFrom none (cs.flatMap attributeChar) = cs := by
    intro cs
    induction cs with
    | nil => rfl
    | cons c cs ih => rw [List.flatMap_cons, decodeFrom_attributeChar, ih]
  rw [decodeReferences, attributeText, String.toList_ofList, hdecode, String.ofList_toList]

/-! ## Values that end at their quotes -/

theorem quote_not_mem_attributeChar (c : Char) : '"' ∉ attributeChar c := by
  by_cases h : c ∈ referred
  · obtain rfl | rfl | rfl | rfl | rfl := mem_referred.mp h <;> decide
  · rw [attributeChar_of_not_mem h, List.mem_singleton]
    rintro rfl
    exact h (by decide)

theorem quote_not_mem_attributeText (s : String) : '"' ∉ (attributeText s).toList := by
  rw [attributeText, String.toList_ofList]
  intro hmem
  obtain ⟨c, -, hc⟩ := List.mem_flatMap.mp hmem
  exact quote_not_mem_attributeChar c hc

theorem toList_width (s : String) :
    (width s).toList = s.toList.filter fun c => '0' ≤ c && c ≤ '9' := by
  rw [width, String.toList_ofList]
  exact List.filter_congr fun _ _ => rfl

theorem quote_not_mem_width (s : String) : '"' ∉ (width s).toList := by
  simp [toList_width]

theorem alignment_eq (s : String) :
    alignment s = if s ∈ ["left", "center", "right"] then s else "" := by
  simp [alignment, or_assoc]

theorem quote_not_mem_alignment (s : String) : '"' ∉ (alignment s).toList := by
  rw [alignment_eq]
  split_ifs with h
  · have hall : ∀ t ∈ ["left", "center", "right"], '"' ∉ t.toList := by decide
    exact hall s h
  · decide

/-! ## Image elements -/

/-- An image element is read to its end, whatever stands behind it. -/
theorem startTag?_imageElement (f : ImageFields) (rest : List Char) :
    startTag? ((imageElement f).toList ++ rest) =
      some (⟨"img", [("src", attributeText (f.source.getD "")), ("width", width (f.width.getD "")),
        ("align", alignment (f.alignment.getD ""))], true⟩, rest) := by
  have hsource := quote_not_mem_attributeText (f.source.getD "")
  have hwidth := quote_not_mem_width (f.width.getD "")
  have halignment := quote_not_mem_alignment (f.alignment.getD "")
  have htext : (imageElement f).toList ++ rest = '<' :: 'i' :: 'm' :: 'g' :: ' ' ::
      ('s' :: ['r', 'c'] ++ '=' :: '"' :: (attributeText (f.source.getD "")).toList ++ '"' :: ' ' ::
      ('w' :: ['i', 'd', 't', 'h'] ++ '=' :: '"' :: (width (f.width.getD "")).toList ++
        '"' :: ' ' ::
      ('a' :: ['l', 'i', 'g', 'n'] ++ '=' :: '"' :: (alignment (f.alignment.getD "")).toList ++
        '"' :: ' ' :: '/' :: '>' :: rest))) := by
    unfold imageElement
    simp only [String.toList_append, String.reduceToList, List.append_assoc, List.cons_append,
      List.nil_append]
  have hname : ∀ cs, startTag? ('<' :: 'i' :: 'm' :: 'g' :: ' ' :: cs) =
      (TagReader.between ['i', 'm', 'g'] []).read cs := fun _ => rfl
  rw [htext, hname, TagReader.read_attribute (by decide) (by decide) hsource, TagReader.read_space,
    TagReader.read_attribute (by decide) (by decide) hwidth, TagReader.read_space,
    TagReader.read_attribute (by decide) (by decide) halignment, TagReader.read_space]
  rfl

end Markup

open Markup

/-- The Markdown of an image is one start tag, whatever stands behind it: it has a source, a width
and an alignment and nothing else. The source with its references replaced is the stored one, the
width has the digits of the stored one, and the alignment is the stored one if it is a keyword. -/
theorem Block.startTag?_markup {b : Block} {f : ImageFields} (hbody : b.body = .cell (.image f)) :
    ∃ text source width alignment, b.markup? = some text ∧
      (∀ rest, startTag? (text.toList ++ rest) =
        some (⟨"img", [("src", source), ("width", width), ("align", alignment)], true⟩, rest)) ∧
      decodeReferences source = f.source.getD "" ∧
      width.toList = (f.width.getD "").toList.filter (fun c => '0' ≤ c && c ≤ '9') ∧
      alignment = if f.alignment.getD "" ∈ ["left", "center", "right"] then f.alignment.getD ""
        else "" := by
  have hmarkup : b.markup? = some (imageElement f) := by
    simp [Block.markup?, hbody, Cell.markup]
  exact ⟨_, _, _, _, hmarkup, startTag?_imageElement f, decodeReferences_attributeText _,
    toList_width _, alignment_eq _⟩

/-- An image whose stored texts try to end their attributes. -/
def hostileImage : ImageFields :=
  ⟨some "a.png\" onload='x()'><b>&amp;#39;", some "\"6>4٣0px", some "center"⟩

theorem Block.startTag?_markup_hostileImage : ∃ b : Block, b.body = .cell (.image hostileImage) ∧
    ∃ text source, b.markup? = some text ∧
      startTag? text.toList =
        some (⟨"img", [("src", source), ("width", "640"), ("align", "center")], true⟩, []) ∧
      decodeReferences source = "a.png\" onload='x()'><b>&amp;#39;" := by
  let b : Block :=
    { header := ⟨"b", "g", "0", none, none⟩
      content := none
      layout := ⟨none, none, none, none, none, none, none⟩
      body := .cell (.image hostileImage)
      extra := [] }
  have hbody : b.body = .cell (.image hostileImage) := rfl
  obtain ⟨text, source, width, alignment, hmarkup, htag, hsource, hwidth, rfl⟩ :=
    Block.startTag?_markup hbody
  obtain rfl : width = "640" := String.toList_inj.mp (hwidth.trans (by decide))
  have hnil : startTag? text.toList = startTag? (text.toList ++ []) := by rw [List.append_nil]
  exact ⟨b, hbody, text, source, hmarkup, hnil.trans (htag []), hsource⟩

end NotebookProject
