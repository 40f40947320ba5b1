import Mathlib.Data.List.TakeWhile
import Mathlib.Tactic.Common
import NotebookProject.Proofs.Document.Style

/-!
# Walks of the feature scan

The course of the scan for refused features, through the text as a whole and one character at a
time, with a line feed as a character like any other. A walk goes on from within a line, a pass from
the start of one.

## Main definitions

* `Feature.Walks`, `Feature.Passes`: the rest of a text, from within a line or from the start of
  a line, is of regular style, and the scan finds nothing in it.
* `Feature.Opens`: the same from the text of a line on which a node can begin.
-/

namespace NotebookProject.Feature

open Text

/-! ## Lines -/

/-- The line that a text begins with. -/
def lineOf (text : List Char) : List Char := text.takeWhile (· != '\n')

/-- The text behind its first line. -/
def below (text : List Char) : List Char := (text.dropWhile (· != '\n')).drop 1

section Lines

variable {c : Char} {cs rest text : List Char}

@[simp] theorem lineOf_nil : lineOf [] = [] := rfl

@[simp] theorem below_nil : below [] = [] := rfl

@[simp] theorem lineOf_newline : lineOf ('\n' :: rest) = [] := rfl

@[simp] theorem below_newline : below ('\n' :: rest) = rest := rfl

theorem lineOf_cons (h : c ≠ '\n') : lineOf (c :: rest) = c :: lineOf rest := by
  simp [lineOf, h]

theorem below_cons (h : c ≠ '\n') : below (c :: rest) = below rest := by
  simp [below, h]

theorem lineOf_append (h : ∀ c ∈ cs, c ≠ '\n') : lineOf (cs ++ rest) = cs ++ lineOf rest := by
  induction cs with
  | nil => rfl
  | cons c cs ih =>
    obtain ⟨hc, hcs⟩ := List.forall_mem_cons.mp h
    rw [List.cons_append, lineOf_cons hc, ih hcs, List.cons_append]

theorem below_append (h : ∀ c ∈ cs, c ≠ '\n') : below (cs ++ rest) = below rest := by
  induction cs with
  | nil => rfl
  | cons c cs ih =>
    obtain ⟨hc, hcs⟩ := List.forall_mem_cons.mp h
    rw [List.cons_append, below_cons hc, ih hcs]

theorem head?_lineOf : (lineOf text).head? = text.head?.filter (· != '\n') := by
  cases text with
  | nil => rfl
  | cons c rest =>
    by_cases hc : c = '\n'
    · subst hc; rfl
    · simp [lineOf_cons hc, Option.filter, hc]

theorem linesFrom_eq {current : List Char} (hreturn : '\r' ∉ current) (htext : '\r' ∉ text)
    (hne : current ≠ [] ∨ text ≠ []) :
    linesFrom current text = (current.reverse ++ lineOf text) :: lines (below text) := by
  induction text generalizing current with
  | nil =>
    have hcurrent : current ≠ [] := by simpa using hne
    simp [linesFrom, hcurrent, lines]
  | cons c rest ih =>
    obtain ⟨hc, hrest⟩ : c ≠ '\r' ∧ '\r' ∉ rest := by simpa [eq_comm] using htext
    by_cases hnewline : c = '\n'
    · subst hnewline
      have hlast : current.reverse.getLast? ≠ some '\r' := fun h =>
        hreturn (by simpa using List.mem_of_getLast? h)
      rw [linesFrom, dropReturn, if_neg hlast]
      simp [lines]
    · rw [linesFrom, ih (by simp [hreturn, Ne.symm hc]) hrest (.inl (by simp)),
        lineOf_cons hnewline, below_cons hnewline]
      · simp
      · exact hnewline

/-- The lines of a text without carriage returns, one at a time. -/
theorem lines_eq_cons (h : '\r' ∉ text) (hne : text ≠ []) :
    lines text = lineOf text :: lines (below text) := by
  rw [lines, linesFrom_eq (by simp) h (.inr hne), List.reverse_nil, List.nil_append]

theorem below_sublist (text : List Char) : (below text).Sublist text :=
  ((List.drop_sublist ..).trans (List.dropWhile_sublist _))

theorem length_below_lt (hne : text ≠ []) : (below text).length < text.length := by
  cases text with
  | nil => exact absurd rfl hne
  | cons c rest =>
    by_cases hc : c = '\n'
    · subst hc
      exact Nat.lt_succ_self _
    · rw [below_cons hc]
      exact Nat.lt_succ_of_le (below_sublist rest).length_le

theorem drop_length_takeWhile (p : Char → Bool) (text : List Char) :
    text.drop (text.takeWhile p).length = text.dropWhile p := by
  induction text with
  | nil => rfl
  | cons c rest ih => by_cases hc : p c <;> simp [hc, ih]

theorem below_dropWhile {p : Char → Bool} (h : ∀ c, p c → c ≠ '\n') :
    below (text.dropWhile p) = below text := by
  have htake : ∀ c ∈ text.takeWhile p, c ≠ '\n' := fun c hc => h c (List.mem_takeWhile_imp hc)
  conv_rhs => rw [← List.takeWhile_append_dropWhile (p := p) (l := text), below_append htake]

theorem ne_newline_of_mem_replicate {indent : Nat} : ∀ c ∈ List.replicate indent ' ', c ≠ '\n' := by
  intro c hc
  rw [List.eq_of_mem_replicate hc]
  decide

theorem replicate_append_cons (n : Nat) (text : List Char) :
    List.replicate n ' ' ++ ' ' :: text = List.replicate (n + 1) ' ' ++ text := by
  rw [List.replicate_succ', List.append_assoc, List.singleton_append]

/-- Every text begins with some indentation. -/
theorem exists_indentation (text : List Char) :
    ∃ indent content, text = List.replicate indent ' ' ++ content ∧ content.head? ≠ some ' ' := by
  induction text with
  | nil => exact ⟨0, [], rfl, by simp⟩
  | cons c rest ih =>
    by_cases hc : c = ' '
    · obtain ⟨indent, content, hrest, hhead⟩ := ih
      refine ⟨indent + 1, content, ?_, hhead⟩
      rw [hc, hrest, List.replicate_succ, List.cons_append]
    · exact ⟨0, c :: rest, rfl, by simpa using hc⟩

end Lines

/-! ## The scan of the rest of a text -/

/-- The scan of the lines finds nothing, and they are of regular style. -/
def Goes (p : Pending) : List (List Char) → Prop
  | [] => True
  | l :: rest => ∃ next, p.scanLine l = .ok next ∧ (∀ q ∈ p.linePlaces rest l, q.isRegular) ∧
      Goes next rest

/-- The scan of a text from the start of a line finds nothing, and the text is of regular style. -/
def Passes (p : Pending) (text : List Char) : Prop := Goes p (lines text)

/-- What is open when a block scalar begins. -/
def inBody (flowNode : Bool) (parent : Nat) : Pending :=
  ⟨none, 0, flowNode, false, none, some parent⟩

/-- The scan of a text from within a line finds nothing, and the text is of regular style. -/
def Walks (indent : Nat) (cur : Cursor) (prev : Option Char) (column : Nat) (text : List Char) :
    Prop :=
  (∀ q ∈ walkPlaces (lines (below text)) indent cur prev column (lineOf text), q.isRegular) ∧
    match walk indent cur prev column (lineOf text) with
    | .found _ _ => False
    | .body parent => ∃ flowNode, Passes (inBody flowNode parent) (below text)
    | .rest last => Passes (.afterLine last) (below text)

theorem goes_of_findFrom {p : Pending} {n : Nat} {ls : List (List Char)}
    (h : findFrom p n ls = none) (hplaces : ∀ q ∈ placesFrom p ls, q.isRegular) : Goes p ls := by
  induction ls generalizing p n with
  | nil => trivial
  | cons l ls ih =>
    rw [findFrom] at h
    rw [placesFrom] at hplaces
    cases hline : p.scanLine l with
    | error e => simp [hline] at h
    | ok next =>
      simp only [hline, List.forall_mem_append] at h hplaces
      exact ⟨next, hline, hplaces.1, ih h hplaces.2⟩

theorem Regular.passes {text : List Char} (h : Regular text) (hfind : find? text = none) :
    Passes .nothing text :=
  goes_of_findFrom hfind h.places

@[simp] theorem passes_nil (p : Pending) : Passes p [] := trivial

section Walk

variable {indent column : Nat} {cur : Cursor} {prev : Option Char} {c : Char}
  {rest text : List Char}

theorem walk_cons (hquote : cur.quote = none) :
    walk indent cur prev column (c :: rest) =
      if c == ' ' || c == '\t' then walk indent cur (some c) (column + 1) rest
      else if c == '#' && isSeparator prev then .rest { cur with plain := false }
      else if cur.node then
        match atNode cur indent column c rest with
        | .inl ended => ended
        | .inr cur => walk indent cur (some c) (column + 1) rest
      else walk indent (pastNode cur c rest.head?) (some c) (column + 1) rest := by
  cases cur
  subst hquote
  exact walk.eq_def ..

theorem walkPlaces_cons (hquote : cur.quote = none) (lower : List (List Char)) :
    walkPlaces lower indent cur prev column (c :: rest) =
      if c == ' ' || c == '\t' then walkPlaces lower indent cur (some c) (column + 1) rest
      else if c == '#' && isSeparator prev then [⟨{ cur with plain := false }, column, [], lower⟩]
      else ⟨cur, column, c :: rest, lower⟩ ::
        if cur.node then
          match atNode cur indent column c rest with
          | .inl _ => []
          | .inr cur => walkPlaces lower indent cur (some c) (column + 1) rest
        else walkPlaces lower indent (pastNode cur c rest.head?) (some c) (column + 1) rest := by
  cases cur
  subst hquote
  exact walkPlaces.eq_def ..

/-- Between nodes nothing happens at a space. -/
theorem Walks.space (h : Walks indent cur prev column (' ' :: rest)) (hquote : cur.quote = none) :
    Walks indent cur (some ' ') (column + 1) rest := by
  unfold Walks at h ⊢
  rw [lineOf_cons (by decide), below_cons (by decide)] at h
  simpa [walk_cons hquote, walkPlaces_cons hquote] using h

/-- The end of a line. -/
theorem Walks.newline (h : Walks indent cur prev column ('\n' :: rest)) :
    (Place.mk cur column [] (lines rest)).isRegular ∧ Passes (.afterLine cur) rest := by
  simpa [Walks, walk, walkPlaces] using h

/-- A comment goes up to the end of its line, and ends a plain scalar. -/
theorem Walks.comment (h : Walks indent cur prev column ('#' :: rest)) (hquote : cur.quote = none)
    (hprev : isSeparator prev) : Passes (.afterLine { cur with plain := false }) (below rest) := by
  have hwalk := h.2
  rw [lineOf_cons (by decide), below_cons (by decide)] at hwalk
  simpa [walk_cons hquote, hprev] using hwalk

/-- A comment is the end of its line also for a plain scalar. -/
theorem Walks.comment_plain (h : Walks indent cur prev column ('#' :: rest))
    (hquote : cur.quote = none) (hprev : isSeparator prev) :
    Walks indent { cur with plain := false } prev column ('#' :: rest) := by
  unfold Walks at h ⊢
  rw [lineOf_cons (by decide), below_cons (by decide)] at h ⊢
  rw [walk_cons hquote, walkPlaces_cons hquote] at h
  rw [walk_cons (by exact hquote), walkPlaces_cons (by exact hquote)]
  simpa [hprev] using h

/-- A character where a node can begin. -/
theorem Walks.atNode (h : Walks indent cur prev column (c :: rest)) (hquote : cur.quote = none)
    (hnode : cur.node) (hc : isBlank c = false) (hhash : c = '#' → isSeparator prev = false) :
    (Place.mk cur column (c :: lineOf rest) (lines (below rest))).isRegular ∧
      match Feature.atNode cur indent column c (lineOf rest) with
      | .inl (.found _ _) => False
      | .inl (.body parent) => ∃ flowNode, Passes (inBody flowNode parent) (below rest)
      | .inl (.rest last) => Passes (.afterLine last) (below rest)
      | .inr cur => Walks indent cur (some c) (column + 1) rest := by
  have hspace : c ≠ ' ' := by rintro rfl; exact absurd hc (by decide)
  have htab : c ≠ '\t' := by rintro rfl; exact absurd hc (by decide)
  have hnewline : c ≠ '\n' := by rintro rfl; exact absurd hc (by decide)
  have hcomment : (c == '#' && isSeparator prev) = false := by
    cases hs : isSeparator prev with
    | false => simp
    | true => simpa [hs] using hhash
  unfold Walks at h
  rw [lineOf_cons hnewline, below_cons hnewline, walk_cons hquote, walkPlaces_cons hquote] at h
  simp only [beq_eq_false_iff_ne.mpr hspace, beq_eq_false_iff_ne.mpr htab, Bool.or_self,
    Bool.false_eq_true, ↓reduceIte, hcomment, hnode, List.forall_mem_cons] at h
  refine ⟨h.1.1, ?_⟩
  cases hat : Feature.atNode cur indent column c (lineOf rest) with
  | inl ended =>
    have hended := h.2
    rw [hat] at hended
    cases ended <;> exact hended
  | inr next =>
    rw [hat] at h
    exact ⟨h.1.2, h.2⟩

/-- A character where no node can begin. -/
theorem Walks.pastNode (h : Walks indent cur prev column (c :: rest)) (hquote : cur.quote = none)
    (hnode : cur.node = false) (hc : isBlank c = false)
    (hhash : c = '#' → isSeparator prev = false) :
    (Place.mk cur column (c :: lineOf rest) (lines (below rest))).isRegular ∧
      Walks indent (Feature.pastNode cur c (lineOf rest).head?) (some c) (column + 1) rest := by
  have hspace : c ≠ ' ' := by rintro rfl; exact absurd hc (by decide)
  have htab : c ≠ '\t' := by rintro rfl; exact absurd hc (by decide)
  have hnewline : c ≠ '\n' := by rintro rfl; exact absurd hc (by decide)
  have hcomment : (c == '#' && isSeparator prev) = false := by
    cases hs : isSeparator prev with
    | false => simp
    | true => simpa [hs] using hhash
  unfold Walks at h
  rw [lineOf_cons hnewline, below_cons hnewline, walk_cons hquote, walkPlaces_cons hquote] at h
  simp only [beq_eq_false_iff_ne.mpr hspace, beq_eq_false_iff_ne.mpr htab, Bool.or_self,
    Bool.false_eq_true, ↓reduceIte, hcomment, hnode, List.forall_mem_cons] at h
  exact ⟨h.1.1, h.1.2, h.2⟩

/-- No byte order mark begins a line with text. -/
theorem Walks.isOrderMark_eq_false (h : Walks indent cur prev column (c :: rest))
    (hquote : cur.quote = none) (hc : isBlank c = false)
    (hhash : c = '#' → isSeparator prev = false)
    (hcolumn : column = 0) : Yaml.isOrderMark c = false := by
  have hregular : (Place.mk cur column (c :: lineOf rest) (lines (below rest))).isRegular := by
    cases hnode : cur.node with
    | true => exact (h.atNode hquote hnode hc hhash).1
    | false => exact (h.pastNode hquote hnode hc hhash).1
  simpa [Place.isMarked, hcolumn] using Place.isMarked_eq_false hregular

/-! ### Quoted scalars -/

variable {q d : Char}

theorem walk_quoted (hquote : cur.quote = some q) :
    walk indent cur prev column (c :: rest) =
      if (q == '"' && c == '\\') || (q == '\'' && c == '\'' && rest.head? == some '\'') then
        match rest with
        | [] => .rest cur
        | d :: rest => walk indent cur (some d) (column + 2) rest
      else
        walk indent { cur with quote := if c == q then none else some q } (some c) (column + 1)
          rest := by
  cases cur
  subst hquote
  exact walk.eq_def ..

theorem walkPlaces_quoted (hquote : cur.quote = some q) (lower : List (List Char)) :
    walkPlaces lower indent cur prev column (c :: rest) =
      if (q == '"' && c == '\\') || (q == '\'' && c == '\'' && rest.head? == some '\'') then
        match rest with
        | [] => [⟨cur, column, [], lower⟩]
        | d :: rest => walkPlaces lower indent cur (some d) (column + 2) rest
      else
        walkPlaces lower indent { cur with quote := if c == q then none else some q } (some c)
          (column + 1) rest := by
  cases cur
  subst hquote
  exact walkPlaces.eq_def ..

/-- A character of a quoted scalar. -/
theorem Walks.quoted (h : Walks indent cur prev column (c :: rest)) (hquote : cur.quote = some q)
    (hc : c ≠ '\n') (hend : c ≠ q) (hescape : q = '"' → c ≠ '\\') :
    Walks indent cur (some c) (column + 1) rest := by
  have hpair : ((q == '"' && c == '\\') ||
      (q == '\'' && c == '\'' && (lineOf rest).head? == some '\'')) = false := by
    grind
  have hcur : { cur with quote := some q } = cur := by rw [← hquote]
  unfold Walks at h ⊢
  rw [lineOf_cons hc, below_cons hc, walk_quoted hquote, walkPlaces_quoted hquote] at h
  simpa only [hpair, Bool.false_eq_true, ↓reduceIte, beq_eq_false_iff_ne.mpr hend, hcur] using h

/-- The end of a quoted scalar. -/
theorem Walks.quoted_end (h : Walks indent cur prev column (q :: rest))
    (hquote : cur.quote = some q) (hq : q = '"' ∨ q = '\'' ∧ rest.head? ≠ some '\'') :
    Walks indent { cur with quote := none } (some q) (column + 1) rest := by
  have hnewline : q ≠ '\n' := by obtain rfl | ⟨rfl, -⟩ := hq <;> decide
  have hpair : ((q == '"' && q == '\\') ||
      (q == '\'' && q == '\'' && (lineOf rest).head? == some '\'')) = false := by
    obtain rfl | ⟨rfl, hhead⟩ := hq
    · rfl
    · rw [head?_lineOf]
      cases rest with
      | nil => rfl
      | cons d rest =>
        have hd : d ≠ '\'' := by simpa using hhead
        by_cases hnl : d = '\n' <;> simp [Option.filter, hnl, hd]
  unfold Walks at h ⊢
  rw [lineOf_cons hnewline, below_cons hnewline, walk_quoted hquote, walkPlaces_quoted hquote] at h
  simpa only [hpair, Bool.false_eq_true, ↓reduceIte, beq_self_eq_true] using h

/-- Two quotes in a row stand for one. -/
theorem Walks.quoted_pair (h : Walks indent cur prev column ('\'' :: '\'' :: rest))
    (hquote : cur.quote = some '\'') : Walks indent cur (some '\'') (column + 2) rest := by
  unfold Walks at h ⊢
  rw [lineOf_cons (by decide), below_cons (by decide), lineOf_cons (by decide),
    below_cons (by decide), walk_quoted hquote, walkPlaces_quoted hquote] at h
  simpa using h

/-- An escape within a line. -/
theorem Walks.quoted_escape (h : Walks indent cur prev column ('\\' :: d :: rest))
    (hquote : cur.quote = some '"') (hd : d ≠ '\n') :
    Walks indent cur (some d) (column + 2) rest := by
  unfold Walks at h ⊢
  rw [lineOf_cons (by decide), below_cons (by decide), lineOf_cons hd, below_cons hd,
    walk_quoted hquote, walkPlaces_quoted hquote] at h
  simpa using h

/-- An escape at the end of a line. -/
theorem Walks.quoted_escape_newline (h : Walks indent cur prev column ('\\' :: '\n' :: rest))
    (hquote : cur.quote = some '"') : Passes (.afterLine cur) rest := by
  have hwalk := h.2
  rw [lineOf_cons (by decide), below_cons (by decide), walk_quoted hquote] at hwalk
  simpa using hwalk

end Walk

/-! ## The start of a line -/

/-- What is open between nodes outside of flow collections. -/
def idle (flowNode : Bool) : Pending := ⟨none, 0, flowNode, false, none, none⟩

/-- What is open within a plain scalar whose lines are indented at least `least`. -/
def going (flowNode : Bool) (least : Nat) : Pending := ⟨none, 0, flowNode, true, some least, none⟩

/-- What is open within a quoted scalar. -/
def quoting (depth : Nat) (q : Char) : Pending := ⟨some q, depth, false, false, none, none⟩

theorem afterLine_idle {cur : Cursor} (hquote : cur.quote = none) (hdepth : cur.depth = 0)
    (hplain : cur.plain = false) : Pending.afterLine cur = idle cur.node := by
  simp [Pending.afterLine, idle, hquote, hdepth, hplain]

/-- The state at the start of a line where a node can begin. -/
def fresh (indent : Nat) : Cursor := ⟨none, 0, false, true, indent, none, none, false, none⟩

/-- The state at the start of a line that goes on with a plain scalar. -/
def resumed (indent least : Nat) : Cursor :=
  ⟨none, 0, true, false, indent, none, none, false, some least⟩

/-- The state at the start of a line that goes on with a quoted scalar. -/
def requoted (indent depth : Nat) (q : Char) : Cursor :=
  ⟨some q, depth, false, false, indent, none, none, false, none⟩

/-- The character before the text of a line. -/
def before (indent : Nat) : Option Char := if 0 < indent then some ' ' else none

theorem isSeparator_before (indent : Nat) : isSeparator (before indent) := by
  unfold before
  split <;> rfl

/-- A line on which a node can begin stands at its text: the marker of a document comes first. -/
def Opens (indent : Nat) (content : List Char) : Prop :=
  if indent = 0 ∧ isDocumentMarker (lineOf content) then
    Walks 0 (fresh 0) content[2]? 3 (content.drop 3)
  else Walks indent (fresh indent) (before indent) indent content

section Start

variable {p next : Pending} {indent least : Nat} {content : List Char} {flowNode : Bool}
  {lower : List (List Char)}

theorem indentation_pad (h : content.head? ≠ some ' ') :
    (List.replicate indent ' ' ++ content).takeWhile (· == ' ') = List.replicate indent ' ' := by
  induction indent with
  | zero =>
    cases content with
    | nil => rfl
    | cons c rest =>
      have hc : c ≠ ' ' := by simpa using h
      simp [hc]
  | succ n ih => simp [List.replicate_succ, ih]

theorem head?_lineOf_ne_space (h : content.head? ≠ some ' ') :
    (lineOf content).head? ≠ some ' ' := by
  rw [head?_lineOf]
  intro hhead
  exact h (Option.filter_eq_some_iff.mp hhead).1

/-- The line at the start of a text, after its indentation. -/
theorem Passes.line (h : Passes p (List.replicate indent ' ' ++ content))
    (hne : List.replicate indent ' ' ++ content ≠ []) (hreturn : '\r' ∉ content) :
    ∃ next, p.scanLine (List.replicate indent ' ' ++ lineOf content) = .ok next ∧
      (∀ q ∈ p.linePlaces (lines (below content)) (List.replicate indent ' ' ++ lineOf content),
        q.isRegular) ∧
      Passes next (below content) := by
  have hpad : ∀ c ∈ List.replicate indent ' ', c ≠ '\n' := by
    intro c hc
    rw [List.eq_of_mem_replicate hc]
    decide
  have hlines : '\r' ∉ List.replicate indent ' ' ++ content := by
    simp [hreturn]
  rw [Passes, lines_eq_cons hlines hne, lineOf_append hpad, below_append hpad] at h
  exact h

theorem scanLine_pad (p : Pending) (h : content.head? ≠ some ' ') (hbody : p.bodyParent = none) :
    p.scanLine (List.replicate indent ' ' ++ content) =
      match p.continuation with
      | none => p.scanContent false indent content
      | some least =>
        if content.isEmpty then .ok p
        else if least ≤ indent && content.head? != some '#' &&
            !(indent == 0 && isDocumentMarker content) then
          p.scanContent true indent content
        else { p with continuation := none, plain := false }.scanContent false indent content := by
  obtain ⟨quote, depth, flowNode, plain, continuation, bodyParent⟩ := p
  subst hbody
  cases continuation <;> simp [Pending.scanLine, indentation_pad h]

theorem linePlaces_pad (lower : List (List Char)) (p : Pending) (h : content.head? ≠ some ' ')
    (hbody : p.bodyParent = none) :
    p.linePlaces lower (List.replicate indent ' ' ++ content) =
      match p.continuation with
      | none => p.contentPlaces lower false indent content
      | some least =>
        if content.isEmpty then []
        else if least ≤ indent && content.head? != some '#' &&
            !(indent == 0 && isDocumentMarker content) then
          p.contentPlaces lower true indent content
        else { p with continuation := none, plain := false }.contentPlaces lower false indent
          content := by
  obtain ⟨quote, depth, flowNode, plain, continuation, bodyParent⟩ := p
  subst hbody
  cases continuation <;> simp [Pending.linePlaces, indentation_pad h]

/-- A document marker is three characters of one line. -/
theorem isDocumentMarker_lineOf {text : List Char} (h : isDocumentMarker (lineOf text)) :
    ∃ c rest, (c = '-' ∨ c = '.') ∧ text = c :: c :: c :: rest ∧ isSeparator (lineOf rest).head? ∧
      lineOf text = c :: c :: c :: lineOf rest := by
  unfold isDocumentMarker at h
  split at h
  · next a b d line hline =>
    obtain ⟨hmarks, hsep⟩ := Bool.and_eq_true_iff.mp h
    have hmark : (a = '-' ∧ b = '-' ∧ d = '-') ∨ (a = '.' ∧ b = '.' ∧ d = '.') := by
      simpa [and_assoc] using hmarks
    obtain ⟨c, hc, ha, hb, hd⟩ : ∃ c, (c = '-' ∨ c = '.') ∧ a = c ∧ b = c ∧ d = c := by
      obtain ⟨rfl, rfl, rfl⟩ | ⟨rfl, rfl, rfl⟩ := hmark
      · exact ⟨'-', .inl rfl, rfl, rfl, rfl⟩
      · exact ⟨'.', .inr rfl, rfl, rfl, rfl⟩
    rw [ha, hb, hd] at hline
    have hstep : ∀ {cs line : List Char}, lineOf cs = c :: line →
        ∃ more, cs = c :: more ∧ lineOf more = line := by
      intro cs line hcs
      cases cs with
      | nil => cases hcs
      | cons e more =>
        by_cases he : e = '\n'
        · subst he; cases hcs
        · rw [lineOf_cons he] at hcs
          obtain ⟨rfl, hmore⟩ := List.cons.inj hcs
          exact ⟨more, rfl, hmore⟩
    obtain ⟨one, rfl, hone⟩ := hstep hline
    obtain ⟨two, rfl, htwo⟩ := hstep hone
    obtain ⟨three, rfl, rfl⟩ := hstep htwo
    exact ⟨c, three, hc, rfl, hsep, hline⟩
  · cases h

/-- A walk that leaves something open behind its line. -/
theorem walks_of_settled (flowNode : Bool) {cur : Cursor} {prev : Option Char} {column : Nat}
    {text : List Char}
    (hplaces : ∀ q ∈ walkPlaces (lines (below text)) indent cur prev column (lineOf text),
      q.isRegular)
    (hnext : Passes next (below text))
    (h : (match walk indent cur prev column (lineOf text) with
      | .found feature column => Except.error (feature, column)
      | .body parent => .ok (inBody flowNode parent)
      | .rest last => .ok (.afterLine last)) = .ok next) :
    Walks indent cur prev column text := by
  refine ⟨hplaces, ?_⟩
  cases hwalk : walk indent cur prev column (lineOf text) with
  | found feature column =>
    rw [hwalk] at h
    cases h
  | body parent =>
    rw [hwalk] at h
    cases h
    exact ⟨flowNode, hnext⟩
  | rest last =>
    rw [hwalk] at h
    cases h
    exact hnext

theorem Opens.isOrderMark_eq_false {c : Char} {rest : List Char} (h : Opens indent (c :: rest))
    (hc : isBlank c = false) (hhash : c ≠ '#') (hindent : indent = 0) :
    Yaml.isOrderMark c = false := by
  unfold Opens at h
  split at h
  · next hmarker =>
    obtain ⟨d, more, hd, htext, -⟩ := isDocumentMarker_lineOf hmarker.2
    obtain ⟨rfl, -⟩ := List.cons.inj htext
    obtain rfl | rfl := hd <;> rfl
  · exact h.isOrderMark_eq_false rfl hc (absurd · hhash) hindent

/-- On a line where a node can begin the scan walks from the first character of its text, unless
there is a document marker. -/
theorem opens_of_scanContent {c : Char} {rest : List Char}
    (h : (idle flowNode).scanContent false indent (lineOf (c :: rest)) = .ok next)
    (hplaces : ∀ q ∈ (idle flowNode).contentPlaces (lines (below (c :: rest))) false indent
      (lineOf (c :: rest)), q.isRegular)
    (hnext : Passes next (below (c :: rest))) (hc : isBlank c = false) :
    Opens indent (c :: rest) := by
  have hnewline : c ≠ '\n' := by rintro rfl; exact absurd hc (by decide)
  simp only [Pending.scanContent, Pending.contentPlaces, idle, Option.isNone_none, beq_self_eq_true,
    Bool.and_self, Bool.not_false, Bool.true_and, Bool.false_eq_true, ↓reduceIte] at h hplaces
  unfold Opens
  by_cases hmarker : indent = 0 ∧ isDocumentMarker (lineOf (c :: rest))
  · rw [if_pos hmarker]
    obtain ⟨rfl, hdoc⟩ := hmarker
    obtain ⟨d, more, hd, htext, -, hline⟩ := isDocumentMarker_lineOf hdoc
    have hpercent : ((lineOf (c :: rest)).head? == some '%') = false := by
      rw [hline]
      obtain rfl | rfl := hd <;> rfl
    have hbelow : below (c :: rest) = below more := by
      rw [htext]
      obtain rfl | rfl := hd <;> rfl
    rw [hbelow] at hnext hplaces
    simp only [hpercent, hdoc, beq_self_eq_true, Bool.and_self, Bool.false_eq_true, ↓reduceIte,
      Nat.zero_add, Nat.zero_lt_succ] at h hplaces
    rw [hline] at h hplaces
    rw [htext]
    exact walks_of_settled flowNode hplaces hnext h
  · have hskip : (indent == 0 && isDocumentMarker (lineOf (c :: rest))) = false := by
      simpa using hmarker
    simp only [hskip, Bool.false_eq_true, ↓reduceIte, Nat.lt_irrefl, Nat.add_zero, List.drop_zero]
      at h hplaces
    rw [if_neg hmarker]
    refine walks_of_settled flowNode hplaces hnext ?_
    split at h
    · next hpercent =>
      rw [lineOf_cons hnewline, List.head?_cons] at hpercent
      obtain rfl : c = '%' := by simpa using hpercent
      rw [lineOf_cons hnewline, walkPlaces_cons rfl] at hplaces
      exact absurd (hplaces _ (List.mem_cons_self ..)) (by simp [Place.isRegular,
        Place.isRegularInBlock, Place.beginsInBlock, isStray])
    · exact h

variable {c : Char} {rest : List Char}

theorem pad_append_cons_ne_nil : List.replicate indent ' ' ++ c :: rest ≠ [] := by simp

/-- A line without text between nodes. -/
theorem Passes.idle_newline (h : Passes (idle flowNode) (List.replicate indent ' ' ++ '\n' :: rest))
    (hreturn : '\r' ∉ rest) : Passes (idle true) rest := by
  obtain ⟨next, hline, -, hnext⟩ := h.line pad_append_cons_ne_nil (by simpa using hreturn)
  rw [scanLine_pad _ (by simp) rfl] at hline
  obtain rfl : idle true = next := by simpa [idle, Pending.scanContent, walk,
    Pending.afterLine] using hline
  exact hnext

/-- A line with text between nodes. -/
theorem Passes.idle_opens (h : Passes (idle flowNode) (List.replicate indent ' ' ++ c :: rest))
    (hreturn : '\r' ∉ c :: rest) (hc : isBlank c = false) : Opens indent (c :: rest) := by
  have hspace : (c :: rest).head? ≠ some ' ' := by
    rintro hhead
    obtain rfl : c = ' ' := by simpa using hhead
    exact absurd hc (by decide)
  obtain ⟨next, hline, hplaces, hnext⟩ := h.line pad_append_cons_ne_nil hreturn
  rw [scanLine_pad _ (head?_lineOf_ne_space hspace) rfl] at hline
  rw [linePlaces_pad _ _ (head?_lineOf_ne_space hspace) rfl] at hplaces
  exact opens_of_scanContent hline hplaces hnext hc

/-- A line without text within a plain scalar. -/
theorem Passes.going_newline
    (h : Passes (going flowNode least) (List.replicate indent ' ' ++ '\n' :: rest))
    (hreturn : '\r' ∉ rest) : Passes (going flowNode least) rest := by
  obtain ⟨next, hline, -, hnext⟩ := h.line pad_append_cons_ne_nil (by simpa using hreturn)
  rw [scanLine_pad _ (by simp) rfl] at hline
  obtain rfl : going flowNode least = next := by simpa [going] using hline
  exact hnext

/-- Whether a line with this text goes on with a plain scalar. -/
def GoesOn (least indent : Nat) (content : List Char) : Prop :=
  least ≤ indent ∧ content.head? ≠ some '#' ∧ ¬(indent = 0 ∧ isDocumentMarker (lineOf content))

/-- A line with text within a plain scalar goes on with it, or a node can begin on it. -/
theorem Passes.going_text
    (h : Passes (going flowNode least) (List.replicate indent ' ' ++ c :: rest))
    (hreturn : '\r' ∉ c :: rest) (hc : isBlank c = false) :
    (GoesOn least indent (c :: rest) →
      Walks indent (resumed indent least) (before indent) indent (c :: rest)) ∧
    (¬GoesOn least indent (c :: rest) → Opens indent (c :: rest)) := by
  have hspace : (c :: rest).head? ≠ some ' ' := by
    rintro hhead
    obtain rfl : c = ' ' := by simpa using hhead
    exact absurd hc (by decide)
  have hnewline : c ≠ '\n' := by rintro rfl; exact absurd hc (by decide)
  have hempty : (lineOf (c :: rest)).isEmpty = false := by simp [lineOf_cons hnewline]
  have hgoes : (decide (least ≤ indent) && (lineOf (c :: rest)).head? != some '#' &&
      !(indent == 0 && isDocumentMarker (lineOf (c :: rest)))) = true ↔
      GoesOn least indent (c :: rest) := by
    simp [GoesOn, lineOf_cons hnewline, and_assoc, Decidable.imp_iff_not_or]
  obtain ⟨next, hline, hplaces, hnext⟩ := h.line pad_append_cons_ne_nil hreturn
  rw [scanLine_pad _ (head?_lineOf_ne_space hspace) rfl] at hline
  rw [linePlaces_pad _ _ (head?_lineOf_ne_space hspace) rfl] at hplaces
  simp only [going, hempty, Bool.false_eq_true, ↓reduceIte] at hline hplaces
  constructor
  · intro hon
    rw [if_pos (hgoes.mpr hon)] at hline
    simp only [if_pos (hgoes.mpr hon)] at hplaces
    refine walks_of_settled flowNode ?_ hnext ?_
    · simpa [Pending.contentPlaces, resumed, before] using hplaces
    · simp [Pending.scanContent] at hline
      exact hline
  · intro hoff
    rw [if_neg (mt hgoes.mp hoff)] at hline
    simp only [if_neg (mt hgoes.mp hoff)] at hplaces
    exact opens_of_scanContent hline hplaces hnext hc

/-- A line within a quoted scalar. -/
theorem Passes.quoting_line {depth : Nat} {q : Char}
    (h : Passes (quoting depth q) (List.replicate indent ' ' ++ rest))
    (hhead : rest.head? ≠ some ' ') (hreturn : '\r' ∉ rest) :
    Walks indent (requoted indent depth q) (before indent) indent rest := by
  by_cases hne : List.replicate indent ' ' ++ rest = []
  · obtain ⟨-, rfl⟩ := List.append_eq_nil_iff.mp hne
    exact ⟨by simp [walkPlaces, requoted, Place.isRegular_end], trivial⟩
  · obtain ⟨next, hline, hplaces, hnext⟩ := h.line hne hreturn
    rw [scanLine_pad _ (head?_lineOf_ne_space hhead) rfl] at hline
    rw [linePlaces_pad _ _ (head?_lineOf_ne_space hhead) rfl] at hplaces
    refine walks_of_settled false ?_ hnext ?_
    · exact hplaces
    · exact hline

theorem isEmptyLine_replicate (indent : Nat) : isEmptyLine (List.replicate indent ' ') := by
  simp [isEmptyLine]

theorem isEmpty_drop_indentation (line : List Char) :
    (line.drop (indentation line)).isEmpty = isEmptyLine line := by
  induction line with
  | nil => rfl
  | cons c line ih =>
    by_cases hc : c = ' '
    · subst hc
      have hpad : indentation (' ' :: line) = indentation line + 1 := by simp [indentation]
      rw [hpad, List.drop_succ_cons, ih]
      simp [isEmptyLine]
    · simp [indentation, isEmptyLine, hc]

/-- A line in the body of a block scalar is passed over. -/
theorem Passes.body_line {parent : Nat} {text : List Char}
    (h : Passes (inBody flowNode parent) text) (hne : text ≠ []) (hreturn : '\r' ∉ text)
    (hline : isEmptyLine (lineOf text) || parent < indentation (lineOf text)) :
    Passes (inBody flowNode parent) (below text) := by
  rw [Passes, lines_eq_cons hreturn hne] at h
  obtain ⟨next, hscan, -, hnext⟩ := h
  rw [← isEmpty_drop_indentation, indentation] at hline
  simp only [Pending.scanLine, inBody, hline, ↓reduceIte, Except.ok.injEq] at hscan
  subst hscan
  exact hnext

/-- A line with text that is not deeper than the owner of a block scalar ends its body. -/
theorem Passes.body_opens {parent : Nat}
    (h : Passes (inBody flowNode parent) (List.replicate indent ' ' ++ c :: rest))
    (hreturn : '\r' ∉ c :: rest) (hc : isBlank c = false) (hindent : indent ≤ parent) :
    Opens indent (c :: rest) := by
  have hspace : (c :: rest).head? ≠ some ' ' := by
    rintro hhead
    obtain rfl : c = ' ' := by simpa using hhead
    exact absurd hc (by decide)
  have hnewline : c ≠ '\n' := by rintro rfl; exact absurd hc (by decide)
  obtain ⟨next, hline, hplaces, hnext⟩ := h.line pad_append_cons_ne_nil hreturn
  have hpad : (List.replicate indent ' ' ++ lineOf (c :: rest)).takeWhile (· == ' ') =
      List.replicate indent ' ' := indentation_pad (head?_lineOf_ne_space hspace)
  have hdrop : (List.replicate indent ' ' ++ lineOf (c :: rest)).drop indent = lineOf (c :: rest) :=
    List.drop_left' List.length_replicate
  have hempty : (lineOf (c :: rest)).isEmpty = false := by simp [lineOf_cons hnewline]
  simp only [Pending.scanLine, Pending.linePlaces, inBody, hpad, List.length_replicate, hdrop,
    hempty, Nat.not_lt.mpr hindent, decide_false, Bool.or_self, Bool.false_eq_true, ↓reduceIte]
    at hline hplaces
  exact opens_of_scanContent hline hplaces hnext hc

end Start

end NotebookProject.Feature
