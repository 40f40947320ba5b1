import NotebookProject.Proofs.Yaml.Quoted

/-!
# Reading literal scalars

A text in the literal style is read back. Its lines stand at their indentation, which the header
tells if the first line does not show it; the header also tells what becomes of the line breaks at
the end.

## Main definitions

* `BlockText.feed`: what a character of the text adds to a block scalar.
* `BlockText.flat`: all text that has been read, with the line breaks after it.
-/

namespace NotebookProject.Yaml

variable {cs rest : List Char} {c : Char} {b : BlockText} {mark : Mark} {indent least : Nat}

namespace BlockText

/-- The text read so far with the line breaks after it, last character first. -/
def flat (b : BlockText) : List Char := b.empties ++ b.ended.toList ++ b.text

/-- Takes in one character of a text whose lines stand at column `indent`. -/
def feed (indent : Nat) (b : BlockText) (c : Char) : BlockText :=
  if isBreak c then (if b.inLine then b.endLine c else b.emptyLine 0 c)
  else if b.inLine then { b with text := c :: b.text }
  else b.startLine false indent c

/-- With the end of the last line. -/
def closed (b : BlockText) : BlockText := if b.inLine then b.endLine '\n' else b

@[simp] theorem inLine_closed : b.closed.inLine = false := by
  unfold closed
  split_ifs with h
  · rfl
  · simpa using h

@[simp] theorem indent_closed : b.closed.indent = b.indent := by
  unfold closed
  split_ifs <;> rfl

/-- Inside a line there are no breaks after the text. -/
def Proper (b : BlockText) : Prop := b.inLine → b.ended = none ∧ b.empties = []

theorem finish_keep (b : BlockText) : b.finish .keep = b.flat := by
  unfold finish flat
  cases b.ended <;> rfl

/-- Inside a line nothing is left to strip but its end. -/
theorem finish_strip (hline : b.inLine) (hproper : b.Proper) : b.closed.finish .strip = b.flat := by
  obtain ⟨hended, hempties⟩ := hproper hline
  simp [closed, hline, finish, endLine, flat, hended, hempties]

/-- The line break right behind a line is all that is kept. -/
theorem finish_clip (hline : b.inLine) (hc : isBreak c) :
    (b.feed indent c).finish .clip = (b.feed indent c).flat := by
  simp [feed, hline, hc, finish, endLine, flat]

theorem breaks_literal (next : Bool) : b.breaks false next = b.empties ++ b.ended.toList := by
  unfold breaks
  cases hended : b.ended with
  | none => simp
  | some d => split <;> simp_all

theorem flat_startLine : (b.startLine false indent c).flat = c :: b.flat := by
  simp [startLine, flat, breaks_literal]

theorem proper_startLine : (b.startLine false indent c).Proper := fun _ => ⟨rfl, rfl⟩

theorem flat_feed (indent : Nat) (hproper : b.Proper) (hc : isPrintable c) :
    (b.feed indent c).flat = c :: b.flat ∧ (b.feed indent c).Proper := by
  have hkept : isBreak c → breakText c = c := by
    intro hbreak
    rcases isBreak_of_isPrintable hc hbreak with rfl | rfl | rfl <;> rfl
  unfold feed
  split_ifs with hbreak hline hline
  · obtain ⟨hended, hempties⟩ := hproper hline
    refine ⟨?_, fun h => absurd h (by simp [endLine])⟩
    simp [flat, endLine, hkept hbreak, hended, hempties]
  · refine ⟨?_, fun h => absurd h (by simpa [emptyLine] using hline)⟩
    simp [flat, emptyLine, hkept hbreak]
  · obtain ⟨hended, hempties⟩ := hproper hline
    exact ⟨by simp [flat, hended, hempties], fun _ => ⟨hended, hempties⟩⟩
  · exact ⟨flat_startLine, proper_startLine⟩

theorem flat_foldl_feed (indent : Nat) (hproper : b.Proper) (hcs : ∀ c ∈ cs, isPrintable c) :
    (cs.foldl (feed indent) b).flat = cs.reverse ++ b.flat ∧
      (cs.foldl (feed indent) b).Proper := by
  induction cs generalizing b with
  | nil => exact ⟨rfl, hproper⟩
  | cons c cs ih =>
    obtain ⟨hc, hcs⟩ := List.forall_mem_cons.mp hcs
    obtain ⟨hflat, hnext⟩ := flat_feed indent hproper hc
    obtain ⟨hall, hlast⟩ := ih hnext hcs
    refine ⟨?_, hlast⟩
    rw [List.foldl_cons, hall, hflat]
    simp

theorem inLine_feed : (b.feed indent c).inLine = !isBreak c := by
  unfold feed
  split_ifs with hbreak hline hline <;> simp_all [endLine, emptyLine, startLine]

/-- The indentation is known, and stays so. -/
theorem indent_feed (h : b.indent = some indent) : (b.feed indent c).indent = some indent := by
  unfold feed
  split_ifs <;> simp_all [endLine, emptyLine, startLine]

theorem indent_foldl_feed (h : b.indent = some indent) :
    (cs.foldl (feed indent) b).indent = some indent := by
  induction cs generalizing b with
  | nil => exact h
  | cons c cs ih => exact ih (indent_feed h)

end BlockText

/-! ## Lines -/

/-- Before its text begins, a line is indented. -/
theorem blockText_pad {folded : Bool} {n : Nat} (hline : b.inLine = false)
    (hshort : ∀ k, b.indent = some k → mark.column + n ≤ k) :
    blockText folded least b mark (pad n ++ rest) =
      blockText folded least b (mark.skip n) rest := by
  induction n generalizing mark with
  | zero => rfl
  | succ n ih =>
    have hstep : blockText folded least b mark (' ' :: (pad n ++ rest)) =
        blockText folded least b mark.next (pad n ++ rest) := by
      rw [blockText.eq_def]
      cases hindent : b.indent with
      | none => simp [hline]
      | some k =>
        have hle := hshort k hindent
        simp [hline, show mark.column < k by omega]
    have hnext : ∀ k, b.indent = some k → mark.next.column + n ≤ k := by
      intro k hk
      have hle := hshort k hk
      simp only [Mark.next_column]
      omega
    rw [pad_succ, List.cons_append, hstep, ih hnext, Mark.skip_succ]

theorem blockText_inLine (hline : b.inLine) (hc : isBreak c = false) :
    blockText false least b mark (c :: rest) =
      blockText false least (b.feed indent c) mark.next rest := by
  rw [blockText.eq_def]
  simp [hline, hc, BlockText.feed]

theorem blockText_endLine (hline : b.inLine) (hc : isBreak c) (hreturn : c ≠ '\r') :
    blockText false least b mark (c :: rest) =
      blockText false least (b.feed indent c) (mark.nextLine 1) rest := by
  rw [blockText.eq_def]
  simp only [hline, hc, ↓reduceIte, BlockText.feed]
  split
  · exact absurd rfl hreturn
  · rfl

theorem blockText_emptyLine (hline : b.inLine = false) (hc : isBreak c) (hreturn : c ≠ '\r')
    (hcolumn : mark.column = 0) :
    blockText false least b mark (c :: rest) =
      blockText false least (b.feed indent c) (mark.nextLine 1) rest := by
  have hblank : c ≠ ' ' ∧ c ≠ '\t' := by
    constructor <;> rintro rfl <;> exact absurd hc (by decide)
  rw [blockText.eq_def]
  simp only [hline, hc, hcolumn, beq_eq_false_iff_ne.mpr hblank.1,
    beq_eq_false_iff_ne.mpr hblank.2, Bool.and_false, Bool.false_eq_true, ↓reduceIte,
    BlockText.feed]
  split
  · exact absurd rfl hreturn
  · rfl

/-- The first character of a line, at the indentation of the scalar. -/
theorem blockText_startLine (hline : b.inLine = false) (hc : isBreak c = false)
    (htab : c ≠ '\t') (hcolumn : mark.column = indent)
    (hindent : b.indent = some indent ∨
      b.indent = none ∧ b.widest = 0 ∧ least ≤ indent ∧ c ≠ ' ') :
    blockText false least b mark (c :: rest) =
      blockText false least (b.feed indent c) mark.next rest := by
  have hsettled : b.settledIndent least mark.column = indent := by
    unfold BlockText.settledIndent
    rcases hindent with hsome | ⟨hnone, hwidest, hleast, -⟩
    · rw [hsome, Option.getD_some]
    · rw [hnone, hwidest, hcolumn, Option.getD_none]
      omega
  subst hcolumn
  have hnotTab : (c == '\t') = false := beq_eq_false_iff_ne.mpr htab
  rw [blockText.eq_def]
  rcases hindent with hsome | ⟨hnone, -, -, hspace⟩
  · simp only [hline, hc, hsome, hsettled, hnotTab, Nat.lt_irrefl, decide_false, BEq.rfl,
      Bool.false_and, Bool.false_eq_true, ↓reduceIte, BlockText.feed]
  · have hnotSpace : (c == ' ') = false := beq_eq_false_iff_ne.mpr hspace
    simp only [hline, hc, hnone, hsettled, hnotTab, hnotSpace, BEq.rfl, Bool.and_false,
      Bool.false_eq_true, ↓reduceIte, BlockText.feed]

/-- The text ends with a line break. -/
theorem column_after_literalFrom {atStart : Bool} (h : atStart → mark.column = 0) :
    (mark.after (literalFrom indent atStart cs)).column = 0 := by
  induction cs generalizing mark atStart with
  | nil =>
    cases atStart with
    | true => exact h rfl
    | false => simp [literalFrom, Mark.after_cons_of_break mark (c := '\n') rfl]
  | cons c cs ih =>
    by_cases hbreak : isBreak c
    · simp only [literalFrom, hbreak, ↓reduceIte]
      rw [Mark.after_cons_of_break mark hbreak]
      exact ih fun _ => rfl
    · simp only [literalFrom, hbreak, Bool.false_eq_true, ↓reduceIte]
      rw [Mark.after_append, Mark.after_cons_of_not_break _ (by simpa using hbreak)]
      exact ih fun h => absurd h (by decide)

/-- The end of a line, which can have no text. -/
theorem blockText_break (hc : isBreak c) (hreturn : c ≠ '\r')
    (hcolumn : b.inLine = false → mark.column = 0) :
    blockText false least b mark (c :: rest) =
      blockText false least (b.feed indent c) (mark.nextLine 1) rest := by
  cases hline : b.inLine with
  | true => exact blockText_endLine hline hc hreturn
  | false => exact blockText_emptyLine hline hc hreturn (hcolumn hline)

/-- A character of a line, with the indentation in front of the first one. -/
theorem blockText_character (least : Nat) (hindent : b.indent = some indent)
    (hc : isBreak c = false) (htab : c ≠ '\t') (hcolumn : b.inLine = false → mark.column = 0) :
    ∃ m : Mark, ∀ text,
      blockText false least b mark ((if !b.inLine then pad indent else []) ++ c :: text) =
        blockText false least (b.feed indent c) m text ∧
      mark.after ((if !b.inLine then pad indent else []) ++ c :: text) = m.after text := by
  cases hline : b.inLine with
  | true =>
    refine ⟨mark.next, fun text => ⟨blockText_inLine hline hc, ?_⟩⟩
    simp [Mark.after_cons_of_not_break _ hc]
  | false =>
    have hzero := hcolumn hline
    refine ⟨(mark.skip indent).next, fun text => ⟨?_, ?_⟩⟩
    · simp only [Bool.not_false, ↓reduceIte]
      rw [blockText_pad hline (fun k hk => by
        obtain rfl : indent = k := Option.some.inj (hindent.symm.trans hk)
        omega)]
      exact blockText_startLine hline hc htab (by rw [Mark.skip_column]; omega) (.inl hindent)
    · simp only [Bool.not_false, ↓reduceIte]
      rw [Mark.after_append, Mark.after_pad, Mark.after_cons_of_not_break _ hc]

/-- The text is read line by line; where a line begins, the mark is in the first column. -/
theorem blockText_literalFrom (least : Nat) (rest : List Char) (hcs : ∀ c ∈ cs, isPrintable c)
    (hindent : b.indent = some indent) (hcolumn : b.inLine = false → mark.column = 0) :
    blockText false least b mark (literalFrom indent (!b.inLine) cs ++ rest) =
      blockText false least (cs.foldl (BlockText.feed indent) b).closed
        (mark.after (literalFrom indent (!b.inLine) cs)) rest := by
  induction cs generalizing b mark with
  | nil =>
    cases hline : b.inLine with
    | true =>
      have hread : blockText false least b mark ('\n' :: rest) =
          blockText false least (b.endLine '\n') (mark.nextLine 1) rest := by
        have hfeed : b.feed indent '\n' = b.endLine '\n' := by
          simp [BlockText.feed, hline, isBreak]
        rw [← hfeed]
        exact blockText_endLine hline rfl (by decide)
      simpa [literalFrom, BlockText.closed, hline, Mark.after_cons_of_break mark (c := '\n') rfl]
        using hread
    | false => simp [literalFrom, BlockText.closed, hline]
  | cons c cs ih =>
    obtain ⟨hc, hcs⟩ := List.forall_mem_cons.mp hcs
    have hnext := BlockText.indent_feed (c := c) hindent
    have hline : (b.feed indent c).inLine = !isBreak c := BlockText.inLine_feed
    by_cases hbreak : isBreak c
    · have hreturn : c ≠ '\r' := by rintro rfl; exact absurd hc (by decide)
      have hlater := @ih (b.feed indent c) (mark.nextLine 1) hcs hnext fun _ => rfl
      rw [hline, hbreak, Bool.not_true, Bool.not_false] at hlater
      simp only [literalFrom, hbreak, ↓reduceIte, List.cons_append]
      rw [blockText_break hbreak hreturn hcolumn, hlater, Mark.after_cons_of_break mark hbreak,
        List.foldl_cons]
    · have hbreak : isBreak c = false := by simpa using hbreak
      obtain ⟨m, hread⟩ :=
        blockText_character least hindent hbreak (ne_tab_of_isPrintable hc) hcolumn
      have hlater := @ih (b.feed indent c) m hcs hnext
        fun h => absurd (hline.symm.trans h) (by simp [hbreak])
      rw [hline, hbreak, Bool.not_false, Bool.not_true] at hlater
      simp only [literalFrom, hbreak, Bool.false_eq_true, ↓reduceIte, List.append_assoc,
        List.cons_append]
      rw [(hread _).1, (hread _).2, hlater, List.foldl_cons]

/-- The indentation of what comes next ends the scalar. -/
theorem blockText_end (least : Nat) {m : Nat} {next : List Char} (hindent : b.indent = some indent)
    (hline : b.inLine = false) (hcolumn : mark.column = 0) (hm : m < indent)
    (hnext : StartsToken next) :
    blockText false least b mark (pad m ++ next) = some (b, ⟨mark.skip m, next⟩) := by
  rw [blockText_pad hline (fun k hk => by
    obtain rfl : indent = k := Option.some.inj (hindent.symm.trans hk)
    omega)]
  cases next with
  | nil => exact blockText_nil
  | cons c next =>
    obtain ⟨hgap, -⟩ := startsToken_cons.mp hnext
    obtain ⟨hspace, htab, hbreak⟩ := isGap_eq_false.mp hgap
    have hsettled : b.settledIndent least (mark.skip m).column = indent := by
      rw [BlockText.settledIndent, hindent, Option.getD_some]
    have hne : ((mark.skip m).column == indent) = false := by
      rw [beq_eq_false_iff_ne, Mark.skip_column]
      omega
    rw [blockText.eq_def]
    simp only [hline, hbreak, beq_eq_false_iff_ne.mpr hspace, beq_eq_false_iff_ne.mpr htab,
      hsettled, hne, Bool.and_false, Bool.false_eq_true, ↓reduceIte]

/-! ## The header -/

/-- What the header says about the line breaks at the end. -/
def chompingOf (cs : List Char) : Chomping :=
  if chompMark cs = ['-'] then .strip else if chompMark cs = ['+'] then .keep else .clip

/-- What the header says about the indentation. -/
def incrementOf (cs : List Char) : Option Nat := if depthMark cs = [] then none else some 2

theorem chompMark_cases (cs : List Char) :
    chompMark cs = ['-'] ∨ chompMark cs = ['+'] ∨ chompMark cs = [] := by
  unfold chompMark
  split <;> grind

theorem depthMark_cases (cs : List Char) : depthMark cs = [] ∨ depthMark cs = ['2'] := by
  unfold depthMark
  split_ifs <;> simp

theorem blockIndicators_written (cs : List Char) (mark : Mark) :
    blockIndicators ⟨mark, depthMark cs ++ chompMark cs ++ '\n' :: rest⟩ =
      some (⟨chompingOf cs, incrementOf cs⟩,
        ⟨mark.skip (depthMark cs ++ chompMark cs).length, '\n' :: rest⟩) := by
  unfold chompingOf incrementOf
  rcases depthMark_cases cs with hdepth | hdepth <;>
    rcases chompMark_cases cs with hchomp | hchomp | hchomp <;>
    rw [hdepth, hchomp] <;> rfl

theorem blockHeaderEnd_newline :
    blockHeaderEnd ⟨mark, '\n' :: rest⟩ = some ⟨mark.nextLine 1, rest⟩ := rfl

/-- The state before the body of a block scalar. -/
def BlockText.start (indent : Option Nat) : BlockText := ⟨[], indent, 0, none, [], false, false⟩

/-- How the header marks the end of a text by its last two characters. -/
theorem chompingOf_concat (ds : List Char) (c : Char) :
    chompingOf (ds ++ [c]) =
      if isBreak c then (if ds.getLast?.all isBreak then .keep else .clip) else .strip := by
  rw [chompingOf, chompMark, List.reverse_append, List.reverse_singleton, List.singleton_append,
    List.getLast?_eq_head?_reverse]
  cases ds.reverse with
  | nil => cases hc : isBreak c <;> simp [hc]
  | cons d es => cases hc : isBreak c <;> cases hd : isBreak d <;> simp [hc, hd]

/-- The last character of a text is in the state behind it. -/
theorem inLine_foldl_feed (indent : Nat) (b : BlockText) (ds : List Char) (d : Char) :
    ((ds ++ [d]).foldl (BlockText.feed indent) b).inLine = !isBreak d := by
  rw [List.foldl_append, List.foldl_cons, List.foldl_nil, BlockText.inLine_feed]

/-- What a literal scalar of a text has read in the end. -/
theorem finish_closed (indent : Nat) (first : Option Nat) (hcs : ∀ c ∈ cs, isPrintable c)
    (hne : cs ≠ []) :
    (cs.foldl (BlockText.feed indent) (.start first)).closed.finish (chompingOf cs) =
      cs.reverse := by
  have hproper : (BlockText.start first).Proper := fun h => absurd h (by simp [BlockText.start])
  obtain ⟨hflat, hlast⟩ := BlockText.flat_foldl_feed indent hproper hcs
  rw [show (BlockText.start first).flat = [] from rfl, List.append_nil] at hflat
  obtain ⟨ds, c, rfl⟩ := (List.eq_nil_or_concat' cs).resolve_left hne
  have hline := inLine_foldl_feed indent (.start first) ds c
  rw [chompingOf_concat, ← hflat]
  cases hbreak : isBreak c with
  | false => exact BlockText.finish_strip (by rw [hline, hbreak]; rfl) hlast
  | true =>
    rw [BlockText.closed, hline, hbreak]
    simp only [Bool.not_true, Bool.false_eq_true, ↓reduceIte]
    split_ifs with hall
    · exact BlockText.finish_keep _
    · -- The only line break at the end is that of the last line.
      obtain ⟨es, d, rfl⟩ : ∃ es d, ds = es ++ [d] :=
        (List.eq_nil_or_concat' ds).resolve_left (by rintro rfl; simp at hall)
      have hd : isBreak d = false := by simpa using hall
      have hinside : ((es ++ [d]).foldl (BlockText.feed indent) (.start first)).inLine := by
        rw [inLine_foldl_feed, hd]
        rfl
      rw [List.foldl_append, List.foldl_cons, List.foldl_nil]
      exact BlockText.finish_clip hinside hbreak

/-- The indentation that the header gives, or none if the first line shows it. -/
theorem increment_cases (cs : List Char) {parent : Int}
    (hindent : indent = (parent + 2).toNat ∧ 0 ≤ parent ∨ indent = 2 ∧ parent = -1) :
    (incrementOf cs).map (fun n => if 0 ≤ parent then parent.toNat + n else n) = some indent ∨
      (incrementOf cs).map (fun n => if 0 ≤ parent then parent.toNat + n else n) = none ∧
        depthMark cs = [] := by
  unfold incrementOf
  by_cases hdepth : depthMark cs = []
  · rw [if_pos hdepth]
    exact .inr ⟨rfl, hdepth⟩
  · left
    rw [if_neg hdepth, Option.map_some, Option.some.injEq]
    split_ifs <;> omega

/-- The body is read whether the header tells its indentation or the first line shows it. -/
theorem blockText_body {first : Option Nat} (least : Nat) (rest : List Char)
    (hcs : ∀ c ∈ cs, isPrintable c) (hne : cs ≠ []) (hcolumn : mark.column = 0)
    (hleast : least ≤ indent) (hfirst : first = some indent ∨ first = none ∧ depthMark cs = []) :
    (cs.foldl (BlockText.feed indent) (.start first)).indent = some indent ∧
      blockText false least (.start first) mark (literalFrom indent true cs ++ rest) =
        blockText false least (cs.foldl (BlockText.feed indent) (.start first)).closed
          (mark.after (literalFrom indent true cs)) rest := by
  obtain rfl | ⟨rfl, hdepth⟩ := hfirst
  · exact ⟨BlockText.indent_foldl_feed rfl, blockText_literalFrom least rest hcs rfl fun _ => hcolumn⟩
  cases cs with
  | nil => exact absurd rfl hne
  | cons c cs =>
    obtain ⟨hc, hcs⟩ := List.forall_mem_cons.mp hcs
    obtain ⟨hbreak, hspace⟩ : isBreak c = false ∧ c ≠ ' ' := by
      simpa [depthMark, isSpace, and_comm] using hdepth
    have hfeed : (BlockText.start none).feed indent c =
        (BlockText.start none).startLine false indent c := by
      simp [BlockText.feed, hbreak, BlockText.start]
    have hknown : ((BlockText.start none).feed indent c).indent = some indent := by
      rw [hfeed]
      rfl
    have hinside : ((BlockText.start none).feed indent c).inLine = true := by
      rw [hfeed]
      rfl
    rw [List.foldl_cons]
    refine ⟨BlockText.indent_foldl_feed hknown, ?_⟩
    have hlater := @blockText_literalFrom cs _ (mark.skip indent).next indent least rest hcs hknown
      fun h => absurd h (by rw [hinside]; decide)
    rw [hinside, Bool.not_true] at hlater
    simp only [literalFrom, hbreak, Bool.false_eq_true, ↓reduceIte, List.append_assoc, List.cons_append]
    rw [Mark.after_append, Mark.after_pad, Mark.after_cons_of_not_break _ hbreak,
      ← hlater, blockText_pad rfl (fun k hk => by cases hk)]
    exact blockText_startLine rfl hbreak (ne_tab_of_isPrintable hc) (by rw [Mark.skip_column]; omega)
      (.inr ⟨rfl, rfl, hleast, hspace⟩)

/-- A text in the literal style, where the collections around it are indented by `parent`. -/
theorem blockScalar_written (mark : Mark) {parent : Int} {m : Nat} {next : List Char}
    (hcs : bearsLiteral cs)
    (hindent : indent = (parent + 2).toNat ∧ 0 ≤ parent ∨ indent = 2 ∧ parent = -1)
    (hm : m < indent) (hnext : StartsToken next) :
    blockScalar false parent ⟨mark, depthMark cs ++ chompMark cs ++
        '\n' :: (literalFrom indent true cs ++ (pad m ++ next))⟩ =
      some (String.ofList cs, ⟨mark.after (depthMark cs ++ chompMark cs ++
        '\n' :: (literalFrom indent true cs ++ pad m)), next⟩) := by
  simp only [bearsLiteral, Bool.and_eq_true, Bool.not_eq_true', List.isEmpty_eq_false_iff,
    List.all_eq_true] at hcs
  obtain ⟨⟨⟨hne, hprint⟩, -⟩, -⟩ := hcs
  have hheader : ∀ c ∈ depthMark cs ++ chompMark cs, isBreak c = false := by
    rcases depthMark_cases cs with hdepth | hdepth <;>
      rcases chompMark_cases cs with hchomp | hchomp | hchomp <;>
      rw [hdepth, hchomp] <;> simp [isBreak]
  have hfirst := increment_cases cs hindent
  generalize hincrement :
    (incrementOf cs).map (fun n => if 0 ≤ parent then parent.toNat + n else n) = first at hfirst
  generalize hline : (mark.after (depthMark cs ++ chompMark cs)).nextLine 1 = line
  have hcolumn : line.column = 0 := by rw [← hline]; rfl
  have hleast : max (parent + 1).toNat 1 ≤ indent := by omega
  obtain ⟨hknown, hbody⟩ :=
    blockText_body (max (parent + 1).toNat 1) (pad m ++ next) hprint hne hcolumn hleast hfirst
  have hread : blockText false (max (parent + 1).toNat 1) ⟨[], first, 0, none, [], false, false⟩ line
      (literalFrom indent true cs ++ (pad m ++ next)) = _ :=
    hbody.trans (blockText_end (max (parent + 1).toNat 1) (by rwa [BlockText.indent_closed])
      BlockText.inLine_closed (column_after_literalFrom fun _ => hcolumn) hm hnext)
  have hmarks : mark.skip (depthMark cs ++ chompMark cs).length =
      mark.after (depthMark cs ++ chompMark cs) := (mark.after_eq_skip hheader).symm
  unfold blockScalar
  rw [blockIndicators_written]
  simp only [blockHeaderEnd_newline, hincrement, hmarks, hline]
  rw [hread]
  have hfinish := finish_closed indent first hprint hne
  simp only [hfinish, List.reverse_reverse]
  rw [Mark.after_append, Mark.after_cons_of_break _ rfl, hline, Mark.after_append, Mark.after_pad]

/-! ## Places -/

section Places

variable {folded : Bool} {text : List Char}

/-- Reading a block scalar ends before a character or goes on behind it. -/
theorem blockText_turn {r : BlockText × Cursor}
    (h : blockText folded least b mark (c :: rest) = some r) :
    r.2 = ⟨mark, c :: rest⟩ ∨ ∃ (b' : BlockText) (mark' : Mark) (rest' : List Char),
      rest' <:+ rest ∧ blockText folded least b' mark' rest' = some r := by
  rw [blockText.eq_def] at h
  dsimp only at h
  repeat' split at h
  all_goals first
    | cases h; done
    | exact .inl (by rw [← Option.some.inj h])
    | exact .inr ⟨_, _, _, List.suffix_rfl, h⟩
    | exact .inr ⟨_, _, _, List.suffix_cons .., h⟩

theorem blockText_suffix {b' : BlockText} {c' : Cursor}
    (h : blockText folded least b mark text = some (b', c')) : c'.rest <:+ text := by
  induction hlength : text.length using Nat.strong_induction_on generalizing b mark text with
  | _ n ih =>
    cases text with
    | nil =>
      cases h
      exact List.suffix_rfl
    | cons c rest =>
      obtain hend | ⟨b₁, mark₁, rest₁, hsuffix, hnext⟩ := blockText_turn h
      · obtain rfl : c' = ⟨mark, c :: rest⟩ := hend
        exact List.suffix_rfl
      · have hshorter : rest₁.length < n := by
          rw [← hlength, List.length_cons]
          exact Nat.lt_succ_of_le hsuffix.length_le
        exact ((ih _ hshorter hnext rfl).trans hsuffix).trans (List.suffix_cons ..)

theorem skipBreak_suffix (c : Cursor) : c.skipBreak.rest <:+ c.rest := by
  unfold Cursor.skipBreak
  split
  · next rest hrest =>
    rw [hrest]
    exact (List.suffix_cons ..).trans (List.suffix_cons ..)
  · next d rest _ hrest =>
    split
    · rw [hrest]
      exact List.suffix_cons ..
    · exact List.suffix_rfl
  · exact List.suffix_rfl

theorem blockIndicators_suffix {header : BlockHeader} {c c' : Cursor}
    (h : blockIndicators c = some (header, c')) : c'.rest <:+ c.rest := by
  unfold blockIndicators at h
  repeat' split at h
  all_goals first
    | cases h; done
    | cases h; exact List.drop_suffix ..
    | cases h; exact List.suffix_rfl

theorem blockHeaderEnd_suffix {c c' : Cursor} (h : blockHeaderEnd c = some c') :
    c'.rest <:+ c.rest := by
  unfold blockHeaderEnd at h
  dsimp only at h
  obtain ⟨-, h⟩ := Option.ite_none_right_eq_some.mp h
  obtain rfl := Option.some.inj h
  refine (skipBreak_suffix _).trans ?_
  split
  · exact (List.drop_suffix ..).trans (List.drop_suffix ..)
  · exact List.drop_suffix ..

theorem blockScalar_suffix {parent : Int} {c c' : Cursor} {t : String}
    (h : blockScalar folded parent c = some (t, c')) : c'.rest <:+ c.rest := by
  unfold blockScalar at h
  split at h
  · cases h
  next header c₁ hheader =>
  split at h
  · cases h
  next c₂ hend =>
  dsimp only at h
  split at h
  · cases h
  next b c₃ hbody =>
  obtain ⟨-, rfl⟩ := Prod.mk.inj (Option.some.inj h)
  exact ((blockText_suffix hbody).trans (blockHeaderEnd_suffix hend)).trans
    (blockIndicators_suffix hheader)

end Places

end NotebookProject.Yaml
