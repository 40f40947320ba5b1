import NotebookProject.Proofs.Document.Indexed

/-!
# Where refused features stand

The location that the feature scan gives is one of the text: there is such a line, there is such a
column in it, and the feature stands there. The scan has read no further than that line, so what
comes after it does not count, and the lines before it hold no feature.

## Main definitions

* `Signals`: what a feature looks like where a node can start.
* `StandsAt`: whether a feature stands at a column of a line.

## Main results

* `scanLine_error`: the column of a feature in a line.
* `find?_location`: where the feature that is found stands, and which lines it depends on.
-/

namespace NotebookProject.Feature

open Text

/-- What a feature looks like where a node can start. -/
inductive Signals : Feature → List Char → Prop where
  | anchor (rest : List Char) : Signals .anchor ('&' :: rest)
  | alias (rest : List Char) : Signals .alias ('*' :: rest)
  | mergeKey (spaces : Nat) {rest : List Char} (h : isSeparator rest.head?) :
    Signals .mergeKey ('<' :: '<' :: (List.replicate spaces ' ' ++ ':' :: rest))
  | tag (rest : List Char) : Signals .tag ('!' :: rest)

/-- Whether a feature stands at a column of a line, counted from zero: it begins there, or the line
is a directive for tags that begins there. -/
inductive StandsAt (line : List Char) : Feature → Nat → Prop where
  | node {feature : Feature} {column : Nat} (h : Signals feature (line.drop column)) :
    StandsAt line feature column
  | directive {column : Nat} {rest : List Char}
    (h : line = List.replicate column ' ' ++ '%' :: 'T' :: 'A' :: 'G' :: rest) :
    StandsAt line .tag column

/-! ## Columns -/

section Columns

variable {line cs rest content : List Char} {feature : Feature} {column k indent : Nat}
  {cur : Cursor} {prev : Option Char} {c : Char} {p : Pending} {continued : Bool}

theorem Signals.ne_nil (h : Signals feature cs) : cs ≠ [] := by
  cases h <;> simp

theorem StandsAt.lt_length (h : StandsAt line feature column) : column < line.length := by
  cases h with
  | node h => simpa using h.ne_nil
  | directive h => simp [h]

theorem signals_of_isMergeKey (h : isMergeKey cs) : Signals .mergeKey cs := by
  match cs with
  | [] | [_] => simp [isMergeKey] at h
  | a :: b :: rest =>
    obtain ⟨⟨⟨rfl, rfl⟩, hcolon⟩, hseparator⟩ :
        ((a = '<' ∧ b = '<') ∧ (rest.dropWhile (· == ' '))[0]? = some ':') ∧
          isSeparator (rest.dropWhile (· == ' '))[1]? := by
      simpa [isMergeKey_cons_cons, and_assoc] using h
    cases hdrop : rest.dropWhile (· == ' ') with
    | nil => simp [hdrop] at hcolon
    | cons d after =>
      obtain rfl : d = ':' := by simpa [hdrop] using hcolon
      have hrest : rest = List.replicate (indentation rest) ' ' ++ ':' :: after := by
        rw [← takeWhile_space, ← hdrop, List.takeWhile_append_dropWhile]
      rw [hrest]
      exact .mergeKey _ (by simpa [hdrop, List.head?_eq_getElem?] using hseparator)

theorem atNode_found (h : atNode cur indent column c rest = .inl (.found feature k)) :
    k = column ∧ Signals feature (c :: rest) := by
  unfold atNode at h
  dsimp only at h
  by_cases hanchor : c == '&'
  · rw [if_pos hanchor] at h
    cases h
    exact ⟨rfl, beq_iff_eq.mp hanchor ▸ .anchor rest⟩
  rw [if_neg hanchor] at h
  by_cases halias : c == '*'
  · rw [if_pos halias] at h
    cases h
    exact ⟨rfl, beq_iff_eq.mp halias ▸ .alias rest⟩
  rw [if_neg halias] at h
  by_cases htag : c == '!'
  · rw [if_pos htag] at h
    cases h
    exact ⟨rfl, beq_iff_eq.mp htag ▸ .tag rest⟩
  rw [if_neg htag] at h
  by_cases hmerge : c == '<' && isMergeKey (c :: rest)
  · rw [if_pos hmerge] at h
    cases h
    exact ⟨rfl, signals_of_isMergeKey (Bool.and_eq_true_iff.mp hmerge).2⟩
  rw [if_neg hmerge] at h
  -- Nothing else that can stand here is a feature.
  repeat' split at h
  all_goals cases h

/-- A feature is found at the character that the scan has come to. -/
theorem walk_found (h : walk indent cur prev column cs = .found feature k) :
    ∃ i, k = column + i ∧ Signals feature (cs.drop i) := by
  fun_induction walk indent cur prev column cs
  case case1 | case2 | case6 => cases h
  case case3 ih =>
    obtain ⟨i, rfl, hi⟩ := ih h
    exact ⟨i + 2, by omega, hi⟩
  case case4 ih | case5 ih | case8 ih | case9 ih =>
    obtain ⟨i, rfl, hi⟩ := ih h
    exact ⟨i + 1, by omega, hi⟩
  case case7 hended =>
    obtain ⟨rfl, hc⟩ := atNode_found (hended.trans (congrArg _ h))
    exact ⟨0, rfl, hc⟩

theorem left_eq_error {flowNode : Bool} {ended : LineEnd}
    (h : ended.left flowNode = .error (feature, k)) : ended = .found feature k := by
  cases ended with
  | found f i => simpa [LineEnd.left] using h
  | body parent => cases h
  | rest cur => cases h

theorem scanContent_error (h : p.scanContent continued indent content = .error (feature, k)) :
    StandsAt (List.replicate indent ' ' ++ content) feature k := by
  rw [scanContent_eq] at h
  split_ifs at h with hdirective htag hmarker
  · obtain ⟨rfl, rfl⟩ : Feature.tag = feature ∧ indent = k := by simpa using h
    obtain ⟨rest, hrest⟩ := List.isPrefixOf_iff_prefix.mp htag
    exact .directive (congrArg _ hrest.symm)
  · obtain ⟨i, rfl, hi⟩ := walk_found (left_eq_error h)
    have hindent : indent = 0 := by simp_all
    refine .node ?_
    rw [hindent, List.replicate_zero, List.nil_append, ← List.drop_drop]
    exact hi
  · obtain ⟨i, rfl, hi⟩ := walk_found (left_eq_error h)
    refine .node ?_
    rw [← List.drop_drop, List.drop_left' List.length_replicate]
    exact hi

/-- The column of a feature that a line holds. -/
theorem scanLine_error {line : List Char} (h : p.scanLine line = .error (feature, k)) :
    StandsAt line feature k := by
  have hline : line =
      List.replicate (indentation line) ' ' ++ line.drop (indentation line) := by
    rw [← take_indentation, List.take_append_drop]
  rw [hline]
  unfold Pending.scanLine at h
  dsimp only at h
  -- A line is passed over, or the text behind its indentation is scanned in one state or another.
  repeat' split at h
  all_goals first | exact scanContent_error h | cases h

end Columns

/-! ## Lines -/

section Found

variable {p : Pending} {n k : Nat} {ls : List (List Char)} {found : Location}

theorem findFrom_of_scanLines {q : Pending} (h : p.scanLines ls = .ok q) (n : Nat) :
    findFrom p n ls = none := by
  have happend : findFrom p n (ls ++ []) = findFrom q (n + ls.length) [] := findFrom_append h n
  rwa [List.append_nil] at happend

/-- The scan stops in the line with the feature that it finds. -/
theorem findFrom_eq_some (h : findFrom p n ls = some found) :
    ∃ above line below q, ls = above ++ line :: below ∧ found.line = n + above.length ∧
      p.scanLines above = .ok q ∧ 1 ≤ found.column ∧
      q.scanLine line = .error (found.feature, found.column - 1) := by
  induction ls generalizing p n with
  | nil => cases h
  | cons l ls ih =>
    rw [findFrom] at h
    cases hl : p.scanLine l with
    | error e =>
      obtain rfl : ⟨e.1, n, e.2 + 1⟩ = found := by simpa [hl] using h
      exact ⟨[], l, ls, p, rfl, rfl, rfl, Nat.le_add_left .., hl⟩
    | ok next =>
      simp only [hl] at h
      obtain ⟨above, line, below, q, rfl, hn, habove, hcolumn, hline⟩ := ih h
      refine ⟨l :: above, line, below, q, rfl, ?_, (scanLines_cons hl).trans habove, hcolumn, hline⟩
      rw [hn, List.length_cons]
      omega

/-- The scan has read no line below the one with the feature. -/
theorem findFrom_below {above below below' : List (List Char)} {line : List Char} {q : Pending}
    (habove : p.scanLines above = .ok q) (hline : q.scanLine line = .error (found.feature, k))
    (h : findFrom p n (above ++ line :: below) = some found) :
    findFrom p n (above ++ line :: below') = some found := by
  rw [findFrom_append habove, findFrom, hline] at h ⊢
  exact h

end Found

/-- The scan never reads out of range. The feature that it finds stands at the given column of the
given line, the lines above hold none, and the text below makes no difference. -/
theorem find?_location (text : List Char) :
    findAt? text = some (find? text) ∧
    ∀ found, find? text = some found →
      (∃ line, 1 ≤ found.line ∧ found.line ≤ (lines text).length ∧
        (lines text)[found.line - 1]? = some line ∧ 1 ≤ found.column ∧
        found.column ≤ line.length ∧ StandsAt line found.feature (found.column - 1)) ∧
      (∀ above, lines above = (lines text).take (found.line - 1) → find? above = none) ∧
      ∀ front rest, text = front ++ rest → EndsLine front → found.line ≤ (lines front).length →
        ∀ more, find? (front ++ more) = some found := by
  refine ⟨findAt?_eq text, fun found hfound => ?_⟩
  obtain ⟨above, line, below, q, hlines, hnumber, habove, hcolumn, hline⟩ :=
    findFrom_eq_some hfound
  have hstands := scanLine_error hline
  have hcount : found.line - 1 = above.length := by omega
  refine ⟨⟨line, by omega, ?_, ?_, hcolumn, ?_, hstands⟩, fun text' htext' => ?_,
    fun front rest htext hfront hreaches more => ?_⟩
  · rw [hlines, List.length_append, List.length_cons]
    omega
  · simp [hlines, hcount]
  · have hlt := hstands.lt_length
    omega
  · have hsame : lines text' = above := by simpa [hlines, hcount] using htext'
    rw [find?, hsame]
    exact findFrom_of_scanLines habove 1
  · -- The line of the feature is one of the whole lines in front.
    have hupper : above ++ [line] <+: lines text := ⟨below, by simp [hlines]⟩
    have hfrontLines : lines front <+: lines text :=
      ⟨lines rest, by rw [htext, lines_append hfront]⟩
    obtain ⟨between, hbetween⟩ : above ++ [line] <+: lines front :=
      List.prefix_of_prefix_length_le hupper hfrontLines (by simp; omega)
    have hmore : lines (front ++ more) = above ++ line :: (between ++ lines more) := by
      rw [lines_append hfront, ← hbetween]
      simp
    rw [find?, hlines] at hfound
    rw [find?, hmore]
    exact findFrom_below habove hline hfound

/-- An alias in the second of three lines. -/
def aliasText : List Char := "a: 1\n- b: *x\n&y c\n".toList

theorem find?_location_alias :
    find? aliasText = some ⟨.alias, 2, 6⟩ ∧ StandsAt "- b: *x".toList .alias 5 ∧
    find? "a: 1\n".toList = none ∧
    find? ("a: 1\n- b: *x\n".toList ++ "<<: !t".toList) = some ⟨.alias, 2, 6⟩ := by
  have hfound : find? aliasText = some ⟨.alias, 2, 6⟩ := by decide
  obtain ⟨⟨line, -, -, hline, -, -, hstands⟩, habove, hbelow⟩ :=
    (find?_location aliasText).2 _ hfound
  have hsecond : (lines aliasText)[1]? = some "- b: *x".toList := by decide
  refine ⟨hfound, ?_, habove _ (by decide), ?_⟩
  · rwa [← Option.some.inj (hsecond.symm.trans hline)] at hstands
  · exact hbelow _ "&y c\n".toList (by decide) (.inr (by decide +kernel))
      (by decide) _

end NotebookProject.Feature
