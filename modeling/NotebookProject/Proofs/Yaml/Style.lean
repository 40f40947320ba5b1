import NotebookProject.Proofs.Number.Reading
import NotebookProject.Proofs.Yaml.Literal

/-!
# Styles that bear their texts

The style that is chosen for a string bears it: what is written plain is one line that begins and
goes on as a plain scalar, and means a string; single quotes and the literal style are chosen only
for texts that they can hold. Numbers can be written plain, too.

## Main definitions

* `PlainScalar`: the texts that stand as plain scalars.
-/

namespace NotebookProject.Yaml

variable {cs : List Char} {s : String}

/-- A text that stands as a plain scalar. -/
structure PlainScalar (cs : List Char) : Prop where
  printable : ∀ c ∈ cs, isPrintable c
  line : PlainLine cs
  noLooseEnd : hasLooseEnd cs = false
  noOther : opensOther cs = false
  ne_nil : cs ≠ []

namespace PlainScalar

theorem getLast?_ne_space (h : PlainScalar cs) : cs.getLast? ≠ some ' ' := by
  intro hlast
  have hloose := h.noLooseEnd
  simp [hasLooseEnd, hlast, isSpace] at hloose

/-- The first character is no gap and no indicator of another node. -/
theorem head (h : PlainScalar cs) :
    ∃ c rest, cs = c :: rest ∧ isGap c = false ∧ isIndicator c = false ∧
      ((c == '-' || c == '?') && atGap rest) = false := by
  obtain ⟨c, rest, rfl⟩ := List.exists_cons_of_ne_nil h.ne_nil
  have hloose := h.noLooseEnd
  have hother := h.noOther
  have htab := h.line.noTab c (List.mem_cons_self ..)
  have hbreak := h.line.noBreak c (List.mem_cons_self ..)
  have hspace : c ≠ ' ' := by
    rintro rfl
    simp [hasLooseEnd, isSpace] at hloose
  have hopens : (isIndicator c || ((c == '-' || c == '?') && atGap rest)) = false := by
    unfold opensOther at hother
    split at hother <;> grind
  rw [Bool.or_eq_false_iff] at hopens
  exact ⟨c, rest, rfl, isGap_eq_false.mpr ⟨hspace, htab, hbreak⟩, hopens⟩

/-- No plain scalar begins with three dashes or points, whatever else follows it. -/
theorem append_ne_marks (h : PlainScalar cs) {m : Char} (hm : m = '-' ∨ m = '.')
    {rest : List Char} (hrest : ∀ c ∈ rest.head?, c ≠ '-' ∧ c ≠ '.') (after : List Char) :
    cs ++ rest ≠ m :: m :: m :: after := by
  intro htext
  have hmark : ∀ c ∈ rest.head?, c ≠ m := by
    intro c hc
    obtain ⟨hdash, hpoint⟩ := hrest c hc
    obtain rfl | rfl := hm
    · exact hdash
    · exact hpoint
  match cs, h with
  | [], h => exact h.ne_nil rfl
  | [a], _ =>
    rw [List.singleton_append] at htext
    exact hmark m (by simp [(List.cons.inj htext).2]) rfl
  | [a, b], _ =>
    simp only [List.cons_append, List.nil_append, List.cons.injEq] at htext
    exact hmark m (by simp [htext.2.2]) rfl
  | a :: b :: c :: cs, h =>
    simp only [List.cons_append, List.cons.injEq] at htext
    obtain ⟨rfl, rfl, rfl, -⟩ := htext
    have hother := h.noOther
    obtain rfl | rfl := hm <;> exact absurd hother (by simp [opensOther])

/-- No document begins or ends at a plain scalar. -/
theorem isDocumentIndicator_append (h : PlainScalar cs) {rest : List Char}
    (hrest : ∀ c ∈ rest.head?, c ≠ '-' ∧ c ≠ '.') : isDocumentIndicator (cs ++ rest) = false := by
  rw [Bool.eq_false_iff]
  intro hind
  unfold isDocumentIndicator at hind
  split at hind
  · next a b c after htext =>
    simp only [Bool.and_eq_true, Bool.or_eq_true, beq_iff_eq] at hind
    obtain ⟨⟨⟨rfl, rfl⟩, rfl⟩ | ⟨⟨rfl, rfl⟩, rfl⟩, -⟩ := hind
    · exact h.append_ne_marks (.inl rfl) hrest after htext
    · exact h.append_ne_marks (.inr rfl) hrest after htext
  · cases hind

end PlainScalar

/-! ## Strings -/

theorem PlainScalar.of_bearsPlain (h : bearsPlain cs) (hne : cs ≠ []) : PlainScalar cs := by
  simp only [bearsPlain, Bool.and_eq_true, Bool.not_eq_true', List.all_eq_true] at h
  obtain ⟨⟨⟨⟨hall, hloose⟩, hother⟩, hcolon⟩, hhash⟩ := h
  have hline : PlainLine cs :=
    ⟨fun c hc => (hall c hc).2, fun c hc => ne_tab_of_isPrintable (hall c hc).1, hcolon, hhash⟩
  exact ⟨fun c hc => (hall c hc).1, hline, hloose, hother, hne⟩

theorem SingleQuotable.of_bearsSingle (h : bearsSingle cs) (hfeed : '\n' ∉ cs) :
    SingleQuotable cs := by
  simp only [bearsSingle, Bool.and_eq_true, Bool.not_eq_true', List.all_eq_true] at h
  obtain ⟨⟨hprint, hbreak⟩, hspace⟩ := h
  exact ⟨hprint, fun c hc heq => hfeed (heq ▸ hc), hbreak, hspace⟩

/-- The style of a string bears it. -/
inductive Borne (s : String) : ScalarStyle → Prop where
  | plain (h : PlainScalar s.toList) (hmeaning : Meaning.ofPlain s = .text) : Borne s .plain
  | singleQuoted (h : SingleQuotable s.toList) : Borne s .singleQuoted
  | doubleQuoted : Borne s .doubleQuoted
  | literal (h : bearsLiteral s.toList) (hfeed : '\n' ∈ s.toList) : Borne s .literal

theorem borne_ofText (s : String) : Borne s (.ofText s) := by
  have hquoted : '\n' ∉ s.toList → Borne s (quotedStyle s.toList) := by
    intro hfeed
    unfold quotedStyle
    split_ifs with hsingle
    · exact .singleQuoted (.of_bearsSingle hsingle hfeed)
    · exact .doubleQuoted
  unfold ScalarStyle.ofText
  simp only [List.contains_iff_mem]
  split_ifs with hfeed hliteral hquote
  · exact .literal hliteral hfeed
  · exact .doubleQuoted
  · exact hquoted hfeed
  · rw [Bool.or_eq_true, not_or, Bool.not_eq_true, Bool.not_eq_true, Bool.not_eq_false'] at hquote
    obtain ⟨hread, hplain⟩ := hquote
    simp only [isMisread, Bool.or_eq_false_iff, bne_eq_false_iff_eq] at hread
    refine .plain (.of_bearsPlain hplain fun hnil => ?_) hread.1
    obtain rfl : s = "" := String.toList_eq_nil_iff.mp hnil
    exact absurd hread.1 (by decide)

/-! ## Numbers -/

theorem isPrintable_of_isNumeral {c : Char} (h : isNumeral c) : isPrintable c := by
  simp only [isNumeral, Bool.or_eq_true, beq_iff_eq, Char.isDigit, Bool.and_eq_true,
    decide_eq_true_eq, ge_iff_le, UInt32.le_iff_toNat_le] at h
  rcases h with (((⟨hlow, hhigh⟩ | rfl) | rfl) | rfl) | rfl
  · have hascii : 0x20 ≤ c.toNat ∧ c.toNat ≤ 0x7E :=
      ⟨Nat.le_trans (by decide) hlow, Nat.le_trans hhigh (by decide)⟩
    simp [isPrintable, hascii]
  · rfl
  · rfl
  · rfl
  · rfl

theorem isGap_of_isNumeral {c : Char} (h : isNumeral c) : isGap c = false := by
  have hbreak : isBreak c = false := by
    rw [← Bool.not_eq_true]
    intro hbreak
    simp only [isBreak, Bool.or_eq_true, beq_iff_eq] at hbreak
    rcases hbreak with (((rfl | rfl) | rfl) | rfl) | rfl <;> exact absurd h (by decide)
  refine isGap_eq_false.mpr ⟨?_, ?_, hbreak⟩ <;> rintro rfl <;> exact absurd h (by decide)

theorem hasPair_eq_false {p q : Char → Bool} (h : ∀ c ∈ cs, q c = false) :
    hasPair p q cs = false := by
  induction cs with
  | nil => rfl
  | cons c cs ih =>
    obtain ⟨-, hcs⟩ := List.forall_mem_cons.mp h
    cases cs with
    | nil => rfl
    | cons d cs =>
      have hd := hcs d (List.mem_cons_self ..)
      simp only [hasPair, hd, Bool.and_false, Bool.false_or]
      exact ih hcs

/-- A digit opens nothing but a plain scalar, also after a minus sign. -/
theorem opensOther_of_isDigit {d : Char} (hd : d.isDigit) (rest : List Char) :
    opensOther (d :: rest) = false ∧ opensOther ('-' :: d :: rest) = false := by
  have hne : ∀ e : Char, e.isDigit = false → d ≠ e := by
    rintro e he rfl
    rw [hd] at he
    exact absurd he (by decide)
  have hindicator : isIndicator d = false := by
    simp only [isIndicator, List.contains_cons, List.contains_nil, Bool.or_false,
      Bool.or_eq_false_iff, beq_eq_false_iff_ne]
    exact ⟨hne _ rfl, hne _ rfl, hne _ rfl, hne _ rfl, hne _ rfl, hne _ rfl, hne _ rfl, hne _ rfl,
      hne _ rfl, hne _ rfl, hne _ rfl, hne _ rfl, hne _ rfl, hne _ rfl, hne _ rfl, hne _ rfl⟩
  have hgap : isGap d = false := isGap_of_isNumeral (by simp [isNumeral, hd])
  have hminus : d ≠ '-' := hne '-' rfl
  have hpoint : d ≠ '.' := hne '.' rfl
  have hquestion : d ≠ '?' := hne '?' rfl
  constructor
  · simp [opensOther, hindicator, hminus, hpoint, hquestion]
  · simp [opensOther, hminus, hgap, atGap, show isIndicator '-' = false from rfl]

/-- Numbers stand as plain scalars. -/
theorem plainScalar_render (layout : FloatLayout) (x : Number) :
    PlainScalar (x.render layout) := by
  have hnumeral := x.isNumeral_render layout
  obtain ⟨body, ⟨d, rest, rfl, hd⟩, htext⟩ := x.render_eq layout
  have hprint : ∀ c ∈ x.render layout, isPrintable c :=
    fun c hc => isPrintable_of_isNumeral (hnumeral c hc)
  have hgap : ∀ c ∈ x.render layout, isGap c = false :=
    fun c hc => isGap_of_isNumeral (hnumeral c hc)
  have hne : ∀ e : Char, isNumeral e = false → ∀ c ∈ x.render layout, c ≠ e := by
    rintro e he c hc rfl
    rw [hnumeral c hc] at he
    exact absurd he (by decide)
  have hline : PlainLine (x.render layout) := by
    refine ⟨fun c hc => (isGap_eq_false.mp (hgap c hc)).2.2, hne '\t' rfl, ?_, ?_⟩
    · simp only [hasColonGap, hasPair_eq_false hgap, Bool.false_or, beq_eq_false_iff_ne]
      exact fun hlast => hne ':' rfl _ (List.mem_of_getLast? hlast) rfl
    · exact hasPair_eq_false fun c hc => beq_eq_false_iff_ne.mpr (hne '#' rfl c hc)
  have hloose : hasLooseEnd (x.render layout) = false := by
    have hnone : ∀ c ∈ x.render layout, ¬ (isSpace c || isBreak c) := by
      intro c hc
      obtain ⟨hspace, -, hbreak⟩ := isGap_eq_false.mp (hgap c hc)
      simp [isSpace, hspace, hbreak]
    unfold hasLooseEnd
    rw [Bool.or_eq_false_iff, ← Bool.not_eq_true, ← Bool.not_eq_true, Option.any_eq_true,
      Option.any_eq_true]
    constructor
    · rintro ⟨c, hc, hany⟩
      exact hnone c (List.mem_of_mem_head? hc) hany
    · rintro ⟨c, hc, hany⟩
      exact hnone c (List.mem_of_getLast? hc) hany
  obtain ⟨hother, hother'⟩ := opensOther_of_isDigit hd rest
  rcases htext with htext | htext
  · exact ⟨hprint, hline, hloose, htext ▸ hother, by simp [htext]⟩
  · exact ⟨hprint, hline, hloose, htext ▸ hother', by simp [htext]⟩

end NotebookProject.Yaml
