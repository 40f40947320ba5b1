import NotebookProject.Proofs.Yaml.Mark
import NotebookProject.Yaml.Token.Scalar

/-!
# Reading plain scalars

A text on one line that a plain scalar bears is read back as it is, up to the end of its line or
up to the colon that makes it a key.

## Main definitions

* `PlainLine`: the texts of one line that a plain scalar does not end in.
* `PlainText.feed`: what a character adds to a plain scalar that goes on.
-/

namespace NotebookProject.Yaml

variable {cs : List Char} {c : Char}

/-! ## Gaps -/

@[simp] theorem Fold.text_none : Fold.none.text = [] := rfl

@[simp] theorem Fold.blanks_none : Fold.none.blanks = [] := rfl

@[simp] theorem Fold.broken_none : Fold.none.broken = false := rfl

theorem Fold.text_of_not_broken {f : Fold} (h : f.broken = false) : f.text = f.blanks := by
  simp [Fold.text, h]

/-! ## One line -/

/-- A text of one line in which no plain scalar ends, neither inside nor with a colon after it. -/
structure PlainLine (cs : List Char) : Prop where
  noBreak : ∀ c ∈ cs, isBreak c = false
  noTab : ∀ c ∈ cs, c ≠ '\t'
  noColonGap : hasColonGap cs = false
  noGapHash : hasGapHash cs = false

theorem hasPair_cons {p q : Char → Bool} (h : hasPair p q (c :: cs) = false) :
    hasPair p q cs = false ∧ (p c → ∀ d ∈ cs.head?, q d = false) := by
  cases cs with
  | nil => exact ⟨rfl, by simp⟩
  | cons d cs =>
    simp only [hasPair, Bool.or_eq_false_iff, Bool.and_eq_false_iff] at h
    refine ⟨h.2, fun hp e he => ?_⟩
    obtain rfl : d = e := by simpa using he
    rcases h.1 with hc | hd
    · rw [hp] at hc
      exact absurd hc (by decide)
    · exact hd

namespace PlainLine

theorem tail (h : PlainLine (c :: cs)) : PlainLine cs where
  noBreak d hd := h.noBreak d (List.mem_cons_of_mem _ hd)
  noTab d hd := h.noTab d (List.mem_cons_of_mem _ hd)
  noColonGap := by
    have hcolon := h.noColonGap
    simp only [hasColonGap, Bool.or_eq_false_iff, beq_eq_false_iff_ne, ne_eq] at hcolon ⊢
    refine ⟨(hasPair_cons hcolon.1).1, ?_⟩
    cases cs with
    | nil => simp
    | cons d cs => simpa using hcolon.2
  noGapHash := (hasPair_cons h.noGapHash).1

theorem of_suffix {front : List Char} (h : PlainLine (front ++ cs)) : PlainLine cs := by
  induction front with
  | nil => exact h
  | cons c front ih => exact ih h.tail

/-- A colon inside the line has text right after it. -/
theorem not_atGap {rest : List Char} (h : PlainLine (':' :: cs)) : atGap (cs ++ rest) = false := by
  have hcolon := h.noColonGap
  simp only [hasColonGap, Bool.or_eq_false_iff, beq_eq_false_iff_ne, ne_eq] at hcolon
  cases cs with
  | nil => exact absurd rfl hcolon.2
  | cons d cs => exact (hasPair_cons hcolon.1).2 rfl d rfl

end PlainLine

/-- Takes in one character of a line in which the scalar does not end. -/
def PlainText.feed (p : PlainText) (c : Char) : PlainText :=
  if c == ' ' then { p with gap := p.gap.blank c, inGap := true }
  else ⟨c :: (p.gap.text ++ p.text), .none, false⟩

/-- A gap is inside the line, deep enough for the scalar to go on. -/
def PlainText.Inside (p : PlainText) (indent : Nat) (mark : Mark) : Prop :=
  p.gap.broken = false ∧ (p.inGap → indent ≤ mark.column ∧ 0 < mark.column)

theorem PlainText.Inside.feed {p : PlainText} {indent : Nat} {mark : Mark}
    (h : p.Inside indent mark) (hindent : indent ≤ mark.column + 1) (c : Char) :
    (p.feed c).Inside indent mark.next := by
  unfold PlainText.feed
  split_ifs
  · refine ⟨?_, fun _ => ⟨hindent, Nat.succ_pos _⟩⟩
    simp [Fold.blank, h.1]
  · exact ⟨rfl, fun h => absurd h (by simp)⟩

/-- A plain scalar goes on through a line in which it does not end. -/
theorem plainText_append {indent : Nat} {p : PlainText} {mark : Mark} (rest : List Char)
    (h : PlainLine cs) (hinside : p.Inside indent mark) (hindent : indent ≤ mark.column + 1)
    (hhash : p.inGap → cs.head? ≠ some '#') :
    plainText false indent p mark (cs ++ rest) =
      plainText false indent (cs.foldl PlainText.feed p) (mark.skip cs.length) rest := by
  induction cs generalizing p mark with
  | nil => rfl
  | cons c cs ih =>
    have hbreak := h.noBreak c (List.mem_cons_self ..)
    have htab := h.noTab c (List.mem_cons_self ..)
    have hreturn : c ≠ '\r' := by rintro rfl; exact absurd hbreak (by decide)
    have hnext : (p.feed c).inGap → cs.head? ≠ some '#' := by
      intro hgap hhead
      by_cases hc : c = ' '
      · have hpair := (hasPair_cons h.noGapHash).2 (by rw [hc]; rfl) '#' (by simp [hhead])
        exact absurd hpair (by decide)
      · simp [PlainText.feed, hc] at hgap
    have hrest := ih h.tail (hinside.feed hindent c)
      (by simp only [Mark.next_column]; omega) hnext
    have hstep : plainText false indent p mark (c :: (cs ++ rest)) =
        plainText false indent (p.feed c) mark.next (cs ++ rest) := by
      rw [plainText_cons hreturn]
      by_cases hc : c = ' '
      · subst hc
        simp [PlainText.feed, isSpaceOrTab, hinside.1, hbreak]
      · have hspace : isSpaceOrTab c = false := by simp [isSpaceOrTab, hc, htab]
        have hends : endsPlain false c (cs ++ rest) = false := by
          by_cases hcolon : c = ':'
          · subst hcolon
            simp [endsPlain, h.not_atGap]
          · simp [endsPlain, hcolon]
        have hgoes : (p.inGap && ((!false && decide (mark.column < indent)) || c == '#' ||
            (mark.column == 0 && isDocumentIndicator (c :: (cs ++ rest))))) = false := by
          cases hgap : p.inGap with
          | false => rfl
          | true =>
            obtain ⟨hdeep, hpos⟩ := hinside.2 hgap
            have hc : c ≠ '#' := by simpa using hhash hgap
            simp [hc, Nat.not_lt.mpr hdeep, Nat.ne_of_gt hpos]
        have hfeed : p.feed c = ⟨c :: (p.gap.text ++ p.text), .none, false⟩ := by
          simp [PlainText.feed, hc]
        rw [hfeed]
        simp only [hbreak, hspace, hgoes, hends, isStrayColon, Bool.false_and, Bool.false_eq_true,
          ↓reduceIte]
    rw [List.cons_append, hstep, hrest, List.foldl_cons, List.length_cons, Mark.skip_succ]

/-- What has been taken in, last character first. -/
theorem PlainText.text_foldl_feed (cs : List Char) {p : PlainText} (h : p.gap.broken = false) :
    (cs.foldl PlainText.feed p).gap.broken = false ∧
    (cs.foldl PlainText.feed p).gap.text ++ (cs.foldl PlainText.feed p).text =
      cs.reverse ++ (p.gap.text ++ p.text) := by
  induction cs generalizing p with
  | nil => exact ⟨h, rfl⟩
  | cons c cs ih =>
    have hfeed : (p.feed c).gap.broken = false ∧
        (p.feed c).gap.text ++ (p.feed c).text = c :: (p.gap.text ++ p.text) := by
      unfold PlainText.feed
      split_ifs
      · simp [Fold.blank, h, Fold.text]
      · exact ⟨rfl, rfl⟩
    obtain ⟨hbroken, htext⟩ := ih hfeed.1
    refine ⟨hbroken, ?_⟩
    rw [List.foldl_cons, htext, hfeed.2]
    simp

/-- A text that does not end with a space leaves no gap behind. -/
theorem PlainText.foldl_feed_eq {p : PlainText} (h : p.gap.broken = false) (hne : cs ≠ [])
    (hlast : cs.getLast? ≠ some ' ') :
    cs.foldl PlainText.feed p = ⟨cs.reverse ++ (p.gap.text ++ p.text), .none, false⟩ := by
  obtain ⟨ds, c, rfl⟩ := (List.eq_nil_or_concat' cs).resolve_left hne
  have hc : c ≠ ' ' := by simpa using hlast
  obtain ⟨-, htext⟩ := PlainText.text_foldl_feed ds h
  rw [List.foldl_append, List.foldl_cons, List.foldl_nil, PlainText.feed, if_neg (by simpa using hc),
    htext]
  simp

/-! ## The end of a plain scalar -/

/-- Indentation that does not reach the scalar's own belongs to the gap after it. -/
theorem plainText_pad {indent m : Nat} {p : PlainText} {mark : Mark} {next : List Char}
    (hgap : p.gap.broken) (hin : p.inGap) (hm : mark.column + m < indent)
    (hnext : StartsToken next) :
    plainText false indent p mark (pad m ++ next) = some (p, ⟨mark.skip m, next⟩) := by
  induction m generalizing mark with
  | zero =>
    cases next with
    | nil => rfl
    | cons c next =>
      obtain ⟨hc, -⟩ := startsToken_cons.mp hnext
      obtain ⟨hspace, htab, hbreak⟩ := isGap_eq_false.mp hc
      have hreturn : c ≠ '\r' := by rintro rfl; exact absurd hbreak (by decide)
      rw [pad_zero, List.nil_append, plainText_cons hreturn]
      simp [hbreak, isSpaceOrTab, hspace, htab, hin, show mark.column < indent by omega]
  | succ m ih =>
    have hblank : { p with gap := p.gap.blank ' ', inGap := true } = p := by
      simp [Fold.blank, hgap, ← hin]
    rw [pad_succ, List.cons_append, plainText_cons (by decide)]
    simp only [isSpaceOrTab, Mark.skip_succ]
    have hdeep : mark.next.column + m < indent := by
      simp only [Mark.next_column]
      omega
    rw [← ih hdeep]
    simp [hblank, show isBreak ' ' = false from rfl]

variable {indent m : Nat} {mark : Mark} {next rest : List Char}

/-- A plain scalar at the end of a line, when the next line is not indented as deep. -/
theorem plainText_line (h : PlainLine cs) (hne : cs ≠ []) (hlast : cs.getLast? ≠ some ' ')
    (hindent : indent ≤ mark.column + 1) (hm : m < indent) (hnext : StartsToken next) :
    ∃ p, plainText false indent ⟨[], .none, false⟩ mark (cs ++ '\n' :: (pad m ++ next)) =
        some (p, ⟨mark.after (cs ++ '\n' :: pad m), next⟩) ∧
      p.text = cs.reverse ∧ p.gap.broken := by
  have hinside : (⟨[], .none, false⟩ : PlainText).Inside indent mark :=
    ⟨rfl, fun h => absurd h (by simp)⟩
  have hread := plainText_append ('\n' :: (pad m ++ next)) h hinside hindent (by simp)
  rw [PlainText.foldl_feed_eq rfl hne hlast] at hread
  have hbreak : plainText false indent ⟨cs.reverse, .none, false⟩ (mark.skip cs.length)
      ('\n' :: (pad m ++ next)) =
      plainText false indent ⟨cs.reverse, Fold.none.lineBreak '\n', true⟩
        ((mark.skip cs.length).nextLine 1) (pad m ++ next) := by
    rw [plainText_cons (by decide)]
    simp [show isBreak '\n' = true from rfl]
  refine ⟨⟨cs.reverse, Fold.none.lineBreak '\n', true⟩, ?_, rfl, rfl⟩
  simp only [Fold.text_none, List.append_nil] at hread
  rw [hread, hbreak, plainText_pad rfl rfl (by simpa using hm) hnext, Mark.after_append,
    Mark.after_eq_skip _ h.noBreak, Mark.after_line]

/-- A plain scalar before the colon that makes it a key. -/
theorem plainText_key (h : PlainLine cs) (hne : cs ≠ []) (hlast : cs.getLast? ≠ some ' ')
    (hindent : indent ≤ mark.column + 1) (hrest : atGap rest) :
    plainText false indent ⟨[], .none, false⟩ mark (cs ++ ':' :: rest) =
      some (⟨cs.reverse, .none, false⟩, ⟨mark.skip cs.length, ':' :: rest⟩) := by
  have hinside : (⟨[], .none, false⟩ : PlainText).Inside indent mark :=
    ⟨rfl, fun h => absurd h (by simp)⟩
  have hread := plainText_append (':' :: rest) h hinside hindent (by simp)
  rw [PlainText.foldl_feed_eq rfl hne hlast] at hread
  simp only [Fold.text_none, List.append_nil] at hread
  rw [hread, plainText_cons (by decide)]
  simp [show isBreak ':' = false from rfl, isSpaceOrTab, endsPlain, hrest, isStrayColon]

/-! ## Places -/

theorem plainText_reaches {flow : Bool} {indent : Nat} {p p' : PlainText} {mark : Mark}
    {text : List Char} {c : Cursor} (h : plainText flow indent p mark text = some (p', c)) :
    mark.Reaches c.mark := by
  fun_induction plainText flow indent p mark text with
  | case1 | case6 | case8 => cases h; exact .refl _
  | case2 _ _ _ ih | case3 _ _ _ _ _ _ ih => exact (ih h).of_nextLine
  | case4 | case7 => cases h
  | case5 _ _ _ _ _ _ _ _ ih | case9 _ _ _ _ _ _ _ _ _ _ _ ih => exact (ih h).of_next

theorem plainText_suffix {flow : Bool} {indent : Nat} {p p' : PlainText} {mark : Mark}
    {text : List Char} {c : Cursor} (h : plainText flow indent p mark text = some (p', c)) :
    c.rest <:+ text := by
  fun_induction plainText flow indent p mark text with
  | case1 | case6 | case8 => cases h; exact List.suffix_rfl
  | case2 _ _ _ ih => exact ((ih h).trans (List.suffix_cons ..)).trans (List.suffix_cons ..)
  | case4 | case7 => cases h
  | case3 _ _ _ _ _ _ ih | case5 _ _ _ _ _ _ _ _ ih | case9 _ _ _ _ _ _ _ _ _ _ _ ih =>
    exact (ih h).trans (List.suffix_cons ..)

theorem Fold.mem_blanks_blank {f : Fold} {c d : Char} (h : d ∈ (f.blank c).blanks) :
    d ∈ f.blanks ∨ d = c := by
  unfold blank at h
  split at h
  · exact .inl h
  · exact (List.mem_cons.mp h).symm

/-- A plain scalar that ends on its line is the text up to its end, with the blanks behind it. -/
theorem plainText_within {indent : Nat} {p p' : PlainText} {mark : Mark} {text : List Char}
    {c : Cursor} (h : plainText false indent p mark text = some (p', c))
    (hbroken : p.gap.broken = false) (hline : c.mark.line = mark.line) :
    ∃ cs, text = cs ++ c.rest ∧
      p'.gap.blanks ++ p'.text = cs.reverse ++ (p.gap.blanks ++ p.text) ∧
      ∀ d ∈ p'.gap.blanks, d ∈ p.gap.blanks ∨ isSpaceOrTab d := by
  fun_induction plainText false indent p mark text with
  | case1 | case6 | case8 => cases h; exact ⟨[], by simp, by simp, fun d hd => .inl hd⟩
  | case2 | case3 =>
    have hlater := (plainText_reaches h).line_le
    rw [Mark.nextLine_line, hline] at hlater
    omega
  | case4 | case7 => cases h
  | case5 p mark c rest _ _ hblank _ ih =>
    obtain ⟨cs, rfl, htext, hblanks⟩ := ih h (by simp [Fold.blank, hbroken]) hline
    refine ⟨c :: cs, rfl, ?_, fun d hd => ?_⟩
    · simpa [Fold.blank, hbroken] using htext
    · obtain hd | hd := hblanks d hd
      · obtain hd | rfl := Fold.mem_blanks_blank hd
        · exact .inl hd
        · exact .inr hblank
      · exact .inr hd
  | case9 p mark c rest _ _ _ _ _ _ _ ih =>
    obtain ⟨cs, rfl, htext, hblanks⟩ := ih h rfl hline
    refine ⟨c :: cs, rfl, ?_, fun d hd => .inr ?_⟩
    · simpa [Fold.text_of_not_broken hbroken] using htext
    · simpa using hblanks d hd

/-- What has been read of a plain scalar stays its beginning. -/
theorem plainText_text_suffix {flow : Bool} {indent : Nat} {p p' : PlainText} {mark : Mark}
    {text : List Char} {c : Cursor} (h : plainText flow indent p mark text = some (p', c)) :
    p.text <:+ p'.text := by
  fun_induction plainText flow indent p mark text with
  | case1 | case6 | case8 => cases h; exact List.suffix_rfl
  | case4 | case7 => cases h
  | case2 _ _ _ ih | case3 _ _ _ _ _ _ ih | case5 _ _ _ _ _ _ _ _ ih => exact ih h
  | case9 _ _ _ _ _ _ _ _ _ _ _ ih =>
    exact ((List.suffix_append ..).trans (List.suffix_cons ..)).trans (ih h)

theorem Fold.text_lineBreak_ne_nil (f : Fold) (c : Char) : (f.lineBreak c).text ≠ [] := by
  obtain ⟨blanks, broken, first, others⟩ := f
  cases broken with
  | false =>
    simp only [lineBreak, text, Bool.false_eq_true, ↓reduceIte]
    split <;> simp_all
  | true =>
    simp only [lineBreak, text, ↓reduceIte]
    split <;> simp

theorem Fold.text_blank_ne_nil {f : Fold} (h : f.broken → f.text ≠ []) (c : Char) :
    (f.blank c).text ≠ [] := by
  unfold blank
  split
  · next hbroken => exact h hbroken
  · next hbroken => simp [text, hbroken]

/-- Behind a gap a plain scalar goes on with the gap and with another character, or it has ended. -/
theorem plainText_gap {flow : Bool} {indent : Nat} {p p' : PlainText} {mark : Mark}
    {text : List Char} {c : Cursor} (h : plainText flow indent p mark text = some (p', c))
    (hgap : p.gap.text ≠ []) : p'.text = p.text ∨ p.text.length + 1 < p'.text.length := by
  fun_induction plainText flow indent p mark text with
  | case1 | case6 | case8 => cases h; exact .inl rfl
  | case4 | case7 => cases h
  | case2 _ _ _ ih | case3 _ _ _ _ _ _ ih => exact ih h (Fold.text_lineBreak_ne_nil _ _)
  | case5 _ _ _ _ _ _ _ _ ih => exact ih h (Fold.text_blank_ne_nil (fun _ => hgap) _)
  | case9 =>
    have hle := (plainText_text_suffix h).length_le
    have hpos := List.length_pos_of_ne_nil hgap
    simp only [List.length_cons, List.length_append] at hle
    exact .inr (by omega)

end NotebookProject.Yaml
