import NotebookProject.Proofs.Yaml.Style

/-!
# Characters of written trees

Whatever characters a tree holds, its text has printable ones only. So every character of it is
allowed in YAML, and no byte order mark is at its beginning.
-/

namespace NotebookProject.Yaml

variable {cs : List Char}

theorem isAllowed_of_isPrintable {c : Char} (h : isPrintable c) : isAllowed c := by
  simp only [isPrintable, isAllowed, Bool.or_eq_true, Bool.and_eq_true, beq_iff_eq,
    decide_eq_true_eq, bne_iff_ne] at h ⊢
  omega

/-! ## Strings -/

theorem isPrintable_of_mem_pad {n : Nat} : ∀ c ∈ pad n, isPrintable c := by
  intro c hc
  rw [List.eq_of_mem_replicate hc]
  rfl

/-- The indentation at the beginning of a line. -/
theorem isPrintable_start {n : Nat} (atStart : Bool) :
    ∀ c ∈ (if atStart then pad n else []), isPrintable c := by
  cases atStart with
  | true => exact isPrintable_of_mem_pad
  | false => simp

theorem isPrintable_singleQuotedFrom (n : Nat) (atStart : Bool) (h : ∀ c ∈ cs, isPrintable c) :
    ∀ c ∈ singleQuotedFrom n atStart cs, isPrintable c := by
  induction cs generalizing atStart with
  | nil => exact isPrintable_start atStart
  | cons c cs ih =>
    obtain ⟨hc, hcs⟩ := List.forall_mem_cons.mp h
    have hchar : ∀ d ∈ (if c == '\'' then [c, c] else [c]), isPrintable d := by
      split_ifs <;> simp [hc]
    rw [singleQuotedFrom]
    by_cases hbreak : isBreak c
    · rw [if_pos hbreak]
      exact List.forall_mem_cons.mpr ⟨hc, ih true hcs⟩
    · rw [if_neg hbreak, List.forall_mem_append, List.forall_mem_append]
      exact ⟨⟨isPrintable_start atStart, hchar⟩, ih false hcs⟩

theorem isPrintable_literalFrom (n : Nat) (atStart : Bool) (h : ∀ c ∈ cs, isPrintable c) :
    ∀ c ∈ literalFrom n atStart cs, isPrintable c := by
  induction cs generalizing atStart with
  | nil =>
    rw [literalFrom]
    cases atStart <;> simp [isPrintable]
  | cons c cs ih =>
    obtain ⟨hc, hcs⟩ := List.forall_mem_cons.mp h
    rw [literalFrom]
    by_cases hbreak : isBreak c
    · rw [if_pos hbreak]
      exact List.forall_mem_cons.mpr ⟨hc, ih true hcs⟩
    · rw [if_neg hbreak, List.forall_mem_append, List.forall_mem_cons]
      exact ⟨isPrintable_start atStart, hc, ih false hcs⟩

theorem isPrintable_header (cs : List Char) :
    ∀ c ∈ depthMark cs ++ chompMark cs, isPrintable c := by
  rcases depthMark_cases cs with hdepth | hdepth <;>
    rcases chompMark_cases cs with hchomp | hchomp | hchomp <;>
    rw [hdepth, hchomp] <;> exact List.all_eq_true.mp rfl

/-- The text of a string has nothing but printable characters, in the style that it is written
in. -/
theorem isPrintable_styled (n : Nat) (s : String) :
    ∀ c ∈ styled n s.toList (.ofText s), isPrintable c := by
  have hborne := borne_ofText s
  generalize ScalarStyle.ofText s = style at hborne
  cases hborne with
  | plain h _ => exact h.printable
  | singleQuoted h =>
    rw [styled, List.forall_mem_cons, List.forall_mem_append]
    exact ⟨rfl, isPrintable_singleQuotedFrom n false h.printable, by simp [isPrintable]⟩
  | doubleQuoted =>
    rw [styled, List.forall_mem_cons, List.forall_mem_append]
    exact ⟨rfl, fun _ hc => (isInline_iff.mp (isInline_of_mem_doubleQuoted hc)).1,
      by simp [isPrintable]⟩
  | literal h _ =>
    simp only [bearsLiteral, Bool.and_eq_true, List.all_eq_true] at h
    rw [styled, List.forall_mem_cons, List.forall_mem_append, List.forall_mem_cons]
    exact ⟨rfl, isPrintable_header _, rfl, isPrintable_literalFrom n true h.1.1.2⟩

theorem isPrintable_stringLine (n : Nat) (s : String) : ∀ c ∈ stringLine n s, isPrintable c := by
  have hstyled := isPrintable_styled n s
  unfold stringLine
  rw [List.forall_mem_append]
  refine ⟨hstyled, ?_⟩
  split_ifs <;> simp [isPrintable]

theorem isPrintable_keyAt (n : Nat) (key : String) : ∀ c ∈ keyAt n key, isPrintable c := by
  unfold keyAt
  split_ifs
  · rw [List.forall_mem_append]
    exact ⟨isPrintable_styled (n + 2) key, by simp [isPrintable]⟩
  · simp only [List.forall_mem_cons, List.forall_mem_append]
    exact ⟨rfl, rfl, ⟨isPrintable_stringLine (n + 2) key, isPrintable_of_mem_pad⟩, rfl, by simp⟩

/-! ## Trees -/

mutual

theorem isPrintable_nodeAfter (position : Position) (n : Nat) :
    (t : Tree) → ∀ c ∈ nodeAfter position n t, isPrintable c
  | .null => List.all_eq_true.mp rfl
  | .bool true => List.all_eq_true.mp rfl
  | .bool false => List.all_eq_true.mp rfl
  | .number x => by
    have hx := x.isNumeral_render writtenFloat
    rw [nodeAfter, List.forall_mem_cons, List.forall_mem_append]
    exact ⟨rfl, fun c hc => isPrintable_of_isNumeral (hx c hc), by simp [isPrintable]⟩
  | .string s => by
    rw [nodeAfter, List.forall_mem_cons]
    exact ⟨rfl, isPrintable_stringLine (n + 2) s⟩
  | .list [] => List.all_eq_true.mp rfl
  | .record [] => List.all_eq_true.mp rfl
  | .list (t :: rest) => by
    cases position with
    | dash =>
      have hitems := isPrintable_itemsAt (n + 2) (t :: rest)
      exact List.forall_mem_cons.mpr ⟨rfl, hitems⟩
    | colon =>
      have hitems := isPrintable_itemsAt n (t :: rest)
      exact List.forall_mem_cons.mpr
        ⟨rfl, List.forall_mem_append.mpr ⟨isPrintable_of_mem_pad, hitems⟩⟩
  | .record (e :: rest) => by
    have hentries := isPrintable_entriesAt (n + 2) (e :: rest)
    cases position with
    | dash => exact List.forall_mem_cons.mpr ⟨rfl, hentries⟩
    | colon =>
      exact List.forall_mem_cons.mpr
        ⟨rfl, List.forall_mem_append.mpr ⟨isPrintable_of_mem_pad, hentries⟩⟩

theorem isPrintable_itemsAt (n : Nat) : (ts : List Tree) → ∀ c ∈ itemsAt n ts, isPrintable c
  | [] => by simp [itemsAt]
  | [t] => by
    have ht := isPrintable_nodeAfter .dash n t
    exact List.forall_mem_cons.mpr ⟨rfl, ht⟩
  | t :: u :: rest => by
    have ht := isPrintable_nodeAfter .dash n t
    have hitems := isPrintable_itemsAt n (u :: rest)
    simp only [itemsAt, List.forall_mem_cons, List.forall_mem_append]
    exact ⟨rfl, ⟨ht, isPrintable_of_mem_pad⟩, hitems⟩

theorem isPrintable_entriesAt (n : Nat) :
    (es : List (String × Tree)) → ∀ c ∈ entriesAt n es, isPrintable c
  | [] => by simp [entriesAt]
  | [(k, t)] => by
    have ht := isPrintable_nodeAfter (keyPosition k) n t
    rw [entriesAt, List.forall_mem_append]
    exact ⟨isPrintable_keyAt n k, ht⟩
  | (k, t) :: e :: rest => by
    have ht := isPrintable_nodeAfter (keyPosition k) n t
    have hentries := isPrintable_entriesAt n (e :: rest)
    simp only [entriesAt, List.forall_mem_append]
    exact ⟨⟨⟨isPrintable_keyAt n k, ht⟩, isPrintable_of_mem_pad⟩, hentries⟩

end

end NotebookProject.Yaml
