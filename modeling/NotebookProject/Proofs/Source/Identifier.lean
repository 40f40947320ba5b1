import Mathlib.Logic.Relation
import NotebookProject.Proofs.Source.Reserved

/-!
# Identifiers made from text

The name made from a text is an identifier, and identifiers are the texts that are their own names:
making a name twice is making it once. What a name forgets of its text is how long and of which
characters its runs of blanks are, and every character that is neither blank nor part of a name.

## Main definitions

* `Respelling`: a text with a space for a run of blanks, or with characters inserted that no name
  holds.

## Main results

* `nameOf_projection`: names are identifiers, and these are their own names; respelt texts have the
  same name.
-/

namespace NotebookProject.Source

open Text

/-! ## Identifiers are their own names -/

section Identifiers

variable {c : Char} {cs : List Char} {s : String}

theorem isBlank_of_isWord (h : isWord c) : isBlank c = false := by
  have hrange : 48 ≤ c.toNat ∧ c.toNat ≤ 122 := by
    simp only [isWord, Bool.or_eq_true, Bool.and_eq_true, decide_eq_true_eq, beq_iff_eq,
      Char.le_def, UInt32.le_iff_toNat_le] at h
    rcases h with ((h | h) | h) | rfl
    · change 48 ≤ c.toNat ∧ c.toNat ≤ 57 at h
      omega
    · change 97 ≤ c.toNat ∧ c.toNat ≤ 122 at h
      omega
    · change 65 ≤ c.toNat ∧ c.toNat ≤ 90 at h
      omega
    · decide
  simp only [isBlank, Bool.or_eq_false_iff, Bool.and_eq_false_iff, decide_eq_false_iff_not,
    beq_eq_false_iff_ne]
  omega

theorem nameChars_eq_self (hstart : isNameStart c) (hword : ∀ d ∈ c :: cs, isWord d) :
    nameChars (c :: cs) = c :: cs := by
  have hblank : ∀ d ∈ c :: cs, isBlank d = false := fun d hd => isBlank_of_isWord (hword d hd)
  rw [nameChars, collapseRuns_eq_self hblank, List.filter_eq_self.mpr hword]
  simp [hstart]

theorem nameOf_eq_self (h : isIdentifier s) : nameOf s = s := by
  unfold isIdentifier at h
  cases hs : s.toList with
  | nil => simp [hs] at h
  | cons c rest =>
    obtain ⟨hstart, hrest⟩ : isNameStart c ∧ rest.all isWord := by simpa [hs] using h
    have hword : ∀ d ∈ c :: rest, isWord d :=
      List.forall_mem_cons.mpr ⟨isWord_of_isNameStart hstart, List.all_eq_true.mp hrest⟩
    rw [nameOf, hs, nameChars_eq_self hstart hword, ← hs, String.ofList_toList]
    exact if_neg (by simp [hs])

theorem nameOf_eq_self_iff : nameOf s = s ↔ isIdentifier s :=
  ⟨fun h => h ▸ isIdentifier_nameOf s, nameOf_eq_self⟩

theorem nameOf_nameOf (s : String) : nameOf (nameOf s) = nameOf s :=
  nameOf_eq_self (isIdentifier_nameOf s)

end Identifiers

/-! ## Runs -/

/-- No run of characters with the property goes on from one text into the other. -/
def Parted (p : Char → Bool) (front back : List Char) : Prop :=
  ¬ (front.getLast?.any p ∧ back.head?.any p)

instance (p : Char → Bool) (front back : List Char) : Decidable (Parted p front back) :=
  inferInstanceAs (Decidable (¬ _))

section Runs

variable {p : Char → Bool} {c : Char} {front run back : List Char}

theorem parted_of_right (h : ∀ d ∈ back, p d = false) : Parted p front back := by
  cases back <;> simp_all [Parted]

theorem parted_of_left (hne : run ≠ []) (h : ∀ d ∈ run, p d = false) :
    Parted p (front ++ run) back := by
  obtain ⟨init, last, rfl⟩ := (List.eq_nil_or_concat' run).resolve_left hne
  rw [Parted, ← List.append_assoc]
  simp [h last]

theorem collapseRuns_append (h : Parted p front back) :
    collapseRuns p c (front ++ back) = collapseRuns p c front ++ collapseRuns p c back := by
  fun_induction collapseRuns p c front with
  | case1 => rfl
  | case2 d hd | case3 d hd => cases back <;> simp_all [Parted, collapseRuns]
  | case4 | case5 | case6 => simp_all [Parted, collapseRuns]

theorem collapseRuns_run (hne : run ≠ []) (h : ∀ d ∈ run, p d) : collapseRuns p c run = [c] := by
  fun_induction collapseRuns p c run with
  | case1 => exact absurd rfl hne
  | case2 => rfl
  | case4 d e rest hd he ih => exact ih (by simp) (List.forall_mem_cons.mp h).2
  | case3 | case5 | case6 => simp_all

end Runs

/-! ## Respelt texts -/

/-- Neither a blank nor a character of names. -/
def isDropped (c : Char) : Bool := !isBlank c && !isWord c

/-- A text spelt in another way: with a space for a whole run of blanks, or with characters inserted
that no name holds, but not between two blanks. -/
inductive Respelling : List Char → List Char → Prop
  | blanks (front run back : List Char) (hne : run ≠ []) (hrun : ∀ d ∈ run, isBlank d)
    (hfront : ¬ front.getLast?.any isBlank) (hback : ¬ back.head?.any isBlank) :
    Respelling (front ++ run ++ back) (front ++ [' '] ++ back)
  | inserted (front junk back : List Char) (hjunk : ∀ d ∈ junk, isDropped d)
    (hparted : Parted isBlank front back) :
    Respelling (front ++ back) (front ++ junk ++ back)

section Respelling

variable {front run junk back cs ds : List Char}

/-- Whatever a run of blanks is, an underscore is left of it. -/
theorem collapseRuns_blanks (hne : run ≠ []) (hrun : ∀ d ∈ run, isBlank d)
    (hfront : ¬ front.getLast?.any isBlank) (hback : ¬ back.head?.any isBlank) :
    collapseRuns isBlank '_' (front ++ run ++ back) =
      collapseRuns isBlank '_' front ++ ['_'] ++ collapseRuns isBlank '_' back := by
  have hleft : Parted isBlank front run := fun h => hfront h.1
  have hright : Parted isBlank (front ++ run) back := fun h => hback h.2
  rw [collapseRuns_append hright, collapseRuns_append hleft, collapseRuns_run hne hrun]

theorem filter_collapseRuns_inserted (hjunk : ∀ d ∈ junk, isDropped d)
    (hparted : Parted isBlank front back) :
    (collapseRuns isBlank '_' (front ++ junk ++ back)).filter isWord =
      (collapseRuns isBlank '_' (front ++ back)).filter isWord := by
  obtain rfl | hne := eq_or_ne junk []
  · rw [List.append_nil]
  · have hdropped : ∀ d ∈ junk, isBlank d = false ∧ isWord d = false := by
      simpa [isDropped] using hjunk
    have hblank : ∀ d ∈ junk, isBlank d = false := fun d hd => (hdropped d hd).1
    have hnone : junk.filter isWord = [] :=
      List.filter_eq_nil_iff.mpr fun d hd => by simp [(hdropped d hd).2]
    rw [collapseRuns_append (parted_of_left hne hblank),
      collapseRuns_append (parted_of_right hblank), collapseRuns_append hparted,
      collapseRuns_eq_self hblank]
    simp [hnone]

theorem Respelling.nameChars_eq (h : Respelling cs ds) : nameChars ds = nameChars cs := by
  unfold nameChars
  cases h with
  | blanks front run back hne hrun hfront hback =>
    have hspace : ∀ d ∈ [' '], isBlank d := List.forall_mem_singleton.mpr rfl
    rw [collapseRuns_blanks hne hrun hfront hback,
      collapseRuns_blanks (List.cons_ne_nil ' ' []) hspace hfront hback]
  | inserted front junk back hjunk hparted => rw [filter_collapseRuns_inserted hjunk hparted]

theorem nameChars_of_respellings (h : Relation.ReflTransGen Respelling cs ds) :
    nameChars ds = nameChars cs := by
  induction h with
  | refl => rfl
  | tail _ hstep ih => rw [hstep.nameChars_eq, ih]

end Respelling

/-- The name of a text is an identifier, it is the text itself just if that is an identifier, and
it is its own name. It stays the same however often the text is respelt. -/
theorem nameOf_projection (s : String) :
    isIdentifier (nameOf s) ∧ (nameOf s = s ↔ isIdentifier s) ∧ nameOf (nameOf s) = nameOf s ∧
      ∀ t : String, Relation.ReflTransGen Respelling s.toList t.toList → nameOf t = nameOf s := by
  refine ⟨isIdentifier_nameOf s, nameOf_eq_self_iff, nameOf_nameOf s, fun t h => ?_⟩
  simp only [nameOf, nameChars_of_respellings h]

/-- Tabs become a space, and then a sign is put before it. -/
theorem nameOf_projection_total :
    Relation.ReflTransGen Respelling "2 net\t\ttotal".toList "2 net€ total".toList ∧
      nameOf "2 net\t\ttotal" = "_net_total" ∧ nameOf "2 net€ total" = "_net_total" := by
  have hblanks : Respelling "2 net\t\ttotal".toList "2 net total".toList :=
    .blanks "2 net".toList "\t\t".toList "total".toList (by decide)
      (List.all_eq_true.mp (by decide)) (by decide) (by decide)
  have hinserted : Respelling "2 net total".toList "2 net€ total".toList :=
    .inserted "2 net".toList "€".toList " total".toList (List.all_eq_true.mp (by decide))
      (by decide)
  have hsteps := (Relation.ReflTransGen.single hblanks).tail hinserted
  have hname : nameOf "2 net\t\ttotal" = "_net_total" := by decide
  exact ⟨hsteps, hname, ((nameOf_projection _).2.2.2 _ hsteps).trans hname⟩

end NotebookProject.Source
