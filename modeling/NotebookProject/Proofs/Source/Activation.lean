import Mathlib.Data.List.Forall2
import NotebookProject.Proofs.Source.Identifier
import NotebookProject.Proofs.Source.Script

/-!
# Pressed buttons in scripts

A script is a fixed sequence of passages with blank lines between them. The variables that buttons
have set show in the passages of buttons that set one, a line each, and nowhere else; such a line
says whether the name made from the button's variable is the name of a variable that was set. Hence
the list of these variables counts only as a set of names, and a larger set turns lines on.

## Main definitions

* `Block.switch?`: the variable that a button sets.
* `ProjectFile.passages`: the passages of a script.
* `TurnsOn`: what can become of a passage when more buttons are pressed.

## Main results

* `ProjectFile.script_eq`: a script from its passages.
* `ProjectFile.script_activation`: what the variables that were set change in a script.
-/

namespace NotebookProject

open Source

/-! ## Passages -/

/-- A part of a script between blank lines. -/
inductive Passage where
  /-- A text that does not depend on buttons. -/
  | fixed (text : String)
  /-- The line of a button that sets the variable with this stored name. -/
  | switch (stored : String)
  deriving DecidableEq, Repr

/-- The text of a passage. `names` are the names of the variables that buttons have set. -/
def Passage.text (names : List String) : Passage → String
  | .fixed text => text
  | .switch stored => assign stored (truth (names.contains (nameOf stored)))

/-- The stored name of the variable that a block sets when it is pressed. -/
def Block.switch? (b : Block) : Option String :=
  match b.body with
  | .task (.button f) _ _ =>
    if f.behavior = some .setVariable then nonEmpty? f.variableName else none
  | _ => none

/-- The passage of a block. -/
def Block.passage (b : Block) : Except SourceError Passage :=
  match b.switch? with
  | some stored => .ok (.switch stored)
  | none => (b.source []).map .fixed

/-- The passages of a notebook: its name, and its blocks that have source. -/
def Notebook.passages (n : Notebook) : Except ScriptError (List Passage) :=
  match n.blocks.mapM Block.passage with
  | .error e => .error (.source n.name e)
  | .ok ps => .ok (.fixed ("# " ++ comment n.name) :: ps.filter (· ≠ .fixed ""))

/-- The passages of the script of the chosen notebooks. -/
def ProjectFile.passages (f : ProjectFile) (wanted : Option String) :
    Except ScriptError (List Passage) :=
  match f.select wanted with
  | .error e => .error e
  | .ok ns => (ns.mapM Notebook.passages).map List.flatten

/-- What becomes of a passage when more of the buttons among these blocks are pressed. -/
inductive TurnsOn (bs : List Block) : String → String → Prop where
  | keeps (text : String) : TurnsOn bs text text
  | turns {b : Block} {stored : String} (hb : b ∈ bs) (hswitch : b.switch? = some stored) :
      TurnsOn bs (nameOf stored ++ " = False") (nameOf stored ++ " = True")

/-! ## Sources from passages -/

section Sources

variable {names names' : List String} {b : Block} {bs : List Block} {p : Passage} {stored : String}

theorem Passage.text_switch_eq_true_iff :
    (Passage.switch stored).text names = nameOf stored ++ " = True" ↔ nameOf stored ∈ names := by
  by_cases h : nameOf stored ∈ names <;>
    simp [Passage.text, assign, truth, h, String.append_assoc, String.append_right_inj]

theorem Passage.text_switch_eq_false_iff :
    (Passage.switch stored).text names = nameOf stored ++ " = False" ↔ nameOf stored ∉ names := by
  by_cases h : nameOf stored ∈ names <;>
    simp [Passage.text, assign, truth, h, String.append_assoc, String.append_right_inj]

theorem Passage.text_congr (h : ∀ name, name ∈ names ↔ name ∈ names') :
    p.text names = p.text names' := by
  cases p with
  | fixed text => rfl
  | switch stored => simp [text, h]

/-- Names that are pressed in addition turn lines on. -/
theorem Passage.turnsOn_text (h : names ⊆ names')
    (hp : ∀ stored, p = .switch stored → ∃ b ∈ bs, b.switch? = some stored) :
    TurnsOn bs (p.text names) (p.text names') := by
  cases p with
  | fixed text => exact .keeps text
  | switch stored =>
    obtain ⟨b, hb, hswitch⟩ := hp stored rfl
    by_cases hmem : nameOf stored ∈ names
    · rw [text_switch_eq_true_iff.mpr hmem, text_switch_eq_true_iff.mpr (h hmem)]
      exact .keeps _
    · rw [text_switch_eq_false_iff.mpr hmem]
      by_cases hmem' : nameOf stored ∈ names'
      · rw [text_switch_eq_true_iff.mpr hmem']
        exact .turns hb hswitch
      · rw [text_switch_eq_false_iff.mpr hmem']
        exact .keeps _

theorem Block.source_of_switch? (h : b.switch? = some stored) :
    b.source names = .ok ((Passage.switch stored).text names) := by
  obtain ⟨header, content, layout, body, extra⟩ := b
  cases body with
  | cell c => simp [switch?] at h
  | task job run record =>
    cases job with
    | button f =>
      obtain ⟨hbehavior, hname⟩ :
          f.behavior = some .setVariable ∧ nonEmpty? f.variableName = some stored := by
        simpa [switch?] using h
      simp [source, Job.source, button, hbehavior, hname, Passage.text]
    | _ => simp [switch?] at h

/-- Without a variable to set, a block has the same source whatever other buttons have set. -/
theorem Block.source_of_switch?_eq_none (h : b.switch? = none) :
    b.source names = b.source [] := by
  obtain ⟨header, content, layout, body, extra⟩ := b
  cases body with
  | cell c => rfl
  | task job run record =>
    cases job with
    | button f =>
      have hsource : ∀ names, button f names = "" := by
        intro names
        unfold button
        split <;> simp_all [switch?]
      simp [source, Job.source, hsource]
    | _ => rfl

theorem Block.source_eq_passage (names : List String) (b : Block) :
    b.source names = b.passage.map (Passage.text names) := by
  unfold passage
  cases h : b.switch? with
  | some stored => exact source_of_switch? h
  | none =>
    rw [source_of_switch?_eq_none h]
    cases b.source [] <;> rfl

/-- A switch always has a text. -/
theorem Passage.isEmpty_text (names : List String) (p : Passage) :
    (p.text names).isEmpty = decide (p = .fixed "") := by
  cases p with
  | fixed text =>
    rw [Bool.eq_iff_iff]
    simp [Passage.text]
  | switch stored =>
    have hne : (Passage.switch stored).text names ≠ "" := by simp [Passage.text, assign]
    simp [hne]

theorem filter_map_text (names : List String) (ps : List Passage) :
    (ps.map (Passage.text names)).filter (fun s => !s.isEmpty) =
      (ps.filter (· ≠ .fixed "")).map (Passage.text names) := by
  rw [List.filter_map]
  congr 1
  refine List.filter_congr fun p _ => ?_
  simp [Passage.isEmpty_text]

end Sources

/-! ## Scripts from passages -/

/-- A heading stands alone where no parts follow it. -/
theorem paragraphs_heading {parts : List String} (h : ∀ s ∈ parts, s ≠ "") (heading : String) :
    (if (paragraphs parts).isEmpty then heading else paragraphs [heading, paragraphs parts]) =
      paragraphs (heading :: parts) := by
  cases parts with
  | nil => simp [paragraphs]
  | cons s parts =>
    have hs : s ≠ "" := h s (List.mem_cons_self ..)
    have hne : (paragraphs (s :: parts)).isEmpty = false := by
      cases parts <;> simp [paragraphs, hs]
    rw [hne]
    simp [paragraphs]

/-- Paragraphs made of paragraphs. -/
theorem paragraphs_flatten {parts : List (List String)} (h : ∀ ps ∈ parts, ps ≠ []) :
    paragraphs parts.flatten = paragraphs (parts.map paragraphs) := by
  induction parts with
  | nil => rfl
  | cons ps parts ih =>
    obtain ⟨hps, hparts⟩ := List.forall_mem_cons.mp h
    cases parts with
    | nil => simp [paragraphs]
    | cons qs parts =>
      have hrest : (qs :: parts).flatten ≠ [] := by simp [hparts qs (List.mem_cons_self ..)]
      rw [List.flatten_cons, paragraphs, String.intercalate_append_of_ne_nil hps hrest,
        List.map_cons, paragraphs, String.intercalate_cons_of_ne_nil (by simp)]
      exact congrArg _ (ih hparts)

theorem Notebook.script_eq (names : List String) (n : Notebook) :
    n.script names = n.passages.map fun ps => paragraphs (ps.map (Passage.text names)) := by
  have hsources : blockSources names n.blocks =
      (n.blocks.mapM Block.passage).map (List.map (Passage.text names)) := by
    rw [blockSources_eq_mapM, map_mapM]
    congr 1
    exact funext (Block.source_eq_passage names)
  rw [script, source, hsources, passages]
  cases n.blocks.mapM Block.passage with
  | error e => rfl
  | ok ps =>
    have hparts : ∀ s ∈ (ps.map (Passage.text names)).filter (fun s => !s.isEmpty), s ≠ "" := by
      intro s hs
      simpa using (List.mem_filter.mp hs).2
    simp only [Except.map, paragraphs_heading hparts, List.map_cons, ← filter_map_text,
      Passage.text]

theorem Block.switch?_of_passage {b : Block} {stored : String}
    (h : b.passage = .ok (.switch stored)) : b.switch? = some stored := by
  unfold passage at h
  cases hb : b.switch? with
  | some stored' => simpa [hb] using h
  | none => cases hsource : b.source [] <;> simp [hb, hsource, Except.map] at h

/-- Only buttons make switches. -/
theorem Notebook.switch?_of_passages {n : Notebook} {ps : List Passage} {stored : String}
    (h : n.passages = .ok ps) (hp : .switch stored ∈ ps) :
    ∃ b ∈ n.blocks, b.switch? = some stored := by
  unfold passages at h
  cases hall : n.blocks.mapM Block.passage with
  | error e => simp [hall] at h
  | ok qs =>
    obtain rfl : _ = ps := Except.ok.inj (by simpa only [hall] using h)
    have hmem : Passage.switch stored ∈ qs := by simpa using hp
    obtain ⟨b, hb, hbp⟩ := exists_of_mem_mapM hall hmem
    exact ⟨b, hb, Block.switch?_of_passage hbp⟩

theorem Notebook.passages_ne_nil {n : Notebook} {ps : List Passage} (h : n.passages = .ok ps) :
    ps ≠ [] := by
  rintro rfl
  unfold passages at h
  split at h <;> simp at h

namespace ProjectFile

variable {f : ProjectFile} {wanted : Option String} {A B : List String}

/-- A script from its passages, of which the pressed buttons change no more than the texts. -/
theorem script_eq (f : ProjectFile) (wanted : Option String) (A : List String) :
    f.script wanted A =
      (f.passages wanted).map fun ps => paragraphs (ps.map (Passage.text (A.map nameOf))) := by
  unfold script passages
  cases f.select wanted with
  | error e => rfl
  | ok ns =>
    have hsections : notebookSections (A.map nameOf) ns =
        (ns.mapM Notebook.passages).map
          (List.map fun ps => paragraphs (ps.map (Passage.text (A.map nameOf)))) := by
      rw [notebookSections_eq_mapM, map_mapM]
      congr 1
      exact funext (Notebook.script_eq _)
    simp only [hsections]
    cases hall : ns.mapM Notebook.passages with
    | error e => rfl
    | ok pss =>
      have hne : ∀ ps ∈ pss.map (List.map (Passage.text (A.map nameOf))), ps ≠ [] := by
        intro ts hts
        obtain ⟨ps, hps, rfl⟩ := List.mem_map.mp hts
        obtain ⟨n, -, hn⟩ := exists_of_mem_mapM hall hps
        simpa using Notebook.passages_ne_nil hn
      simp only [Except.map, List.map_flatten, paragraphs_flatten hne, List.map_map,
        Function.comp_def]

theorem switch?_of_passages {ns : List Notebook} {ps : List Passage} {stored : String}
    (hselect : f.select wanted = .ok ns) (h : f.passages wanted = .ok ps)
    (hp : .switch stored ∈ ps) : ∃ b ∈ ns.flatMap Notebook.blocks, b.switch? = some stored := by
  simp only [passages, hselect] at h
  cases hall : ns.mapM Notebook.passages with
  | error e => simp [hall, Except.map] at h
  | ok pss =>
    obtain rfl : pss.flatten = ps := by simpa [hall, Except.map] using h
    obtain ⟨qs, hqs, hmem⟩ := List.mem_flatten.mp hp
    obtain ⟨n, hn, hnqs⟩ := exists_of_mem_mapM hall hqs
    obtain ⟨b, hb, hswitch⟩ := Notebook.switch?_of_passages hnqs hmem
    exact ⟨b, List.mem_flatMap.mpr ⟨n, hn, hb⟩, hswitch⟩

theorem script_congr_names (h : ∀ name, name ∈ A.map nameOf ↔ name ∈ B.map nameOf) :
    f.script wanted A = f.script wanted B := by
  have htext : Passage.text (A.map nameOf) = Passage.text (B.map nameOf) :=
    funext fun _ => Passage.text_congr h
  rw [script_eq, script_eq, htext]

/-- In a script for more names some lines of buttons are on that were off. -/
theorem script_mono {s : String} (h : A.map nameOf ⊆ B.map nameOf)
    (hs : f.script wanted A = .ok s) :
    ∃ ns xs ys, f.select wanted = .ok ns ∧ s = paragraphs xs ∧
      f.script wanted B = .ok (paragraphs ys) ∧
      List.Forall₂ (TurnsOn (ns.flatMap Notebook.blocks)) xs ys := by
  rw [script_eq] at hs
  cases hpassages : f.passages wanted with
  | error e => simp [hpassages, Except.map] at hs
  | ok ps =>
    cases hselect : f.select wanted with
    | error e => simp [passages, hselect] at hpassages
    | ok ns =>
      refine ⟨ns, ps.map (Passage.text (A.map nameOf)), ps.map (Passage.text (B.map nameOf)), rfl,
        by simpa [hpassages, Except.map] using hs.symm, by rw [script_eq, hpassages]; rfl, ?_⟩
      rw [List.forall₂_map_left_iff, List.forall₂_map_right_iff, List.forall₂_same]
      intro p hp
      refine Passage.turnsOn_text h fun stored hstored => ?_
      exact switch?_of_passages hselect hpassages (hstored ▸ hp)

/-- The pressed buttons count as the set of the names of their variables. Whether a script has an
error does not depend on them. A button's line says whether its name is in the set, and in a larger
set the same script has some more of these lines on. -/
theorem script_activation (f : ProjectFile) (wanted : Option String) :
    (∀ A B : List String, (∀ name, name ∈ A.map nameOf ↔ name ∈ B.map nameOf) →
      f.script wanted A = f.script wanted B) ∧
    (∀ A : List String, f.script wanted (A.map nameOf) = f.script wanted A) ∧
    (∀ (A : List String) (b : Block) stored, b.switch? = some stored →
      (b.source (A.map nameOf) = .ok (nameOf stored ++ " = True") ↔
        nameOf stored ∈ A.map nameOf) ∧
      (b.source (A.map nameOf) = .ok (nameOf stored ++ " = False") ↔
        nameOf stored ∉ A.map nameOf)) ∧
    (∀ A B e, f.script wanted A = .error e → f.script wanted B = .error e) ∧
    ∀ (A B : List String) s, A.map nameOf ⊆ B.map nameOf → f.script wanted A = .ok s →
      ∃ ns xs ys, f.select wanted = .ok ns ∧ s = paragraphs xs ∧
        f.script wanted B = .ok (paragraphs ys) ∧
        List.Forall₂ (TurnsOn (ns.flatMap Notebook.blocks)) xs ys := by
  refine ⟨fun A B => script_congr_names, fun A => ?_, fun A b stored hswitch => ?_,
    fun A B e h => ?_, fun A B s => script_mono⟩
  · have hnames : (A.map nameOf).map nameOf = A.map nameOf := by
      simp only [List.map_map, Function.comp_def, nameOf_nameOf]
    rw [script, script, hnames]
  · rw [Block.source_of_switch? hswitch, Except.ok.injEq, Except.ok.injEq]
    exact ⟨Passage.text_switch_eq_true_iff, Passage.text_switch_eq_false_iff⟩
  · rw [script_eq] at h ⊢
    cases hpassages : f.passages wanted with
    | error e' => simpa [hpassages, Except.map] using h
    | ok ps => simp [hpassages, Except.map] at h

/-- A button that sets a variable. -/
def toggle (stored : String) : Block :=
  { (default : Block) with
    body := .task (.button ⟨none, none, some .setVariable, some stored⟩) default default }

/-- A file with two buttons. The variable of the second has no character that a name can have. -/
def switchboard : ProjectFile :=
  { metadata := ⟨"2024-06-01T12:00:00Z", none, none, none, []⟩
    environment := none
    execution := none
    project := ⟨"p", "P", [⟨"n", "Main", [toggle "run now", toggle "é"], none, none, none⟩],
      none, none, none⟩
    version := "1.0.0" }

/-- Two spellings of one name, a name that turns the second line on, and a missing notebook. -/
theorem script_activation_switchboard :
    switchboard.script none ["run\n now", "run_now"] = switchboard.script none ["run now"] ∧
    (toggle "é").source (["!"].map nameOf) = .ok "input_1 = True" ∧
    switchboard.script (some "x") ["!"] = .error (.notebookNotFound "x") ∧
    ∃ xs ys, switchboard.script none ["run now"] = .ok (paragraphs xs) ∧
      switchboard.script none ["!", "run now"] = .ok (paragraphs ys) ∧
      List.Forall₂ (TurnsOn [toggle "run now", toggle "é"]) xs ys := by
  obtain ⟨hcongr, -, hline, -, hmono⟩ := script_activation switchboard none
  obtain ⟨-, -, -, herror, -⟩ := script_activation switchboard (some "x")
  have hrun : nameOf "run now" = "run_now" ∧ nameOf "run\n now" = "run_now" ∧
      nameOf "run_now" = "run_now" := by decide
  have hdefault : nameOf "é" = "input_1" ∧ nameOf "!" = "input_1" := by decide
  have hfirst : switchboard.script none ["run now"] =
      .ok "# Main\n\nrun_now = True\n\ninput_1 = False" := by decide
  obtain ⟨ns, xs, ys, hselect, hxs, hys, hturns⟩ :=
    hmono ["run now"] ["!", "run now"] _ (by simp) hfirst
  have hblocks : ns.flatMap Notebook.blocks = [toggle "run now", toggle "é"] := by
    rw [← Except.ok.inj hselect]
    rfl
  have hon := (hline ["!"] (toggle "é") "é" rfl).1.mpr (by simp [hdefault])
  rw [hdefault.1] at hon
  refine ⟨hcongr _ _ (by simp [hrun]), hon, herror [] _ _ rfl, xs, ys, hxs ▸ hfirst, hys,
    hblocks ▸ hturns⟩

end ProjectFile

end NotebookProject
