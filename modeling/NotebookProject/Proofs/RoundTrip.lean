import NotebookProject.Project.Load
import NotebookProject.Proofs.Canonical
import NotebookProject.Proofs.Document.Written
import NotebookProject.Proofs.Yaml.Decode
import NotebookProject.Proofs.Yaml.Parse

/-!
# Reading canonical text

The canonical text of a file that was read is YAML for the canonical form of the file. So it is
read as that form wherever it passes the checks that come before the YAML grammar: its size, and
the search for refused features, which finds merge keys only.

## Main results

* `ProjectFile.ofText_written`: what comes of reading the canonical text.
* `ProjectFile.ofText_written_iff`: the files whose canonical text is read back.
-/

namespace NotebookProject

/-! ## Canonical forms -/

theorem withSortingKey_withSortingKey (key key' : String) (b : Block) :
    (b.withSortingKey key).withSortingKey key' = b.withSortingKey key' := rfl

theorem sortBlocks_sortBlocks (index : Nat) (bs : List Block) :
    sortBlocks index (sortBlocks index bs) = sortBlocks index bs := by
  induction bs generalizing index with
  | nil => rfl
  | cons b bs ih => rw [sortBlocks, sortBlocks, withSortingKey_withSortingKey, ih]

theorem Notebook.normalize_normalize (n : Notebook) : n.normalize.normalize = n.normalize := by
  unfold Notebook.normalize
  rw [sortBlocks_sortBlocks]

theorem ProjectFile.normalize_normalize (f : ProjectFile) :
    f.normalize.normalize = f.normalize := by
  have hnotebooks : (f.project.notebooks.map Notebook.normalize).map Notebook.normalize =
      f.project.notebooks.map Notebook.normalize := by
    rw [List.map_map]
    exact List.map_congr_left fun n _ => n.normalize_normalize
  simp only [normalize, mapNotebooks, hnotebooks]

/-! ## Documents -/

namespace Document

variable {limits : Limits} {text : List Char} {t : Tree}

theorem parse_eq_ok_iff : parse limits text = .ok t ↔ Text.Utf8.size text ≤ limits.maxBytes ∧
    text.head? ≠ some '\ufeff' ∧ Feature.find? text = none ∧ Yaml.parse text = .ok t := by
  unfold parse
  dsimp only
  split_ifs with hsize hmark
  · simp [Nat.not_le_of_lt hsize]
  · simp [beq_iff_eq.mp hmark]
  · have hmark' : text.head? ≠ some '\ufeff' := by simpa using hmark
    cases hfind : Feature.find? text with
    | some location => simp
    | none =>
      cases hparse : Yaml.parse text with
      | error r => simp [Except.mapError]
      | ok u => simp [Except.mapError, hmark', Nat.le_of_not_lt hsize]

/-- A refused feature is reported before the grammar is looked at. -/
theorem parse_of_find? {location : Feature.Location} (hsize : Text.Utf8.size text ≤ limits.maxBytes)
    (hmark : text.head? ≠ some '\ufeff') (hfind : Feature.find? text = some location) :
    parse limits text = .error (.feature location) := by
  unfold parse
  simp [Nat.not_lt.mpr hsize, hmark, hfind]

end Document

namespace ProjectFile

variable {limits : Limits} {text : List Char} {f : ProjectFile}

theorem ofText_eq_ok_iff : ofText limits text = .ok f ↔
    ∃ t, Document.parse limits text = .ok t ∧ Schema.validate t = .ok f := by
  unfold ofText ofDocument
  cases hparse : Document.parse limits text with
  | error e => simp
  | ok t => cases hvalid : Schema.validate t <;> simp [Except.mapError, hvalid]

/-- A project file is written as a record with at least one entry. -/
theorem toTree_eq_record (f : ProjectFile) : ∃ e es, f.toTree = .record (e :: es) :=
  ⟨_, _, rfl⟩

/-- The YAML of a file that was read means the canonical form of the file. -/
theorem parse_written_of_ofText (h : ofText limits text = .ok f) :
    ∃ t, Yaml.parse (Yaml.written f.normalize.toTree) = .ok t ∧
      Schema.validate t = .ok f.normalize := by
  obtain ⟨t, hparse, hvalid⟩ := ofText_eq_ok_iff.mp h
  obtain ⟨-, -, -, hyaml⟩ := Document.parse_eq_ok_iff.mp hparse
  obtain ⟨hsound, hsettled⟩ := Yaml.isRead_of_parse hyaml
  have hnormal := Schema.validate_renumber hvalid
  have hcanonical : f.normalize.toTree.Sound Yaml.Node.maxDepth :=
    Schema.sound_toTree hsound.renumber hnormal (by decide)
  refine ⟨f.normalize.toTree.arrange .sorted, ?_,
    Schema.validate_arrange hsettled.renumber hnormal⟩
  obtain ⟨e, es, hrecord⟩ := f.normalize.toTree_eq_record
  rw [hrecord] at hcanonical ⊢
  exact Yaml.parse_written hcanonical

theorem written_of_ofText (h : ofText limits text = .ok f) :
    f.written = .ok (Yaml.written f.normalize.toTree) ∧
      f.normalize.written = .ok (Yaml.written f.normalize.toTree) := by
  obtain ⟨t, -, hvalid⟩ := ofText_eq_ok_iff.mp h
  obtain ⟨-, -, -, hwritten⟩ := Schema.validate_left_inverse hvalid
  obtain ⟨-, -, -, hagain⟩ := Schema.validate_left_inverse (Schema.validate_renumber hvalid)
  rw [normalize_normalize] at hagain
  exact ⟨hwritten, hagain⟩

theorem head?_written (f : ProjectFile) : (Yaml.written f.toTree).head? ≠ some '\ufeff' := by
  obtain ⟨e, es, hrecord⟩ := f.toTree_eq_record
  rw [hrecord]
  intro hhead
  have hprint := Yaml.isPrintable_entriesAt 0 (e :: es) _ (List.mem_of_mem_head? hhead)
  exact absurd hprint (by decide)

/-- The canonical text of a file that was read is the same for the canonical form of the file, and
within the limit of size it is read as that form if and only if no feature is refused in it. -/
theorem ofText_written (h : ofText limits text = .ok f) :
    ∃ y, f.written = .ok y ∧ f.normalize.written = .ok y ∧
      (Text.Utf8.size y ≤ limits.maxBytes →
        (ofText limits y = .ok f.normalize ↔ Feature.find? y = none) ∧
        ∀ location, Feature.find? y = some location →
          ofText limits y = .error (.document (.feature location))) := by
  obtain ⟨hwritten, hagain⟩ := written_of_ofText h
  obtain ⟨t, hparse, hvalid⟩ := parse_written_of_ofText h
  have hmark := f.normalize.head?_written
  refine ⟨_, hwritten, hagain, fun hsize => ?_⟩
  have hrefused : ∀ location, Feature.find? (Yaml.written f.normalize.toTree) = some location →
      ofText limits (Yaml.written f.normalize.toTree) = .error (.document (.feature location)) := by
    intro location hfind
    unfold ofText
    rw [Document.parse_of_find? hsize hmark hfind]
    rfl
  refine ⟨⟨fun hread => ?_, fun hfind => ?_⟩, hrefused⟩
  · obtain ⟨u, hparse, -⟩ := ofText_eq_ok_iff.mp hread
    exact (Document.parse_eq_ok_iff.mp hparse).2.2.1
  · exact ofText_eq_ok_iff.mpr
      ⟨t, Document.parse_eq_ok_iff.mpr ⟨hsize, hmark, hfind, hparse⟩, hvalid⟩

/-- The canonical text of a file that was read is the same for the canonical form of the file. Within
the limit of size it is read as that form, unless a feature is refused in it: a key or string that
is taken for a merge key, where keys have no blanks beyond ASCII and texts of several lines no line
ends but line feeds. -/
theorem ofText_written_iff (h : ofText limits text = .ok f) :
    ∃ y, f.written = .ok y ∧ f.normalize.written = .ok y ∧
      (Text.Utf8.size y ≤ limits.maxBytes →
        (ofText limits y = .ok f.normalize ↔ Feature.find? y = none) ∧
        ((∀ x ∈ f.normalize.toTree.phrases, x.Firm) →
          (ofText limits y = .ok f.normalize ↔
            ∀ x ∈ f.normalize.toTree.phrases, ¬ x.ReadsMerged)) ∧
        ∀ location, Feature.find? y = some location →
          ofText limits y = .error (.document (.feature location))) := by
  obtain ⟨y, hwritten, hagain, hread⟩ := ofText_written h
  obtain rfl : y = Yaml.written f.normalize.toTree :=
    Except.ok.inj (hwritten.symm.trans (written_of_ofText h).1)
  refine ⟨_, hwritten, hagain, fun hsize => ?_⟩
  obtain ⟨hback, hrefused⟩ := hread hsize
  refine ⟨hback, fun hfirm => hback.trans ?_, hrefused⟩
  obtain ⟨e, es, hrecord⟩ := f.normalize.toTree_eq_record
  rw [hrecord] at hfirm ⊢
  exact Feature.find?_written e es hfirm

/-- A small document, with an entry that no field declares. -/
def smallText (key : String) : List Char :=
  "metadata: \x7bcreatedAt: \"2024-06-01T12:00:00Z\", \"".toList ++ key.toList ++
    "\": [1.5, \" \"]\x7d\nproject: \x7bid: p, name: P, notebooks: []\x7d\nversion: 1.0.0\n".toList

/-- The file of the small document. -/
def smallFile (key : String) : ProjectFile where
  metadata :=
    ⟨"2024-06-01T12:00:00Z", none, none, none,
      [(key, .list [.number (.float ⟨false, 6755399441055744, -52⟩), .string " "])]⟩
  environment := none
  execution := none
  project := ⟨"p", "P", [], none, none, none⟩
  version := "1.0.0"

theorem ofText_written_iff_small :
    (∀ x ∈ (smallFile "a").normalize.toTree.phrases, x.Firm ∧ ¬ x.ReadsMerged) ∧
    ofText .standard (smallText "a") = .ok (smallFile "a") ∧
    ∃ y, (smallFile "a").written = .ok y ∧ (smallFile "a").normalize.written = .ok y ∧
      (Text.Utf8.size y ≤ Limits.standard.maxBytes →
        (ofText .standard y = .ok (smallFile "a").normalize ↔ Feature.find? y = none) ∧
        ((∀ x ∈ (smallFile "a").normalize.toTree.phrases, x.Firm) →
          (ofText .standard y = .ok (smallFile "a").normalize ↔
            ∀ x ∈ (smallFile "a").normalize.toTree.phrases, ¬ x.ReadsMerged)) ∧
        ∀ location, Feature.find? y = some location →
          ofText .standard y = .error (.document (.feature location))) := by
  have hread : ofText .standard (smallText "a") = .ok (smallFile "a") := by decide +kernel
  exact ⟨by decide +kernel, hread, ofText_written_iff hread⟩

/-- A key that stood in quotes is written without them, and is then taken for a merge key. -/
theorem ofText_written_mergeKey :
    ofText .standard (smallText "<<") = .ok (smallFile "<<") ∧
    ∃ y, (smallFile "<<").written = .ok y ∧ Text.Utf8.size y ≤ Limits.standard.maxBytes ∧
      ofText .standard y = .error (.document (.feature ⟨.mergeKey, 3, 3⟩)) := by
  refine ⟨by decide +kernel, Yaml.written (smallFile "<<").normalize.toTree, ?_⟩
  decide +kernel

end ProjectFile

end NotebookProject
