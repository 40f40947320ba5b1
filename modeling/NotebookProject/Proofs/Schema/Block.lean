import NotebookProject.Proofs.Schema.Metadata
import NotebookProject.Schema.Block

/-!
# Blocks are lawful

A block of a given kind is a record with these fields: its type, its header, its content, its
metadata and, for blocks that run, its execution record. Reading a block without issues is reading
these fields for the kind that its type names, so the laws of records carry over to blocks.

## Main definitions

* `metadataField`: the metadata of a block as one field of the block.
* `typeField`: the type of a block as a field without a value.
* `bodyFields`, `blockFields`: the fields of the blocks of a kind, without and with the type.
-/

namespace NotebookProject.Schema

open Fields Codec

variable {α : Type} {h : Nat}

/-! ## Metadata -/

/-- The metadata of a block as one field. -/
def metadataField (part : Fields α) : Fields ((LayoutMetadata × α) × Passthrough) where
  keys := ["metadata"]
  read := readMetadata part
  write p := [("metadata", (metadataFields part).record.write p)]

theorem lawful_metadataRecord {part : Fields α} (hpart : part.Lawful h)
    (hnodup : (layoutFields.and part).keys.Nodup) : (metadataFields part).record.Lawful (h + 1) :=
  (lawful_layoutFields.and hpart).openEnded hnodup

/-- Missing metadata is a settled and sound record, too. -/
theorem getD_present? {holds : Tree → Prop} {es : Entries} {key : String} (hes : ForValues es holds)
    (hempty : holds (.record [])) : holds ((present? es key).getD (.record [])) := by
  cases ht : present? es key with
  | none => exact hempty
  | some t => exact hes key t (present?_eq_some.mp ht).1

theorem lawful_metadataField {part : Fields α} (hpart : part.Lawful h)
    (hnodup : (layoutFields.and part).keys.Nodup) : (metadataField part).Lawful (h + 1) where
  honest path es := (lawful_metadataRecord hpart hnodup).honest _ _
  keys_write _ := List.Sublist.refl ["metadata"]
  reread {s path es p} _ hes hr other es' hes' := by
    have hsettled : Tree.Settled s ((present? es "metadata").getD (.record [])) :=
      getD_present? hes (.record s.settled_nil (by simp))
    have hreread := (lawful_metadataRecord hpart hnodup).reread hsettled hr
    have hpresent : present? es' "metadata" =
        some (((metadataFields part).record.write p).arrange s) := hes'.present? rfl
    change readMetadata part other es' = .ok p
    rw [readMetadata, hpresent]
    exact hreread _
  sound {n path es p} hes hr hn := by
    have hempty : Tree.Sound n (.record []) := by
      obtain ⟨m, rfl⟩ := Nat.exists_eq_add_of_le' (Nat.le_trans (Nat.le_add_left 1 h) hn)
      simp
    have hsound := (lawful_metadataRecord hpart hnodup).sound (getD_present? hes hempty) hr hn
    simpa [metadataField] using hsound

/-! ## Types -/

/-- The type of a block, which must be the name of the given kind. -/
def typeField (kind : BlockKind) : Fields Unit where
  keys := ["type"]
  read path es :=
    if kindOf? es = some kind then .ok () else .fail (path.child "type") .unknownBlockKind
  write _ := [("type", .string kind.name)]

theorem ofName?_name (kind : BlockKind) : BlockKind.ofName? kind.name = some kind := by
  cases hfind : BlockKind.ofName? kind.name with
  | none =>
    have hnot := List.find?_eq_none.mp hfind kind kind.mem_all
    simp at hnot
  | some k =>
    have hname : k.name = kind.name := by simpa using List.find?_some hfind
    rw [BlockKind.name_injective hname]

theorem typeField_read_eq_ok {kind : BlockKind} {path : Path} {es : Entries} :
    (typeField kind).read path es = .ok () ↔ kindOf? es = some kind := by
  by_cases hkind : kindOf? es = some kind <;> simp [typeField, hkind]

theorem lawful_typeField (kind : BlockKind) : (typeField kind).Lawful h where
  honest path es := by
    by_cases hkind : kindOf? es = some kind <;> simp [typeField, hkind]
  keys_write _ := List.Sublist.refl ["type"]
  reread _ _ _ _ es' hes' := by
    have hget : es'.get? "type" = some (.string kind.name) := hes'.get?
    exact typeField_read_eq_ok.mpr (by simp [kindOf?, hget, ofName?_name])
  sound _ _ _ := by simp [typeField]

/-! ## Fields of a kind of blocks -/

/-- The fields of the blocks of a kind, besides their type. -/
def bodyFields : BlockKind → Fields Block
  | .cell kind =>
    (headerFields |>.and contentField |>.and (metadataField (cellFields kind))).variant
      (fun ((header, content), (layout, cell), extra) => ⟨header, content, layout, .cell cell, extra⟩)
      fun b => match b.body with
        | .cell cell => some ((b.header, b.content), (b.layout, cell), b.extra)
        | .task .. => none
  | .task kind =>
    (headerFields |>.and contentField |>.and
        (metadataField (taskFields kind) |>.and executionFields)).variant
      (fun ((header, content), ((layout, run, job), extra), record) =>
        ⟨header, content, layout, .task job run record, extra⟩)
      fun b => match b.body with
        | .cell _ => none
        | .task job run record =>
          some ((b.header, b.content), ((b.layout, run, job), b.extra), record)

/-- All fields of the blocks of a kind. -/
def blockFields (kind : BlockKind) : Fields Block :=
  ((typeField kind).and (bodyFields kind)).imap Prod.snd fun b => ((), b)

theorem lawful_headerFields : headerFields.Lawful h :=
  (lawful_required _ lawful_string
    |>.and (lawful_required _ lawful_string)
    |>.and (lawful_required _ lawful_string)
    |>.and (lawful_optional _ lawful_contentHash)
    |>.and (lawful_optional _ lawful_unsigned)).imap fun _ => rfl

theorem lawful_contentField : contentField.Lawful h := lawful_optional _ lawful_string

theorem lawful_taskFields (kind : TaskKind) : (taskFields kind).Lawful (h + 2) :=
  lawful_runFields.and (lawful_jobFields kind)

theorem nodup_cellKeys (kind : CellKind) : (layoutFields.and (cellFields kind)).keys.Nodup := by
  cases kind <;> decide

theorem nodup_taskKeys (kind : TaskKind) : (layoutFields.and (taskFields kind)).keys.Nodup := by
  cases kind <;> decide

theorem nodup_blockKeys (kind : BlockKind) : (blockFields kind).keys.Nodup := by
  cases kind with
  | cell => exact (by decide : (["type", "id", "blockGroup", "sortingKey", "contentHash", "version",
      "content", "metadata"] : List String).Nodup)
  | task => exact (by decide : (["type", "id", "blockGroup", "sortingKey", "contentHash", "version",
      "content", "metadata", "executionCount", "executionStartedAt", "executionFinishedAt",
      "outputs"] : List String).Nodup)

theorem lawful_bodyFields (kind : BlockKind) : (bodyFields kind).Lawful (h + 3) := by
  have hleading := lawful_headerFields (h := h + 3) |>.and lawful_contentField
  cases kind with
  | cell kind =>
    have hmetadata := lawful_metadataField (lawful_cellFields (h := h + 2) kind) (nodup_cellKeys kind)
    exact (hleading.and hmetadata).variant fun _ => rfl
  | task kind =>
    have hmetadata := lawful_metadataField (lawful_taskFields (h := h) kind) (nodup_taskKeys kind)
    exact (hleading.and (hmetadata.and lawful_executionFields)).variant fun _ => rfl

theorem lawful_blockFields (kind : BlockKind) : (blockFields kind).Lawful (h + 3) :=
  ((lawful_typeField kind).and (lawful_bodyFields kind)).imap fun _ => rfl

/-! ## Blocks -/

theorem kind_of_cellFields {kind : CellKind} {path : Path} {es : Entries} {cell : Cell}
    (hr : ((cellFields kind).read path es).value = some cell) : cell.kind = kind := by
  cases kind <;>
    simp only [cellFields, constant, Fields.variant, Reading.value_map, Reading.ok] at hr <;>
    grind [Cell.kind]

theorem kind_of_jobFields {kind : TaskKind} {path : Path} {es : Entries} {job : Job}
    (hr : ((jobFields kind).read path es).value = some job) : job.kind = kind := by
  cases kind <;> simp only [jobFields, Fields.variant, Reading.value_map] at hr <;>
    grind [Job.kind]

/-- The part of the metadata that depends on the kind was read from some entries. -/
theorem part_of_readMetadata {part : Fields α} {path : Path} {es : Entries} {a : α}
    {layout : LayoutMetadata} {extra : Passthrough}
    (hr : (readMetadata part path es).value = some ((layout, a), extra)) :
    ∃ other fs, (part.read other fs).value = some a := by
  obtain ⟨fs, -, hfs⟩ := record_read_value.mp hr
  obtain ⟨p, hp, hextra⟩ := Reading.value_map.mp hfs
  obtain ⟨rfl, -⟩ := Prod.mk.inj hextra
  exact ⟨_, fs, (Reading.value_both.mp hp).2⟩

/-- A block has the kind that it was read for. -/
theorem kind_of_readBody {kind : BlockKind} {path : Path} {es : Entries} {layout : LayoutMetadata}
    {body : BlockBody} {extra : Passthrough}
    (hr : (readBody path es kind).value = some (layout, body, extra)) : body.kind = kind := by
  cases kind with
  | cell kind =>
    obtain ⟨⟨⟨_, cell⟩, _⟩, hmetadata, heq⟩ := Reading.value_map.mp hr
    obtain ⟨_, _, hcell⟩ := part_of_readMetadata hmetadata
    grind [BlockBody.kind, kind_of_cellFields hcell]
  | task kind =>
    obtain ⟨⟨⟨_, run, job⟩, _⟩, hmetadata, hr⟩ := Reading.value_andThen.mp hr
    obtain ⟨record, _, heq⟩ := Reading.value_map.mp hr
    obtain ⟨_, _, htask⟩ := part_of_readMetadata hmetadata
    grind [BlockBody.kind, kind_of_jobFields (Reading.value_both.mp htask).2]

theorem honest_readBody (path : Path) (es : Entries) (kind : BlockKind) :
    (readBody path es kind).Honest := by
  cases kind with
  | cell kind =>
    have hmetadata := lawful_metadataRecord (lawful_cellFields (h := 0) kind) (nodup_cellKeys kind)
    exact (hmetadata.honest _ _).map _
  | task kind =>
    have hmetadata := lawful_metadataRecord (lawful_taskFields (h := 0) kind) (nodup_taskKeys kind)
    refine (hmetadata.honest _ _).andThen fun p => ?_
    exact ((lawful_executionFields (h := 0)).honest path es).map _

theorem readBody_cell_eq_ok {kind : CellKind} {path : Path} {es : Entries} {layout : LayoutMetadata}
    {body : BlockBody} {extra : Passthrough} :
    readBody path es (.cell kind) = .ok (layout, body, extra) ↔
      ∃ cell, readMetadata (cellFields kind) path es = .ok ((layout, cell), extra) ∧
        body = .cell cell := by
  simp only [readBody, Reading.map_eq_ok_iff, Prod.exists]
  grind

theorem readBody_task_eq_ok {kind : TaskKind} {path : Path} {es : Entries} {layout : LayoutMetadata}
    {body : BlockBody} {extra : Passthrough} :
    readBody path es (.task kind) = .ok (layout, body, extra) ↔
      ∃ job run record, readMetadata (taskFields kind) path es = .ok ((layout, run, job), extra) ∧
        executionFields.read path es = .ok record ∧ body = .task job run record := by
  simp only [readBody, Reading.andThen_eq_ok_iff, Reading.map_eq_ok_iff, Prod.exists]
  grind

theorem readBlock_eq_ok {kind : BlockKind} {path : Path} {es : Entries} {b : Block} :
    readBlock kind path es = .ok b ↔
      headerFields.read path es = .ok b.header ∧ contentField.read path es = .ok b.content ∧
        readBody path es kind = .ok (b.layout, b.body, b.extra) := by
  obtain ⟨header, content, layout, body, extra⟩ := b
  simp only [readBlock, Reading.map_eq_ok_iff, Reading.both_eq_ok_iff, Prod.exists]
  grind

/-- A block of a kind is what its fields say. -/
theorem bodyFields_read_eq_ok {kind : BlockKind} {path : Path} {es : Entries} {b : Block} :
    (bodyFields kind).read path es = .ok b ↔ readBlock kind path es = .ok b := by
  rw [readBlock_eq_ok]
  obtain ⟨header, content, layout, body, extra⟩ := b
  cases kind with
  | cell kind =>
    simp only [readBody_cell_eq_ok, bodyFields, Fields.variant, Fields.and,
      metadataField, Reading.map_eq_ok_iff, Reading.both_eq_ok_iff, Prod.exists]
    grind
  | task kind =>
    simp only [readBody_task_eq_ok, bodyFields, Fields.variant, Fields.and,
      metadataField, Reading.map_eq_ok_iff, Reading.both_eq_ok_iff, Prod.exists]
    grind

theorem blockFields_read_eq_ok {kind : BlockKind} {path : Path} {es : Entries} {b : Block} :
    (blockFields kind).read path es = .ok b ↔
      kindOf? es = some kind ∧ readBlock kind path es = .ok b := by
  have htype : (typeField kind).read path es = .ok () ↔ kindOf? es = some kind :=
    typeField_read_eq_ok
  simp only [blockFields, Fields.imap, Fields.and, Reading.map_eq_ok_iff, Reading.both_eq_ok_iff,
    bodyFields_read_eq_ok, Prod.exists]
  grind

theorem block_read_eq_ok {path : Path} {t : Tree} {b : Block} :
    block.read path t = .ok b ↔ ∃ kind, (blockFields kind).record.read path t = .ok b := by
  cases t with
  | record es =>
    simp only [record, blockFields_read_eq_ok]
    cases hkind : kindOf? es <;> simp [block, hkind]
  | _ => simp [block, record]

/-- A block that was read is written with the fields of its kind. -/
theorem block_write_eq {kind : BlockKind} {path : Path} {t : Tree} {b : Block}
    (hr : (blockFields kind).record.read path t = .ok b) :
    block.write b = (blockFields kind).record.write b := by
  obtain ⟨es, rfl, hes⟩ := record_read_eq_ok.mp hr
  obtain ⟨-, -, hbody⟩ := readBlock_eq_ok.mp (blockFields_read_eq_ok.mp hes).2
  obtain rfl := kind_of_readBody (Reading.eq_ok_iff.mp hbody).1
  obtain ⟨header, content, layout, body, extra⟩ := b
  cases body with
  | cell cell => rfl
  | task job run record =>
    simp [block, writeBlock, writeMetadata, writeExecution, blockFields, bodyFields, Fields.imap,
      Fields.variant, Fields.and, typeField, metadataField, Fields.record, Block.kind,
      BlockBody.kind]

theorem lawful_block : block.Lawful (h + 4) where
  honest path t := by
    cases t with
    | record es =>
      cases hkind : kindOf? es with
      | none => simp [block, hkind]
      | some kind =>
        have hheader := (lawful_headerFields (h := h)).honest path es
        have hcontent := (lawful_contentField (h := h)).honest path es
        have hblock : (readBlock kind path es).Honest :=
          ((hheader.both hcontent).both (honest_readBody path es kind)).map _
        simpa [block, hkind] using hblock
    | _ => simp [block]
  present _ _ := rfl
  reread ht hr other := by
    obtain ⟨kind, hkind⟩ := block_read_eq_ok.mp hr
    have hlawful := (lawful_blockFields (h := h) kind).record (nodup_blockKeys kind)
    rw [block_write_eq hkind]
    exact block_read_eq_ok.mpr ⟨kind, hlawful.reread ht hkind other⟩
  sound ht hr hn := by
    obtain ⟨kind, hkind⟩ := block_read_eq_ok.mp hr
    have hlawful := (lawful_blockFields (h := h) kind).record (nodup_blockKeys kind)
    rw [block_write_eq hkind]
    exact hlawful.sound ht hkind hn

end NotebookProject.Schema
