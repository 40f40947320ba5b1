import NotebookProject.Schema.Metadata

/-!
# Blocks in documents

A block is a record with a `type`. Its metadata may be missing, but when it is there it must be a
record; without it nothing after it is read.
-/

namespace NotebookProject.Schema

open Fields Codec

/-- The fields that every block carries. -/
def headerFields : Fields BlockHeader :=
  (required "id" string
    |>.and (required "blockGroup" string)
    |>.and (required "sortingKey" string)
    |>.and (optional "contentHash" contentHash)
    |>.and (optional "version" unsigned)).imap
    (fun ((((a, b), c), d), e) => ⟨a, b, c, d, e⟩)
    (fun h => ((((h.id, h.group), h.sortingKey), h.contentHash), h.version))

def contentField : Fields (Option String) := optional "content" string

/-- The metadata of a block: the layout flags, the part that depends on the block, and the
entries that neither declares. -/
def metadataFields {α : Type} (part : Fields α) : Fields ((LayoutMetadata × α) × Passthrough) :=
  (layoutFields.and part).openEnded

/-- Reads the metadata of a block. Missing metadata counts as an empty record. -/
def readMetadata {α : Type} (part : Fields α) (path : Path) (es : Entries) :
    Reading ((LayoutMetadata × α) × Passthrough) :=
  (metadataFields part).record.read (path.child "metadata")
    ((present? es "metadata").getD (.record []))

/-- The metadata fields of a job: those of its run, then its own. -/
def taskFields (kind : TaskKind) : Fields (RunMetadata × Job) :=
  runFields.and (jobFields kind)

/-- The kind that a block's `type` names. -/
def kindOf? (es : Entries) : Option BlockKind :=
  match es.get? "type" with
  | some (.string s) => BlockKind.ofName? s
  | _ => none

/-- Reads the body of a block with what its metadata holds besides. -/
def readBody (path : Path) (es : Entries) :
    BlockKind → Reading (LayoutMetadata × BlockBody × Passthrough)
  | .cell kind =>
    (readMetadata (cellFields kind) path es).map fun ((layout, cell), extra) =>
      (layout, .cell cell, extra)
  | .task kind =>
    (readMetadata (taskFields kind) path es).andThen fun ((layout, run, job), extra) =>
      (executionFields.read path es).map fun record => (layout, .task job run record, extra)

/-- Reads a block of a kind. -/
def readBlock (kind : BlockKind) (path : Path) (es : Entries) : Reading Block :=
  (((headerFields.read path es).both (contentField.read path es)).both (readBody path es kind)).map
    fun ((header, content), layout, body, extra) => ⟨header, content, layout, body, extra⟩

/-- The metadata record of a block. -/
def writeMetadata (b : Block) : Tree :=
  match b.body with
  | .cell cell =>
    .record ((metadataFields (cellFields cell.kind)).write ((b.layout, cell), b.extra))
  | .task job run _ =>
    .record ((metadataFields (taskFields job.kind)).write ((b.layout, run, job), b.extra))

/-- The execution record of a block, for those that have one. -/
def writeExecution (b : Block) : Entries :=
  match b.body with
  | .cell _ => []
  | .task _ _ record => executionFields.write record

/-- Writes a block: its type, header, content, metadata and execution record. -/
def writeBlock (b : Block) : Tree :=
  .record (("type", .string b.kind.name) :: (headerFields.write b.header ++
    contentField.write b.content ++ ("metadata", writeMetadata b) :: writeExecution b))

/-- Blocks. -/
def block : Codec Block where
  read path
    | .record es =>
      match kindOf? es with
      | some kind => readBlock kind path es
      | none => .fail (path.child "type") .unknownBlockKind
    | t => .wrongKind path "object" t
  write := writeBlock

end NotebookProject.Schema
