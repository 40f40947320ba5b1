import NotebookProject.Schema.Codec

/-!
# Fields of records

The declared fields of a record: their keys, how they are read from the record's entries and how
they are written back, in the order of their declaration. A null counts as an absent field. A
record drops the entries that no field declares; an open record keeps them and writes them last.
-/

namespace NotebookProject.Schema

/-- The declared fields of records of a type. -/
structure Fields (α : Type) where
  keys : List String
  read : Path → Entries → Reading α
  write : α → Entries

/-- The value of a key that is present and not null. -/
def present? (es : Entries) (key : String) : Option Tree :=
  (es.get? key).filter fun t => !t.isNull

namespace Fields

variable {α β : Type}

/-- No field. -/
def constant (a : α) : Fields α where
  keys := []
  read _ _ := .ok a
  write _ := []

/-- A field that must be present. -/
def required (key : String) (c : Codec α) : Fields α where
  keys := [key]
  read path es :=
    match present? es key with
    | some t => c.read (path.child key) t
    | none => .fail (path.child key) .required
  write a := [(key, c.write a)]

/-- Reads a field that may be absent. -/
def readOptional (key : String) (c : Codec α) (path : Path) (es : Entries) : Reading (Option α) :=
  match present? es key with
  | some t => (c.read (path.child key) t).attempt
  | none => .ok none

/-- A field that may be absent, and is not written then. -/
def optional (key : String) (c : Codec α) : Fields (Option α) where
  keys := [key]
  read := readOptional key c
  write a := match a with
    | some a => [(key, c.write a)]
    | none => []

/-- A field that may be absent, and is written as null then. -/
def nullable (key : String) (c : Codec α) : Fields (Option α) where
  keys := [key]
  read := readOptional key c
  write a := [(key, match a with
    | some a => c.write a
    | none => .null)]

/-- A field with a default in place of an absent value. -/
def withDefault (key : String) (c : Codec α) (d : α) : Fields α where
  keys := [key]
  read path es :=
    match present? es key with
    | some t => (c.read (path.child key) t).withDefault d
    | none => .ok d
  write a := [(key, c.write a)]

/-- A field with a default that must not be null once its key exists. -/
def unlessAbsent (key : String) (c : Codec α) (d : α) : Fields α where
  keys := [key]
  read path es :=
    match es.get? key with
    | some t => (c.read (path.child key) t).withDefault d
    | none => .ok d
  write a := [(key, c.write a)]

/-- The fields of two descriptions, in order. -/
def and (f : Fields α) (g : Fields β) : Fields (α × β) where
  keys := f.keys ++ g.keys
  read path es := (f.read path es).both (g.read path es)
  write a := f.write a.1 ++ g.write a.2

/-- The fields of two descriptions, where the second ones are read before the first. -/
def andFirst (f : Fields α) (g : Fields β) : Fields (α × β) where
  keys := f.keys ++ g.keys
  read path es := ((g.read path es).both (f.read path es)).map Prod.swap
  write a := f.write a.1 ++ g.write a.2

/-- The same fields, for another type of records. -/
def imap (f : Fields α) (into : α → β) (back : β → α) : Fields β where
  keys := f.keys
  read path es := (f.read path es).map into
  write b := f.write (back b)

/-- The same fields, for one variant of a type. Other variants have none. -/
def variant (f : Fields α) (into : α → β) (back : β → Option α) : Fields β where
  keys := f.keys
  read path es := (f.read path es).map into
  write b := match back b with
    | some a => f.write a
    | none => []

/-- The fields together with the entries that none of them declares. -/
def openEnded (f : Fields α) : Fields (α × Entries) where
  keys := f.keys
  read path es := (f.read path es).map fun a => (a, es.without f.keys)
  write a := f.write a.1 ++ a.2

/-- Records with these fields. -/
def record (f : Fields α) : Codec α where
  read path
    | .record es => f.read path es
    | t => .wrongKind path "object" t
  write a := .record (f.write a)

end Fields

end NotebookProject.Schema
