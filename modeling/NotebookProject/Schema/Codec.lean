import NotebookProject.Calendar.Timestamp
import NotebookProject.Schema.Issue

/-!
# Codecs

A codec describes one kind of value: how it is read from a tree, with the issues of a tree that
does not hold one, and how it is written back. Lists and records of strings to values read every
item and have a value only if all items have one.
-/

namespace NotebookProject.Schema

/-- How values of a type are read and written. -/
structure Codec (α : Type) where
  read : Path → Tree → Reading α
  write : α → Tree

namespace Codec

variable {α β : Type}

/-- A codec for the same trees and other values. -/
def imap (c : Codec α) (into : α → β) (back : β → α) : Codec β where
  read path t := (c.read path t).map into
  write b := c.write (back b)

/-- Values that are further restricted. -/
def refine (c : Codec α) (holds : α → Bool) (problem : Problem) : Codec α where
  read path t := (c.read path t).andThen fun a => if holds a then .ok a else .fail path problem
  write := c.write

/-- Any tree. -/
def tree : Codec Tree where
  read _ t := .ok t
  write t := t

def string : Codec String where
  read path
    | .string s => .ok s
    | t => .wrongKind path "string" t
  write := .string

def bool : Codec Bool where
  read path
    | .bool b => .ok b
    | t => .wrongKind path "boolean" t
  write := .bool

def number : Codec Number where
  read path
    | .number n => .ok n
    | t => .wrongKind path "number" t
  write := .number

/-- An unsigned word. -/
def unsigned : Codec Nat where
  read path t := (number.read path t).andThen fun n =>
    match n.asUnsigned? with
    | some k => .ok k
    | none => .fail path .notUnsigned
  write n := .number (.int n)

/-- A signed word. -/
def signed : Codec Int where
  read path t := (number.read path t).andThen fun n =>
    match n.asSigned? with
    | some k => .ok k
    | none => .fail path .notSigned
  write n := .number (.int n)

/-- A list of any trees. -/
def trees : Codec (List Tree) where
  read path
    | .list ts => .ok ts
    | t => .wrongKind path "array" t
  write := .list

/-- A record of any entries. -/
def entries : Codec Entries where
  read path
    | .record es => .ok es
    | t => .wrongKind path "object" t
  write := .record

/-- A date and time, kept as text. -/
def timestamp : Codec String := string.refine Calendar.isTimestamp .invalidTimestamp

/-- A lower-case ASCII letter or a digit. -/
def isHashPrefix (c : Char) : Bool := ('a' ≤ c && c ≤ 'z') || c.isDigit

/-- A lower-case hexadecimal digit. -/
def isHexDigit (c : Char) : Bool := ('a' ≤ c && c ≤ 'f') || c.isDigit

/-- Hexadecimal digits, perhaps with the name of the method and a colon in front. -/
def isContentHash (s : String) : Bool :=
  let cs := s.toList
  let front := cs.takeWhile fun c => c != ':'
  let isDigest (ds : List Char) := !ds.isEmpty && ds.all isHexDigit
  match cs.dropWhile fun c => c != ':' with
  | _ :: digest => !front.isEmpty && front.all isHashPrefix && isDigest digest
  | [] => isDigest cs

def contentHash : Codec String := string.refine isContentHash .invalidHash

/-- One of a closed set of names. -/
def choice (choices : List α) (name : α → String) : Codec α where
  read path t :=
    let found := match t with
      | .string s => choices.find? fun a => name a == s
      | _ => none
    match found with
    | some a => .ok a
    | none =>
      let received := match t with
        | .string s => "'" ++ s ++ "'"
        | t => t.kindName
      .fail path (.notAmong (choices.map name) received)
  write a := .string (name a)

/-- Reads the items of a list from `index` on. -/
def readItems (c : Codec α) (path : Path) (index : Nat) : List Tree → Reading (List α)
  | [] => .ok []
  | t :: rest =>
    ((c.read (path.item index) t).both (readItems c path (index + 1) rest)).map
      fun (a, as) => a :: as

/-- A list of values. -/
def list (c : Codec α) : Codec (List α) where
  read path
    | .list ts => readItems c path 0 ts
    | t => .wrongKind path "array" t
  write as := .list (as.map c.write)

/-- Reads the values of a record. -/
def readValues (c : Codec α) (path : Path) : Entries → Reading (List (String × α))
  | [] => .ok []
  | (k, t) :: rest =>
    ((c.read (path.child k) t).both (readValues c path rest)).map fun (a, as) => (k, a) :: as

/-- A record from any keys to values. -/
def dictionary (c : Codec α) : Codec (List (String × α)) where
  read path
    | .record es => readValues c path es
    | t => .wrongKind path "object" t
  write as := .record (as.map fun (k, a) => (k, c.write a))

end Codec

end NotebookProject.Schema
