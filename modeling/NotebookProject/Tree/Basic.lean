import NotebookProject.Number.Binary64

/-!
# Document trees

The untyped value of a document: null, booleans, numbers, strings, lists and records. A record
is a list of entries. Records that were read hold their entries in ascending key order, each key
once; records that are written hold them in the order of their schema.
-/

namespace NotebookProject

/-- A number is a whole number between `-2 ^ 63` and `2 ^ 64 - 1`, or a binary fraction. -/
inductive Number where
  | int (n : Int)
  | float (x : Binary64)
  deriving DecidableEq, Repr, Inhabited

namespace Number

/-- The number as an unsigned word. -/
def asUnsigned? : Number → Option Nat
  | .int n => if 0 ≤ n && n < twoTo 64 then some n.toNat else none
  | .float _ => none

/-- The number as a signed word. -/
def asSigned? : Number → Option Int
  | .int n => if -twoTo 63 ≤ n && n < twoTo 63 then some n else none
  | .float _ => none

/-- The text of a number in a given float layout. -/
def render (layout : FloatLayout) : Number → List Char
  | .int n => (if n < 0 then ['-'] else []) ++ Nat.toDigits 10 n.natAbs
  | .float x => layout.render x

end Number

/-- A document tree. -/
inductive Tree where
  | null
  | bool (b : Bool)
  | number (n : Number)
  | string (s : String)
  | list (items : List Tree)
  | record (entries : List (String × Tree))
  deriving Repr, Inhabited

/-- The entries of a record. -/
abbrev Entries := List (String × Tree)

namespace Entries

/-- The value of the first entry with this key. -/
def get? (es : Entries) (key : String) : Option Tree :=
  es.lookup key

/-- Puts an entry where ascending key order has it, in place of an entry with the same key. -/
def insert (key : String) (value : Tree) : Entries → Entries
  | [] => [(key, value)]
  | (k, v) :: rest =>
    if key < k then (key, value) :: (k, v) :: rest
    else if key == k then (key, value) :: rest
    else (k, v) :: insert key value rest

/-- The entries whose keys are not among `keys`. -/
def without (es : Entries) (keys : List String) : Entries :=
  es.filter fun e => !keys.contains e.1

end Entries

namespace Tree

def isNull : Tree → Bool
  | .null => true
  | _ => false

/-- The name of a value's kind. -/
def kindName : Tree → String
  | .null => "null"
  | .bool _ => "boolean"
  | .number _ => "number"
  | .string _ => "string"
  | .list _ => "array"
  | .record _ => "object"

mutual

/-- Equality of trees. -/
def eqv : Tree → Tree → Bool
  | .null, .null => true
  | .bool a, .bool b => a == b
  | .number a, .number b => a == b
  | .string a, .string b => a == b
  | .list as, .list bs => eqvItems as bs
  | .record as, .record bs => eqvEntries as bs
  | _, _ => false

def eqvItems : List Tree → List Tree → Bool
  | [], [] => true
  | a :: as, b :: bs => eqv a b && eqvItems as bs
  | _, _ => false

def eqvEntries : List (String × Tree) → List (String × Tree) → Bool
  | [], [] => true
  | (k, a) :: as, (l, b) :: bs => k == l && eqv a b && eqvEntries as bs
  | _, _ => false

end

mutual

theorem eqv_iff : (a b : Tree) → (eqv a b = true ↔ a = b)
  | .null, b => by cases b <;> simp [eqv]
  | .bool x, b => by cases b <;> simp [eqv]
  | .number x, b => by cases b <;> simp [eqv]
  | .string x, b => by cases b <;> simp [eqv]
  | .list as, b => by
    cases b with
    | list bs => simp [eqv, eqvItems_iff as bs]
    | _ => simp [eqv]
  | .record as, b => by
    cases b with
    | record bs => simp [eqv, eqvEntries_iff as bs]
    | _ => simp [eqv]

theorem eqvItems_iff : (as bs : List Tree) → (eqvItems as bs = true ↔ as = bs)
  | [], bs => by cases bs <;> simp [eqvItems]
  | a :: as, bs => by
    cases bs with
    | nil => simp [eqvItems]
    | cons b bs => simp [eqvItems, eqv_iff a b, eqvItems_iff as bs]

theorem eqvEntries_iff : (as bs : List (String × Tree)) → (eqvEntries as bs = true ↔ as = bs)
  | [], bs => by cases bs <;> simp [eqvEntries]
  | (k, a) :: as, bs => by
    cases bs with
    | nil => simp [eqvEntries]
    | cons e bs =>
      obtain ⟨l, b⟩ := e
      simp [eqvEntries, eqv_iff a b, eqvEntries_iff as bs]

end

instance : DecidableEq Tree := fun a b =>
  decidable_of_iff (eqv a b = true) (eqv_iff a b)

end Tree

end NotebookProject
