/-!
# Capital forms

Names of environment variables are formed from the capitals of a text, with an underscore for
each character that is no ASCII letter, digit or underscore. Besides the ASCII letters, a few
letters have ASCII characters in their capital form or have several characters there; the
tables below hold the shape of those. Every other character has one character, not an ASCII
one, as its capital form, or is its own.
-/

namespace NotebookProject.Text

/-- The ASCII letters, the digits and the underscore. -/
def isWord (c : Char) : Bool :=
  ('0' ≤ c && c ≤ '9') || ('a' ≤ c && c ≤ 'z') || ('A' ≤ c && c ≤ 'Z') || c == '_'

/-- The letters whose capital form has an ASCII character, with the shape of that form. -/
def asciiCapitals : List (Nat × List Char) :=
  [(0xDF, ['S', 'S']), (0x131, ['I']), (0x149, ['_', 'N']), (0x17F, ['S']), (0x1F0, ['J', '_']),
   (0x1E96, ['H', '_']), (0x1E97, ['T', '_']), (0x1E98, ['W', '_']), (0x1E99, ['Y', '_']),
   (0x1E9A, ['A', '_']), (0xFB00, ['F', 'F']), (0xFB01, ['F', 'I']), (0xFB02, ['F', 'L']),
   (0xFB03, ['F', 'F', 'I']), (0xFB04, ['F', 'F', 'L']), (0xFB05, ['S', 'T']), (0xFB06, ['S', 'T'])]

/-- The ranges of letters whose capital form is two characters, neither an ASCII one. -/
def twoCapitals : List (Nat × Nat) :=
  [(0x587, 0x587), (0x1F50, 0x1F50), (0x1F80, 0x1FAF), (0x1FB2, 0x1FB4), (0x1FB6, 0x1FB6),
   (0x1FBC, 0x1FBC), (0x1FC2, 0x1FC4), (0x1FC6, 0x1FC6), (0x1FCC, 0x1FCC), (0x1FD6, 0x1FD6),
   (0x1FE4, 0x1FE4), (0x1FE6, 0x1FE6), (0x1FF2, 0x1FF4), (0x1FF6, 0x1FF6), (0x1FFC, 0x1FFC),
   (0xFB13, 0xFB17)]

/-- The ranges of letters whose capital form is three characters, none an ASCII one. -/
def threeCapitals : List (Nat × Nat) :=
  [(0x390, 0x390), (0x3B0, 0x3B0), (0x1F52, 0x1F52), (0x1F54, 0x1F54), (0x1F56, 0x1F56),
   (0x1FB7, 0x1FB7), (0x1FC7, 0x1FC7), (0x1FD2, 0x1FD3), (0x1FD7, 0x1FD7), (0x1FE2, 0x1FE3),
   (0x1FE7, 0x1FE7), (0x1FF7, 0x1FF7)]

/-- The capital form of a character with an underscore for each character outside `isWord`. -/
def capitalShape (c : Char) : List Char :=
  let within (r : Nat × Nat) := r.1 ≤ c.toNat && c.toNat ≤ r.2
  if isWord c then [c.toUpper]
  else match asciiCapitals.lookup c.toNat with
    | some shape => shape
    | none =>
      if twoCapitals.any within then ['_', '_']
      else if threeCapitals.any within then ['_', '_', '_']
      else ['_']

end NotebookProject.Text
