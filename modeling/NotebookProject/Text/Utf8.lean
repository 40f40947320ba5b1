/-!
# UTF-8

Decoding of octets. `decode` gives the characters of a well-formed sequence, or the number of
octets before the first one that belongs to no character; nothing is replaced. `decodeLossy`
decodes any sequence and replaces what belongs to no character.
-/

namespace NotebookProject.Text.Utf8

/-- The octets of a byte array, as numbers. -/
def octets (bytes : ByteArray) : List Nat :=
  bytes.data.toList.map UInt8.toNat

/-- A continuation octet. -/
def isTail (b : Nat) : Bool := 0x80 ≤ b && b ≤ 0xBF

/-- The payload of a continuation octet. -/
def payload (b : Nat) : Nat := b - 0x80

/-- The first character of a sequence and the octets after it. Overlong forms, surrogates and
values past the last code point are refused. -/
def step : List Nat → Option (Char × List Nat)
  | [] => none
  | a :: rest =>
    if a < 0x80 then some (Char.ofNat a, rest)
    else if 0xC2 ≤ a && a ≤ 0xDF then
      match rest with
      | b :: rest =>
        if isTail b then some (Char.ofNat ((a - 0xC0) * 64 + payload b), rest) else none
      | _ => none
    else if 0xE0 ≤ a && a ≤ 0xEF then
      match rest with
      | b :: c :: rest =>
        if isTail b && isTail c && (a != 0xE0 || 0xA0 ≤ b) && (a != 0xED || b ≤ 0x9F) then
          some (Char.ofNat ((a - 0xE0) * 4096 + payload b * 64 + payload c), rest)
        else none
      | _ => none
    else if 0xF0 ≤ a && a ≤ 0xF4 then
      match rest with
      | b :: c :: d :: rest =>
        if isTail b && isTail c && isTail d && (a != 0xF0 || 0x90 ≤ b) &&
            (a != 0xF4 || b ≤ 0x8F) then
          some (Char.ofNat ((a - 0xF0) * 262144 + payload b * 4096 + payload c * 64 + payload d),
            rest)
        else none
      | _ => none
    else none

/-- The octets of one character. -/
def encodeChar (c : Char) : List Nat :=
  let n := c.toNat
  if n < 0x80 then [n]
  else if n < 0x800 then [0xC0 + n / 64, 0x80 + n % 64]
  else if n < 0x10000 then [0xE0 + n / 4096, 0x80 + n / 64 % 64, 0x80 + n % 64]
  else [0xF0 + n / 262144, 0x80 + n / 4096 % 64, 0x80 + n / 64 % 64, 0x80 + n % 64]

/-- The number of octets of a character. -/
def width (c : Char) : Nat :=
  (encodeChar c).length

/-- Decodes with `fuel` steps at most; `done` counts the octets read and `cs` holds the
characters read, last first. -/
def decodeFrom : Nat → Nat → List Char → List Nat → Except Nat (List Char)
  | _, _, cs, [] => .ok cs.reverse
  | 0, done, _, _ => .error done
  | fuel + 1, done, cs, bs =>
    match step bs with
    | none => .error done
    | some (c, rest) => decodeFrom fuel (done + width c) (c :: cs) rest

/-- The characters of a well-formed sequence, or the offset of the first octet that is not part
of a whole character. -/
def decode (bs : List Nat) : Except Nat (List Char) :=
  decodeFrom bs.length 0 [] bs

/-- Whether the first of two octets starts a character of three or four octets that goes on with
the second. -/
def startsLong (a b : Nat) : Bool :=
  0xE0 ≤ a && a ≤ 0xF4 && isTail b && (a != 0xE0 || 0xA0 ≤ b) && (a != 0xED || b ≤ 0x9F) &&
    (a != 0xF0 || 0x90 ≤ b) && (a != 0xF4 || b ≤ 0x8F)

/-- How many octets a replacement character stands for where no character is: the beginning of a
character as far as it goes, and at least one octet. -/
def brokenLength : List Nat → Nat
  | a :: b :: rest =>
    if startsLong a b then if 0xF0 ≤ a && rest.head?.any isTail then 3 else 2 else 1
  | _ => 1

/-- Decodes with `fuel` steps at most, replacing what belongs to no character. -/
def decodeLossyFrom : Nat → List Nat → List Char
  | 0, _ => []
  | _, [] => []
  | fuel + 1, bs =>
    match step bs with
    | none => '\ufffd' :: decodeLossyFrom fuel (bs.drop (brokenLength bs))
    | some (c, rest) => c :: decodeLossyFrom fuel rest

/-- The characters of a sequence, with replacement characters where it is not well-formed. -/
def decodeLossy (bs : List Nat) : List Char :=
  decodeLossyFrom bs.length bs

/-- The octets of a text. -/
def encode (cs : List Char) : List Nat :=
  cs.flatMap encodeChar

/-- The number of octets of a text. -/
def size (cs : List Char) : Nat :=
  cs.foldr (fun c n => width c + n) 0

end NotebookProject.Text.Utf8
