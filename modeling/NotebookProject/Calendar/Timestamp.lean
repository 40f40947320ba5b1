/-!
# Timestamps

The date-time texts of RFC 3339: date, separator, time of day, a fraction or none, and an offset.
The separator is `T`, `t` or one space. The date must exist. A minute may have a second 60. The
offset is `Z`, `z` or signed hours and minutes below a day; the sign may be the minus sign
`U+2212`.
-/

namespace NotebookProject.Calendar

/-- The value of a decimal digit. -/
def digit? (c : Char) : Option Nat :=
  if c.isDigit then some (c.toNat - '0'.toNat) else none

/-- Two digits and the text after them. -/
def twoDigits : List Char → Option (Nat × List Char)
  | a :: b :: rest => do return (10 * (← digit? a) + (← digit? b), rest)
  | _ => none

/-- The text after a given character. -/
def after (c : Char) : List Char → Option (List Char)
  | d :: rest => if c == d then some rest else none
  | [] => none

def isLeapYear (year : Nat) : Bool :=
  year % 4 == 0 && (year % 100 != 0 || year % 400 == 0)

/-- The number of days of a month, counted from one. -/
def daysIn (year month : Nat) : Nat :=
  if month == 2 then (if isLeapYear year then 29 else 28)
  else if month == 4 || month == 6 || month == 9 || month == 11 then 30
  else 31

/-- A date that exists, and the text after it. -/
def date (cs : List Char) : Option (List Char) := do
  let (century, cs) ← twoDigits cs
  let (year, cs) ← twoDigits cs
  let cs ← after '-' cs
  let (month, cs) ← twoDigits cs
  let cs ← after '-' cs
  let (day, cs) ← twoDigits cs
  let year := 100 * century + year
  if 1 ≤ month && month ≤ 12 && 1 ≤ day && day ≤ daysIn year month then some cs else none

/-- The text after the separator of date and time. -/
def separator : List Char → Option (List Char)
  | c :: rest => if c == 'T' || c == 't' || c == ' ' then some rest else none
  | [] => none

/-- The text after a fraction of a second, if there is a point. -/
def fraction : List Char → Option (List Char)
  | '.' :: rest =>
    if (rest.takeWhile Char.isDigit).isEmpty then none else some (rest.dropWhile Char.isDigit)
  | cs => some cs

/-- A time of day, and the text after it. -/
def timeOfDay (cs : List Char) : Option (List Char) := do
  let (hour, cs) ← twoDigits cs
  let cs ← after ':' cs
  let (minute, cs) ← twoDigits cs
  let cs ← after ':' cs
  let (second, cs) ← twoDigits cs
  if hour ≤ 23 && minute ≤ 59 && second ≤ 60 then fraction cs else none

/-- The text after an offset from universal time. -/
def offset : List Char → Option (List Char)
  | [] => none
  | c :: rest =>
    if c == 'Z' || c == 'z' then some rest
    else if c == '+' || c == '-' || c == '\u2212' then do
      let (hours, cs) ← twoDigits rest
      let cs ← after ':' cs
      let (minutes, cs) ← twoDigits cs
      if hours ≤ 23 && minutes ≤ 59 then some cs else none
    else none

/-- Whether a text is a timestamp. -/
def isTimestamp (s : String) : Bool :=
  let rest := do
    let cs ← date s.toList
    let cs ← separator cs
    let cs ← timeOfDay cs
    offset cs
  rest == some []

end NotebookProject.Calendar
