import NotebookProject.Block.Metadata
import NotebookProject.Number.Decimal
import NotebookProject.Source.Error
import NotebookProject.Source.Name
import NotebookProject.Source.Quoted

/-!
# Source of date ranges

A date range is a pair of dates: two given ones, the days or months up to today, or no dates for
any other name. A name that looks like a relative range must be one.
-/

namespace NotebookProject

/-- Ranges that end today. -/
inductive RelativeRange where
  | past7Days
  | past14Days
  | pastMonth
  | past3Months
  | past6Months
  | pastYear
  deriving DecidableEq, Repr, Inhabited

namespace RelativeRange

def all : List RelativeRange :=
  [.past7Days, .past14Days, .pastMonth, .past3Months, .past6Months, .pastYear]

def name : RelativeRange → String
  | .past7Days => "past7days"
  | .past14Days => "past14days"
  | .pastMonth => "pastMonth"
  | .past3Months => "past3months"
  | .past6Months => "past6months"
  | .pastYear => "pastYear"

/-- The range with this name. -/
def ofName? (s : String) : Except SourceError RelativeRange :=
  match all.find? fun r => r.name == s with
  | some r => .ok r
  | none => .error (.unknownRange s)

/-- The assignment of the range of the last days to a name, with its import. -/
def daysBack (name : String) (days : Nat) : String :=
  "from datetime import datetime as _deepnote_datetime, timedelta as _deepnote_timedelta\n" ++
  name ++ " = [_deepnote_datetime.now().date() - _deepnote_timedelta(days=" ++ toString days ++
  "), _deepnote_datetime.now().date()]"

/-- The assignment of the range of a calendar period to a name, with its imports. -/
def calendarBack (name period : String) : String :=
  "from datetime import datetime as _deepnote_datetime\n" ++
  "from dateutil.relativedelta import relativedelta as _deepnote_relativedelta\n" ++
  name ++ " = [_deepnote_datetime.now().date() - _deepnote_relativedelta(" ++ period ++
  "), _deepnote_datetime.now().date()]"

/-- The assignment of the range to a name, with its imports. -/
def source (r : RelativeRange) (name : String) : String :=
  match r with
  | .past7Days => daysBack name 7
  | .past14Days => daysBack name 14
  | .pastMonth => calendarBack name "months=1"
  | .past3Months => calendarBack name "months=3"
  | .past6Months => calendarBack name "months=6"
  | .pastYear => calendarBack name "years=1"

end RelativeRange

namespace Source

/-- One end of a range. -/
def dateOf (s : String) : String :=
  if s.isEmpty then "None" else "_deepnote_parse(" ++ quote s ++ ").date()"

/-- In front of the number of days of a range of one's own. -/
def customDaysWord : String := "customDays"

/-- The number of days in a name of the form `customDaysN`. It fits a 64-bit word. -/
def customDays? (s : String) : Option Nat :=
  let word := customDaysWord.toList
  if word.isPrefixOf s.toList then
    (Decimal.nat? 10 (s.toList.drop word.length)).filter fun n => n < twoTo 64
  else none

/-- The assignment of a date range. -/
def dateRange (f : DateRangeInput) : Except SourceError String :=
  let name := nameOf f.base.variableName
  match f.value with
  | .between first last =>
    .ok ("from dateutil.parser import parse as _deepnote_parse\n" ++ name ++ " = [" ++
      dateOf first ++ ", " ++ dateOf last ++ "]")
  | .named word =>
    match customDays? word with
    | some days => .ok (RelativeRange.daysBack name days)
    | none =>
      if word.startsWith "past" || word.startsWith customDaysWord then
        (RelativeRange.ofName? word).map fun r => r.source name
      else .ok (name ++ " = [None, None]")

end Source

end NotebookProject
