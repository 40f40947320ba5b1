/-!
# Values without source

Stored values that no source can be generated from.
-/

namespace NotebookProject

/-- Why a block has no source. -/
inductive SourceError where
  | invalidSlider (variableName value : String)
  | unknownRange (name : String)
  deriving DecidableEq, Repr, Inhabited

def SourceError.message : SourceError → String
  | .invalidSlider variableName value =>
    "Invalid numeric value for slider input '" ++ variableName ++ "': '" ++ value ++ "'"
  | .unknownRange name => "Unknown relative date range: '" ++ name ++ "'"

end NotebookProject
