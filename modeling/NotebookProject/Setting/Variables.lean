/-!
# Variables

The named texts that a program runs with. A name stands in the list once, and its first value
stays.
-/

namespace NotebookProject

/-- Names with their values, in the order in which they were set. -/
abbrev Variables := List (String × String)

namespace Variables

def get? (vars : Variables) (name : String) : Option String := vars.lookup name

/-- Sets a variable unless it has a value already. -/
def define (vars : Variables) (name value : String) : Variables :=
  if (vars.get? name).isSome then vars else vars ++ [(name, value)]

end Variables

end NotebookProject
