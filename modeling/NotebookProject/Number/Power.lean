/-!
# Powers

The powers of two and of ten. The `k`th power of two is also the number of words of `k` bits.
-/

namespace NotebookProject

/-- The `k`th power of two. -/
def twoTo (k : Nat) : Nat := Nat.pow 2 k

/-- The `k`th power of ten. -/
def tenTo (k : Nat) : Nat := Nat.pow 10 k

end NotebookProject
