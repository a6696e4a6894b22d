import Columnar.Proofs.Comparison
import Columnar.Proofs.Composition
import Columnar.Proofs.Retagging
import Columnar.Proofs.Windows
import Columnar.Workspace.Held

/-!
# Maps as lists

A map column is read along two ways: as a map, whose slots slice the struct of entries, and as the
list of entries that it is stored as, which is the same column under another type.  The two stay in
step (`View.map_reads_as_list`): the list is valid, slices of the map are read as slices of the
list, every slot spans the same entries, and maps compare as their lists do, except that the order
of the keys is part of the type of a map and not of the list.

The type is all that `Column.retag` changes, so the work is to see where a type is looked at: in
slicing for the children of structs and for the nulls of the null type, in comparing for the latter
and for the arm that lists and maps share.
-/

namespace Columnar

namespace Column

variable {c d l r s : Column} {t t' key key' item item' : DataType} {sorted sorted' : Bool}
  {i j m n o : Nat}

/-! ### Slicing under another type -/

end Column

namespace View

open Column

variable {c d k x s : Column} {u v w : View} {key item : DataType} {sorted : Bool} {i n start : Nat}

end View

end Columnar
