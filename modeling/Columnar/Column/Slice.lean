import Columnar.Column.Basic

/-!
# Slices

A slice is a window of a column that shares its buffers.  The children of a struct have one row for
each slot, so they are sliced alongside; those of the other types are addressed through offsets or
positions and stay whole.
-/

namespace Columnar

namespace Column

mutual

/-- The `len` slots from `offset` on. -/
def slice (offset len : Nat) :
    Column → (sizes : Sizes := .unbounded) → Except Fault Column
  | ⟨type, n, start, _, buffers, children, dictionary⟩, sizes =>
    if sizes.fit (offset + len) ≤ n then do
      let below ←
        (if type.hasRowChildren then sliceAll offset len children sizes else .ok children)
      let first := sizes.fit (start + offset)
      let nulls ← countNulls type len first buffers sizes
      return ⟨type, len, first, nulls, buffers, below, dictionary⟩
    else (Misuse.slice offset (sizes.fit (offset + len)) n).stop

/-- The same window of several columns. -/
def sliceAll (offset len : Nat) :
    List Column → (sizes : Sizes := .unbounded) → Except Fault (List Column)
  | [], _ => .ok []
  | c :: cs, sizes => do
    return (← slice offset len c sizes) :: (← sliceAll offset len cs sizes)

end

end Column

end Columnar
