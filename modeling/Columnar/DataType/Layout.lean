import Columnar.DataType.Basic

/-!
# Physical layout of types

The layout of a type lists the buffers that a column of the type owns, in order.  Child columns are
not part of it.
-/

namespace Columnar

/-- What one buffer of a column holds. -/
inductive BufferKind where
  /-- No memory: every slot is null. -/
  | alwaysNull
  /-- One bit for each slot, least significant bit first. -/
  | bitmap
  /-- `width` bytes for each slot. -/
  | fixedWidth (width : Nat)
  /-- Bytes addressed by the offsets in the buffer before. -/
  | variableWidth
  deriving DecidableEq, Repr

/-- The buffers of a type, and whether a dictionary rides along. -/
structure Layout where
  buffers : List BufferKind
  hasDictionary : Bool := false
  deriving DecidableEq, Repr

namespace DataType

/-- Bits of one value, for types of a fixed width.  A dictionary type has the width of its index. -/
def bitWidth? : DataType → Option Nat
  | bool => some 1
  | num t => some (8 * t.width)
  | dictionary index _ _ => some (8 * index.width)
  | _ => none

/-- Bytes of one value, for types of a fixed width in whole bytes. -/
def byteWidth? : DataType → Option Nat
  | num t => some t.width
  | dictionary index _ _ => some index.width
  | _ => none

/-- The buffers of a column of this type. -/
def layout : DataType → Layout
  | null => { buffers := [.alwaysNull] }
  | bool => { buffers := [.bitmap, .bitmap] }
  | num t => { buffers := [.bitmap, .fixedWidth t.width] }
  | utf8 | binary => { buffers := [.bitmap, .fixedWidth 4, .variableWidth] }
  | list _ | map _ _ _ => { buffers := [.bitmap, .fixedWidth 4] }
  | fixedList _ _ | struct _ => { buffers := [.bitmap] }
  | dictionary index _ _ =>
    { buffers := [.bitmap, .fixedWidth index.width], hasDictionary := true }

/-- The types whose slots are delimited by offsets in buffer 1. -/
def hasOffsets : DataType → Bool
  | utf8 | binary | list _ | map _ _ _ => true
  | _ => false

/-- The byte width is the bit width in whole bytes, where there is one. -/
theorem byteWidth?_eq (t : DataType) :
    t.byteWidth? = (t.bitWidth?.filter (· % 8 = 0)).map (· / 8) := by
  cases t <;> simp [byteWidth?, bitWidth?, Option.filter]

end DataType

end Columnar
