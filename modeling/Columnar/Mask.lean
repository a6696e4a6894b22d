import Columnar.Bits

/-!
# Masks: windows of packed bits

A `Mask` is a window of `len` bits of a region, from bit `offset` on.  Its meaning is the list of
bits `Mask.toList`; two masks are equal when their lists are, whatever their regions and offsets.

`Mask.make` and `Mask.slice` see to it that the window lies inside the region and inside the mask,
as far as the sums that they look at tell.
-/

namespace Columnar

/-- A window of bits. -/
structure Mask where
  bytes : Bytes
  offset : Nat
  len : Nat

namespace Mask

/-- The window of `len` bits from `offset` on. -/
def make (bytes : Bytes) (offset len : Nat) (sizes : Sizes := .unbounded) : Except Fault Mask :=
  if bytesFor (sizes.fit (offset + len)) ≤ bytes.size then .ok ⟨bytes, offset, len⟩
  else (Misuse.maskTooShort bytes.size len offset).stop

def isEmpty (m : Mask) : Bool := m.len = 0

/-- The bits in order. -/
def toList (m : Mask) (sizes : Sizes := .unbounded) : List Bool :=
  (List.range (sizes.fit (m.offset + m.len) - m.offset)).map fun i =>
    m.bytes.testBit (m.offset + i)

/-- Bit `i` of the window. -/
def get (m : Mask) (i : Nat) (sizes : Sizes := .unbounded) : Except Fault Bool :=
  if i < m.len then m.bytes.bit (sizes.fit (m.offset + i)) else (Misuse.maskIndex i m.len).stop

/-- Number of set bits. -/
def count (m : Mask) (sizes : Sizes := .unbounded) : Except Fault Nat :=
  m.bytes.countBits m.offset m.len sizes

/-- Number of clear bits: the nulls, when the mask tells validity. -/
def nulls (m : Mask) (sizes : Sizes := .unbounded) : Except Fault Nat := do
  return m.len - (← m.count sizes)

/-- The narrower window of `len` bits from `offset` on. -/
def slice (m : Mask) (offset len : Nat) (sizes : Sizes := .unbounded) : Except Fault Mask :=
  if sizes.fit (offset + len) ≤ m.len then .ok ⟨m.bytes, sizes.fit (m.offset + offset), len⟩
  else Misuse.maskSlice.stop

/-- The two masks have the same bits. -/
def same (m n : Mask) (sizes : Sizes := .unbounded) : Bool :=
  decide (m.len = n.len) && m.toList sizes == n.toList sizes

/-- The bits as zeros and ones in brackets. -/
def text (m : Mask) (sizes : Sizes := .unbounded) : String :=
  "[" ++ ", ".intercalate ((m.toList sizes).map fun b => if b then "1" else "0") ++ "]"

end Mask

end Columnar
