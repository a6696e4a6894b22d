import Columnar.Bits
import Columnar.Memory.Allocator

/-!
# Buffers

A `Buffer` is a frozen byte region.  A `GrowBuffer` is one that is still written: `len` visible
bytes at the front of a region whose size is the capacity, a multiple of the alignment.  Growth at
least doubles the capacity.
-/

namespace Columnar

/-- A frozen region.  `capacity` is the size that was allocated for it, and `tracked` tells whether
that size counts as outstanding memory. -/
structure Buffer where
  bytes : Bytes
  capacity : Nat
  tracked : Bool
  deriving DecidableEq

namespace Buffer

/-- A region of exactly these bytes. -/
def ofBytes (bytes : Bytes) (tracked : Bool) : Buffer := ⟨bytes, bytes.size, tracked⟩

def size (b : Buffer) : Nat := b.bytes.size

/-- Bytes that count as outstanding. -/
def memory (b : Buffer) : Nat := if b.tracked then b.capacity else 0

/-- Length, capacity and the number of handles, in words. -/
def text (b : Buffer) (refs : Int) : String :=
  "Buffer \x7b len: " ++ toString b.size ++ ", capacity: " ++ toString b.capacity ++ ", refs: "
    ++ toString refs ++ " \x7d"

end Buffer

/-- A region being written.  The bytes of `region` past `len` are spare. -/
structure GrowBuffer where
  region : Bytes
  len : Nat
  tracked : Bool
  deriving DecidableEq

namespace GrowBuffer

/-- An empty buffer with room for `capacity` bytes. -/
def make (capacity : Nat) (tracked : Bool) (sizes : Sizes := .unbounded) : GrowBuffer :=
  ⟨Bytes.zeros (roundUp capacity sizes), 0, tracked⟩

/-- An empty buffer without room. -/
def empty (tracked : Bool) : GrowBuffer := ⟨#[], 0, tracked⟩

def capacity (b : GrowBuffer) : Nat := b.region.size

/-- The visible bytes. -/
def bytes (b : GrowBuffer) : Bytes := b.region.extract 0 b.len

/-- Bytes that count as outstanding. -/
def memory (b : GrowBuffer) : Nat := if b.tracked then b.capacity else 0

/-- The capacity after `reallocate`: the wanted one rounded up, never below the length. -/
def reallocated (b : GrowBuffer) (capacity : Nat) (sizes : Sizes := .unbounded) : Nat :=
  roundUp (max capacity b.len) sizes

/-- Grows or shrinks the region; the visible bytes stay. -/
def reallocate (b : GrowBuffer) (capacity : Nat) (sizes : Sizes := .unbounded) : GrowBuffer :=
  let target := b.reallocated capacity sizes
  if target = b.capacity then b else { b with region := b.region.resized target }

/-- The capacity after `reserve`. -/
def reserved (b : GrowBuffer) (additional : Nat) (sizes : Sizes := .unbounded) : Nat :=
  let required := sizes.fit (b.len + additional)
  if b.capacity < required then
    b.reallocated (max (roundUp required sizes) (b.capacity * 2)) sizes
  else b.capacity

/-- Makes room for `additional` more bytes. -/
def reserve (b : GrowBuffer) (additional : Nat) (sizes : Sizes := .unbounded) : GrowBuffer :=
  let required := sizes.fit (b.len + additional)
  if b.capacity < required then
    b.reallocate (max (roundUp required sizes) (b.capacity * 2)) sizes
  else b

/-- `reserve`, refused where no region can be that large. -/
def reserveAddressable (b : GrowBuffer) (additional : Nat) (sizes : Sizes := .unbounded) :
    Except Fault GrowBuffer :=
  if b.reserved additional sizes ≤ maxRegion then .ok (b.reserve additional sizes)
  else (Misuse.unaddressable (b.reserved additional sizes)).stop

/-- Adds bytes at the end. -/
def append (b : GrowBuffer) (src : Bytes) (sizes : Sizes := .unbounded) : GrowBuffer :=
  let b := b.reserve src.size sizes
  { b with region := b.region.overwrite b.len src.toList, len := b.len + src.size }

/-- Sets the length; new bytes are `v`. -/
def resize (b : GrowBuffer) (len : Nat) (v : UInt8) (sizes : Sizes := .unbounded) :
    GrowBuffer :=
  if b.len < len then
    let grown := b.reserve (len - b.len) sizes
    { grown with region := grown.region.fill b.len v (len - b.len), len := len }
  else { b with len := len }

/-- Drops the bytes from `len` on. -/
def truncate (b : GrowBuffer) (len : Nat) : GrowBuffer :=
  if len < b.len then { b with len := len } else b

/-- Drops all bytes; the capacity stays. -/
def clear (b : GrowBuffer) : GrowBuffer := { b with len := 0 }

/-- Writes the visible byte `i`. -/
def setByte (b : GrowBuffer) (i : Nat) (v : UInt8) : Except Fault GrowBuffer :=
  if i < b.len then .ok { b with region := b.region.setIfInBounds i v } else .error .outOfRange

/-- Writes the visible word `i` of `width` bytes. -/
def setWord (b : GrowBuffer) (width i word : Nat) : Except Fault GrowBuffer :=
  if i < b.len / width then
    .ok { b with region := b.region.overwrite (i * width) (Bytes.digits width word) }
  else .error .outOfRange

/-- Sets or clears the visible bit `i`; nothing changes past the end. -/
def putBit (b : GrowBuffer) (i : Nat) (v : Bool) : GrowBuffer :=
  if i / 8 < b.len then { b with region := b.region.putBit i v } else b

/-- Sets or clears the `n` visible bits from `i` on; nothing changes past the end. -/
def putBits (b : GrowBuffer) (i : Nat) (v : Bool) : (n : Nat) → GrowBuffer
  | 0 => b
  | n + 1 => (b.putBit i v).putBits (i + 1) v n

/-- The word of `width` bytes at word position `i` of the visible bytes. -/
def wordAt (b : GrowBuffer) (width i : Nat) : Nat := b.region.wordAt width i

/-- Gives the region away unchanged. -/
def freeze (b : GrowBuffer) : Buffer := ⟨b.bytes, b.capacity, b.tracked⟩

/-- Length and capacity in words. -/
def text (b : GrowBuffer) : String :=
  "MutableBuffer \x7b len: " ++ toString b.len ++ ", capacity: " ++ toString b.capacity ++ " \x7d"

/-! ### Operations as data -/

/-- What can be done to a buffer being written. -/
inductive Op where
  | append (src : Bytes)
  | reserve (additional : Nat)
  | reallocate (capacity : Nat)
  | resize (len : Nat) (v : UInt8)
  | truncate (len : Nat)
  | clear
  | setByte (i : Nat) (v : UInt8)
  | setWord (width i word : Nat)
  deriving DecidableEq

/-- The capacity that the operation leaves behind. -/
def Op.target (b : GrowBuffer) (op : Op) (sizes : Sizes := .unbounded) : Nat :=
  match op with
  | .append src => b.reserved src.size sizes
  | .reserve additional => b.reserved additional sizes
  | .reallocate capacity => b.reallocated capacity sizes
  | .resize len _ => if b.len < len then b.reserved (len - b.len) sizes else b.capacity
  | .truncate _ | .clear | .setByte _ _ | .setWord _ _ _ => b.capacity

/-- Does the operation. -/
def apply (b : GrowBuffer) (op : Op) (sizes : Sizes := .unbounded) : Except Fault GrowBuffer :=
  match op with
  | .append src => .ok (b.append src sizes)
  | .reserve additional => .ok (b.reserve additional sizes)
  | .reallocate capacity => .ok (b.reallocate capacity sizes)
  | .resize len v => .ok (b.resize len v sizes)
  | .truncate len => .ok (b.truncate len)
  | .clear => .ok b.clear
  | .setByte i v => b.setByte i v
  | .setWord width i word => b.setWord width i word

variable {sizes : Sizes}

@[simp] theorem capacity_reallocate (b : GrowBuffer) (n : Nat) :
    (b.reallocate n sizes).capacity = b.reallocated n sizes := by
  simp only [reallocate]
  split
  · next h => exact h.symm
  · simp [capacity, Bytes.size_resized]

@[simp] theorem capacity_reserve (b : GrowBuffer) (n : Nat) :
    (b.reserve n sizes).capacity = b.reserved n sizes := by
  simp only [reserve, reserved]
  split <;> simp

/-- An operation leaves the capacity that it announces. -/
theorem capacity_apply {b c : GrowBuffer} {op : Op} (h : b.apply op sizes = .ok c) :
    c.capacity = op.target b sizes := by
  cases op <;> simp only [apply, Except.ok.injEq] at h
  case append src =>
    subst h
    simpa [append, Op.target, capacity, Bytes.size_overwrite] using capacity_reserve b src.size
  case resize len v =>
    subst h
    simp only [resize, Op.target]
    split
    · simpa [capacity, Bytes.size_fill] using capacity_reserve b (len - b.len)
    · rfl
  case truncate len => subst h; simp only [truncate, Op.target]; split <;> rfl
  case setByte i v =>
    simp only [setByte] at h
    split at h <;> simp_all only [Except.ok.injEq, reduceCtorEq]
    subst h; simp [Op.target, capacity]
  case setWord width i word =>
    simp only [setWord] at h
    split at h <;> simp_all only [Except.ok.injEq, reduceCtorEq]
    subst h; simp [Op.target, capacity, Bytes.size_overwrite]
  all_goals subst h; simp [Op.target]
  case clear => rfl

end GrowBuffer

end Columnar
