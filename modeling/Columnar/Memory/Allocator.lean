import Columnar.Sizes

/-!
# Accounted memory

An `Allocator` keeps the number of bytes that are allocated and not yet freed.  An `Arena` is an
allocator together with the contents of its live regions: fresh memory is zero, and a region that
grows is zero past its old size even where it had been written before it shrank.
-/

namespace Columnar

/-- Bytes to which regions are aligned. -/
def alignment : Nat := 64

/-- The least multiple of the alignment that is not below `n`. -/
def roundUp (n : Nat) (sizes : Sizes := .unbounded) : Nat :=
  sizes.fit ((n + 63) / alignment * alignment)

/-- The largest size of a region: with its padding it ends below `2 ^ 63`. -/
def maxRegion : Nat := Bytes.wordRange 8 / 2 - alignment

/-- A running total of bytes allocated and not yet freed. -/
structure Allocator where
  outstanding : Int := 0
  deriving DecidableEq, Repr

namespace Allocator

/-- `size` more bytes. -/
def allocate (a : Allocator) (size : Nat) : Except Fault Allocator :=
  if size ≤ maxRegion then .ok ⟨a.outstanding + size⟩ else (Misuse.unaddressable size).stop

/-- A region of `old` bytes becomes one of `new` bytes. -/
def reallocate (a : Allocator) (old new : Nat) : Except Fault Allocator :=
  if new ≤ maxRegion then .ok ⟨a.outstanding + (new - old : Int)⟩
  else (Misuse.unaddressable new).stop

/-- `size` bytes fewer. -/
def free (a : Allocator) (size : Nat) : Allocator := ⟨a.outstanding - size⟩

/-- Stops unless exactly `expected` bytes are outstanding. -/
def expect (a : Allocator) (expected : Int) : Except Fault Unit :=
  if a.outstanding = expected then .ok () else (Misuse.totalDiffers expected a.outstanding).stop

end Allocator

/-- An allocator and its regions, numbered in order of allocation; a freed region is `none`. -/
structure Arena where
  allocator : Allocator := {}
  regions : Array (Option Bytes) := #[]

namespace Arena

/-- The contents of a live region. -/
def region (a : Arena) (r : Nat) : Except Fault Bytes := Fault.unknown.orElse (a.regions[r]?.join)

/-- A new region of `size` zero bytes. -/
def allocate (a : Arena) (size : Nat) : Except Fault Arena := do
  let allocator ← a.allocator.allocate size
  return ⟨allocator, a.regions.push (some (Bytes.zeros size))⟩

/-- Region `r` with `size` bytes: the old ones, as far as they fit, and zeros. -/
def reallocate (a : Arena) (r size : Nat) : Except Fault Arena := do
  let bytes ← a.region r
  let allocator ← a.allocator.reallocate bytes.size size
  return ⟨allocator, a.regions.setIfInBounds r (some (bytes.resized size))⟩

def free (a : Arena) (r : Nat) : Except Fault Arena := do
  let bytes ← a.region r
  return ⟨a.allocator.free bytes.size, a.regions.setIfInBounds r none⟩

/-- Region `r` with every byte equal to `v`. -/
def fill (a : Arena) (r : Nat) (v : UInt8) : Except Fault Arena := do
  let bytes ← a.region r
  return { a with regions := a.regions.setIfInBounds r (some (Array.replicate bytes.size v)) }

/-- Region `r` with the bytes from position `i` on replaced by `src`; nothing is written past the
end. -/
def write (a : Arena) (r i : Nat) (src : Bytes) : Except Fault Arena := do
  let bytes ← a.region r
  return { a with regions := a.regions.setIfInBounds r (some (bytes.overwrite i src.toList)) }

/-! ### Operations as data -/

/-- What can be done to an arena. -/
inductive Op where
  | allocate (size : Nat)
  | reallocate (r size : Nat)
  | free (r : Nat)
  | fill (r : Nat) (v : UInt8)
  | write (r i : Nat) (src : Bytes)
  deriving DecidableEq

/-- Does the operation. -/
def step (a : Arena) : Op → Except Fault Arena
  | .allocate size => a.allocate size
  | .reallocate r size => a.reallocate r size
  | .free r => a.free r
  | .fill r v => a.fill r v
  | .write r i src => a.write r i src

end Arena

end Columnar
