import Columnar.Memory.Buffer

/-!
# Slots of a builder

Every builder counts its slots and keeps their validity: a bitmap with a set bit for each valid slot
and clear bits from the length on, made when capacity is first needed.  Capacity is counted in slots
and grows to powers of two.
-/

namespace Columnar

/-- The smallest slot capacity that builders allocate. -/
def minCapacity : Nat := 32

/-- The least power of two that is not below `n`. -/
def nextPower (n : Nat) (sizes : Sizes := .unbounded) : Nat :=
  sizes.fit (Nat.pow 2 (if n ≤ 1 then 0 else (n - 1).log2 + 1))

theorem le_nextPower (n : Nat) : n ≤ nextPower n := by
  rw [nextPower, Sizes.fit_unbounded]
  split
  · next small => exact small
  · exact Nat.le_of_pred_lt Nat.lt_log2_self

/-- The slot capacity that a builder grows to so that `required` slots fit. -/
def growCapacity (required : Nat) (sizes : Sizes := .unbounded) : Nat :=
  max (nextPower required sizes) minCapacity

/-- Length, null count, capacity and validity bitmap of a builder. -/
structure Slots where
  validity : Option GrowBuffer := none
  nulls : Nat := 0
  length : Nat := 0
  capacity : Nat := 0
  /-- The memory of this builder counts as outstanding. -/
  tracked : Bool
  deriving DecidableEq

namespace Slots

/-- No slots and no memory. -/
def empty (tracked : Bool) : Slots := { tracked }

/-- A clear bitmap for `capacity` slots. -/
def init (s : Slots) (capacity : Nat) : Slots :=
  let bytes := bytesFor capacity
  { s with validity := some ((GrowBuffer.make bytes s.tracked).resize bytes 0), capacity }

/-- The capacity needed for `additional` more slots, if the present one is too small. -/
def growTarget? (s : Slots) (additional : Nat) (sizes : Sizes := .unbounded) : Option Nat :=
  let required := sizes.fit (s.length + additional)
  if s.capacity < required then some (growCapacity required sizes) else none

/-- Sets the capacity.  A capacity below the length drops the slots from there on. -/
def resize (s : Slots) (capacity : Nat) : Slots :=
  match s.validity with
  | none => s.init capacity
  | some bitmap =>
    let bytes := bytesFor capacity
    if capacity < s.length then
      let last := min (bitmap.len * 8) (bytesFor s.length * 8)
      let cleared := bitmap.putBits capacity false (last - capacity)
      { s with
        validity := some ((cleared.resize bytes 0).reallocate bytes)
        nulls := capacity - cleared.bytes.ones 0 capacity
        length := capacity
        capacity }
    else
      { s with validity := some ((bitmap.resize bytes 0).reallocate bytes), capacity }

/-- One more slot; the capacity must cover it. -/
def append (s : Slots) (valid : Bool) : Slots :=
  if valid then
    { s with validity := s.validity.map (·.putBit s.length true), length := s.length + 1 }
  else
    { s with nulls := s.nulls + 1, length := s.length + 1 }

/-- `n` more slots of one validity; the capacity must cover them. -/
def appendMany (s : Slots) (valid : Bool) (n : Nat) : Slots :=
  if valid then
    { s with validity := s.validity.map (·.putBits s.length true n), length := s.length + n }
  else
    { s with nulls := s.nulls + n, length := s.length + n }

/-- The bitmap over the slots, or none when no slot is null, and the slots of a fresh builder. -/
def finish (s : Slots) : Option Buffer × Slots :=
  (if 0 < s.nulls then s.validity.map fun b => (b.truncate (bytesFor s.length)).freeze else none,
    empty s.tracked)

/-- Bytes that count as outstanding. -/
def memory (s : Slots) : Nat := (s.validity.map GrowBuffer.memory).getD 0

/-! ### Slots past the bitmap

`init` may set a capacity below the length, so that the bitmap ends before the slots do.  The
operations here stop at the first bit that is missing, and what they have done by then stays. -/

/-- The bitmap, if there is one, has a bit for each of the first `n` slots. -/
def covers (s : Slots) (n : Nat) : Bool := s.validity.all fun b => decide (n ≤ 8 * b.len)

/-- `resize`.  Where the bitmap is too short to count the nulls among the slots that stay, the other
slots are dropped, but null count and capacity stay. -/
def resizeChecked (s : Slots) (capacity : Nat) : Slots × Except Fault Unit :=
  if s.length ≤ capacity ∨ s.covers capacity then (s.resize capacity, .ok ())
  else ({ s with length := capacity }, .error .outOfRange)

/-- `appendMany`.  Where the bitmap is too short for `n` more valid slots, the bits that it has are
set, but the length stays. -/
def appendChecked (s : Slots) (valid : Bool) (n : Nat) : Slots × Except Fault Unit :=
  if n = 0 ∨ valid = false ∨ s.covers (s.length + n) then (s.appendMany valid n, .ok ())
  else ({ s with validity := s.validity.map (·.putBits s.length true n) }, .error .outOfRange)

/-! ### Operations as data -/

/-- What builders do to their slots. -/
inductive Op where
  | resize (capacity : Nat)
  | append (valid : Bool)
  | appendMany (valid : Bool) (n : Nat)
  | reset
  | finish
  deriving DecidableEq

/-- The slots after an operation that went through. -/
def settled (r : Slots × Except Fault Unit) : Except Fault Slots := r.2.map fun _ => r.1

/-- Does the operation. -/
def apply (s : Slots) : Op → Except Fault Slots
  | .resize capacity => settled (s.resizeChecked capacity)
  | .append valid => settled (s.appendChecked valid 1)
  | .appendMany valid n => settled (s.appendChecked valid n)
  | .reset => .ok (empty s.tracked)
  | .finish => .ok s.finish.2

end Slots

end Columnar
