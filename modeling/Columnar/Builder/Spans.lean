import Columnar.Builder.Slots
import Columnar.Bytes

/-!
# Slots that span values

Slots of text, bytes, lists and maps cover a run of values kept elsewhere.  A slot records where its
run starts when it is opened; it ends where the next one starts.  The end of the last run is added
when the builder finishes.
-/

namespace Columnar

/-- The largest offset that four signed bytes hold. -/
def maxOffset : Nat := Bytes.wordRange 4 / 2 - 1

/-- Slots, and for each of them the start of its run of values. -/
structure Spans where
  slots : Slots
  /-- One word of four bytes for each slot. -/
  offsets : GrowBuffer
  deriving DecidableEq

namespace Spans

/-- No slots and no memory. -/
def empty (tracked : Bool) : Spans := ⟨.empty tracked, .empty tracked⟩

/-- Where the run of slot `i` starts. -/
def start (s : Spans) (i : Nat) : Nat := s.offsets.wordAt 4 i

/-- Sets the capacity, at least the smallest one.  Slots past it are dropped. -/
def resize (s : Spans) (capacity : Nat) : Spans :=
  let capacity := max capacity minCapacity
  let slots := s.slots.resize capacity
  ⟨slots, (s.offsets.truncate (slots.length * 4)).reallocate ((capacity + 1) * 4)⟩

/-- Makes room for `additional` more slots. -/
def reserve (s : Spans) (additional : Nat) (sizes : Sizes := .unbounded) : Spans :=
  match s.slots.growTarget? additional sizes with
  | some capacity => s.resize capacity
  | none => s

/-- Opens a slot whose run starts at `start`; the capacity must cover it. -/
def append (s : Spans) (start : Nat) (valid : Bool) : Spans :=
  ⟨s.slots.append valid, s.offsets.append (Bytes.ofNat 4 start)⟩

/-- `n` times: makes room for a slot and opens it. -/
def appendMany (s : Spans) (start : Nat) (valid : Bool) : (n : Nat) → Spans
  | 0 => s
  | n + 1 => ((s.reserve 1).append start valid).appendMany start valid n

/-- The bitmap and the offsets up to the end of the last run, and no slots. -/
def finish (s : Spans) (stop : Nat) : Option Buffer × Buffer × Spans :=
  let (validity, slots) := s.slots.finish
  (validity, (s.offsets.append (Bytes.ofNat 4 stop)).freeze, ⟨slots, .empty s.offsets.tracked⟩)

/-- Bytes that count as outstanding. -/
def memory (s : Spans) : Nat := s.slots.memory + s.offsets.memory

end Spans

end Columnar
