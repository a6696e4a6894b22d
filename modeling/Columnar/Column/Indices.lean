import Columnar.Column.Basic

/-!
# Dictionary indices

The indices of a dictionary column must name entries of its dictionary.  Only slots that are not
null are looked at, and the first offending slot is reported.
-/

namespace Columnar

namespace Column

/-- The first slot, from slot `i` on among the next `n`, that is not null and whose index is
negative or not below `upper`. -/
def findBadIndex (key : IntType) (keys : WordRun) (validity : Option Bytes) (offset : Nat)
    (upper : Int) (i : Nat) : (n : Nat) → Except Fault (Option (Nat × Int))
  | 0 => .ok none
  | n + 1 => do
    let valid ← (match validity with
      | some bits => bits.bit (offset + i)
      | none => .ok true)
    let value := key.toInt (← keys.get i)
    if valid ∧ (value < 0 ∨ upper ≤ value) then
      return some (i, value)
    else
      findBadIndex key keys validity offset upper (i + 1) n

/-- Refuses slots whose index, read as `key`, names none of `entries` dictionary entries.  The
number of entries is compared as a signed number of 64 bits. -/
def checkIndices (c : Column) (key : IntType) (entries : Nat) : Except Fault Unit :=
  match c.buffer? 1 with
  | none => Defect.indicesAbsent.refuse
  | some b => do
    let keys ← b.bytes.wordWindow key.width c.offset (c.offset + c.len)
    let validity := if 0 < c.nulls then (c.buffer? 0).map Buffer.bytes else none
    match ← findBadIndex key keys validity c.offset (Int.bmod entries (Bytes.wordRange 8)) 0
      c.len with
    | none => return ()
    | some (position, value) => (Refusal.indexOutOfBounds position value entries).refuse

/-- Refuses indices of an unsigned type, and indices that name no entry. -/
def checkIndicesOf (c : Column) (index : IntType) (entries : Nat) : Except Fault Unit :=
  if index.signed then c.checkIndices index entries else (Refusal.unsignedIndex index).refuse

/-- The dictionary position in the index buffer at position `pos`, whatever the window.  A negative
index stands for the position of its 64 bits.  A column of integers is read as its own indices. -/
def keyAt (c : Column) (pos : Nat) : Except Fault Nat :=
  match c.buffer? 1, c.type with
  | none, _ => Misuse.keysAbsent.stop
  | some b, .dictionary index _ _ | some b, .num (.int index) => do
    return unsigned64 (index.toInt (← (b.bytes.words index.width).get pos))
  | some _, type => (Misuse.notIndices type).stop

end Column

end Columnar
