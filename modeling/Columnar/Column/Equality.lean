import Columnar.Column.Indices

/-!
# Equality of columns

Two columns are equal when they have the same type, length and null count, and every slot is null in
both or holds equal values in both.  Offsets, spare bytes, the bytes behind null slots and the order
of dictionary entries do not matter: nested slots are compared row by row, and indices through the
entries that they name.  As in views, positions are counted as they are.
-/

namespace Columnar

namespace Column

/-- The bytes of `n` values of `width` bytes from slot `i` on. -/
def valueRun (c : Column) (i n width : Nat) : Except Fault Bytes :=
  match c.buffer? 1 with
  | some b => b.bytes.window ((c.offset + i) * width) ((c.offset + i) * width + n * width)
  | none => .ok #[]

/-- The value bit of slot `i`; clear without a value bitmap. -/
def valueBit (c : Column) (i : Nat) : Except Fault Bool :=
  match c.buffer? 1 with
  | some b => b.bytes.bit (c.offset + i)
  | none => .ok false

/-- The rows or bytes that slot `i` spans. -/
def span (c : Column) (i : Nat) : Except Fault (Nat × Nat) := do
  let (start, stop) ← c.offsetPair i
  return (unsigned64 start, unsigned64 stop)

/-- The bytes of slot `i`; none without a value buffer. -/
def slotBytes (c : Column) (i : Nat) : Except Fault Bytes := do
  let (start, stop) ← c.span i
  match c.buffer? 2 with
  | some b => b.bytes.window start stop
  | none => return #[]

/-- The test holds at `i` and the `n - 1` positions after it; it is not tried past a failure. -/
def allFrom (test : Nat → Except Fault Bool) (i : Nat) : (n : Nat) → Except Fault Bool
  | 0 => .ok true
  | n + 1 => do
    if ← test i then allFrom test (i + 1) n else return false

/-- Slots `i` and `j` are both null, or neither is and their values are equal.  Values behind null
slots are not looked at. -/
def slotsEqual (l r : Column) (i j : Nat) (valuesEqual : Unit → Except Fault Bool) :
    Except Fault Bool := do
  let leftNull ← l.isNull i
  let rightNull ← r.isNull j
  if leftNull = true ∧ rightNull = true then return true
  else if leftNull = false ∧ rightNull = false then valuesEqual ()
  else return false

mutual

/-- The `n` slots of `l` from `i` on equal those of `r` from `j` on, read as the type of `l`.  Runs
of values of a fixed width are compared at once when neither column has nulls. -/
def rangeEqual : (l r : Column) → (i j n : Nat) → Except Fault Bool
  | ⟨type, len, offset, nulls, buffers, children, dictionary⟩, r, i, j, n =>
    let l : Column := ⟨type, len, offset, nulls, buffers, children, dictionary⟩
    let eachSlot (valuesEqual : Nat → Nat → Except Fault Bool) : Except Fault Bool :=
      allFrom (fun k => slotsEqual l r (i + k) (j + k) fun _ => valuesEqual (i + k) (j + k)) 0 n
    if n = 0 then .ok true
    else match type with
    | .null => .ok true
    | .bool => eachSlot fun i j => do
      return (← l.valueBit i) == (← r.valueBit j)
    | .num t =>
      if nulls = 0 ∧ r.nulls = 0 then do
        return (← l.valueRun i n t.width) == (← r.valueRun j n t.width)
      else eachSlot fun i j => do
        return (← l.valueRun i 1 t.width) == (← r.valueRun j 1 t.width)
    | .utf8 | .binary => eachSlot fun i j => do
      return (← l.slotBytes i) == (← r.slotBytes j)
    | .list _ | .map _ _ _ => eachSlot fun i j => do
      let (start, stop) ← l.span i
      let (start', stop') ← r.span j
      if stop - start = stop' - start' then
        firstEqual children r.children start start' (stop - start)
      else return false
    | .fixedList size _ => eachSlot fun i j =>
      firstEqual children r.children ((offset + i) * size) ((r.offset + j) * size) size
    | .struct _ => eachSlot fun i j => rowEqual children r.children i j
    | .dictionary _ _ _ => eachSlot fun i j => entryEqual l r dictionary i j
termination_by structural l => l

/-- `rangeEqual` of the first columns. -/
def firstEqual : (ls rs : List Column) → (i j n : Nat) → Except Fault Bool
  | l :: _, r :: _, i, j, n => rangeEqual l r i j n
  | _, _, _, _, _ => .error .outOfRange
termination_by structural ls => ls

/-- Row `i` of the left columns equals row `j` of the right ones, column by column. -/
def rowEqual : (ls rs : List Column) → (i j : Nat) → Except Fault Bool
  | l :: ls, r :: rs, i, j => do
    if ← rangeEqual l r i j 1 then rowEqual ls rs i j else return false
  | _, _, _, _ => .ok true
termination_by structural ls => ls

/-- Slots `i` and `j` name equal dictionary entries. -/
def entryEqual (l r : Column) : Option Column → (i j : Nat) → Except Fault Bool
  | some d, i, j =>
    match r.dictionary with
    | some d' => do
      let key ← l.keyAt (l.offset + i)
      let key' ← r.keyAt (r.offset + j)
      rangeEqual d d' key key' 1
    | none => .ok false
  | none, _, _ => .ok false
termination_by structural d => d

end

/-- The columns hold the same values. -/
def equal (l r : Column) : Except Fault Bool :=
  if l.type = r.type ∧ l.len = r.len ∧ l.nulls = r.nulls then rangeEqual l r 0 0 l.len
  else .ok false

end Column

end Columnar
