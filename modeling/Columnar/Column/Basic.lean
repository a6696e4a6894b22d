import Columnar.DataType.Layout
import Columnar.Mask
import Columnar.Memory.Buffer

/-!
# Columns

A `Column` is an immutable node: a type, a window of `len` slots from `offset` on, the number of
null slots, the buffers that the layout of the type lists, child columns and, for dictionary types,
the column of values.  Buffer 0 is the validity bitmap; without one no slot is null.

Nothing in the type forces these parts to agree; `Column.validate` checks that they do.  The
accessors here read the parts as they are and fail where a part is too short.
-/

namespace Columnar

/-- A node of columnar data. -/
structure Column where
  type : DataType
  len : Nat
  offset : Nat
  /-- Number of null slots. -/
  nulls : Nat
  buffers : List (Option Buffer)
  children : List Column
  dictionary : Option Column

instance : Inhabited Column := ⟨⟨.null, 0, 0, 0, [none], [], none⟩⟩

namespace Column

/-- The number of null slots that the validity bitmap tells. -/
def countNulls (type : DataType) (len offset : Nat) (buffers : List (Option Buffer))
    (sizes : Sizes := .unbounded) : Except Fault Nat :=
  match type, buffers with
  | .null, _ => .ok len
  | _, some b :: _ => do return len - (← b.bytes.countBits offset len sizes)
  | _, _ => .ok 0

/-- A column of these parts, unchecked.  The null count is taken as given, or else counted. -/
def ofParts (type : DataType) (len offset : Nat) (nulls? : Option Nat)
    (buffers : List (Option Buffer)) (children : List Column) (dictionary : Option Column)
    (sizes : Sizes := .unbounded) : Except Fault Column := do
  let nulls ← (match nulls? with
    | some n => .ok n
    | none => countNulls type len offset buffers sizes)
  return ⟨type, len, offset, nulls, buffers, children, dictionary⟩

/-- `len` nulls. -/
def ofNulls (len : Nat) : Column := ⟨.null, len, 0, len, [none], [], none⟩

/-- The same parts under another type. -/
def retag (c : Column) (type : DataType) : Column := { c with type }

/-- The buffer at layout slot `i`, if present. -/
def buffer? (c : Column) (i : Nat) : Option Buffer := c.buffers[i]?.join

/-- The first child. -/
def child (c : Column) : Except Fault Column := Fault.outOfRange.orElse c.children.head?

/-- The validity of the slots, if there is a bitmap. -/
def validity (c : Column) (sizes : Sizes := .unbounded) : Except Fault (Option Mask) :=
  match c.type, c.buffer? 0 with
  | .null, _ | _, none => .ok none
  | _, some b => do return some (← Mask.make b.bytes c.offset c.len sizes)

/-- Slot `i` is null. -/
def isNull (c : Column) (i : Nat) (sizes : Sizes := .unbounded) : Except Fault Bool :=
  if i < c.len then
    match c.type, c.buffer? 0 with
    | .null, _ => .ok true
    | _, some b => do return !(← b.bytes.bit (sizes.fit (c.offset + i)))
    | _, none => .ok false
  else (Misuse.index i c.len).stop

/-- The `len + 1` offsets of the slots: slot `i` spans the values from the `i`-th offset up to the
next one.  A column of no slots may have no offsets. -/
def offsets (c : Column) (sizes : Sizes := .unbounded) : Except Fault WordRun :=
  match c.buffer? 1 with
  | some b =>
    if b.size = 0 then .ok (.empty 4)
    else b.bytes.wordWindow 4 c.offset (sizes.fit (c.offset + c.len + 1))
  | none => .ok (.empty 4)

/-- The `i`-th and the next offset. -/
def offsetPair (c : Column) (i : Nat) : Except Fault (Int × Int) := do
  let run ← c.offsets
  return (offsetValue (← run.get i), offsetValue (← run.get (i + 1)))

/-- The `width` bytes wide values of the slots. -/
def values (c : Column) (width : Nat) : Except Fault WordRun :=
  match c.buffer? 1 with
  | some b => b.bytes.wordWindow width c.offset (c.offset + c.len)
  | none => .ok (.empty width)

end Column

end Columnar
