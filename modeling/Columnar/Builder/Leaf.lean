import Columnar.Builder.Spans
import Columnar.Column.Basic

/-!
# Builders of scalars

Builders of columns without children.  Each grows to a power of two of slots when a slot does not
fit, and `finish` gives its memory to a column and leaves an empty builder.  A null slot has a
placeholder: a clear bit, a zero word, or an empty run of bytes.
-/

namespace Columnar

/-! ### Nulls -/

/-- A count of null slots. -/
structure NullBuilder where
  len : Nat := 0
  capacity : Nat := 0
  deriving DecidableEq

namespace NullBuilder

/-- Sets the capacity, at least the smallest one.  Slots past it are dropped. -/
def resize (b : NullBuilder) (capacity : Nat) : NullBuilder :=
  let capacity := max capacity minCapacity
  ⟨min b.len capacity, capacity⟩

/-- Makes room for `additional` more slots. -/
def reserve (b : NullBuilder) (additional : Nat) (sizes : Sizes := .unbounded) : NullBuilder :=
  let required := sizes.fit (b.len + additional)
  if b.capacity < required then b.resize (nextPower required sizes) else b

/-- `n` more slots, with room made once. -/
def appendMany (b : NullBuilder) (n : Nat) : NullBuilder :=
  let b := b.reserve n
  { b with len := b.len + n }

def appendNull (b : NullBuilder) : NullBuilder := b.appendMany 1

def finish (b : NullBuilder) : Column × NullBuilder := (.ofNulls b.len, {})

end NullBuilder

/-! ### Truth values -/

/-- Slots and a bitmap of values. -/
structure BoolBuilder where
  slots : Slots
  values : GrowBuffer
  deriving DecidableEq

namespace BoolBuilder

def empty (tracked : Bool) : BoolBuilder := ⟨.empty tracked, .empty tracked⟩

/-- Sets the capacity, at least the smallest one.  Slots past it are dropped. -/
def resize (b : BoolBuilder) (capacity : Nat) : BoolBuilder :=
  let capacity := max capacity minCapacity
  let slots := b.slots.resize capacity
  ⟨slots, (b.values.truncate (bytesFor slots.length)).reallocate (bytesFor capacity)⟩

/-- Makes room for `additional` more slots. -/
def reserve (b : BoolBuilder) (additional : Nat) (sizes : Sizes := .unbounded) : BoolBuilder :=
  match b.slots.growTarget? additional sizes with
  | some capacity => b.resize capacity
  | none => b

/-- One more slot with value bit `v`. -/
def append (b : BoolBuilder) (v valid : Bool) : BoolBuilder :=
  let b := b.reserve 1
  let i := b.slots.length
  ⟨b.slots.append valid, (b.values.resize (bytesFor (i + 1)) 0).putBit i v⟩

def appendValue (b : BoolBuilder) (v : Bool) : BoolBuilder := b.append v true

def appendNull (b : BoolBuilder) : BoolBuilder := b.append false false

def finish (b : BoolBuilder) : Column × BoolBuilder :=
  let (validity, slots) := b.slots.finish
  (⟨.bool, b.slots.length, 0, b.slots.nulls, [validity, some b.values.freeze], [], none⟩,
    ⟨slots, .empty b.values.tracked⟩)

def memory (b : BoolBuilder) : Nat := b.slots.memory + b.values.memory

end BoolBuilder

/-! ### Numbers -/

/-- Slots and a word for each of them. -/
structure NumBuilder where
  type : NumType
  slots : Slots
  values : GrowBuffer
  deriving DecidableEq

namespace NumBuilder

def empty (type : NumType) (tracked : Bool) : NumBuilder := ⟨type, .empty tracked, .empty tracked⟩

/-- Sets the capacity, at least the smallest one.  Slots past it are dropped. -/
def resize (b : NumBuilder) (capacity : Nat) : NumBuilder :=
  let capacity := max capacity minCapacity
  let slots := b.slots.resize capacity
  let width := b.type.width
  let values := b.values.truncate (slots.length * width)
  { b with slots, values := values.reallocate (capacity * width) }

/-- Makes room for `additional` more slots. -/
def reserve (b : NumBuilder) (additional : Nat) (sizes : Sizes := .unbounded) : NumBuilder :=
  match b.slots.growTarget? additional sizes with
  | some capacity => b.resize capacity
  | none => b

/-- One more slot with this word. -/
def append (b : NumBuilder) (word : Nat) (valid : Bool) : NumBuilder :=
  let b := b.reserve 1
  { b with slots := b.slots.append valid, values := b.values.append (.ofNat b.type.width word) }

def appendValue (b : NumBuilder) (word : Nat) : NumBuilder := b.append word true

def appendNull (b : NumBuilder) : NumBuilder := b.append 0 false

/-- The bytes of words, one after the other. -/
def wordBytes (width : Nat) (words : List Nat) : Bytes :=
  (words.flatMap (Bytes.digits width)).toArray

/-- A valid slot for each word, with room made once. -/
def appendSlice (b : NumBuilder) (words : List Nat) : NumBuilder :=
  let b := b.reserve words.length
  { b with
    slots := b.slots.appendMany true words.length
    values := b.values.append (wordBytes b.type.width words) }

/-- A slot for each word, of the validity at the same position. -/
def appendValues (b : NumBuilder) (words : List Nat) (valid : List Bool) :
    Except Fault NumBuilder :=
  if words.length = valid.length then
    let b := b.reserve words.length
    .ok { b with
      slots := valid.foldl Slots.append b.slots
      values := b.values.append (wordBytes b.type.width words) }
  else Misuse.unequalLengths.stop

/-- The words appended so far. -/
def words (b : NumBuilder) : List Nat := (b.values.bytes.words b.type.width).toList

def finish (b : NumBuilder) : Column × NumBuilder :=
  let (validity, slots) := b.slots.finish
  (⟨.num b.type, b.slots.length, 0, b.slots.nulls, [validity, some b.values.freeze], [], none⟩,
    { b with slots, values := .empty b.values.tracked })

def memory (b : NumBuilder) : Nat := b.slots.memory + b.values.memory

end NumBuilder

/-! ### Text and raw bytes -/

/-- The two types whose slots are runs of bytes. -/
inductive BytesType where
  | utf8
  | binary
  deriving DecidableEq, Repr

def BytesType.type : BytesType → DataType
  | utf8 => .utf8
  | binary => .binary

/-- Slots and the bytes that they span. -/
structure BytesBuilder where
  type : BytesType
  spans : Spans
  values : GrowBuffer
  deriving DecidableEq

namespace BytesBuilder

def empty (type : BytesType) (tracked : Bool) : BytesBuilder :=
  ⟨type, .empty tracked, .empty tracked⟩

/-- Sets the capacity, at least the smallest one.  Slots past it are dropped with their bytes. -/
def resize (b : BytesBuilder) (capacity : Nat) : BytesBuilder :=
  let spans := b.spans.resize capacity
  let len := spans.slots.length
  let values :=
    if len * 4 < b.spans.offsets.len then b.values.truncate (b.spans.start len) else b.values
  { b with spans, values }

/-- Makes room for `additional` more slots. -/
def reserve (b : BytesBuilder) (additional : Nat) (sizes : Sizes := .unbounded) : BytesBuilder :=
  match b.spans.slots.growTarget? additional sizes with
  | some capacity => b.resize capacity
  | none => b

/-- The end of the bytes so far, as an offset. -/
def stop (b : BytesBuilder) : Except Fault Nat :=
  if b.values.len ≤ maxOffset then .ok b.values.len
  else (Misuse.bytesOverflow b.type.type.kind b.values.len).stop

/-- One more slot with these bytes. -/
def append (b : BytesBuilder) (bytes : Bytes) (valid : Bool) : Except Fault BytesBuilder := do
  let b := b.reserve 1
  let start ← b.stop
  return { b with spans := b.spans.append start valid, values := b.values.append bytes }

def appendValue (b : BytesBuilder) (bytes : Bytes) : Except Fault BytesBuilder :=
  b.append bytes true

def appendNull (b : BytesBuilder) : Except Fault BytesBuilder := b.append #[] false

def finish (b : BytesBuilder) : Except Fault (Column × BytesBuilder) := do
  let (validity, offsets, spans) := b.spans.finish (← b.stop)
  return (⟨b.type.type, b.spans.slots.length, 0, b.spans.slots.nulls,
    [validity, some offsets, some b.values.freeze], [], none⟩,
    { b with spans, values := .empty b.values.tracked })

def memory (b : BytesBuilder) : Nat := b.spans.memory + b.values.memory

end BytesBuilder

end Columnar
