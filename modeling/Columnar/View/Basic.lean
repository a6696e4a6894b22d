import Columnar.Column.Indices
import Columnar.Column.Slice
import Columnar.DataType.Make

/-!
# Views

A `View` is a column read as its type: the parts that the type calls for are there, and the columns
inside it are views too.  `View.ofColumn` makes one, or tells which part is missing.

The values of a slot are read without regard to its validity.  A slot of a list spans a window of
the values, which is sliced and viewed on its own.

Positions are counted as they are.  They are words wherever the sizes of the column are, since none
is past the end of the slots or of what the slots need.
-/

namespace Columnar

/-- A column read as its type. -/
inductive View where
  | null (data : Column)
  | bool (data : Column) (values : Mask)
  | num (type : NumType) (data : Column)
  | utf8 (data : Column)
  | binary (data : Column)
  /-- Slots address windows of `values` through offsets. -/
  | list (data : Column) (values : View)
  /-- Each slot has `size` of the `values`. -/
  | fixedList (data : Column) (size : Nat) (values : View)
  | struct (data : Column) (columns : List View)
  /-- Slots address windows of the struct `entries`, which consists of `keys` and `items`. -/
  | map (data : Column) (listType : DataType) (entries : Column) (keys items : View)
  | dictionary (data : Column) (indices dictionary : View)

namespace View

instance : Inhabited View := ⟨.null default⟩

/-- The column that is viewed. -/
def data : View → Column
  | null c | bool c _ | num _ c | utf8 c | binary c | list c _ | fixedList c _ _ | struct c _
  | map c _ _ _ _ | dictionary c _ _ => c

def len (v : View) : Nat := v.data.len

/-- A column of numbers. -/
def ofNumbers (type : NumType) (c : Column) : Except Fault View :=
  if (c.buffer? 1).isSome then .ok (.num type c) else Misuse.valuesAbsent.stop

/-- The indices of a dictionary column as a column of their own. -/
def indexColumn (c : Column) (index : IntType) : Column :=
  { c with type := .num (.int index), children := [], dictionary := none }

mutual

/-- The view of a column. -/
def ofColumn : Column → Except Fault View
  | ⟨type, len, offset, nulls, buffers, children, values⟩ =>
    let c : Column := ⟨type, len, offset, nulls, buffers, children, values⟩
    match type with
    | .null => .ok (.null c)
    | .bool =>
      match c.buffer? 1 with
      | some b => do return .bool c (← Mask.make b.bytes offset len)
      | none => Misuse.valueBitmapAbsent.stop
    | .num t => ofNumbers t c
    | .utf8 => .ok (.utf8 c)
    | .binary => .ok (.binary c)
    | .list _ => do return .list c (← ofOnly .listChild children)
    | .fixedList size _ => do return .fixedList c size (← ofOnly .fixedListChild children)
    | .struct _ => do return .struct c (← ofEach children)
    | .map key value _ => do
      match ← ofOnly .listChild children with
      | .struct entries [keys, items] =>
        return .map c (.list (.entries key value)) entries keys items
      | _ => Misuse.mapChild.stop
    | .dictionary index _ _ => do
      let dictionary ← ofDictionary values
      return .dictionary c (← ofNumbers (.int index) (indexColumn c index)) dictionary

/-- The view of the only child. -/
def ofOnly (m : Misuse) : List Column → Except Fault View
  | [c] => ofColumn c
  | _ => m.stop

/-- The views of all children. -/
def ofEach : List Column → Except Fault (List View)
  | [] => .ok []
  | c :: cs => do return (← ofColumn c) :: (← ofEach cs)

/-- The view of the dictionary. -/
def ofDictionary : Option Column → Except Fault View
  | some d => ofColumn d
  | none => Misuse.dictionaryAbsent.stop

end

/-- The view of a column that has to be of the given kind. -/
def ofKind (kind : Kind) (c : Column) : Except Fault View :=
  if c.type.kind = kind then ofColumn c else (Misuse.viewOf kind c.type).stop

/-- The view of the `len` slots from `offset` on. -/
def slice (v : View) (offset len : Nat) : Except Fault View := do
  ofColumn (← v.data.slice offset len)

/-! ### Null slots -/

/-- Slot `i` is null. -/
def isNull (v : View) (i : Nat) : Except Fault Bool := v.data.isNull i

/-- Slot `i` is not null. -/
def isValid (v : View) (i : Nat) : Except Fault Bool := do return !(← v.isNull i)

end View

/-! ### Values of scalar slots -/

namespace Column

/-- Refuses slots past the end. -/
def checkSlot (c : Column) (i : Nat) : Except Fault Unit :=
  if i < c.len then .ok () else (Misuse.index i c.len).stop

/-- The word of slot `i`. -/
def wordOf (c : Column) (t : NumType) (i : Nat) : Except Fault Nat := do
  c.checkSlot i
  (← c.values t.width).get i

/-- The bytes of slot `i`; none without a value buffer. -/
def bytesOf (c : Column) (i : Nat) : Except Fault Bytes := do
  c.checkSlot i
  let run ← c.offsets
  match c.buffer? 2 with
  | some b =>
    let start ← run.get i
    let stop ← run.get (i + 1)
    b.bytes.window (unsigned64 (offsetValue start)) (unsigned64 (offsetValue stop))
  | none => return #[]

/-- The number of bytes or rows in slot `i`. -/
def lengthOf (c : Column) (i : Nat) : Except Fault Nat := do
  let (start, stop) ← c.offsetPair i
  return unsigned64 (stop - start)

/-- First row and number of rows of slot `i`. -/
def rowsOf (c : Column) (i : Nat) : Except Fault (Nat × Nat) := do
  c.checkSlot i
  let (start, stop) ← c.offsetPair i
  return (unsigned64 start, unsigned64 (stop - start))

end Column

/-! ### Windows and keys -/

namespace View

/-- Number of bytes or rows in slot `i`, for the views whose slots span several. -/
def lengthOf (v : View) (i : Nat) : Except Fault Nat :=
  match v with
  | fixedList _ size _ => .ok size
  | v => v.data.lengthOf i

/-- The rows of slot `i` of a list, a fixed-size list or a map.  Those of a map are entries. -/
def window (v : View) (i : Nat) : Except Fault View :=
  match v with
  | list c values => do
    let (start, n) ← c.rowsOf i
    values.slice start n
  | map c _ entries _ _ => do
    let (start, n) ← c.rowsOf i
    ofColumn (← entries.slice start n)
  | fixedList c size values => do
    c.checkSlot i
    values.slice ((c.offset + i) * size) size
  | _ => .error .unknown

/-- The type promises that the keys of each slot are sorted. -/
def keysSorted (v : View) : Bool :=
  match v.data.type with
  | .map _ _ sorted => sorted
  | _ => false

/-- The list of entries that a map is stored as. -/
def asList (v : View) : Except Fault View :=
  match v with
  | map c listType _ _ _ => ofColumn (c.retag listType)
  | _ => .error .unknown

/-- The dictionary position that slot `i` names, if the slot is not null. -/
def key (v : View) (i : Nat) : Except Fault (Option Nat) := do
  if ← v.isNull i then
    return none
  else
    return some (← v.data.keyAt (v.data.offset + i))

/-- Number of valid slots of truth values that are true. -/
def trueCount (v : View) : Except Fault Nat :=
  match v with
  | bool c values =>
    (List.range c.len).foldlM (fun n i => do
      if ← c.isNull i then return n
      else return if ← values.get i then n + 1 else n) 0
  | _ => .error .unknown

/-- The columns of a struct. -/
def columns : View → List View
  | struct _ columns => columns
  | _ => []

/-- The position of the column of that name, if the struct type has such a field. -/
def columnIndex? (v : View) (name : String) : Except Fault (Option Nat) :=
  match v.data.type with
  | .struct fields =>
    match Field.index? name fields with
    | some i => if i < v.columns.length then .ok (some i) else .error .outOfRange
    | none => .ok none
  | _ => .ok none

/-- The column of that name, if the struct type has such a field. -/
def column? (v : View) (name : String) : Except Fault (Option View) := do
  return (← v.columnIndex? name).bind (v.columns[·]?)

end View

end Columnar
