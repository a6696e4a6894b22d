import Columnar.Builder.Leaf
import Columnar.DataType.Make

/-!
# Builders

A `Builder` makes a column slot by slot.  A nested builder owns the builders of its children and
records only its own slots; values are appended to the children themselves, which are reached by
position (`Builder.child`, `Builder.modifyAt`).

Here are the builders and what can be read off them.  `Builder.make` gives the builder of a type.
-/

namespace Columnar

/-- A column being made. -/
inductive Builder where
  | null (b : NullBuilder)
  | bool (b : BoolBuilder)
  | num (b : NumBuilder)
  | bytes (b : BytesBuilder)
  | list (spans : Spans) (values : Builder)
  /-- Each slot has `size` of the values. -/
  | fixedList (slots : Slots) (size : Nat) (values : Builder)
  /-- Each slot has one row of every child. -/
  | struct (slots : Slots) (fields : List Field) (children : List Builder)
  /-- Pairs of keys and items, none of them null. -/
  | entries (keys items : Builder)
  /-- Slots that span entries. -/
  | map (spans : Spans) (keys items : Builder) (sorted : Bool)

namespace Builder

instance : Inhabited Builder := ⟨.null {}⟩

/-! ### Reading -/

/-- The type of the columns that the builder makes. -/
def type : Builder → DataType
  | null _ => .null
  | bool _ => .bool
  | num b => .num b.type
  | bytes b => b.type.type
  | list _ values => .list values.type
  | fixedList _ size values => .fixedList size values.type
  | struct _ fields _ => .struct fields
  | entries keys items => .entries keys.type items.type
  | map _ keys items sorted => .map keys.type items.type sorted

/-- The kind of the builder.  A builder of entries has none: it is not one of structs. -/
def kind? : Builder → Option Kind
  | entries _ _ => none
  | b => some b.type.kind

/-- Number of slots so far; entries are counted by their keys. -/
def len : Builder → Nat
  | null b => b.len
  | bool b => b.slots.length
  | num b => b.slots.length
  | bytes b => b.spans.slots.length
  | list spans _ | map spans _ _ _ => spans.slots.length
  | fixedList slots _ _ | struct slots _ _ => slots.length
  | entries keys _ => keys.len

/-- Number of null slots so far. -/
def nulls : Builder → Nat
  | null b => b.len
  | bool b => b.slots.nulls
  | num b => b.slots.nulls
  | bytes b => b.spans.slots.nulls
  | list spans _ | map spans _ _ _ => spans.slots.nulls
  | fixedList slots _ _ | struct slots _ _ => slots.nulls
  | entries _ _ => 0

/-- Number of slots that fit into the present memory. -/
def capacity : Builder → Nat
  | null b => b.capacity
  | bool b => b.slots.capacity
  | num b => b.slots.capacity
  | bytes b => b.spans.slots.capacity
  | list spans _ | map spans _ _ _ => spans.slots.capacity
  | fixedList slots _ _ | struct slots _ _ => slots.capacity
  | entries keys items => min keys.capacity items.capacity

mutual

/-- Bytes that count as outstanding, those of the children included. -/
def memory : Builder → Nat
  | .null _ => 0
  | .bool b => b.memory
  | .num b => b.memory
  | .bytes b => b.memory
  | .list spans values => spans.memory + values.memory
  | .fixedList slots _ values => slots.memory + values.memory
  | .struct slots _ children => slots.memory + memoryOfAll children
  | .entries keys items => keys.memory + items.memory
  | .map spans keys items _ => spans.memory + keys.memory + items.memory

/-- Bytes of several builders. -/
def memoryOfAll : List Builder → Nat
  | [] => 0
  | b :: bs => b.memory + memoryOfAll bs

end

/-! ### Children -/

/-- The builder of child `i`.  Those of a map are its keys and its items. -/
def child (b : Builder) (i : Nat) : Except Fault Builder :=
  match b, i with
  | list _ values, 0 | fixedList _ _ values, 0 => .ok values
  | entries keys _, 0 | map _ keys _ _, 0 => .ok keys
  | entries _ items, 1 | map _ _ items _, 1 => .ok items
  | struct _ _ children, i => Fault.outOfRange.orElse children[i]?
  | _, _ => .error .unknown

/-- The builder with child `i` replaced. -/
def setChild (b : Builder) (i : Nat) (c : Builder) : Builder :=
  match b, i with
  | list spans _, 0 => .list spans c
  | fixedList slots size _, 0 => .fixedList slots size c
  | entries _ items, 0 => .entries c items
  | entries keys _, 1 => .entries keys c
  | map spans _ items sorted, 0 => .map spans c items sorted
  | map spans keys _ sorted, 1 => .map spans keys c sorted
  | struct slots fields children, i => .struct slots fields (children.set i c)
  | b, _ => b

/-- Changes the builder that is reached by going from child to child along `path`, and gives what
the change answers. -/
def modifyAt {α : Type} (change : Builder → Except Fault (Builder × α)) :
    (path : List Nat) → Builder → Except Fault (Builder × α)
  | [], b => change b
  | i :: path, b => do
    let (c, a) ← modifyAt change path (← b.child i)
    return (b.setChild i c, a)

/-! ### Making builders -/

/-- The fields and their builders fit together: as many of the one as of the other, and each
builder makes columns of the type of its field. -/
def checkFields : List Field → List Builder → Except Fault Unit
  | f :: fs, b :: bs => if f.type = b.type then checkFields fs bs
    else (Misuse.fieldBuilderType f.name).stop
  | _, _ => .ok ()

/-- A builder of structs over the builders of the fields. -/
def ofFields (tracked : Bool) (fields : List Field) (children : List Builder) :
    Except Fault Builder := do
  if fields.length ≠ children.length then
    Misuse.fieldBuilderCount.stop
  else
    checkFields fields children
    let _ ← DataType.structOf fields
    return .struct (.empty tracked) fields children

/-- A builder of lists over the builder of their values. -/
def ofValues (tracked : Bool) (values : Builder) : Builder := .list (.empty tracked) values

/-- A builder of lists of exactly `n` values. -/
def ofFixed (tracked : Bool) (n : Int) (values : Builder) : Except Fault Builder :=
  if n < 0 then (Misuse.negativeListSize n).stop
  else .ok (.fixedList (.empty tracked) n.toNat values)

/-- A builder of maps over the builders of the keys and the items. -/
def ofEntries (tracked : Bool) (keys items : Builder) (sorted : Bool) : Builder :=
  .map (.empty tracked) keys items sorted

mutual

/-- An empty builder of columns of the type.  There is none for dictionary types, whose indices and
values are made separately. -/
def make (tracked : Bool) : DataType → Except Fault Builder
  | .null => .ok (.null {})
  | .bool => .ok (.bool (.empty tracked))
  | .num t => .ok (.num (.empty t tracked))
  | .utf8 => .ok (.bytes (.empty .utf8 tracked))
  | .binary => .ok (.bytes (.empty .binary tracked))
  | .list elem => do return ofValues tracked (← make tracked elem)
  | .fixedList size elem => do return .fixedList (.empty tracked) size (← make tracked elem)
  | .struct fields => do ofFields tracked fields (← makeAll tracked fields)
  | .map key value sorted => do
    let keys ← make tracked key
    return ofEntries tracked keys (← make tracked value) sorted
  | .dictionary index value ordered => (Misuse.noBuilder (.dictionary index value ordered)).stop

/-- The empty builder of a field. -/
def makeField (tracked : Bool) : Field → Except Fault Builder
  | ⟨_, type, _, _⟩ => make tracked type

/-- The empty builders of fields. -/
def makeAll (tracked : Bool) : List Field → Except Fault (List Builder)
  | [] => .ok []
  | f :: fs => do return (← makeField tracked f) :: (← makeAll tracked fs)

end

end Builder

end Columnar
