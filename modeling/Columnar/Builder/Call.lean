import Columnar.Builder.Finish

/-!
# Calls on builders

What can be asked of a builder, as data: an operation (`Builder.Op`), the builder below the root
that it is for (`Builder.Call`), and calls one after the other (`Builder.run`).  `Value.calls`
lists the calls that append one value: a slot is opened first, and then its values are appended to
the children, in order.

A scalar must be of the type of its builder (`Value.isOf`).  Calls with other values, and calls
that a kind of builder does not have, cannot be written; they fail here as ones that stand for
nothing.
-/

namespace Columnar

/-! ### Values of a type -/

mutual

/-- The value is null or one of the type.  A key of a map is not null. -/
def Value.isOf : Value → DataType → Bool
  | .null, _ => true
  | .bool _, .bool => true
  | .num t word, .num t' => decide (t = t') && decide (word < Bytes.wordRange t.width)
  | .text bytes, .utf8 => (Utf8.fault? bytes.toList).isNone
  | .binary _, .binary => true
  | .list items, .list elem => areOf items elem
  | .list items, .fixedList size elem => decide (items.length = size) && areOf items elem
  | .struct columns, .struct fields => areOfEach columns fields
  | .map entries, .map key item _ => areEntriesOf entries key item
  | _, _ => false

/-- The values are all of the type. -/
def Value.areOf : List Value → DataType → Bool
  | [], _ => true
  | v :: vs, t => v.isOf t && areOf vs t

/-- There is one value for each field, of the type of the field. -/
def Value.areOfEach : List Value → List Field → Bool
  | [], [] => true
  | v :: vs, f :: fs => v.isOf f.type && areOfEach vs fs
  | _, _ => false

/-- The keys are not null, and keys and items are of their types. -/
def Value.areEntriesOf : List (Value × Value) → (key item : DataType) → Bool
  | [], _, _ => true
  | (k, v) :: rest, key, item =>
    !(k matches .null) && k.isOf key && v.isOf item && areEntriesOf rest key item

end

namespace Builder

/-! ### Operations -/

/-- What can be asked of one builder. -/
inductive Op where
  | appendNull
  /-- Opens a slot of a nested builder. -/
  | append (valid : Bool)
  /-- A slot of a scalar builder. -/
  | appendScalar (v : Value)
  | appendSlice (words : List Nat)
  | appendValues (words : List Nat) (valid : List Bool)
  | reserve (additional : Nat)
  | resize (capacity : Nat)
  | finish

/-- Does the operation.  Only `finish` answers with a column. -/
def Op.apply (b : Builder) (op : Op) (sizes : Sizes := .unbounded) :
    Except Fault (Builder × Option Column) :=
  match op with
  | appendNull => do return (← b.appendNull, none)
  | append valid => do return (← b.append valid, none)
  | appendScalar v =>
    if v.isOf b.type then do return (← b.appendScalar v, none) else .error .unknown
  | appendSlice words =>
    match b with
    | num b => .ok (.num (b.appendSlice words), none)
    | _ => .error .unknown
  | appendValues words valid =>
    match b with
    | num b => do return (.num (← b.appendValues words valid), none)
    | _ => .error .unknown
  | reserve additional => .ok (b.reserve additional sizes, none)
  | resize capacity => .ok (b.resize capacity, none)
  | finish => do
    let (c, b) ← b.finish
    return (b, some c)

/-! ### Calls -/

/-- An operation on the builder that is reached along a path. -/
structure Call where
  path : List Nat
  op : Op

/-- The same operation one level further down, below child `i`. -/
def Call.below (i : Nat) (c : Call) : Call := { c with path := i :: c.path }

/-- Makes the call on the builder at its path. -/
def call (b : Builder) (c : Call) (sizes : Sizes := .unbounded) :
    Except Fault (Builder × Option Column) :=
  modifyAt (fun b => c.op.apply b sizes) c.path b

/-- Makes the calls one after the other, until one fails. -/
def run (b : Builder) : (cs : List Call) → (sizes : Sizes := .unbounded) → Except Fault Builder
  | [], _ => .ok b
  | c :: cs, sizes => do
    let (b, _) ← b.call c sizes
    run b cs sizes

end Builder

/-! ### Appending values -/

open Builder (Call) in
mutual

/-- The calls that append the value. -/
def Value.calls : Value → List Call
  | .null => [⟨[], .appendNull⟩]
  | .list items => ⟨[], .append true⟩ :: callsOfAll items
  | .struct columns => ⟨[], .append true⟩ :: callsOfEach 0 columns
  | .map entries => ⟨[], .append true⟩ :: callsOfEntries entries
  | v => [⟨[], .appendScalar v⟩]

/-- The calls that append the values to the only child. -/
def Value.callsOfAll : List Value → List Call
  | [] => []
  | v :: vs => v.calls.map (.below 0) ++ callsOfAll vs

/-- The calls that append one value to each child, from child `i` on. -/
def Value.callsOfEach : (i : Nat) → List Value → List Call
  | _, [] => []
  | i, v :: vs => v.calls.map (.below i) ++ callsOfEach (i + 1) vs

/-- The calls that append keys and items, in turn. -/
def Value.callsOfEntries : List (Value × Value) → List Call
  | [] => []
  | (k, v) :: rest => k.calls.map (.below 0) ++ v.calls.map (.below 1) ++ callsOfEntries rest

end

end Columnar
