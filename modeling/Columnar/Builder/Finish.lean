import Columnar.Builder.Append
import Columnar.View.Basic

/-!
# Finishing builders

`Builder.finish` gives what has been appended to a new column and leaves the builder empty, ready to
be used again.  It stops when the children do not hold the rows that the slots call for.
`Builder.finishView` gives the view of that column, and `Column.ofScalars` makes a column from the
values of its slots.
-/

namespace Columnar

namespace Builder

/-- Each field has as many rows as the struct has slots. -/
def checkRows (len : Nat) : List Field → List Builder → Except Fault Unit
  | f :: fs, b :: bs =>
    if b.len = len then checkRows len fs bs else (Misuse.fieldRows f.name b.len len).stop
  | _, _ => .ok ()

/-- There are as many keys as items. -/
def checkPairs (keys items : Builder) : Except Fault Unit :=
  if keys.len = items.len then .ok () else (Misuse.unpairedEntries keys.len items.len).stop

/-- The struct of the pairs that two builders hold, over the columns finished from them. -/
def pairs (keys items : Builder) (k v : Column) : Column :=
  ⟨.entries keys.type items.type, keys.len, 0, 0, [none], [k, v], none⟩

mutual

/-- The column made so far, and the builder without slots and memory. -/
def finish : Builder → Except Fault (Column × Builder)
  | .null b => .ok (b.finish.1, .null b.finish.2)
  | .bool b => .ok (b.finish.1, .bool b.finish.2)
  | .num b => .ok (b.finish.1, .num b.finish.2)
  | .bytes b => do
    let (c, b) ← b.finish
    return (c, .bytes b)
  | .list spans values => do
    let (validity, offsets, fresh) := spans.finish (← values.offset)
    let (child, values') ← finish values
    return (⟨.list values.type, spans.slots.length, 0, spans.slots.nulls,
      [validity, some offsets], [child], none⟩, .list fresh values')
  | .fixedList slots size values => do
    if values.len ≠ slots.length * size then
      (Misuse.fixedListRows values.len slots.length size).stop
    else
      let (validity, fresh) := slots.finish
      let (child, values') ← finish values
      return (⟨.fixedList size values.type, slots.length, 0, slots.nulls, [validity], [child],
        none⟩, .fixedList fresh size values')
  | .struct slots fields children => do
    checkRows slots.length fields children
    let (validity, fresh) := slots.finish
    let (columns, children') ← finishAll children
    return (⟨.struct fields, slots.length, 0, slots.nulls, [validity], columns, none⟩,
      .struct fresh fields children')
  | .entries keys items => do
    checkPairs keys items
    let (k, keys') ← finish keys
    let (v, items') ← finish items
    return (pairs keys items k v, .entries keys' items')
  | .map spans keys items sorted => do
    let (validity, offsets, fresh) := spans.finish (← keys.offset)
    checkPairs keys items
    let (k, keys') ← finish keys
    let (v, items') ← finish items
    return (⟨.map keys.type items.type sorted, spans.slots.length, 0, spans.slots.nulls,
      [validity, some offsets], [pairs keys items k v], none⟩, .map fresh keys' items' sorted)
termination_by structural b => b

/-- Finishes several builders in order. -/
def finishAll : List Builder → Except Fault (List Column × List Builder)
  | [] => .ok ([], [])
  | b :: bs => do
    let (c, b) ← finish b
    let (cs, bs) ← finishAll bs
    return (c :: cs, b :: bs)
termination_by structural bs => bs

end

/-- The view of the column made so far, and the builder without slots and memory. -/
def finishView (b : Builder) : Except Fault (View × Builder) := do
  let (c, b) ← b.finish
  return (← View.ofColumn c, b)

/-- Makes room for `bytes` value bytes. -/
def reserveBytes (b : Builder) (bytes : Nat) (sizes : Sizes := .unbounded) :
    Except Fault Builder :=
  match b with
  | .bytes b => do return .bytes { b with values := ← b.values.reserveAddressable bytes sizes }
  | b => .ok b

/-- The builder of a scalar type with room for `capacity` slots and `data` value bytes, whose memory
does not count as outstanding. -/
def sized (type : DataType) (capacity data : Nat) (sizes : Sizes := .unbounded) :
    Except Fault Builder := do
  ((← make false type).resize capacity).reserveBytes data sizes

/-- A valid slot for each value, with room made once where the values are numbers. -/
def appendDense (b : Builder) (values : List Value) : Except Fault Builder :=
  match b with
  | num b =>
    let words := values.filterMap fun v => match v with
      | .num _ word => some word
      | _ => none
    .ok (.num (b.appendSlice words))
  | b => values.foldlM appendScalar b

end Builder

/-- The column of a scalar type with these slots.  Numbers without nulls may be given as `dense`. -/
def Column.ofScalars (type : DataType) (dense : Bool) (values : List Value) :
    Except Fault Column := do
  let b ← Builder.sized type values.length 0
  let b ← if dense then b.appendDense values else values.foldlM Builder.appendScalar b
  return (← b.finish).1

end Columnar
