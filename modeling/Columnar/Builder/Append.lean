import Columnar.Builder.Basic
import Columnar.View.Value

/-!
# Capacity and slots of builders

Setting the capacity, and adding slots.  A nested builder changes its own slots only, with three
exceptions: a null slot of a fixed-size list has null values, a null slot of a struct made by
`appendNulls` has null rows, and the capacity of a map or of entries is also that of its keys and
items.
-/

namespace Columnar

namespace Slots

/-- Makes room for `additional` more slots. -/
def reserve (s : Slots) (additional : Nat) (sizes : Sizes := .unbounded) : Slots :=
  match s.growTarget? additional sizes with
  | some capacity => s.resize capacity
  | none => s

/-- `n` times: makes room for a slot and adds it. -/
def openMany (s : Slots) (valid : Bool) : (n : Nat) → Slots
  | 0 => s
  | n + 1 => ((s.reserve 1).append valid).openMany valid n

end Slots

/-- `n` times the same step, until one fails. -/
def iterate {α : Type} (step : α → Except Fault α) (a : α) : (n : Nat) → Except Fault α
  | 0 => .ok a
  | n + 1 => do iterate step (← step a) n

namespace Builder

/-! ### Capacity -/

/-- Sets the slot capacity, at least the smallest one.  Slots past it are dropped. -/
def resize : Builder → (capacity : Nat) → Builder
  | null b, capacity => .null (b.resize capacity)
  | bool b, capacity => .bool (b.resize capacity)
  | num b, capacity => .num (b.resize capacity)
  | bytes b, capacity => .bytes (b.resize capacity)
  | list spans values, capacity => .list (spans.resize capacity) values
  | fixedList slots size values, capacity =>
    .fixedList (slots.resize (max capacity minCapacity)) size values
  | struct slots fields children, capacity =>
    .struct (slots.resize (max capacity minCapacity)) fields children
  | entries keys items, capacity => .entries (keys.resize capacity) (items.resize capacity)
  | map spans keys items sorted, capacity =>
    let capacity := max capacity minCapacity
    .map (spans.resize capacity) (keys.resize capacity) (items.resize capacity) sorted

/-- Makes room for `additional` more slots. -/
def reserve : Builder → (additional : Nat) → (sizes : Sizes := .unbounded) → Builder
  | null b, n, sizes => .null (b.reserve n sizes)
  | bool b, n, sizes => .bool (b.reserve n sizes)
  | num b, n, sizes => .num (b.reserve n sizes)
  | bytes b, n, sizes => .bytes (b.reserve n sizes)
  | list spans values, n, sizes => .list (spans.reserve n sizes) values
  | fixedList slots size values, n, sizes => .fixedList (slots.reserve n sizes) size values
  | struct slots fields children, n, sizes => .struct (slots.reserve n sizes) fields children
  | entries keys items, n, sizes => .entries (keys.reserve n sizes) (items.reserve n sizes)
  | map spans keys items sorted, n, sizes =>
    .map (spans.reserve n sizes) (keys.reserve n sizes) (items.reserve n sizes) sorted

/-! ### Slots of nested builders -/

/-- The number of child rows so far, as an offset. -/
def offset (values : Builder) : Except Fault Nat :=
  if values.len ≤ maxOffset then .ok values.len else Misuse.listOverflow.stop

mutual

/-- `n` null slots, one after the other.  Entries take null keys and null items; a map opens empty
slots. -/
def appendNulls : Builder → (n : Nat) → Except Fault Builder
  | b, 0 => .ok b
  | .null b, n => .ok (.null (b.appendMany n))
  | .bool b, n => .ok (.bool (n.repeat BoolBuilder.appendNull b))
  | .num b, n => .ok (.num (n.repeat NumBuilder.appendNull b))
  | .bytes b, n => do return .bytes (← iterate BytesBuilder.appendNull b n)
  | .list spans values, n => do
    return .list (spans.appendMany (← values.offset) false n) values
  | .fixedList slots size values, n => do
    return .fixedList (slots.openMany false n) size (← appendNulls values (n * size))
  | .struct slots fields children, n => do
    return .struct (slots.openMany false n) fields (← appendNullsToAll children n)
  | .entries keys items, n => do
    return .entries (← appendNulls keys n) (← appendNulls items n)
  | .map spans keys items sorted, n => do
    return .map (spans.appendMany (← keys.offset) false n) keys items sorted
termination_by structural b => b

/-- `n` null slots in each builder. -/
def appendNullsToAll : List Builder → (n : Nat) → Except Fault (List Builder)
  | [], _ => .ok []
  | b :: bs, n => do return (← appendNulls b n) :: (← appendNullsToAll bs n)
termination_by structural bs => bs

end

/-- One null slot. -/
def appendNull (b : Builder) : Except Fault Builder := b.appendNulls 1

/-- Opens a slot of a nested builder; its values are appended to the children.  A map is refused a
slot while its keys and items do not pair up. -/
def append (b : Builder) (valid : Bool) : Except Fault Builder :=
  match b with
  | list spans values => do
    return .list ((spans.reserve 1).append (← values.offset) valid) values
  | fixedList slots size values => do
    let slots := (slots.reserve 1).append valid
    return .fixedList slots size (← if valid then pure values else values.appendNulls size)
  | struct slots fields children => .ok (.struct ((slots.reserve 1).append valid) fields children)
  | map spans keys items sorted =>
    if keys.len = items.len then do
      return .map ((spans.reserve 1).append (← keys.offset) valid) keys items sorted
    else (Refusal.unpairedEntry keys.len items.len).refuse
  | _ => .error .unknown

/-! ### Slots of scalar builders -/

/-- One more slot with a scalar value, or a null one. -/
def appendScalar (b : Builder) (v : Value) : Except Fault Builder :=
  match b, v with
  | b, .null => b.appendNull
  | bool b, .bool v => .ok (.bool (b.appendValue v))
  | num b, .num _ word => .ok (.num (b.appendValue word))
  | bytes b, .text v | bytes b, .binary v => do return .bytes (← b.appendValue v)
  | _, _ => .error .unknown

end Builder

end Columnar
