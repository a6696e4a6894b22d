import Columnar.View.Basic

/-!
# Values of slots

`View.value` gives the value of a slot, `View.slot` the same except that null slots have the value
`Value.null`, and `View.slots` the values of all slots.  The rows behind a list slot are read as all
slots of their window are; the columns of a struct, the pairs of a map and the entry that a
dictionary index names are read slot by slot.  Values nest as deeply as columns do.
-/

namespace Columnar

/-- What a slot can hold. -/
inductive Value where
  | null
  | bool (b : Bool)
  /-- A number as the word that represents it. -/
  | num (type : NumType) (word : Nat)
  | text (bytes : Bytes)
  | binary (bytes : Bytes)
  | list (items : List Value)
  | struct (columns : List Value)
  | map (entries : List (Value × Value))
  /-- A dictionary entry together with its position. -/
  | entry (key : Nat) (value : Value)

mutual

/-- Number of columns on the longest way from this column through children and dictionaries. -/
def Column.height : Column → Nat
  | ⟨_, _, _, _, _, children, dictionary⟩ =>
    1 + max (heightOfAll children) (heightOfDictionary dictionary)

def Column.heightOfAll : List Column → Nat
  | [] => 0
  | c :: cs => max c.height (heightOfAll cs)

def Column.heightOfDictionary : Option Column → Nat
  | none => 0
  | some d => d.height

end

namespace View

/-- The value given, unless slot `i` is null. -/
@[inline]
def unlessNull (v : View) (i : Nat) (value : Unit → Except Fault Value) : Except Fault Value := do
  if ← v.isNull i then return .null else value ()

/-- The numbers of a column are read as one run, which must lie inside the buffer even where every
slot is null.  All other columns are read slot by slot. -/
def checkRun : View → Except Fault Unit
  | .num t c => do
    let _ ← c.values t.width
    return ()
  | _ => .ok ()

/-- What `f` gives for slot `i` and the `n - 1` slots after it, put behind `out`.  Nothing is asked
past a failure. -/
def collect {α : Type} (f : Nat → Except Fault α) (i : Nat) (out : Array α) :
    (n : Nat) → Except Fault (List α)
  | 0 => .ok out.toList
  | n + 1 => do collect f (i + 1) (out.push (← f i)) n

/-- What `slot` gives for each slot of the view. -/
def collectSlots (v : View) (slot : Nat → Except Fault Value) : Except Fault (List Value) := do
  v.checkRun
  collect slot 0 #[] v.len

/-- The value of slot `i`, valid or not, of a view at most `depth` columns high. -/
def valueWithin : (depth : Nat) → View → (i : Nat) → Except Fault Value
  | 0, _, _ => .error .unknown
  | depth + 1, v, i =>
    let slot (v : View) (i : Nat) : Except Fault Value :=
      v.unlessNull i fun _ => valueWithin depth v i
    match v with
    | .null _ => .ok .null
    | .bool _ values => do return .bool (← values.get i)
    | .num t c => do return .num t (← c.wordOf t i)
    | .utf8 c => do return .text (← c.bytesOf i)
    | .binary c => do return .binary (← c.bytesOf i)
    | .list _ _ | .fixedList _ _ _ => do
      let w ← v.window i
      return .list (← w.collectSlots (slot w))
    | .struct _ columns => do return .struct (← columns.mapM (slot · i))
    | .map _ _ _ _ _ => do
      let w ← v.window i
      match w.columns with
      | [keys, items] =>
        return .map (← collect (fun j => do return (← slot keys j, ← slot items j)) 0 #[] w.len)
      | _ => .error .unknown
    | .dictionary _ _ entries => do
      match ← v.key i with
      | some k => return .entry k (← slot entries k)
      | none => return .null

/-- The value of slot `i`, whether or not the slot is null.  Only a dictionary slot that is null has
no value of its own. -/
def value (v : View) (i : Nat) : Except Fault Value := valueWithin v.data.height v i

/-- The value of slot `i`, or null. -/
def slot (v : View) (i : Nat) : Except Fault Value := v.unlessNull i fun _ => v.value i

/-- The values of all slots. -/
def slots (v : View) : Except Fault (List Value) := v.collectSlots v.slot

end View

end Columnar
