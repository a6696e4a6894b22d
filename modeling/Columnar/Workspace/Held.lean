import Columnar.Column.Assemble
import Columnar.Column.Equality
import Columnar.View.Basic
import Columnar.Workspace.Placement

/-!
# Columns with identity

A `Held` column is a column together with its placement.  Here are the ways to make one from others,
each with what it shares, and the questions that depend on identity: whether two columns share
memory, and which nodes and regions a column keeps alive.
-/

namespace Columnar

/-- A column and the numbers of its nodes and regions. -/
structure Held where
  column : Column
  place : Placement

namespace Held

/-! ### Making -/

/-- A column of which nothing is shared. -/
def ofColumn (column : Column) : Fresh Held := return ⟨column, ← Placement.ofColumn column⟩

/-- A new node over new buffers; the children and the dictionary are shared.  Unless `checked`, the
parts need not fit together. -/
def ofParts (checked : Bool) (type : DataType) (len offset : Nat) (nulls? : Option Nat)
    (buffers : List (Option Buffer)) (children : List Held) (dictionary : Option Held) :
    Fresh Held := do
  let below := children.map column
  let entries := dictionary.map column
  let c ←
    if checked then Column.make type len offset nulls? buffers below entries .wrapping
    else Column.ofParts type len offset nulls? buffers below entries .wrapping
  return ⟨c, ⟨← fresh, ← Placement.newRegions buffers, children.map place, dictionary.map place⟩⟩

/-- The same parts under another type. -/
def retag (h : Held) (type : DataType) : Fresh Held :=
  return ⟨h.column.retag type, ← h.place.again⟩

/-- The `len` slots from `offset` on. -/
def slice (h : Held) (offset len : Nat) : Fresh Held := do
  let c ← h.column.slice offset len .wrapping
  return ⟨c, ← h.place.slice h.column⟩

/-- The slice of a column that is viewed before and after. -/
def viewSlice (h : Held) (offset len : Nat) : Fresh Held := do
  let _ ← View.ofColumn h.column
  let s ← h.slice offset len
  let _ ← View.ofColumn s.column
  return s

/-- The struct of these columns, which can itself be viewed. -/
def structOf (fields : List Field) (columns : List Held) (validity : Option Buffer) :
    Fresh Held := do
  let c ← Column.structOf fields (columns.map column) validity .wrapping
  let _ ← View.ofColumn c
  return ⟨c, ⟨← fresh, ← Placement.newRegions [validity], columns.map place, none⟩⟩

/-- The dictionary column of indices and values, which can itself be viewed. -/
def dictionaryOf (index : IntType) (value : DataType) (ordered : Bool) (indices values : Held) :
    Fresh Held := do
  let c ← Column.dictionaryOf index value ordered indices.column values.column
  let _ ← View.ofColumn c
  return ⟨c, ⟨← fresh, indices.place.regions, [], some values.place⟩⟩

/-! ### Parts -/

/-- Child `i`. -/
def child (h : Held) (i : Nat) : Except Fault Held := do
  return ⟨← Fault.outOfRange.orElse h.column.children[i]?, h.place.child i⟩

/-- The dictionary, if there is one. -/
def dictionary? (h : Held) : Option Held := do
  return ⟨← h.column.dictionary, ← h.place.dictionary⟩

/-- The indices of a dictionary column. -/
def indices (h : Held) : Fresh Held := do
  match ← View.ofKind .dictionary h.column with
  | .dictionary _ indices _ =>
    return ⟨indices.data, ⟨← fresh, h.place.regions, [], none⟩⟩
  | _ => throw .unknown

/-- The list of entries that a map column is stored as. -/
def asList (h : Held) : Fresh Held := do
  let list ← (← View.ofKind .map h.column).asList
  return ⟨list.data, ← h.place.again⟩

/-- The column of a struct that has this name, if there is one. -/
def column? (h : Held) (name : String) : Except Fault (Option Held) := do
  let v ← View.ofKind .struct h.column
  match ← v.columnIndex? name with
  | some i => return some (← h.child i)
  | none => return none

/-! ### Sharing -/

/-- Position by position, whether both buffers are the same region; none where one is absent. -/
def shares (h k : Held) : List (Option Bool) :=
  (h.place.regions.zip k.place.regions).map fun (r, s) => do return (← r) == (← s)

/-- The columns are one node, or hold the same values. -/
def equal (h k : Held) : Except Fault Bool :=
  if h.place.node = k.place.node then .ok true else h.column.equal k.column

/-! ### Live memory -/

/-- A node and the regions that it holds. -/
structure Node where
  id : Nat
  regions : List (Nat × Buffer)

/-- The regions of the buffers that are present. -/
def regionsOf (buffers : List (Option Buffer)) (regions : List (Option Nat)) :
    List (Nat × Buffer) :=
  (buffers.zip regions).filterMap fun (b, r) => do return (← r, ← b)

mutual

/-- The nodes of a column, put before those already `seen`.  What is below a node that was seen was
seen with it, so shared nodes are visited once. -/
def reach (seen : List Node) : Column → Placement → List Node
  | ⟨_, _, _, _, buffers, children, dictionary⟩, p =>
    if seen.any (·.id = p.node) then seen
    else
      let own : Node := ⟨p.node, regionsOf buffers p.regions⟩
      reachDictionary (reachAll (own :: seen) children p.children) dictionary p.dictionary

/-- The nodes of several columns. -/
def reachAll (seen : List Node) : List Column → List Placement → List Node
  | c :: cs, p :: ps => reachAll (reach seen c p) cs ps
  | _, _ => seen

/-- The nodes of a dictionary. -/
def reachDictionary (seen : List Node) : Option Column → Option Placement → List Node
  | some d, some p => reach seen d p
  | _, _ => seen

end

end Held

end Columnar
