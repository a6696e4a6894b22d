import Columnar.Column.Slice

/-!
# Identity of columns and regions

A column says what it holds, not whether it shares nodes or memory with other columns.  A
`Placement` tells that: it has the shape of a column, with a number for each node and each region.
Two nodes are one and the same if they have the same number, and so are two regions.

The numbers are taken from a counter (`Fresh`).  Making a node takes a number for the node, and one
for each region unless the regions are shared with another node.
-/

namespace Columnar

/-- The numbers of a node and of everything below it. -/
structure Placement where
  node : Nat
  /-- The regions of the buffers that are present. -/
  regions : List (Option Nat)
  children : List Placement
  dictionary : Option Placement

instance : Inhabited Placement := ⟨⟨0, [], [], none⟩⟩

/-- Computations that take numbers not yet given out, and that can fail. -/
abbrev Fresh := StateT Nat (Except Fault)

/-- A number not yet given out. -/
def fresh : Fresh Nat := modifyGet fun n => (n, n + 1)

namespace Placement

/-- New regions for the buffers that are present. -/
def newRegions : List (Option Buffer) → Fresh (List (Option Nat))
  | [] => return []
  | none :: bs => return none :: (← newRegions bs)
  | some _ :: bs => return some (← fresh) :: (← newRegions bs)

mutual

/-- A column of which nothing is shared. -/
def ofColumn : Column → Fresh Placement
  | ⟨_, _, _, _, buffers, children, dictionary⟩ => do
    return ⟨← fresh, ← newRegions buffers, ← ofColumns children, ← ofDictionary dictionary⟩

/-- Columns of which nothing is shared. -/
def ofColumns : List Column → Fresh (List Placement)
  | [] => return []
  | c :: cs => return (← ofColumn c) :: (← ofColumns cs)

/-- A dictionary of which nothing is shared. -/
def ofDictionary : Option Column → Fresh (Option Placement)
  | none => return none
  | some d => return some (← ofColumn d)

end

/-- A new node over the same regions, children and dictionary. -/
def again (p : Placement) : Fresh Placement := return { p with node := ← fresh }

mutual

/-- A slice of a column: a new node over the same regions.  The columns of a struct are sliced too,
all other children are shared. -/
def slice : Column → Placement → Fresh Placement
  | ⟨type, _, _, _, _, children, _⟩, p => do
    let below ← (if type.hasRowChildren then sliceAll children p.children else pure p.children)
    return { p with node := ← fresh, children := below }

/-- Slices of several columns. -/
def sliceAll : List Column → List Placement → Fresh (List Placement)
  | c :: cs, p :: ps => return (← slice c p) :: (← sliceAll cs ps)
  | _, _ => return []

end

/-- The numbers of child `i`. -/
def child (p : Placement) (i : Nat) : Placement := (p.children[i]?).getD default

end Placement

end Columnar
