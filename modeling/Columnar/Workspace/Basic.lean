import Columnar.Builder.Finish
import Columnar.Workspace.Held

/-!
# Workspaces

A `Workspace` holds columns and builders under names, the columns apart from the builders.  A name
that is used again lets go of what it stood for.  `Workspace.memory` is the size of all memory in
use: the regions that some named column reaches, each once however many columns share it, and the
memory of the builders.
-/

namespace Columnar

/-- Named columns and builders. -/
structure Workspace where
  columns : List (String × Held) := []
  builders : List (String × Builder) := []
  /-- The number that the next node or region gets. -/
  next : Nat := 0

namespace Workspace

/-- The entries other than those of the name. -/
def without {α : Type} (name : String) (entries : List (String × α)) : List (String × α) :=
  entries.filter (·.1 ≠ name)

/-! ### Columns -/

/-- The column of that name. -/
def column (w : Workspace) (name : String) : Except Fault Held :=
  Fault.unknown.orElse (w.columns.lookup name)

/-- The column of that name, if it can be viewed.  Where several columns are named, each is viewed
before the next name is looked up. -/
def viewable (w : Workspace) (name : String) : Except Fault Held := do
  let h ← w.column name
  let _ ← View.ofColumn h.column
  return h

/-- Makes a column and gives it a name. -/
def store (w : Workspace) (name : String) (making : Fresh Held) :
    Except Fault (Held × Workspace) := do
  let (h, next) ← making.run w.next
  return (h, { w with columns := (name, h) :: without name w.columns, next })

/-- Drops the column of that name, or else the builder.  Tells whether there was one. -/
def drop (w : Workspace) (name : String) : Bool × Workspace :=
  if (w.columns.lookup name).isSome then
    (true, { w with columns := without name w.columns })
  else if (w.builders.lookup name).isSome then
    (true, { w with builders := without name w.builders })
  else (false, w)

/-! ### Builders -/

/-- The builder of that name. -/
def builder (w : Workspace) (name : String) : Except Fault Builder :=
  Fault.unknown.orElse (w.builders.lookup name)

def storeBuilder (w : Workspace) (name : String) (b : Builder) : Workspace :=
  { w with builders := (name, b) :: without name w.builders }

/-- Takes builders out of the workspace in order, up to the first name that stands for none. -/
def takeBuilders (w : Workspace) : List String → Except Fault (List Builder) × Workspace
  | [] => (.ok [], w)
  | name :: names =>
    match w.builder name with
    | .error f => (.error f, w)
    | .ok b =>
      let (rest, w) := { w with builders := without name w.builders }.takeBuilders names
      (rest.map (b :: ·), w)

/-- Changes the builder at `path` below the named one.  Gives that builder after the change, and the
answer of the change. -/
def modifyBuilder {α : Type} (w : Workspace) (name : String) (path : List Nat)
    (change : Builder → Except Fault (Builder × α)) : Except Fault (Builder × α × Workspace) := do
  let changed (b : Builder) : Except Fault (Builder × Builder × α) := do
    let (b, a) ← change b
    return (b, b, a)
  let (root, b, a) ← Builder.modifyAt changed path (← w.builder name)
  return (b, a, w.storeBuilder name root)

/-! ### Memory -/

/-- The nodes that the named columns keep alive, each once. -/
def nodes (w : Workspace) : List Held.Node :=
  w.columns.foldl (fun seen (_, h) => Held.reach seen h.column h.place) []

/-- The regions in use, each once. -/
def regions (w : Workspace) : List (Nat × Buffer) :=
  (w.nodes.flatMap Held.Node.regions).eraseDupsBy fun r s => r.1 == s.1

/-- Number of handles on a region: one for each place in a node that holds it. -/
def handles (w : Workspace) (region : Nat) : Nat :=
  (w.nodes.flatMap Held.Node.regions).countP (·.1 = region)

/-- The size of the memory in use, as far as it counts as outstanding. -/
def memory (w : Workspace) : Nat :=
  w.builders.foldl (fun sum (_, b) => sum + b.memory)
    (w.regions.foldl (fun sum (_, b) => sum + b.memory) 0)

end Workspace

end Columnar
