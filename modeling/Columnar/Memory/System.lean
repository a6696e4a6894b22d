import Columnar.Memory.Allocator

/-!
# Memory from the system

An `Arena` says what its regions hold and what they add up to.  Here is how they come to: memory is
taken from a `System`, which promises less than an arena does.  Fresh memory is zero, but of a
region that it moves the system only keeps the bytes that were there; what the region grows by is
cleared afterwards.  An empty region is no memory at all, so the system is not asked for one.

The running total is brought up to date after the system has answered.  `System.perform` therefore
also tells what has been done to the arena where an operation fails.
-/

namespace Columnar

/-- How the system moves regions.  The answer may depend on the number `k` of the request, and holds
anything where nothing is promised. -/
structure System where
  /-- The region after a request for `size` bytes in place of `old`. -/
  moved : (k : Nat) → (old : Bytes) → (size : Nat) → Bytes
  size_moved : ∀ k old size, (moved k old size).size = size
  /-- The old bytes stay, as far as they fit. -/
  kept : ∀ k old size i, i < old.size → i < size → (moved k old size)[i]? = old[i]?

namespace System

/-- Stops where a region of `size` bytes does not exist. -/
def layout (size : Nat) : Except Fault Unit :=
  if size ≤ maxRegion then .ok () else (Misuse.unaddressable size).stop

/-- A fresh region. -/
def fresh (size : Nat) : Except Fault Bytes :=
  if size = 0 then .ok #[]
  else do
    layout size
    return Bytes.zeros size

/-- The region `old` with `size` bytes. -/
def resize (sys : System) (k : Nat) (old : Bytes) (size : Nat) : Except Fault Bytes :=
  if old.size = 0 then fresh size
  else if size = 0 then .ok #[]
  else do
    layout size
    let new := sys.moved k old size
    return if old.size < size then new.fill old.size 0 (size - old.size) else new

/-- Steps on an arena.  What a step has done stays done where a later one fails. -/
abbrev Steps := ExceptT Fault (StateM Arena)

/-- Adds to the running total. -/
def charge (n : Int) : Steps Unit :=
  modify fun a => { a with allocator := ⟨a.allocator.outstanding + n⟩ }

/-- Replaces region `r`. -/
def put (r : Nat) (bytes : Option Bytes) : Steps Unit :=
  modify fun a => { a with regions := a.regions.setIfInBounds r bytes }

/-- The contents of a live region. -/
def held (r : Nat) : Steps Bytes := do
  (← get).region r

/-- Does the operation, with request `k` to the system. -/
def perform (sys : System) (k : Nat) : Arena.Op → Steps Unit
  | .allocate size => do
    let bytes ← fresh size
    charge size
    modify fun a => { a with regions := a.regions.push (some bytes) }
  | .reallocate r size => do
    let old ← held r
    let bytes ← sys.resize k old size
    charge (size - old.size)
    put r (some bytes)
  | .free r => do
    let old ← held r
    put r none
    charge (-old.size)
  | .fill r v => do
    let old ← held r
    put r (some (Array.replicate old.size v))
  | .write r i src => do
    let old ← held r
    put r (some (old.overwrite i src.toList))

/-- The arena after the operations, each of which keeps what it has done where it fails.  The
requests to the system are numbered from `k` on. -/
def after (sys : System) (k : Nat) (a : Arena) : List Arena.Op → Arena
  | [] => a
  | op :: ops => sys.after (k + 1) ((sys.perform k op).run a).2 ops

end System

end Columnar
