import Columnar.Memory.Buffer
import Columnar.Memory.RefCount

/-!
# Pools of buffers

A `Pool` is an allocator with the buffers that live in its memory: buffers being written, each with
one owner, and frozen regions, shared by any number of handles.  A region is freed when its last
handle is dropped.  Writers and handles are numbered in order of creation.
-/

namespace Columnar

/-- A frozen region and the number of its handles. -/
structure Shared where
  buffer : Buffer
  refs : RefCount := {}
  deriving DecidableEq

/-- An allocator and the buffers in its memory.  What is freed or dropped is `none`. -/
structure Pool where
  allocator : Allocator := {}
  writers : Array (Option GrowBuffer) := #[]
  regions : Array (Option Shared) := #[]
  /-- The region of every handle. -/
  handles : Array (Option Nat) := #[]

namespace Pool

/-- What can be done with a pool. -/
inductive Op where
  /-- A new buffer to write, with room for `capacity` bytes. -/
  | writer (capacity : Nat)
  | write (writer : Nat) (op : GrowBuffer.Op)
  /-- Turns a writer into a frozen region with one handle. -/
  | freeze (writer : Nat)
  | dropWriter (writer : Nat)
  /-- A frozen region of exactly these bytes, with one handle. -/
  | frozen (bytes : Bytes)
  | clone (handle : Nat)
  | drop (handle : Nat)
  deriving DecidableEq

def writer (p : Pool) (w : Nat) : Except Fault GrowBuffer := Fault.unknown.orElse p.writers[w]?.join

/-- The number of the region behind a handle. -/
def regionOf (p : Pool) (h : Nat) : Except Fault Nat := Fault.unknown.orElse p.handles[h]?.join

def shared (p : Pool) (region : Nat) : Except Fault Shared :=
  Fault.unknown.orElse p.regions[region]?.join

/-- The frozen region behind a handle. -/
def read (p : Pool) (h : Nat) : Except Fault Shared := do
  p.shared (← p.regionOf h)

/-- Adds a frozen region, with one handle. -/
def addRegion (p : Pool) (buffer : Buffer) : Pool :=
  { p with
    regions := p.regions.push (some { buffer })
    handles := p.handles.push (some p.regions.size) }

/-- Does the operation. -/
def step (p : Pool) (op : Op) (sizes : Sizes := .unbounded) : Except Fault Pool :=
  match op with
  | .writer capacity => do
    let allocator ← p.allocator.allocate (roundUp capacity sizes)
    return { p with allocator, writers := p.writers.push (some (.make capacity true sizes)) }
  | .write w op => do
    let b ← p.writer w
    let allocator ← p.allocator.reallocate b.capacity (op.target b sizes)
    return { p with allocator, writers := p.writers.setIfInBounds w (some (← b.apply op sizes)) }
  | .freeze w => do
    let b ← p.writer w
    return { p with writers := p.writers.setIfInBounds w none }.addRegion b.freeze
  | .dropWriter w => do
    let b ← p.writer w
    return { p with
      allocator := p.allocator.free b.capacity
      writers := p.writers.setIfInBounds w none }
  | .frozen bytes => do
    let allocator ← p.allocator.allocate bytes.size
    return { p with allocator }.addRegion (.ofBytes bytes true)
  | .clone h => do
    let region ← p.regionOf h
    let s ← p.shared region
    return { p with
      regions := p.regions.setIfInBounds region (some { s with refs := s.refs.retain })
      handles := p.handles.push (some region) }
  | .drop h => do
    let region ← p.regionOf h
    let s ← p.shared region
    let (refs, last) := s.refs.release
    let handles := p.handles.setIfInBounds h none
    if ← last then
      return { p with
        allocator := p.allocator.free s.buffer.capacity
        regions := p.regions.setIfInBounds region none
        handles }
    else
      return { p with regions := p.regions.setIfInBounds region (some { s with refs }), handles }

/-- Does the operations one after the other. -/
def run (p : Pool) : (ops : List Op) → (sizes : Sizes := .unbounded) → Except Fault Pool
  | [], _ => .ok p
  | op :: ops, sizes => do (← p.step op sizes).run ops sizes

end Pool

end Columnar
