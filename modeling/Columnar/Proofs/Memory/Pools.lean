import Columnar.Memory.Pool
import Columnar.Proofs.Outcomes
import Mathlib.Algebra.BigOperators.Group.List.Basic
import Mathlib.Algebra.GroupWithZero.Nat

/-!
# Pools of buffers, step by step

`Pool.Moves` says once what an operation that goes through does to a pool, however sums of sizes
come out.  Three properties are
kept by every move: each region counts its live handles and is live while it has any
(`Pool.Linked`), the running total is what the live regions take up (`Pool.Balanced`), and no writer
is larger than a region can be (`Pool.Addressable`).

They tell which operations go through (`Pool.step_ok_iff`), and that nothing is outstanding once all
writers and handles are dropped (`Pool.Balanced.of_dropped`).
-/

namespace Columnar

/-! ### Numbered slots -/

section Numbered

variable {α : Type} {slots : Array (Option α)} {i j : Nat} {a : α}

theorem join_eq_some : slots[i]?.join = some a ↔ ∃ h : i < slots.size, slots[i] = some a := by
  rw [Option.join_eq_some_iff, Array.getElem?_eq_some_iff]

theorem join_push (s : Option α) :
    (slots.push s)[i]?.join = if i = slots.size then s else slots[i]?.join := by
  rw [Array.getElem?_push]
  split <;> rfl

theorem join_set (h : slots[i]?.join = some a) (s : Option α) :
    (slots.setIfInBounds i s)[j]?.join = if j = i then s else slots[j]?.join := by
  obtain ⟨inside, -⟩ := join_eq_some.mp h
  rw [Array.getElem?_setIfInBounds, if_pos inside]
  by_cases same : j = i
  · rw [if_pos same.symm, if_pos same]
    rfl
  · rw [if_neg (Ne.symm same), if_neg same]

/-- The sizes of what the slots hold, added up. -/
def sizesOf (size : α → Nat) (slots : Array (Option α)) : Nat :=
  (slots.toList.map fun s => (s.map size).getD 0).sum

variable {size : α → Nat}

theorem sizesOf_push (s : Option α) :
    sizesOf size (slots.push s) = sizesOf size slots + (s.map size).getD 0 := by
  simp [sizesOf]

theorem sum_map_set {β : Type} (f : β → Nat) {l : List β} {i : Nat} {x : β} (h : l[i]? = some x)
    (y : β) : ((l.set i y).map f).sum + f x = (l.map f).sum + f y := by
  induction l generalizing i with
  | nil => simp at h
  | cons head l ih =>
    cases i with
    | zero =>
      obtain rfl : head = x := by simpa using h
      simp only [List.set_cons_zero, List.map_cons, List.sum_cons]
      omega
    | succ i =>
      have rest := ih (i := i) (by simpa using h)
      simp only [List.set_cons_succ, List.map_cons, List.sum_cons]
      omega

theorem sizesOf_set (size : α → Nat) (h : slots[i]?.join = some a) (s : Option α) :
    sizesOf size (slots.setIfInBounds i s) + size a = sizesOf size slots + (s.map size).getD 0 := by
  have found : slots.toList[i]? = some (some a) := by
    rw [Array.getElem?_toList]
    exact Option.join_eq_some_iff.mp h
  rw [sizesOf, Array.toList_setIfInBounds]
  exact sum_map_set (fun s => (s.map size).getD 0) found s

theorem sizesOf_of_none (h : ∀ i : Nat, slots[i]?.join = none) : sizesOf size slots = 0 := by
  refine List.sum_eq_zero fun n hn => ?_
  obtain ⟨s, hs, rfl⟩ := List.mem_map.mp hn
  obtain ⟨i, hi⟩ := List.mem_iff_getElem?.mp hs
  have := h i
  rw [← Array.getElem?_toList, hi] at this
  rw [show s = none from this]
  rfl

variable [DecidableEq α]

theorem count_pos_of_join (h : slots[i]?.join = some a) : 0 < slots.count (some a) :=
  Array.count_pos_iff.mpr (Array.mem_iff_getElem?.mpr ⟨i, Option.join_eq_some_iff.mp h⟩)

theorem exists_join_of_count (h : 0 < slots.count (some a)) :
    ∃ i : Nat, slots[i]?.join = some a := by
  obtain ⟨i, hi⟩ := Array.mem_iff_getElem?.mp (Array.count_pos_iff.mp h)
  exact ⟨i, Option.join_eq_some_iff.mpr hi⟩

theorem count_push_some (b : α) :
    (slots.push (some a)).count (some b) = slots.count (some b) + if b = a then 1 else 0 := by
  rw [Array.count_push]
  by_cases same : b = a
  · simp [same]
  · simp [same, Ne.symm same]

theorem count_set_none (h : slots[i]?.join = some a) (b : α) :
    (slots.setIfInBounds i none).count (some b) + (if b = a then 1 else 0) =
      slots.count (some b) := by
  obtain ⟨inside, found⟩ := join_eq_some.mp h
  have pos := count_pos_of_join h
  rw [Array.setIfInBounds_def, dif_pos inside, Array.count_set, found]
  by_cases same : b = a
  · subst same
    simp
    omega
  · simp [same, Ne.symm same]

end Numbered

/-! ### What one operation does -/

namespace Allocator

variable {a a' : Allocator} {size old new : Nat}

theorem allocate_eq_ok :
    a.allocate size = .ok a' ↔ size ≤ maxRegion ∧ a' = ⟨a.outstanding + size⟩ := by
  rw [allocate]
  split
  · next room => simp [room, eq_comm]
  · next room => simp [room, Misuse.stop]

theorem reallocate_eq_ok :
    a.reallocate old new = .ok a' ↔
      new ≤ maxRegion ∧ a' = ⟨a.outstanding + (new - old : Int)⟩ := by
  rw [reallocate]
  split
  · next room => simp [room, eq_comm]
  · next room => simp [room, Misuse.stop]

end Allocator

theorem RefCount.release_eq_ok {r : RefCount} {last : Bool} :
    r.release.2 = .ok last ↔ 0 < r.holders ∧ last = decide (r.holders = 1) := by
  rw [release]
  by_cases positive : r.holders ≤ 0
  · simp [positive, Int.not_lt.mpr positive, Misuse.stop]
  · simp [positive, Int.not_le.mp positive, eq_comm]

namespace GrowBuffer

theorem capacity_make (capacity : Nat) (tracked : Bool) {sizes : Sizes} :
    (make capacity tracked sizes).capacity = roundUp capacity sizes := Array.size_replicate

/-- The position that the operation writes is visible. -/
def Op.InRange (b : GrowBuffer) : Op → Prop
  | .setByte i _ => i < b.len
  | .setWord width i _ => i < b.len / width
  | .append _ | .reserve _ | .reallocate _ | .resize _ _ | .truncate _ | .clear => True

theorem exists_apply_iff {b : GrowBuffer} {op : Op} {sizes : Sizes} :
    (∃ c, b.apply op sizes = .ok c) ↔ op.InRange b := by
  cases op with
  | setByte i v =>
    rw [apply, setByte, Op.InRange]
    split <;> simp_all
  | setWord width i word =>
    rw [apply, setWord, Op.InRange]
    split <;> simp_all
  | _ => simp [apply, Op.InRange]

end GrowBuffer

theorem Fault.orElse_eq_ok {α : Type} {f : Fault} {o : Option α} {a : α} :
    f.orElse o = .ok a ↔ o = some a := by
  cases o <;> simp [Fault.orElse]

namespace Pool

variable {p q : Pool} {op : Op} {sizes : Sizes}

/-- What an operation that goes through does, when sums come out like this. -/
inductive Moves (sizes : Sizes) (p : Pool) : Op → Pool → Prop where
  | writer {capacity : Nat} {a : Allocator}
    (paid : p.allocator.allocate (roundUp capacity sizes) = .ok a) :
    Moves sizes p (.writer capacity)
      { p with allocator := a, writers := p.writers.push (some (.make capacity true sizes)) }
  | write {w : Nat} {op : GrowBuffer.Op} {b c : GrowBuffer} {a : Allocator}
    (live : p.writers[w]?.join = some b) (done : b.apply op sizes = .ok c)
    (paid : p.allocator.reallocate b.capacity c.capacity = .ok a) :
    Moves sizes p (.write w op)
      { p with allocator := a, writers := p.writers.setIfInBounds w (some c) }
  | freeze {w : Nat} {b : GrowBuffer} (live : p.writers[w]?.join = some b) :
    Moves sizes p (.freeze w)
      ({ p with writers := p.writers.setIfInBounds w none }.addRegion b.freeze)
  | dropWriter {w : Nat} {b : GrowBuffer} (live : p.writers[w]?.join = some b) :
    Moves sizes p (.dropWriter w)
      { p with
        allocator := p.allocator.free b.capacity
        writers := p.writers.setIfInBounds w none }
  | frozen {bytes : Bytes} {a : Allocator} (paid : p.allocator.allocate bytes.size = .ok a) :
    Moves sizes p (.frozen bytes) ({ p with allocator := a }.addRegion (.ofBytes bytes true))
  | clone {h r : Nat} {s : Shared} (held : p.handles[h]?.join = some r)
    (live : p.regions[r]?.join = some s) :
    Moves sizes p (.clone h)
      { p with
        regions := p.regions.setIfInBounds r (some { s with refs := ⟨s.refs.holders + 1⟩ })
        handles := p.handles.push (some r) }
  | dropOne {h r : Nat} {s : Shared} (held : p.handles[h]?.join = some r)
    (live : p.regions[r]?.join = some s) (others : 1 < s.refs.holders) :
    Moves sizes p (.drop h)
      { p with
        regions := p.regions.setIfInBounds r (some { s with refs := ⟨s.refs.holders - 1⟩ })
        handles := p.handles.setIfInBounds h none }
  | dropLast {h r : Nat} {s : Shared} (held : p.handles[h]?.join = some r)
    (live : p.regions[r]?.join = some s) (last : s.refs.holders = 1) :
    Moves sizes p (.drop h)
      { p with
        allocator := p.allocator.free s.buffer.capacity
        regions := p.regions.setIfInBounds r none
        handles := p.handles.setIfInBounds h none }

theorem moves_of_step (h : p.step op sizes = .ok q) : p.Moves sizes op q := by
  cases op with
  | writer capacity =>
    obtain ⟨a, paid, done⟩ := bind_eq_ok.mp h
    cases done
    exact .writer paid
  | write w op =>
    obtain ⟨b, live, h⟩ := bind_eq_ok.mp h
    obtain ⟨a, paid, h⟩ := bind_eq_ok.mp h
    obtain ⟨c, done, h⟩ := bind_eq_ok.mp h
    cases h
    exact .write (Fault.orElse_eq_ok.mp live) done (by rwa [GrowBuffer.capacity_apply done])
  | freeze w =>
    obtain ⟨b, live, done⟩ := bind_eq_ok.mp h
    cases done
    exact .freeze (Fault.orElse_eq_ok.mp live)
  | dropWriter w =>
    obtain ⟨b, live, done⟩ := bind_eq_ok.mp h
    cases done
    exact .dropWriter (Fault.orElse_eq_ok.mp live)
  | frozen bytes =>
    obtain ⟨a, paid, done⟩ := bind_eq_ok.mp h
    cases done
    exact .frozen paid
  | clone x =>
    obtain ⟨r, held, h⟩ := bind_eq_ok.mp h
    obtain ⟨s, live, done⟩ := bind_eq_ok.mp h
    cases done
    exact .clone (Fault.orElse_eq_ok.mp held) (Fault.orElse_eq_ok.mp live)
  | drop x =>
    obtain ⟨r, held, h⟩ := bind_eq_ok.mp h
    obtain ⟨s, live, h⟩ := bind_eq_ok.mp h
    obtain ⟨last, released, h⟩ := bind_eq_ok.mp h
    obtain ⟨positive, rfl⟩ := RefCount.release_eq_ok.mp released
    -- what the release answers tells the two moves of a drop apart
    by_cases one : s.refs.holders = 1
    · rw [if_pos (decide_eq_true one)] at h
      cases h
      exact .dropLast (Fault.orElse_eq_ok.mp held) (Fault.orElse_eq_ok.mp live) one
    · rw [if_neg (by simpa using one)] at h
      cases h
      exact .dropOne (Fault.orElse_eq_ok.mp held) (Fault.orElse_eq_ok.mp live) (by omega)

theorem step_of_moves (h : p.Moves sizes op q) : p.step op sizes = .ok q := by
  cases h with
  | writer paid => exact bind_eq_ok.mpr ⟨_, paid, rfl⟩
  | write live done paid =>
    rw [GrowBuffer.capacity_apply done] at paid
    exact bind_eq_ok.mpr ⟨_, Fault.orElse_eq_ok.mpr live, bind_eq_ok.mpr ⟨_, paid,
      bind_eq_ok.mpr ⟨_, done, rfl⟩⟩⟩
  | freeze live => exact bind_eq_ok.mpr ⟨_, Fault.orElse_eq_ok.mpr live, rfl⟩
  | dropWriter live => exact bind_eq_ok.mpr ⟨_, Fault.orElse_eq_ok.mpr live, rfl⟩
  | frozen paid => exact bind_eq_ok.mpr ⟨_, paid, rfl⟩
  | clone held live =>
    exact bind_eq_ok.mpr ⟨_, Fault.orElse_eq_ok.mpr held,
      bind_eq_ok.mpr ⟨_, Fault.orElse_eq_ok.mpr live, rfl⟩⟩
  | dropOne held live others =>
    refine bind_eq_ok.mpr ⟨_, Fault.orElse_eq_ok.mpr held,
      bind_eq_ok.mpr ⟨_, Fault.orElse_eq_ok.mpr live, bind_eq_ok.mpr ⟨false, ?_, rfl⟩⟩⟩
    exact RefCount.release_eq_ok.mpr ⟨by omega, (decide_eq_false (by omega)).symm⟩
  | dropLast held live last =>
    refine bind_eq_ok.mpr ⟨_, Fault.orElse_eq_ok.mpr held,
      bind_eq_ok.mpr ⟨_, Fault.orElse_eq_ok.mpr live, bind_eq_ok.mpr ⟨true, ?_, rfl⟩⟩⟩
    exact RefCount.release_eq_ok.mpr ⟨by omega, (decide_eq_true last).symm⟩

/-! ### Regions and their handles -/

/-- The number of live handles of a region. -/
def sharers (p : Pool) (r : Nat) : Nat := p.handles.count (some r)

/-- A region with `n` handles is live if there are any, and then counts them. -/
def Counts (n : Nat) : Option Shared → Prop
  | some s => s.refs.holders = n ∧ 0 < n
  | none => n = 0

/-- Every region counts its handles. -/
def Linked (p : Pool) : Prop := ∀ r : Nat, Counts (p.sharers r) p.regions[r]?.join

namespace Linked

variable {r : Nat} {s : Shared}

theorem counted (l : p.Linked) (live : p.regions[r]?.join = some s) :
    s.refs.holders = p.sharers r ∧ 0 < p.sharers r := by
  have counts := l r
  rwa [live] at counts

theorem live_iff (l : p.Linked) : (∃ s, p.regions[r]?.join = some s) ↔ 0 < p.sharers r := by
  have counts := l r
  cases live : p.regions[r]?.join with
  | some s => simp [(l.counted live).2]
  | none =>
    rw [live] at counts
    rw [show p.sharers r = 0 from counts]
    simp

/-- Every live handle has a live region. -/
theorem attached (l : p.Linked) {h : Nat} (held : p.handles[h]?.join = some r) :
    ∃ s, p.regions[r]?.join = some s :=
  l.live_iff.mpr (count_pos_of_join held)

theorem empty : Linked {} := fun _ => rfl

theorem addRegion (l : p.Linked) (b : Buffer) : (p.addRegion b).Linked := by
  intro r
  have count : (p.addRegion b).sharers r = p.sharers r + if r = p.regions.size then 1 else 0 :=
    count_push_some r
  have counts := l r
  rw [count, Pool.addRegion, join_push]
  split
  · next fresh =>
    -- no handle can have named the new region before
    rw [fresh, Array.getElem?_eq_none (Nat.le_refl _)] at counts
    rw [fresh, show p.sharers p.regions.size = 0 from counts]
    exact ⟨rfl, Nat.one_pos⟩
  · exact counts

/-- One handle fewer, for which the region has to be right. -/
theorem drop (l : p.Linked) {h : Nat} (held : p.handles[h]?.join = some r)
    (live : p.regions[r]?.join = some s) {s' : Option Shared}
    (counts : Counts (p.sharers r - 1) s') {a : Allocator} :
    Linked { p with
      allocator := a
      regions := p.regions.setIfInBounds r s'
      handles := p.handles.setIfInBounds h none } := by
  intro r'
  have count := count_set_none held r'
  rw [← sharers] at count
  simp only [sharers, join_set live]
  split
  · next same =>
    rw [if_pos same, same] at count
    rwa [same, show (p.handles.setIfInBounds h none).count (some r) = p.sharers r - 1 by omega]
  · next other =>
    rw [if_neg other, Nat.add_zero] at count
    rw [count]
    exact l r'

end Linked

theorem Moves.linked (m : p.Moves sizes op q) (l : p.Linked) : q.Linked := by
  cases m with
  | writer | write | dropWriter => exact l
  | freeze => exact Linked.addRegion (p := { p with writers := _ }) l _
  | frozen => exact Linked.addRegion (p := { p with allocator := _ }) l _
  | @clone h r s held live =>
    intro r'
    have count : (p.handles.push (some r)).count (some r') =
        p.sharers r' + if r' = r then 1 else 0 := count_push_some r'
    have counts := l r'
    rw [sharers, count, join_set live]
    split
    · next same =>
      subst same
      rw [live] at counts
      exact ⟨congrArg (· + 1) counts.1, Nat.succ_pos _⟩
    · exact counts
  | dropOne held live others =>
    obtain ⟨holders, -⟩ := l.counted live
    refine l.drop held live ?_
    exact ⟨by simp only; omega, by omega⟩
  | dropLast held live last =>
    obtain ⟨holders, -⟩ := l.counted live
    refine l.drop held live ?_
    show _ - 1 = 0
    omega

/-! ### The total -/

/-- The bytes of the live regions, those being written and the frozen ones.  A frozen region counts
once, however many handles it has. -/
def liveBytes (p : Pool) : Nat :=
  sizesOf GrowBuffer.capacity p.writers + sizesOf (fun s => s.buffer.capacity) p.regions

/-- The running total is what the live regions take up. -/
def Balanced (p : Pool) : Prop := p.allocator.outstanding = p.liveBytes

theorem Moves.balanced (m : p.Moves sizes op q) (b : p.Balanced) : q.Balanced := by
  unfold Balanced liveBytes at *
  cases m with
  | writer paid =>
    obtain ⟨-, rfl⟩ := Allocator.allocate_eq_ok.mp paid
    simp only [sizesOf_push, Option.map_some, Option.getD_some, GrowBuffer.capacity_make]
    omega
  | @write w op before after a live done paid =>
    obtain ⟨-, rfl⟩ := Allocator.reallocate_eq_ok.mp paid
    have replaced := sizesOf_set GrowBuffer.capacity live (some after)
    simp only [Option.map_some, Option.getD_some] at replaced ⊢
    omega
  | @freeze w before live =>
    have removed := sizesOf_set GrowBuffer.capacity live none
    simp only [Option.map_none, Option.getD_none] at removed
    simp only [addRegion, sizesOf_push, Option.map_some, Option.getD_some, GrowBuffer.freeze]
    omega
  | @dropWriter w before live =>
    have removed := sizesOf_set GrowBuffer.capacity live none
    simp only [Option.map_none, Option.getD_none, Allocator.free] at removed ⊢
    omega
  | @frozen bytes a paid =>
    obtain ⟨-, rfl⟩ := Allocator.allocate_eq_ok.mp paid
    simp only [addRegion, sizesOf_push, Option.map_some, Option.getD_some, Buffer.ofBytes]
    omega
  | @clone h r s held live =>
    have replaced := sizesOf_set (fun s : Shared => s.buffer.capacity) live
      (some { s with refs := ⟨s.refs.holders + 1⟩ })
    simp only [Option.map_some, Option.getD_some] at replaced ⊢
    omega
  | @dropOne h r s held live others =>
    have replaced := sizesOf_set (fun s : Shared => s.buffer.capacity) live
      (some { s with refs := ⟨s.refs.holders - 1⟩ })
    simp only [Option.map_some, Option.getD_some] at replaced ⊢
    omega
  | @dropLast h r s held live last =>
    have removed := sizesOf_set (fun s : Shared => s.buffer.capacity) live none
    simp only [Option.map_none, Option.getD_none, Allocator.free] at removed ⊢
    omega

/-- Once all writers and handles are dropped, nothing is outstanding. -/
theorem Balanced.of_dropped (b : p.Balanced) (l : p.Linked)
    (writers : ∀ w : Nat, p.writers[w]?.join = none)
    (handles : ∀ h : Nat, p.handles[h]?.join = none) :
    p.allocator.outstanding = 0 := by
  have regions : ∀ r : Nat, p.regions[r]?.join = none := by
    intro r
    cases live : p.regions[r]?.join with
    | none => rfl
    | some s =>
      obtain ⟨h, held⟩ := exists_join_of_count (l.counted live).2
      rw [handles h] at held
      cases held
  rw [b, liveBytes, sizesOf_of_none writers, sizesOf_of_none regions]
  rfl

/-! ### What goes through -/

/-- No writer has a region that could not have been allocated. -/
def Addressable (p : Pool) : Prop :=
  ∀ (w : Nat) (b : GrowBuffer), p.writers[w]?.join = some b → b.capacity ≤ maxRegion

theorem Moves.addressable (m : p.Moves sizes op q) (a : p.Addressable) : q.Addressable := by
  cases m with
  | @writer capacity _ paid =>
    intro w b live
    simp only [join_push] at live
    split at live
    · cases live
      rw [GrowBuffer.capacity_make]
      exact (Allocator.allocate_eq_ok.mp paid).1
    · exact a w b live
  | @write w' op before after _ held done paid =>
    intro w b live
    simp only [join_set held] at live
    split at live
    · cases live
      exact (Allocator.reallocate_eq_ok.mp paid).1
    · exact a w b live
  | freeze held | dropWriter held =>
    intro w b live
    simp only [addRegion, join_set held] at live
    split at live
    · cases live
    · exact a w b live
  | frozen | clone | dropOne | dropLast => exact a

/-- The operation names what is live, writes inside it, and asks for no more memory than a region
can have. -/
def Allows (sizes : Sizes) (p : Pool) : Op → Prop
  | .writer capacity => roundUp capacity sizes ≤ maxRegion
  | .write w op => ∃ b, p.writers[w]?.join = some b ∧ op.InRange b ∧
      (op.target b sizes ≠ b.capacity → op.target b sizes ≤ maxRegion)
  | .freeze w | .dropWriter w => ∃ b, p.writers[w]?.join = some b
  | .frozen bytes => bytes.size ≤ maxRegion
  | .clone h | .drop h => ∃ r, p.handles[h]?.join = some r

theorem Moves.allows (m : p.Moves sizes op q) : p.Allows sizes op := by
  cases m with
  | writer paid => exact (Allocator.allocate_eq_ok.mp paid).1
  | @write w op b c a live done paid =>
    refine ⟨b, live, GrowBuffer.exists_apply_iff.mp ⟨c, done⟩, fun _ => ?_⟩
    rw [← GrowBuffer.capacity_apply done]
    exact (Allocator.reallocate_eq_ok.mp paid).1
  | freeze live | dropWriter live => exact ⟨_, live⟩
  | frozen paid => exact (Allocator.allocate_eq_ok.mp paid).1
  | clone held | dropOne held | dropLast held => exact ⟨_, held⟩

/-- Where regions count their handles, nothing that is allowed fails; in particular no handle is
released too often. -/
theorem step_ok_iff (l : p.Linked) (a : p.Addressable) :
    (∃ q, p.step op sizes = .ok q) ↔ p.Allows sizes op := by
  constructor
  · rintro ⟨q, done⟩
    exact (moves_of_step done).allows
  intro allowed
  suffices ∃ q, p.Moves sizes op q from this.imp fun q => step_of_moves
  cases op with
  | writer capacity => exact ⟨_, .writer (Allocator.allocate_eq_ok.mpr ⟨allowed, rfl⟩)⟩
  | write w op =>
    obtain ⟨b, live, inRange, room⟩ := allowed
    obtain ⟨c, done⟩ := GrowBuffer.exists_apply_iff.mpr inRange
    refine ⟨_, .write live done (Allocator.reallocate_eq_ok.mpr ⟨?_, rfl⟩)⟩
    rw [GrowBuffer.capacity_apply done]
    by_cases same : op.target b sizes = b.capacity
    · exact same ▸ a w b live
    · exact room same
  | freeze w => exact allowed.elim fun b live => ⟨_, .freeze live⟩
  | dropWriter w => exact allowed.elim fun b live => ⟨_, .dropWriter live⟩
  | frozen bytes => exact ⟨_, .frozen (Allocator.allocate_eq_ok.mpr ⟨allowed, rfl⟩)⟩
  | clone h =>
    obtain ⟨r, held⟩ := allowed
    obtain ⟨s, live⟩ := l.attached held
    exact ⟨_, .clone held live⟩
  | drop h =>
    obtain ⟨r, held⟩ := allowed
    obtain ⟨s, live⟩ := l.attached held
    obtain ⟨holders, pos⟩ := l.counted live
    by_cases last : s.refs.holders = 1
    · exact ⟨_, .dropLast held live last⟩
    · exact ⟨_, .dropOne held live (by omega)⟩

end Pool

end Columnar
