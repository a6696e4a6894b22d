import Columnar.Memory.System
import Columnar.Proofs.Building.Growth
import Columnar.Proofs.Memory.Pools

/-!
# Regions over a whole run

Whatever the system leaves in the bytes it promises nothing about, an operation on memory from the
system does what the arena says (`System.perform_eq`): clearing leaves nothing of them
(`System.cleared_eq`), and an operation that fails leaves the arena as it was.  So the arena after a
run is the same with every system (`System.after_eq`).

What the regions hold is told by the history of the operations alone: `Inventory.after` computes it
on lists of bytes, with no memory that moves and no total.  The arena keeps to it step by step
(`Arena.step_of_allows`, `Arena.inventory_after`), and its total to the lengths of these lists.

`System.run_lawful` puts together what this means: after every run the regions hold what the history
says and the running total is their size, the next operation does what it is for or leaves
everything as it is, and fresh bytes are zero, also where a region had been longer before.
-/

namespace Columnar

/-! ### Bytes that the system leaves behind -/

theorem Bytes.getElem?_fill (b : Bytes) (i : Nat) (v : UInt8) (n j : Nat) :
    (b.fill i v n)[j]? = if i ≤ j ∧ j < i + n ∧ j < b.size then some v else b[j]? := by
  induction n generalizing b i with
  | zero => rw [fill, if_neg (by omega)]
  | succ n ih =>
    rw [fill, ih, Array.size_setIfInBounds, Array.getElem?_setIfInBounds]
    by_cases same : i = j
    · subst same
      rw [if_neg (by omega), if_pos rfl]
      by_cases inside : i < b.size
      · rw [if_pos inside, if_pos (by omega)]
      · rw [if_neg inside, if_neg (by omega), Array.getElem?_eq_none (by omega)]
    · rw [if_neg same]
      exact if_congr (by omega) rfl rfl

theorem Bytes.getElem?_overwrite (b : Bytes) (i : Nat) (src : List UInt8) (j : Nat) :
    (b.overwrite i src)[j]? =
      if i ≤ j ∧ j < i + src.length ∧ j < b.size then src[j - i]? else b[j]? := by
  induction src generalizing b i with
  | nil => rw [overwrite, if_neg (by rw [List.length_nil]; omega)]
  | cons v rest ih =>
    rw [overwrite, ih, Array.size_setIfInBounds, Array.getElem?_setIfInBounds, List.length_cons]
    by_cases same : i = j
    · subst same
      rw [if_neg (by omega), if_pos rfl, Nat.sub_self, List.getElem?_cons_zero]
      by_cases inside : i < b.size
      · rw [if_pos inside, if_pos (by omega)]
      · rw [if_neg inside, if_neg (by omega), Array.getElem?_eq_none (by omega)]
    · rw [if_neg same]
      by_cases later : i < j
      · rw [show j - i = j - (i + 1) + 1 by omega, List.getElem?_cons_succ]
        exact if_congr (by omega) rfl rfl
      · rw [if_neg (by omega), if_neg (by omega)]

namespace System

variable {sys : System} {k r size : Nat} {old : Bytes} {a : Arena} {op : Arena.Op}

/-- After clearing, nothing is left that the system did not promise. -/
theorem cleared_eq (sys : System) (k : Nat) (old : Bytes) (size : Nat) :
    (if old.size < size then (sys.moved k old size).fill old.size 0 (size - old.size)
      else sys.moved k old size) = old.resized size := by
  have moved := sys.size_moved k old size
  apply Array.ext_getElem?
  intro i
  rw [Bytes.getElem?_resized]
  by_cases below : i < size
  · rw [if_pos below]
    by_cases kept : i < old.size
    · -- an old byte, which is not cleared
      have same := sys.kept k old size i kept below
      rw [Array.getElem?_eq_getElem kept] at same ⊢
      split
      · rwa [Bytes.getElem?_fill, if_neg (by omega)]
      · exact same
    · rw [if_pos (by omega), Bytes.getElem?_fill, if_pos (by omega),
        Array.getElem?_eq_none (Nat.le_of_not_lt kept)]
      rfl
  · rw [if_neg below, Array.getElem?_eq_none]
    split
    · rw [Bytes.size_fill]
      omega
    · omega

theorem fresh_eq (fits : size ≤ maxRegion) : fresh size = .ok (Bytes.zeros size) := by
  rw [fresh]
  split
  · next nothing =>
    subst nothing
    rfl
  · rw [layout, if_pos fits]
    rfl

theorem fresh_large (large : maxRegion < size) : fresh size = (Misuse.unaddressable size).stop := by
  rw [fresh, if_neg (by omega), layout, if_neg (by omega)]
  rfl

theorem resize_eq (fits : size ≤ maxRegion) : sys.resize k old size = .ok (old.resized size) := by
  rw [resize]
  split
  · next nothing =>
    rw [fresh_eq fits, Array.eq_empty_of_size_eq_zero nothing, Bytes.resized]
    simp
  split
  · next nothing =>
    subst nothing
    rw [Array.eq_empty_of_size_eq_zero (Bytes.size_resized old 0)]
  · rw [layout, if_pos fits]
    exact congrArg Except.ok (sys.cleared_eq k old size)

theorem resize_large (large : maxRegion < size) :
    sys.resize k old size = (Misuse.unaddressable size).stop := by
  rw [resize, fresh_large large, if_neg (Nat.ne_of_gt (Nat.zero_lt_of_lt large)), layout,
    if_neg (Nat.not_le_of_lt large)]
  split <;> rfl

/-! ### One operation -/

theorem run_bind (x : Except Fault Bytes) (f : Bytes → Steps Unit) :
    ((x : Steps Bytes) >>= f).run a =
      match x with
      | .ok bytes => (f bytes).run a
      | .error e => (.error e, a) := by
  cases x <;> rfl

theorem run_held (f : Bytes → Steps Unit) :
    (held r >>= f).run a =
      match a.region r with
      | .ok bytes => (f bytes).run a
      | .error e => (.error e, a) :=
  run_bind (a.region r) f

/-- **One operation** does what the arena says, and nothing where it fails. -/
theorem perform_eq (sys : System) (k : Nat) (a : Arena) (op : Arena.Op) :
    (sys.perform k op).run a =
      match a.step op with
      | .ok a' => (.ok (), a')
      | .error e => (.error e, a) := by
  cases op with
  | allocate size =>
    rw [perform, run_bind, Arena.step, Arena.allocate, Allocator.allocate]
    split_ifs with fits
    · rw [fresh_eq fits]
      rfl
    · rw [fresh_large (Nat.lt_of_not_le fits)]
      rfl
  | reallocate r size =>
    rw [perform, run_held, Arena.step, Arena.reallocate]
    cases a.region r with
    | error e => rfl
    | ok old =>
      show ((sys.resize k old size : Steps Bytes) >>= _).run a = _
      rw [ok_bind, run_bind, Allocator.reallocate]
      split_ifs with fits
      · rw [resize_eq fits]
        rfl
      · rw [resize_large (Nat.lt_of_not_le fits)]
        rfl
  | free r =>
    rw [perform, run_held, Arena.step, Arena.free]
    cases a.region r <;> rfl
  | fill r v =>
    rw [perform, run_held, Arena.step, Arena.fill]
    cases a.region r <;> rfl
  | write r i src =>
    rw [perform, run_held, Arena.step, Arena.write]
    cases a.region r <;> rfl

end System

/-! ### What the history says -/

/-- The bytes of the regions, in order of allocation; a freed region is `none`. -/
abbrev Inventory := List (Option (List UInt8))

namespace Inventory

/-- The operation asks for an addressable size, and of a region that is not freed. -/
def Allows (held : Inventory) : Arena.Op → Prop
  | .allocate size => size ≤ maxRegion
  | .reallocate r size => held[r]?.join.isSome ∧ size ≤ maxRegion
  | .free r | .fill r _ | .write r _ _ => held[r]?.join.isSome

instance (held : Inventory) : (op : Arena.Op) → Decidable (held.Allows op)
  | .allocate size => inferInstanceAs (Decidable (size ≤ maxRegion))
  | .reallocate r size =>
    inferInstanceAs (Decidable (held[r]?.join.isSome = true ∧ size ≤ maxRegion))
  | .free r | .fill r _ | .write r _ _ =>
    inferInstanceAs (Decidable (held[r]?.join.isSome = true))

/-- The bytes from position `i` on replaced by `src`; what is past the end is dropped. -/
def written (i : Nat) (src bytes : List UInt8) : List UInt8 :=
  bytes.mapIdx fun j v => if i ≤ j then src[j - i]?.getD v else v

/-- The contents that the operation is for. -/
def does (held : Inventory) : Arena.Op → Inventory
  | .allocate size => held ++ [some (List.replicate size 0)]
  | .reallocate r size =>
    held.modify r (Option.map fun old => old.take size ++ List.replicate (size - old.length) 0)
  | .free r => held.set r none
  | .fill r v => held.modify r (Option.map fun old => List.replicate old.length v)
  | .write r i src => held.modify r (Option.map (written i src.toList))

/-- The contents after the operations, of which those that are not allowed change nothing. -/
def after (held : Inventory) : List Arena.Op → Inventory
  | [] => held
  | op :: ops => (if held.Allows op then held.does op else held).after ops

/-- The bytes of the regions that are not freed, together. -/
def total (held : Inventory) : Nat := (held.map fun s => (s.map List.length).getD 0).sum

theorem modify_of_live {held : Inventory} {r : Nat} {old : List UInt8}
    (live : held[r]?.join = some old) (f : List UInt8 → List UInt8) :
    held.modify r (Option.map f) = held.set r (some (f old)) := by
  have there : held[r]? = some (some old) := Option.join_eq_some_iff.1 live
  apply List.ext_getElem?
  intro i
  rw [List.getElem?_modify, List.getElem?_set]
  by_cases same : r = i
  · subst same
    rw [there, if_pos rfl, if_pos (List.getElem?_eq_some_iff.1 there).1]
    simp only [if_pos]
    rfl
  · simp only [if_neg same]
    cases held[i]? <;> rfl

end Inventory

/-! ### Runs -/

namespace Arena

variable {a a' : Arena} {op : Op}

/-- The arena after the operation, which changes nothing where it fails. -/
def attempt (a : Arena) (op : Op) : Arena :=
  match a.step op with
  | .ok a' => a'
  | .error _ => a

/-- The arena after the operations. -/
def after (a : Arena) : List Op → Arena
  | [] => a
  | op :: ops => (a.attempt op).after ops

theorem toList_overwrite (b : Bytes) (i : Nat) (src : List UInt8) :
    (b.overwrite i src).toList = Inventory.written i src b.toList := by
  apply List.ext_getElem?
  intro j
  have before : b.toList[j]? = b[j]? := Array.getElem?_toList
  rw [Array.getElem?_toList, Bytes.getElem?_overwrite, Inventory.written, List.getElem?_mapIdx,
    before]
  by_cases inside : j < b.size
  · rw [Array.getElem?_eq_getElem inside, Option.map_some]
    by_cases late : i ≤ j
    · rw [if_pos late]
      by_cases short : j < i + src.length
      · rw [if_pos ⟨late, short, inside⟩, List.getElem?_eq_getElem (by omega)]
        rfl
      · rw [if_neg (by omega), List.getElem?_eq_none (by omega)]
        rfl
    · rw [if_neg (by omega), if_neg late]
  · rw [if_neg (by omega), Array.getElem?_eq_none (by omega)]
    rfl

/-- The bytes that the regions hold. -/
def inventory (a : Arena) : Inventory := a.regions.toList.map (Option.map Array.toList)

theorem inventory_join (a : Arena) (r : Nat) :
    a.inventory[r]?.join = a.regions[r]?.join.map Array.toList := by
  rw [inventory, List.getElem?_map, Array.getElem?_toList]
  rcases a.regions[r]? with _ | _ | _ <;> rfl

theorem inventory_set (a : Arena) (r : Nat) (s : Option Bytes) (allocator : Allocator) :
    inventory ⟨allocator, a.regions.setIfInBounds r s⟩ =
      a.inventory.set r (s.map Array.toList) := by
  rw [inventory, Array.toList_setIfInBounds, List.map_set, inventory]

/-- Other bytes in a live region. -/
theorem inventory_modify {r : Nat} {old new : Bytes} (live : a.regions[r]?.join = some old)
    (allocator : Allocator) (f : List UInt8 → List UInt8) (becomes : new.toList = f old.toList) :
    inventory ⟨allocator, a.regions.setIfInBounds r (some new)⟩ =
      a.inventory.modify r (Option.map f) := by
  have held : a.inventory[r]?.join = some old.toList := by
    rw [inventory_join, live]
    rfl
  rw [inventory_set, Inventory.modify_of_live held, ← becomes]
  rfl

theorem total_inventory (a : Arena) : a.inventory.total = sizesOf Array.size a.regions := by
  rw [Inventory.total, inventory, List.map_map, sizesOf]
  congr 1
  apply List.map_congr_left
  rintro (_ | bytes) - <;> rfl

theorem region_eq_ok {r : Nat} {bytes : Bytes} :
    a.region r = .ok bytes ↔ a.regions[r]?.join = some bytes := Fault.orElse_eq_ok

theorem live_of_isSome {r : Nat} (held : a.inventory[r]?.join.isSome) :
    ∃ old, a.regions[r]?.join = some old := by
  rw [inventory_join, Option.isSome_map] at held
  exact Option.isSome_iff_exists.1 held

theorem isSome_of_region {r : Nat} {old : Bytes} (live : a.region r = .ok old) :
    a.inventory[r]?.join.isSome := by
  rw [inventory_join, region_eq_ok.1 live]
  rfl

/-- **One step** that the history allows is done, and does what the operation is for. -/
theorem step_of_allows (allowed : a.inventory.Allows op) :
    ∃ a', a.step op = .ok a' ∧ a'.inventory = a.inventory.does op := by
  cases op with
  | allocate size =>
    refine ⟨⟨⟨a.allocator.outstanding + size⟩, a.regions.push (some (Bytes.zeros size))⟩, ?_, ?_⟩
    · have fits : size ≤ maxRegion := allowed
      rw [step, allocate, Allocator.allocate, if_pos fits]
      rfl
    · rw [inventory, Array.toList_push, List.map_append, Inventory.does, inventory]
      simp [Bytes.zeros]
  | reallocate r size =>
    obtain ⟨held, fits⟩ := allowed
    obtain ⟨old, live⟩ := live_of_isSome held
    refine ⟨⟨⟨a.allocator.outstanding + (size - old.size)⟩,
      a.regions.setIfInBounds r (some (old.resized size))⟩, ?_, ?_⟩
    · rw [step, reallocate, region_eq_ok.2 live, ok_bind, Allocator.reallocate, if_pos fits]
      rfl
    · exact inventory_modify live _ _ (by simp [Bytes.resized, Bytes.zeros])
  | free r =>
    obtain ⟨old, live⟩ := live_of_isSome allowed
    refine ⟨⟨a.allocator.free old.size, a.regions.setIfInBounds r none⟩, ?_,
      inventory_set a r none _⟩
    rw [step, free, region_eq_ok.2 live]
    rfl
  | fill r v =>
    obtain ⟨old, live⟩ := live_of_isSome allowed
    refine ⟨{ a with regions := a.regions.setIfInBounds r (some (Array.replicate old.size v)) },
      ?_, inventory_modify live _ _ Array.toList_replicate⟩
    rw [step, fill, region_eq_ok.2 live]
    rfl
  | write r i src =>
    obtain ⟨old, live⟩ := live_of_isSome allowed
    refine ⟨{ a with regions := a.regions.setIfInBounds r (some (old.overwrite i src.toList)) },
      ?_, inventory_modify live _ _ (toList_overwrite old i src.toList)⟩
    rw [step, write, region_eq_ok.2 live]
    rfl

theorem allows_of_step (done : a.step op = .ok a') : a.inventory.Allows op := by
  cases op with
  | allocate size =>
    obtain ⟨_, paid, -⟩ := bind_eq_ok.1 done
    exact (Allocator.allocate_eq_ok.1 paid).1
  | reallocate r size =>
    obtain ⟨old, live, done⟩ := bind_eq_ok.1 done
    obtain ⟨_, paid, -⟩ := bind_eq_ok.1 done
    exact ⟨isSome_of_region live, (Allocator.reallocate_eq_ok.1 paid).1⟩
  | free r =>
    obtain ⟨old, live, -⟩ := bind_eq_ok.1 done
    exact isSome_of_region live
  | fill r v =>
    obtain ⟨old, live, -⟩ := bind_eq_ok.1 done
    exact isSome_of_region live
  | write r i src =>
    obtain ⟨old, live, -⟩ := bind_eq_ok.1 done
    exact isSome_of_region live

/-- A step that the history does not allow fails. -/
theorem step_of_not_allows (refused : ¬ a.inventory.Allows op) : ∃ e, a.step op = .error e := by
  cases done : a.step op with
  | error e => exact ⟨e, rfl⟩
  | ok a' => exact absurd (allows_of_step done) refused

theorem inventory_attempt (a : Arena) (op : Op) :
    (a.attempt op).inventory =
      if a.inventory.Allows op then a.inventory.does op else a.inventory := by
  rw [attempt]
  split_ifs with allowed
  · obtain ⟨a', done, after⟩ := step_of_allows allowed
    rw [done]
    exact after
  · obtain ⟨e, failed⟩ := step_of_not_allows allowed
    rw [failed]

theorem inventory_after (a : Arena) (ops : List Op) :
    (a.after ops).inventory = a.inventory.after ops := by
  induction ops generalizing a with
  | nil => rfl
  | cons op ops ih => rw [after, ih, inventory_attempt, Inventory.after]

/-- The running total is what the live regions take up. -/
def Balanced (a : Arena) : Prop := a.allocator.outstanding = sizesOf Array.size a.regions

/-- New contents of the same size. -/
theorem Balanced.put (b : a.Balanced) {r : Nat} {old new : Bytes}
    (live : a.regions[r]?.join = some old) (same : new.size = old.size) :
    Balanced { a with regions := a.regions.setIfInBounds r (some new) } := by
  have replaced := sizesOf_set Array.size live (some new)
  unfold Balanced at *
  simp only [Option.map_some, Option.getD_some] at replaced ⊢
  omega

theorem balanced_of_step (done : a.step op = .ok a') (b : a.Balanced) : a'.Balanced := by
  cases op with
  | allocate size =>
    obtain ⟨_, paid, done⟩ := bind_eq_ok.1 done
    obtain ⟨-, rfl⟩ := Allocator.allocate_eq_ok.1 paid
    cases done
    unfold Balanced at *
    simp only [sizesOf_push, Option.map_some, Option.getD_some, Bytes.size_zeros]
    omega
  | reallocate r size =>
    obtain ⟨old, live, done⟩ := bind_eq_ok.1 done
    obtain ⟨_, paid, done⟩ := bind_eq_ok.1 done
    obtain ⟨-, rfl⟩ := Allocator.reallocate_eq_ok.1 paid
    cases done
    have replaced := sizesOf_set Array.size (region_eq_ok.1 live) (some (old.resized size))
    unfold Balanced at *
    simp only [Option.map_some, Option.getD_some, Bytes.size_resized] at replaced ⊢
    omega
  | free r =>
    obtain ⟨old, live, done⟩ := bind_eq_ok.1 done
    cases done
    have removed := sizesOf_set Array.size (region_eq_ok.1 live) none
    unfold Balanced at *
    simp only [Option.map_none, Option.getD_none, Allocator.free] at removed ⊢
    omega
  | fill r v =>
    obtain ⟨old, live, done⟩ := bind_eq_ok.1 done
    cases done
    exact b.put (region_eq_ok.1 live) Array.size_replicate
  | write r i src =>
    obtain ⟨old, live, done⟩ := bind_eq_ok.1 done
    cases done
    exact b.put (region_eq_ok.1 live) (Bytes.size_overwrite old i src.toList)

theorem balanced_attempt (b : a.Balanced) (op : Op) : (a.attempt op).Balanced := by
  unfold attempt
  split
  · next done => exact balanced_of_step done b
  · exact b

theorem balanced_after (b : a.Balanced) (ops : List Op) : (a.after ops).Balanced := by
  induction ops generalizing a with
  | nil => exact b
  | cons op ops ih => exact ih (balanced_attempt b op)

end Arena

namespace System

variable {a : Arena}

theorem state_eq (sys : System) (k : Nat) (a : Arena) (op : Arena.Op) :
    ((sys.perform k op).run a).2 = a.attempt op := by
  rw [perform_eq, Arena.attempt]
  split <;> rfl

/-- Every system makes the same arena of a run. -/
theorem after_eq (sys : System) (k : Nat) (a : Arena) (ops : List Arena.Op) :
    sys.after k a ops = a.after ops := by
  induction ops generalizing k a with
  | nil => rfl
  | cons op ops ih => rw [after, ih, state_eq, Arena.after]

/-- What is promised of memory from the system after the operations `ops`, where it has become the
arena `a`. -/
structure Lawful (sys : System) (ops : List Arena.Op) (a : Arena) : Prop where
  /-- The regions hold what the history says. -/
  inventory : a.inventory = Inventory.after [] ops
  /-- The running total is the size of the regions that the history has not freed. -/
  total : a.allocator.outstanding = (Inventory.after [] ops).total
  /-- An operation that the history allows is done. -/
  performs : ∀ (k : Nat) {op}, (Inventory.after [] ops).Allows op →
    ∃ a', (sys.perform k op).run a = (.ok (), a') ∧ a'.inventory = (Inventory.after [] ops).does op
  /-- Any other fails, and everything stays as it is. -/
  stops : ∀ (k : Nat) {op}, ¬ (Inventory.after [] ops).Allows op →
    ∃ e, (sys.perform k op).run a = (.error e, a)
  /-- A region that is too large is refused. -/
  refuses : ∀ (k : Nat) {size}, maxRegion < size →
    (sys.perform k (.allocate size)).run a = ((Misuse.unaddressable size).stop, a)
  /-- A new region is zero; the others stay. -/
  allocates : ∀ (k : Nat) {size}, size ≤ maxRegion →
    ∃ a', (sys.perform k (.allocate size)).run a = (.ok (), a') ∧
      a'.regions = a.regions.push (some (Array.replicate size 0))
  /-- A region keeps its bytes as far as they fit and is zero after them; the others stay. -/
  reallocates : ∀ (k : Nat) {r size old}, a.regions[r]?.join = some old → size ≤ maxRegion →
    ∃ (a' : Arena) (new : Bytes), (sys.perform k (.reallocate r size)).run a = (.ok (), a') ∧
      a'.regions = a.regions.setIfInBounds r (some new) ∧ new.size = size ∧
      (∀ i : Nat, i < min old.size size → new[i]? = old[i]?) ∧
      ∀ i : Nat, old.size ≤ i → i < size → new[i]? = some 0
  /-- A freed region is gone, and its size with it; the others stay. -/
  frees : ∀ (k : Nat) {r old}, a.regions[r]?.join = some old →
    ∃ a', (sys.perform k (.free r)).run a = (.ok (), a') ∧
      a'.regions = a.regions.setIfInBounds r none ∧
      a'.allocator.outstanding = a.allocator.outstanding - old.size
  /-- What is written is there, as far as it fits; the other bytes and the total stay. -/
  writes : ∀ (k : Nat) {r old} (i src), a.regions[r]?.join = some old →
    ∃ (a' : Arena) (new : Bytes), (sys.perform k (.write r i src)).run a = (.ok (), a') ∧
      a'.regions = a.regions.setIfInBounds r (some new) ∧ new.size = old.size ∧
      (∀ j : Nat, j < old.size →
        new[j]? = if i ≤ j ∧ j < i + src.size then src[j - i]? else old[j]?) ∧
      a'.allocator = a.allocator

theorem lawful_of_balanced (sys : System) {ops : List Arena.Op}
    (held : a.inventory = Inventory.after [] ops) (b : a.Balanced) : sys.Lawful ops a where
  inventory := held
  total := by rw [← held, Arena.total_inventory, b]
  performs k op allowed := by
    rw [← held] at allowed ⊢
    obtain ⟨a', done, after⟩ := Arena.step_of_allows allowed
    refine ⟨a', ?_, after⟩
    rw [perform_eq, done]
  stops k op refused := by
    rw [← held] at refused
    obtain ⟨e, failed⟩ := Arena.step_of_not_allows refused
    refine ⟨e, ?_⟩
    rw [perform_eq, failed]
  refuses k size large := by
    rw [perform_eq, Arena.step, Arena.allocate, Allocator.allocate,
      if_neg (Nat.not_le_of_lt large)]
    rfl
  allocates k size fits := by
    refine ⟨⟨⟨a.allocator.outstanding + size⟩, a.regions.push (some (Bytes.zeros size))⟩, ?_, rfl⟩
    rw [perform_eq, Arena.step, Arena.allocate, Allocator.allocate, if_pos fits]
    rfl
  reallocates k r size old live fits := by
    refine ⟨⟨⟨a.allocator.outstanding + (size - old.size)⟩,
      a.regions.setIfInBounds r (some (old.resized size))⟩, old.resized size, ?_, rfl,
      Bytes.size_resized old size, ?_, ?_⟩
    · rw [perform_eq, Arena.step, Arena.reallocate, Arena.region_eq_ok.2 live, ok_bind,
        Allocator.reallocate, if_pos fits]
      rfl
    · intro i kept
      rw [Bytes.getElem?_resized, if_pos (by omega), Array.getElem?_eq_getElem (by omega)]
      rfl
    · intro i past inside
      rw [Bytes.getElem?_resized, if_pos inside, Array.getElem?_eq_none past]
      rfl
  frees k r old live := by
    refine ⟨⟨a.allocator.free old.size, a.regions.setIfInBounds r none⟩, ?_, rfl, rfl⟩
    rw [perform_eq, Arena.step, Arena.free, Arena.region_eq_ok.2 live]
    rfl
  writes k r old i src live := by
    refine ⟨{ a with regions := a.regions.setIfInBounds r (some (old.overwrite i src.toList)) },
      old.overwrite i src.toList, ?_, rfl, Bytes.size_overwrite old i src.toList, ?_, rfl⟩
    · rw [perform_eq, Arena.step, Arena.write, Arena.region_eq_ok.2 live]
      rfl
    · intro j inside
      rw [Bytes.getElem?_overwrite, Array.length_toList, Array.getElem?_toList]
      exact if_congr (by omega) rfl rfl

/-- **Allocation laws over every run.**  Whatever has been done to an empty arena, and whatever the
system has left in the bytes that it promises nothing about. -/
theorem run_lawful (sys : System) (k : Nat) (ops : List Arena.Op) :
    sys.Lawful ops (sys.after k {} ops) := by
  have start : Arena.Balanced {} := rfl
  rw [after_eq]
  exact sys.lawful_of_balanced (Arena.inventory_after {} ops) (Arena.balanced_after start ops)

/-- The system that leaves the byte `0xab` wherever it may. -/
def careless : System where
  moved _ old size := old.extract 0 size ++ Array.replicate (size - old.size) 0xab
  size_moved _ old size := by
    simp
    omega
  kept _ old size i inside below := by
    rw [Array.getElem?_append, if_pos (by simp; omega), Array.getElem?_extract, if_pos (by omega),
      Nat.zero_add]

/-- A region of two sevens that is cut to one of them. -/
def cutSevens : List Arena.Op := [.allocate 2, .fill 0 7, .reallocate 0 1]

theorem run_lawful_careless :
    (careless.after 0 {} cutSevens).inventory = [some [7]] ∧
      (careless.after 0 {} cutSevens).allocator.outstanding = 1 ∧
      (∃ (a : Arena) (new : Bytes),
        (careless.perform 3 (.reallocate 0 3)).run (careless.after 0 {} cutSevens) = (.ok (), a) ∧
          a.regions = #[some new] ∧ new[0]? = some 7 ∧ new[1]? = some 0 ∧ new[2]? = some 0) ∧
      ∃ a : Arena,
        (careless.perform 3 (.free 0)).run (careless.after 0 {} cutSevens) = (.ok (), a) ∧
          a.inventory = [none] := by
  have lawful := run_lawful careless 0 cutSevens
  have history : Inventory.after [] cutSevens = [some [7]] := by decide
  have regions : (careless.after 0 {} cutSevens).regions = #[some #[7]] := by decide
  have live : (careless.after 0 {} cutSevens).regions[0]?.join = some #[7] := by rw [regions]; rfl
  have fits : 3 ≤ maxRegion := by decide
  refine ⟨by rw [lawful.inventory, history], by rw [lawful.total, history]; rfl, ?_, ?_⟩
  · obtain ⟨a, new, done, after, -, kept, cleared⟩ := lawful.reallocates 3 live fits
    rw [regions] at after
    exact ⟨a, new, done, after, kept 0 (by decide), cleared 1 (by decide) (by decide),
      cleared 2 (by decide) (by decide)⟩
  · have allowed : (Inventory.after [] cutSevens).Allows (.free 0) := by decide
    obtain ⟨a, done, after⟩ := lawful.performs 3 allowed
    exact ⟨a, done, by rw [after, history]; rfl⟩

end System

end Columnar
