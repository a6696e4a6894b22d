import Columnar.Proofs.Memory.Ledger
import Columnar.Proofs.Memory.Pools

/-!
# Memory accounting balances

A `Pool` is followed through any list of operations, where one that fails changes nothing
(`Pool.after`).  `Pool.events` tells what an operation does to memory, `Pool.log` what a whole run
does.  The log adds up to the allocator of the pool (`Pool.charge_log`), and the strict ledger
serves it from the sizes before the run to those after it (`Pool.serve_log`): so what is freed is
freed whole, and once.

`Pool.accounts` puts this together with the properties that every move keeps.
-/

namespace Columnar

/-! ### The ledger of what the slots hold -/

namespace Ledger

/-- The sizes of buffers being written and of frozen regions. -/
def of (writers : Array (Option GrowBuffer)) (regions : Array (Option Shared)) : Ledger
  | .writer w => writers[w]?.join.map GrowBuffer.capacity
  | .frozen r => regions[r]?.join.map fun s => s.buffer.capacity

variable {writers : Array (Option GrowBuffer)} {regions : Array (Option Shared)}

theorem of_writer_fresh : of writers regions (.writer writers.size) = none := by
  rw [of, Array.getElem?_eq_none (Nat.le_refl _)]
  rfl

theorem of_region_fresh : of writers regions (.frozen regions.size) = none := by
  rw [of, Array.getElem?_eq_none (Nat.le_refl _)]
  rfl

theorem of_push_writer (b : GrowBuffer) :
    of (writers.push (some b)) regions =
      (of writers regions).enter (.writer writers.size) (some b.capacity) := by
  funext o
  rw [enter_apply]
  cases o with
  | writer w =>
    simp only [of, join_push, Owner.writer.injEq]
    split <;> rfl
  | frozen r => rfl

theorem of_set_writer {w : Nat} {b : GrowBuffer} (live : writers[w]?.join = some b)
    (b' : Option GrowBuffer) :
    of (writers.setIfInBounds w b') regions =
      (of writers regions).enter (.writer w) (b'.map GrowBuffer.capacity) := by
  funext o
  rw [enter_apply]
  cases o with
  | writer w =>
    simp only [of, join_set live, Owner.writer.injEq]
    split <;> rfl
  | frozen r => rfl

theorem of_push_region (s : Shared) :
    of writers (regions.push (some s)) =
      (of writers regions).enter (.frozen regions.size) (some s.buffer.capacity) := by
  funext o
  rw [enter_apply]
  cases o with
  | writer w => rfl
  | frozen r =>
    simp only [of, join_push, Owner.frozen.injEq]
    split <;> rfl

theorem of_set_region {r : Nat} {s : Shared} (live : regions[r]?.join = some s)
    (s' : Option Shared) :
    of writers (regions.setIfInBounds r s') =
      (of writers regions).enter (.frozen r) (s'.map fun s => s.buffer.capacity) := by
  funext o
  rw [enter_apply]
  cases o with
  | writer w => rfl
  | frozen r =>
    simp only [of, join_set live, Owner.frozen.injEq]
    split <;> rfl

end Ledger

namespace Pool

variable {p q : Pool} {op : Op} {sizes : Sizes}

/-! ### What happens to memory -/

/-- The sizes of the live regions. -/
def ledger (p : Pool) : Ledger := .of p.writers p.regions

theorem ledger_writer {w : Nat} {b : GrowBuffer} (live : p.writers[w]?.join = some b) :
    p.ledger (.writer w) = some b.capacity :=
  congrArg (Option.map GrowBuffer.capacity) live

theorem ledger_frozen {r : Nat} {s : Shared} (live : p.regions[r]?.join = some s) :
    p.ledger (.frozen r) = some s.buffer.capacity :=
  congrArg (Option.map fun s : Shared => s.buffer.capacity) live

/-- The owner has memory or had some. -/
def made (p : Pool) : Owner → Bool
  | .writer w => w < p.writers.size
  | .frozen r => r < p.regions.size

/-- What an operation that goes through does to memory. -/
def events (sizes : Sizes) (p : Pool) : Op → List Event
  | .writer capacity => [.allocated (.writer p.writers.size) (roundUp capacity sizes)]
  | .write w op => p.writers[w]?.join.toList.flatMap fun b =>
      if op.target b sizes = b.capacity then []
      else [.reallocated (.writer w) b.capacity (op.target b sizes)]
  | .freeze w => [.frozen w p.regions.size]
  | .dropWriter w => p.writers[w]?.join.toList.map fun b => .freed (.writer w) b.capacity
  | .frozen bytes => [.allocated (.frozen p.regions.size) bytes.size]
  | .clone _ => []
  | .drop h => p.handles[h]?.join.toList.flatMap fun r => p.regions[r]?.join.toList.flatMap fun s =>
      if s.refs.holders = 1 then [.freed (.frozen r) s.buffer.capacity] else []

theorem events_write {w : Nat} {op : GrowBuffer.Op} {b : GrowBuffer}
    (live : p.writers[w]?.join = some b) :
    p.events sizes (.write w op) =
      if op.target b sizes = b.capacity then []
      else [.reallocated (.writer w) b.capacity (op.target b sizes)] := by
  rw [events, live]
  exact List.flatMap_singleton _ _

theorem events_dropWriter {w : Nat} {b : GrowBuffer} (live : p.writers[w]?.join = some b) :
    p.events sizes (.dropWriter w) = [.freed (.writer w) b.capacity] := by
  rw [events, live]
  rfl

section

variable {h r : Nat} {s : Shared}

theorem events_drop (held : p.handles[h]?.join = some r) (live : p.regions[r]?.join = some s) :
    p.events sizes (.drop h) =
      if s.refs.holders = 1 then [.freed (.frozen r) s.buffer.capacity] else [] := by
  rw [events, held, Option.toList_some, List.flatMap_singleton, live]
  exact List.flatMap_singleton _ _

/-- The drop of a handle frees the region, whole, if no other handle of it is left. -/
theorem Linked.events_drop (l : p.Linked) (held : p.handles[h]?.join = some r)
    (live : p.regions[r]?.join = some s) :
    p.events sizes (.drop h) =
      if p.sharers r = 1 then [.freed (.frozen r) s.buffer.capacity] else [] := by
  rw [Pool.events_drop held live, (l.counted live).1]
  exact if_congr (by omega) rfl rfl

end

/-- The events account for all that the operation does to the running total. -/
theorem Moves.charge (m : p.Moves sizes op q) :
    (p.events sizes op).foldlM Event.charge p.allocator = .ok q.allocator := by
  cases m with
  | writer paid | frozen paid => exact bind_eq_ok.mpr ⟨_, paid, rfl⟩
  | write live done paid =>
    rw [GrowBuffer.capacity_apply done] at paid
    rw [events_write live]
    split
    · next same =>
      rw [same] at paid
      obtain ⟨-, rfl⟩ := Allocator.reallocate_eq_ok.mp paid
      rw [Int.sub_self, Int.add_zero]
      rfl
    · exact bind_eq_ok.mpr ⟨_, paid, rfl⟩
  | freeze | clone => rfl
  | dropWriter live =>
    rw [events_dropWriter live]
    rfl
  | dropOne held live others =>
    rw [events_drop held live, if_neg (by omega)]
    rfl
  | dropLast held live last =>
    rw [events_drop held live, if_pos last]
    rfl

/-- The ledger of the pool serves the events, which make it the ledger of the next pool. -/
theorem Moves.serve (m : p.Moves sizes op q) :
    p.ledger.serveAll (p.events sizes op) = some q.ledger := by
  cases m with
  | writer =>
    rw [ledger, ledger, Ledger.of_push_writer, GrowBuffer.capacity_make]
    exact Option.bind_eq_some_iff.mpr ⟨_, if_pos Ledger.of_writer_fresh, rfl⟩
  | @write w op b c a live done paid =>
    have held := ledger_writer live
    have resized : Ledger.of (p.writers.setIfInBounds w (some c)) p.regions = _ :=
      Ledger.of_set_writer live (some c)
    rw [Option.map_some, GrowBuffer.capacity_apply done] at resized
    rw [events_write live, ledger, ledger, resized]
    split
    · next same =>
      rw [same, ← held]
      exact congrArg some (Function.update_eq_self _ _).symm
    · exact Option.bind_eq_some_iff.mpr ⟨_, if_pos held, rfl⟩
  | @freeze w b live =>
    have held := ledger_writer live
    -- the size moves over to the region, which is a new one
    have free : p.ledger (.frozen p.regions.size) = none := Ledger.of_region_fresh
    refine Option.bind_eq_some_iff.mpr ⟨_, if_pos ⟨by rw [held]; rfl, free⟩, congrArg some ?_⟩
    rw [held]
    show _ = Ledger.of (p.writers.setIfInBounds w none) (p.regions.push _)
    rw [Ledger.of_push_region, Ledger.of_set_writer live]
    exact Function.update_comm Owner.noConfusion _ _ _
  | dropWriter live =>
    rw [events_dropWriter live, ledger, ledger, Ledger.of_set_writer live]
    exact Option.bind_eq_some_iff.mpr ⟨_, if_pos (ledger_writer live), rfl⟩
  | frozen =>
    show _ = some (Ledger.of p.writers (p.regions.push _))
    rw [Ledger.of_push_region]
    exact Option.bind_eq_some_iff.mpr ⟨_, if_pos Ledger.of_region_fresh, rfl⟩
  | @clone h r s held live =>
    have size := ledger_frozen live
    rw [ledger, ledger, Ledger.of_set_region live, Option.map_some, ← size]
    exact congrArg some (Function.update_eq_self _ _).symm
  | @dropOne h r s held live others =>
    have size := ledger_frozen live
    rw [events_drop held live, if_neg (by omega), ledger, ledger, Ledger.of_set_region live,
      Option.map_some, ← size]
    exact congrArg some (Function.update_eq_self _ _).symm
  | dropLast held live last =>
    rw [events_drop held live, if_pos last, ledger, ledger, Ledger.of_set_region live]
    exact Option.bind_eq_some_iff.mpr ⟨_, if_pos (ledger_frozen live), rfl⟩

theorem lt_succ_toNat (i n : Nat) :
    (decide (i < n)).toNat + (decide (n = i)).toNat = (decide (i < n + 1)).toNat := by
  rcases Nat.lt_trichotomy i n with less | rfl | more
  · simp [less, Nat.lt_succ_of_lt less, Nat.ne_of_gt less]
  · simp
  · simp [Nat.not_lt.mpr more, Nat.not_lt_of_lt more, Nat.ne_of_lt more]

/-- An owner is new exactly where its memory begins. -/
theorem Moves.begins (m : p.Moves sizes op q) (o : Owner) :
    (p.made o).toNat + (p.events sizes op).countP (·.begins o) = (q.made o).toNat := by
  cases m with
  | writer =>
    rw [events, Ledger.countP_cons_toNat]
    cases o with
    | writer w => simpa [made, Event.begins] using lt_succ_toNat w p.writers.size
    | frozen r => simp [made, Event.begins]
  | write live =>
    rw [events_write live]
    split <;> cases o <;> simp [made, Event.begins]
  | freeze live =>
    rw [events, Ledger.countP_cons_toNat]
    cases o with
    | writer w => simp [made, addRegion, Event.begins]
    | frozen r => simpa [made, addRegion, Event.begins] using lt_succ_toNat r p.regions.size
  | dropWriter live =>
    rw [events_dropWriter live]
    cases o <;> simp [made, Event.begins]
  | frozen =>
    rw [events, Ledger.countP_cons_toNat]
    cases o with
    | writer w => rfl
    | frozen r => simpa [made, addRegion, Event.begins] using lt_succ_toNat r p.regions.size
  | clone => cases o <;> simp [made, events]
  | dropOne held live others =>
    rw [events_drop held live, if_neg (by omega)]
    cases o <;> simp [made]
  | dropLast held live last =>
    rw [events_drop held live, if_pos last]
    cases o <;> simp [made, Event.begins]

/-! ### Runs -/

/-- The pool after the operation, which changes nothing where it fails. -/
def attempt (sizes : Sizes) (p : Pool) (op : Op) : Pool :=
  match p.step op sizes with
  | .ok q => q
  | .error _ => p

/-- What the operation does to memory, which is nothing where it fails. -/
def happens (sizes : Sizes) (p : Pool) (op : Op) : List Event :=
  match p.step op sizes with
  | .ok _ => p.events sizes op
  | .error _ => []

/-- The pool after the operations. -/
def after (sizes : Sizes) (p : Pool) : List Op → Pool
  | [] => p
  | op :: ops => (p.attempt sizes op).after sizes ops

/-- What the operations do to memory, in order. -/
def log (sizes : Sizes) (p : Pool) : List Op → List Event
  | [] => []
  | op :: ops => p.happens sizes op ++ (p.attempt sizes op).log sizes ops

theorem attempt_cases (sizes : Sizes) (p : Pool) (op : Op) :
    (p.Moves sizes op (p.attempt sizes op) ∧ p.happens sizes op = p.events sizes op) ∨
      (p.attempt sizes op = p ∧ p.happens sizes op = []) := by
  unfold attempt happens
  cases done : p.step op sizes with
  | ok q => exact .inl ⟨moves_of_step done, rfl⟩
  | error e => exact .inr ⟨rfl, rfl⟩

/-- Every operation that goes through keeps the property. -/
def Kept (I : Pool → Prop) : Prop := ∀ {sizes p q op}, p.Moves sizes op q → I p → I q

theorem after_of_kept {I : Pool → Prop} (kept : Kept I) (ops : List Op) (start : I p) :
    I (p.after sizes ops) := by
  induction ops generalizing p with
  | nil => exact start
  | cons op ops ih =>
    refine ih ?_
    rcases p.attempt_cases sizes op with ⟨moves, -⟩ | ⟨same, -⟩
    · exact kept moves start
    · rwa [same]

theorem charge_log (ops : List Op) :
    (p.log sizes ops).foldlM Event.charge p.allocator = .ok (p.after sizes ops).allocator := by
  induction ops generalizing p with
  | nil => rfl
  | cons op ops ih =>
    rw [log, List.foldlM_append]
    refine bind_eq_ok.mpr ⟨(p.attempt sizes op).allocator, ?_, ih⟩
    rcases p.attempt_cases sizes op with ⟨moves, happens⟩ | ⟨same, happens⟩
    · rw [happens]
      exact moves.charge
    · rw [happens, same]
      rfl

theorem serve_log (ops : List Op) :
    p.ledger.serveAll (p.log sizes ops) = some (p.after sizes ops).ledger := by
  induction ops generalizing p with
  | nil => rfl
  | cons op ops ih =>
    rw [log, Ledger.serveAll_append]
    refine Option.bind_eq_some_iff.mpr ⟨(p.attempt sizes op).ledger, ?_, ih⟩
    rcases p.attempt_cases sizes op with ⟨moves, happens⟩ | ⟨same, happens⟩
    · rw [happens]
      exact moves.serve
    · rw [happens, same]
      rfl

theorem begins_log (ops : List Op) (o : Owner) :
    (p.made o).toNat + (p.log sizes ops).countP (·.begins o) =
      ((p.after sizes ops).made o).toNat := by
  induction ops generalizing p with
  | nil => rfl
  | cons op ops ih =>
    have rest := ih (p := p.attempt sizes op)
    rw [log, List.countP_append, after]
    rcases p.attempt_cases sizes op with ⟨moves, happens⟩ | ⟨same, happens⟩
    · have step := moves.begins o
      rw [happens]
      omega
    · rw [happens, List.countP_nil]
      rw [same] at rest ⊢
      omega

theorem made_of_ledger {o : Owner} {size : Nat} (h : p.ledger o = some size) : p.made o = true := by
  cases o with
  | writer w =>
    obtain ⟨b, live, -⟩ := Option.map_eq_some_iff.mp h
    exact decide_eq_true (join_eq_some.mp live).1
  | frozen r =>
    obtain ⟨s, live, -⟩ := Option.map_eq_some_iff.mp h
    exact decide_eq_true (join_eq_some.mp live).1

/-- In a run from an empty pool, memory that began and is no longer there has ended once, and no
other has. -/
theorem ends_log (ops : List Op) (o : Owner) :
    (log sizes {} ops).countP (·.ends o) =
      if (after sizes {} ops).made o ∧ (after sizes {} ops).ledger o = none then 1 else 0 := by
  have served : (ledger {}).serveAll (log sizes {} ops) = some (after sizes {} ops).ledger :=
    serve_log ops
  have balance := Ledger.serveAll_balance served o
  have begun : (made {} o).toNat + (log sizes {} ops).countP (·.begins o) =
      ((after sizes {} ops).made o).toNat := begins_log ops o
  have before : ledger {} o = none := by cases o <;> rfl
  have unmade : made {} o = false := by cases o <;> rfl
  -- memory began once where it was made, so it has ended once unless it is still there
  rw [before] at balance
  rw [unmade] at begun
  cases held : (after sizes {} ops).ledger o with
  | some size =>
    rw [held] at balance
    rw [made_of_ledger held] at begun
    simp only [Option.isSome_none, Option.isSome_some, Bool.toNat_true, Bool.toNat_false]
      at balance begun
    simp only [reduceCtorEq, and_false, if_false]
    omega
  | none =>
    rw [held] at balance
    simp only [and_true]
    cases made : (after sizes {} ops).made o <;> simp_all

/-- **Memory accounting balances over every run.**  Whatever is done to an empty pool, in any order,
and however sums of sizes come out:

* what is outstanding are the capacities of the live regions, each once;
* a region is live while it has handles, and counts them;
* the events of the run add up to the allocator, and the strict ledger serves them and ends as the
  sizes of the live regions, so memory is freed with the size that it had last;
* memory has ended once where it is no longer there, and not where it is: a writer's when it was
  frozen or dropped, a frozen region's when it was freed;
* the drop of a handle frees the region if it was the last one, and does nothing to memory if not;
* an operation fails only where it names what is not live, writes out of range or asks for a region
  that cannot be, so no drop releases too often;
* nothing is outstanding once all writers and handles are dropped. -/
theorem accounts (sizes : Sizes) (ops : List Op) :
    let p := after sizes {} ops
    let log := log sizes {} ops
    p.allocator.outstanding = p.liveBytes ∧
    (∀ r : Nat, (∃ s, p.regions[r]?.join = some s) ↔ 0 < p.sharers r) ∧
    (∀ (r : Nat) (s : Shared), p.regions[r]?.join = some s → s.refs.holders = p.sharers r) ∧
    log.foldlM Event.charge {} = .ok p.allocator ∧
    Ledger.empty.serveAll log = some p.ledger ∧
    (∀ o, log.countP (·.ends o) = if p.made o ∧ p.ledger o = none then 1 else 0) ∧
    (∀ (h r : Nat) (s : Shared), p.handles[h]?.join = some r → p.regions[r]?.join = some s →
      p.events sizes (.drop h) =
        if p.sharers r = 1 then [.freed (.frozen r) s.buffer.capacity] else []) ∧
    (∀ op, (∃ q, p.step op sizes = .ok q) ↔ p.Allows sizes op) ∧
    ((∀ w : Nat, p.writers[w]?.join = none) → (∀ h : Nat, p.handles[h]?.join = none) →
      p.allocator.outstanding = 0) := by
  have linked : (after sizes {} ops).Linked := after_of_kept Moves.linked ops .empty
  have balanced : (after sizes {} ops).Balanced := after_of_kept Moves.balanced ops rfl
  have addressable : (after sizes {} ops).Addressable :=
    after_of_kept Moves.addressable ops fun w b live => nomatch live
  have served : Ledger.empty.serveAll (log sizes {} ops) = some (after sizes {} ops).ledger := by
    have start : Ledger.empty = ledger {} := funext fun o => by cases o <;> rfl
    rw [start]
    exact serve_log ops
  exact ⟨balanced, fun r => linked.live_iff, fun r s live => (linked.counted live).1,
    charge_log (p := {}) ops, served, ends_log ops, fun h r s => linked.events_drop,
    fun op => step_ok_iff linked addressable, balanced.of_dropped linked⟩

/-- A buffer grows, is frozen and shared; the handles die in another order than they came. -/
example :
    log .wrapping {} [.writer 10, .write 0 (.append (Bytes.zeros 100)), .freeze 0, .clone 0,
        .drop 0, .drop 1] =
      [.allocated (.writer 0) 64, .reallocated (.writer 0) 64 128, .frozen 0 0,
        .freed (.frozen 0) 128] := by
  decide +kernel

end Pool

end Columnar
