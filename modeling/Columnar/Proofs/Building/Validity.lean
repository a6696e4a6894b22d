import Columnar.Proofs.Building.Slots

/-!
# The validity bitmap over a whole run

The slots of a builder are used like a list of validities with a capacity (`Slots.Op.onList`):
appending adds at the end and needs capacity for it, `resize` sets the capacity and cuts the list
off there, `reset` and `finish` leave nothing.  As long as the list has room for what is appended,
the slots go through the same operations (`Slots.Holds.apply`), and after any run of them the
bitmap is the list written as bits, with nothing after it (`Slots.run_packs`).

A null is appended without touching the bitmap.  That is right only because the bits from the length
on are clear, which `Slots.Holds` therefore includes, and which a cut has to restore.
-/

namespace Columnar

namespace Slots

/-! ### The same operations on lists -/

/-- What the operation makes of a list of validities and a capacity.  There is nothing where the
capacity does not cover what is appended. -/
def Op.onList : List Bool × Nat → Op → Option (List Bool × Nat)
  | (valid, _), resize c => some (valid.take c, c)
  | (valid, capacity), append v =>
    if valid.length < capacity then some (valid ++ [v], capacity) else none
  | (valid, capacity), appendMany v n =>
    if valid.length + n ≤ capacity then some (valid ++ List.replicate n v, capacity) else none
  | _, reset | _, finish => some ([], 0)

/-- Does the operations one after the other. -/
def run (s : Slots) (ops : List Op) : Except Fault Slots := ops.foldlM apply s

/-- The validities and the capacity that the operations leave where there was nothing. -/
def listAfter (ops : List Op) : Option (List Bool × Nat) := ops.foldlM Op.onList ([], 0)

variable {s : Slots} {valid valid' : List Bool} {op : Op} {ops : List Op} {c n : Nat} {v : Bool}

/-! ### One operation -/

namespace Holds

variable (h : s.Holds valid)
include h

/-- The bitmap reaches as far as the capacity. -/
theorem covers (inside : n ≤ s.capacity) : s.covers n = true := by
  rw [Slots.covers, Option.all_eq_true]
  intro b hb
  rw [decide_eq_true_iff, (h.marked b hb).len]
  unfold bytesFor
  omega

theorem resizeChecked (c : Nat) : s.resizeChecked c = (s.resize c, .ok ()) := by
  refine if_pos ?_
  rcases Nat.lt_or_ge c s.length with drops | keeps
  · exact .inr (h.covers (Nat.le_trans (Nat.le_of_lt drops) h.room))
  · exact .inl keeps

theorem appendChecked (v : Bool) (room : s.length + n ≤ s.capacity) :
    s.appendChecked v n = (s.appendMany v n, .ok ()) :=
  if_pos (.inr (.inr (h.covers room)))

end Holds

/-- Slots that the capacity covers are added at the end, and the capacity stays. -/
theorem Holds.settled_append (h : s.Holds valid) (v : Bool) (room : valid.length + n ≤ s.capacity) :
    ∃ s', settled (s.appendChecked v n) = .ok s' ∧ s'.Holds (valid ++ List.replicate n v) ∧
      s'.capacity = s.capacity := by
  rw [← h.length] at room
  refine ⟨s.appendMany v n, congrArg settled (h.appendChecked v room), h.appendMany v n room, ?_⟩
  cases v <;> rfl

/-- **One operation**: the slots and the list of their validities go through it alike. -/
theorem Holds.apply (h : s.Holds valid)
    (listed : op.onList (valid, s.capacity) = some (valid', c)) :
    ∃ s', s.apply op = .ok s' ∧ s'.Holds valid' ∧ s'.capacity = c := by
  cases op with
  | resize capacity =>
    cases listed
    exact ⟨_, congrArg settled (h.resizeChecked _), h.resize _, capacity_resize s _⟩
  | append v =>
    rw [Op.onList] at listed
    split_ifs at listed with room
    cases listed
    exact h.settled_append v room
  | appendMany v n =>
    rw [Op.onList] at listed
    split_ifs at listed with room
    cases listed
    exact h.settled_append v room
  | reset =>
    cases listed
    exact ⟨_, rfl, holds_empty s.tracked, rfl⟩
  | finish =>
    cases listed
    exact ⟨_, rfl, holds_finish s, rfl⟩

/-! ### Runs -/

theorem Holds.run (h : s.Holds valid)
    (listed : ops.foldlM Op.onList (valid, s.capacity) = some (valid', c)) :
    ∃ s', s.run ops = .ok s' ∧ s'.Holds valid' ∧ s'.capacity = c := by
  induction ops generalizing s valid with
  | nil =>
    cases listed
    exact ⟨s, rfl, h, rfl⟩
  | cons op ops ih =>
    rw [List.foldlM_cons] at listed
    obtain ⟨⟨next, c'⟩, first, rest⟩ := Option.bind_eq_some_iff.1 listed
    -- the list goes on with the capacity that the slots have now
    obtain ⟨t, done, h', rfl⟩ := h.apply first
    obtain ⟨s', went, held, last⟩ := ih h' rest
    exact ⟨s', bind_eq_ok.2 ⟨t, done, went⟩, held, last⟩

/-- What is promised of slots with these validities. -/
structure Packs (s : Slots) (valid : List Bool) : Prop where
  length : s.length = valid.length
  length_le : s.length ≤ s.capacity
  nulls : s.nulls = valid.count false
  size : ∀ b, s.validity = some b → b.bytes.size = bytesFor s.capacity
  /-- Exactly the bits of valid slots are set. -/
  bit : ∀ b, s.validity = some b → ∀ i, b.bytes.testBit i = true ↔ valid[i]? = some true
  /-- No bitmap is handed out where no slot is null. -/
  finish_none : s.finish.1 = none ↔ false ∉ valid
  /-- A bitmap that is handed out ends with the slots. -/
  finish_some : ∀ b, s.finish.1 = some b →
    b.size = bytesFor s.length ∧ ∀ i, b.bytes.testBit i = true ↔ valid[i]? = some true
  finish_empty : s.finish.2 = empty s.tracked

theorem getD_eq_true_iff {i : Nat} : valid.getD i false = true ↔ valid[i]? = some true := by
  rw [List.getD_eq_getElem?_getD]
  cases valid[i]? <;> simp

theorem Holds.packs (h : s.Holds valid) : s.Packs valid where
  length := h.length
  length_le := h.room
  nulls := h.nulls
  size b hb := by rw [GrowBuffer.size_bytes (h.marked b hb).fits, (h.marked b hb).len]
  bit b hb i := by rw [(h.marked b hb).bit, getD_eq_true_iff]
  finish_none := by rw [h.finish_eq_none, h.nulls, List.count_eq_zero]
  finish_some b hb := by
    refine ⟨(h.bitmap_of_finish hb).1, fun i => ?_⟩
    rw [h.testBit_of_finish hb, getD_eq_true_iff]
  finish_empty := rfl

/-- **The bitmap is the list of validities.**  Whatever is done to new slots, in any order, as long
as the capacity covers what is appended: nothing fails, counts and bitmap are those of the list that
is left, and so is the bitmap that is handed out. -/
theorem run_packs (tracked : Bool) (listed : listAfter ops = some (valid, c)) :
    ∃ s, (empty tracked).run ops = .ok s ∧ s.Packs valid ∧ s.capacity = c := by
  obtain ⟨s, done, h, capacity⟩ := (holds_empty tracked).run listed
  exact ⟨s, done, h.packs, capacity⟩

/-- Slots of one byte that are cut off in its middle, and grow again. -/
def cutByte : List Op :=
  [.resize 8, .append true, .append false, .appendMany true 6, .resize 3, .resize 20, .append false]

theorem run_packs_cutByte : listAfter cutByte = some ([true, false, true, false], 20) ∧
    ∃ s, (empty true).run cutByte = .ok s ∧ s.Packs [true, false, true, false] ∧
      s.capacity = 20 :=
  ⟨rfl, run_packs true rfl⟩

-- The five bits that were cut off do not come back.
example : ((empty true).run cutByte).map (fun s => s.validity.map GrowBuffer.bytes)
    = .ok (some #[5, 0, 0]) := by
  decide +kernel

end Slots

end Columnar
