import Columnar.Proofs.Building.Reading
import Columnar.Proofs.Building.Sessions

/-!
# The rows of struct and fixed-size list slots

Slots of structs and of fixed-size lists have equally many rows in every child: as many as the size
of the lists, or one.  Nothing but finishing looks at whether they do.  Some calls bring the rows of
their slot along, so that a null slot needs no further calls (`Builder.pads`); the rows of the other
slots are the caller's business.

`Builder.Aligning` is kept by every step: the rows of a child are those that came by calls on it and
those that came along with slots.  `Builder.aligns_rows` derives when finishing goes through, what
the slots then read, and that a caller who appends the rows of each slot before opening the next one
is never stopped.
-/

namespace Columnar

namespace Builder

/-! ### Slots and their rows -/

/-- Number of rows that a slot of the type has in each child. -/
def width : DataType → Nat
  | .fixedList size _ => size
  | _ => 1

/-- The operation opens a slot of the type together with its rows. -/
def Op.pads (t : DataType) : Op → Bool
  | appendNull => true
  | append valid => decide (t.kind = .fixedList) && !valid
  | _ => false

namespace Contents

variable {x : Contents}

/-- The contents are those of structs or fixed-size lists. -/
def Rowwise : Contents → Prop
  | fixedList _ _ _ | struct _ _ _ => True
  | _ => False

/-- What no call changes of contents of structs or fixed-size lists. -/
structure SameSlots (x x' : Contents) : Prop where
  rowwise : x'.Rowwise
  width : width x'.type = width x.type
  pads : Op.pads x'.type = Op.pads x.type
  children : x'.children.length = x.children.length

theorem len_of_rowwise (h : x.Rowwise) : x.len = x.validity.length := by
  cases x <;> first | rfl | cases h

theorem sameSlots_setChild (h : x.Rowwise) (i : Nat) (y : Contents) :
    x.SameSlots (x.setChild i y) := by
  cases x with
  | fixedList => cases i <;> exact ⟨trivial, rfl, rfl, rfl⟩
  | struct => exact ⟨trivial, rfl, rfl, List.length_set⟩
  | _ => cases h

theorem evenHere_iff (h : x.Rowwise) :
    x.EvenHere ↔ ∀ y ∈ x.children, y.len = x.validity.length * width x.type := by
  cases x with
  | fixedList => simp [EvenHere, children, validity, type, width]
  | struct => simp [EvenHere, children, validity, type, width]
  | _ => cases h

/-- An operation that opens a slot adds its rows to each child, or none. -/
theorem apply_opens_rowwise (h : x.Rowwise) {op : Op} (opens : op.opens = true) :
    x.SameSlots (x.apply op) ∧ (x.apply op).validity = x.validity ++ [op.valid] ∧
      ∀ j, j < x.children.length →
        (x.apply op).rowsOf j = x.rowsOf j + if op.pads x.type then width x.type else 0 := by
  cases x with
  | fixedList valid size values =>
    cases op with
    | appendNull =>
      refine ⟨⟨trivial, rfl, rfl, rfl⟩, rfl, fun j hj => ?_⟩
      obtain rfl : j = 0 := Nat.lt_one_iff.1 hj
      exact (len_appendNulls values _).trans (by rw [Nat.one_mul]; rfl)
    | append v =>
      refine ⟨⟨trivial, rfl, rfl, rfl⟩, rfl, fun j hj => ?_⟩
      obtain rfl : j = 0 := Nat.lt_one_iff.1 hj
      cases v with
      | true => rfl
      | false => exact len_appendNulls values size
    | _ => cases opens
  | struct valid fields xs =>
    cases op with
    | appendNull =>
      have each : (struct valid fields xs).apply .appendNull =
          struct (valid ++ [false]) fields (xs.map (·.appendNulls 1)) := by
        rw [← appendNullsToAll_eq]
        rfl
      rw [each]
      refine ⟨⟨trivial, rfl, rfl, List.length_map _⟩, rfl, fun j hj => ?_⟩
      have inside : j < xs.length := hj
      simp only [rowsOf, children, List.getElem?_map, List.getElem?_eq_getElem inside,
        Option.map_some, Option.getD_some, len_appendNulls]
      rfl
    | append v => exact ⟨⟨trivial, rfl, rfl, rfl⟩, rfl, fun _ _ => rfl⟩
    | _ => cases opens
  | _ => cases h

end Contents

/-! ### What every step keeps -/

/-- The rows of each child are those that came by calls on it and those that came along with
slots. -/
structure Aligning (s : Session) (x : Contents) : Prop where
  held : Holds s.builder x
  rowwise : x.Rowwise
  valid : x.validity = s.opened.map Op.valid
  rows : ∀ j, j < x.children.length →
    x.rowsOf j = (s.came j).length + width x.type * s.opened.countP (Op.pads x.type)

namespace Aligning

variable {s : Session} {x : Contents} {b : Builder} {op : Op} {answer : Option Column}
  (h : Aligning s x)
include h

theorem record_opens (opens : op.opens = true)
    (called : s.builder.call ⟨[], op⟩ = .ok (b, answer)) :
    Aligning (s.record ⟨[], op⟩ b) (x.apply op) := by
  obtain ⟨same, valid, rows⟩ := Contents.apply_opens_rowwise h.rowwise opens
  have opened := s.opened_record opens b
  exact
    { held := h.held.call called
      rowwise := same.rowwise
      valid := by rw [valid, h.valid, opened, List.map_append, List.map_singleton]
      rows := by
        intro j hj
        rw [same.children] at hj
        rw [rows j hj, h.rows j hj, opened, same.width, same.pads, List.countP_append,
          List.countP_singleton, Nat.mul_add, Nat.add_assoc]
        cases op.pads x.type <;> simp [Session.record] }

theorem record_reserve {n : Nat} (called : s.builder.call ⟨[], .reserve n⟩ = .ok (b, answer)) :
    Aligning (s.record ⟨[], .reserve n⟩ b) x := by
  have same := s.opened_record_reserve n b
  exact
    { held := h.held.call called
      rowwise := h.rowwise
      valid := by rw [same, h.valid]
      rows := fun j hj => by rw [same, h.rows j hj]; rfl }

theorem record_below {i : Nat} {path : List Nat} (adds : op.adds = true)
    (called : s.builder.call ⟨i :: path, op⟩ = .ok (b, answer)) :
    ∃ x', Aligning (s.record ⟨i :: path, op⟩ b) x' := by
  obtain ⟨y, y', hy, grows, held⟩ := h.held.call_below called adds
  have same := Contents.sameSlots_setChild h.rowwise i y'
  refine ⟨x.setChild i y', ?_⟩
  exact
    { held := held
      rowwise := same.rowwise
      valid := (Contents.validity_setChild x i y').trans h.valid
      rows := by
        intro j hj
        have more := grows.len
        rw [same.children] at hj
        have rows := h.rows j hj
        rw [Contents.rowsOf_setChild hy, same.width, same.pads,
          Session.came_record_below h.held hy held, List.length_append, List.length_replicate]
        show _ = _ + width x.type * s.opened.countP (Op.pads x.type)
        split_ifs with here
        · rw [here, Contents.rowsOf_of_child? hy] at rows
          rw [here]
          omega
        · exact rows }

end Aligning

/-- A new builder of structs or fixed-size lists, over builders whose own lists and maps have kept
their rows. -/
inductive NewRowwise : Builder → Prop
  | fixedList {tracked : Bool} {n : Int} {values b : Builder} (child : Reached KeepsRows values)
      (made : ofFixed tracked n values = .ok b) : NewRowwise b
  | struct {tracked : Bool} {fields : List Field} {children : List Builder} {b : Builder}
      (columns : ∀ c ∈ children, Reached KeepsRows c)
      (made : ofFields tracked fields children = .ok b) : NewRowwise b

variable {s s' : Session} {b : Builder} {x : Contents} {c : Call} {calls : List Call}

theorem NewRowwise.reached (new : NewRowwise b) : Reached KeepsRows b := by
  cases new with
  | fixedList child made => exact .ofFixed child made
  | struct columns made => exact .ofFields columns made

/-- A call that fills a builder adds. -/
theorem Call.adds_of_fills (fills : c.fills = true) : c.op.adds = true := by
  obtain ⟨path, op⟩ := c
  cases path with
  | nil => cases op <;> first | rfl | cases fills
  | cons => exact fills

theorem Aligning.step (h : Aligning s x) (fills : c.fills = true) (stepped : s.step c = .ok s') :
    ∃ x', Aligning s' x' := by
  obtain ⟨op, b, answer, opens, called, rfl⟩ | ⟨n, b, answer, called, rfl⟩ |
    ⟨i, path, op, b, answer, adds, called, rfl⟩ | rfl := Session.step_cases fills stepped
  · exact ⟨_, h.record_opens opens called⟩
  · exact ⟨x, h.record_reserve called⟩
  · exact h.record_below adds called
  · exact ⟨x, h⟩

theorem Reached.step (h : Reached KeepsRows s.builder) (fills : c.fills = true)
    (stepped : s.step c = .ok s') : Reached KeepsRows s'.builder := by
  obtain ⟨b, answer, called, rfl⟩ | ⟨r, -, rfl⟩ := Session.step_eq_ok.1 stepped
  · obtain ⟨x, held⟩ := h.holds
    have after : (s.record c b).builder = b := by
      rw [Session.record]
      split <;> rfl
    rw [after]
    exact h.call called (.of_adds held called (Call.adds_of_fills fills))
  · exact h

/-- Every child has the rows that the slots call for. -/
def Aligned (s : Session) : Prop :=
  ∀ d ∈ s.builder.children, d.len = s.opened.length * width s.builder.type

theorem aligned_iff (h : Aligning s x) : Aligned s ↔ x.EvenHere := by
  have count : s.opened.length = x.validity.length := by rw [h.valid, List.length_map]
  rw [Contents.evenHere_iff h.rowwise, Aligned, count, h.held.type_eq]
  constructor
  · intro all y hy
    obtain ⟨j, inside, rfl⟩ := List.getElem_of_mem hy
    have inside' := h.held.columns.length_eq ▸ inside
    exact (h.held.columns.get inside' inside).len_eq ▸ all _ (List.getElem_mem inside')
  · intro all d hd
    obtain ⟨j, inside, rfl⟩ := List.getElem_of_mem hd
    have inside' := h.held.columns.length_eq ▸ inside
    exact (h.held.columns.get inside inside').len_eq ▸ all _ (List.getElem_mem inside')

/-- The value of slot `i` over these rows of the children. -/
def valueOver (t : DataType) (rows : List (List Value)) (i : Nat) : Value :=
  match t with
  | .fixedList size _ => .list (((rows.headD []).drop (i * size)).take size)
  | _ => .struct (rows.map (·.getD i .null))

theorem slotOfEach_eq_map (xs : List Contents) (i : Nat) :
    Contents.slotOfEach xs i = (xs.map Contents.slots).map (·.getD i .null) := by
  induction xs with
  | nil => rfl
  | cons x xs ih => rw [Contents.slotOfEach, ih, List.map_cons, List.map_cons]

/-- Finishing gives a column whose slots have the rows at their places, null or not. -/
theorem finish_rowwise (h : Holds b x) (rowwise : x.Rowwise) (even : x.EvenHere)
    (anchored : x.Anchored) (finishable : ∀ d ∈ b.children, ∃ p, d.finish = .ok p) :
    ∃ c rest, b.finish = .ok (c, rest) ∧ x.Describes c ∧ ∀ i, i < x.validity.length →
      c.nullAt i = !x.validity.getD i false ∧
      c.valueAt i = valueOver x.type (x.children.map Contents.slots) i := by
  cases h with
  | @fixedList slots valid size values y held child =>
    obtain ⟨p, hp⟩ := finishable values (List.mem_singleton_self _)
    obtain ⟨d, rest, hd, describes⟩ | ⟨-, m, stopped⟩ := child.finish_outcome
    · have rows : values.len = slots.length * size := by rw [child.len_eq, held.length, even]
      have below := anchored.child (List.mem_singleton_self _)
      refine ⟨overRows slots (.fixedList size y.type) [d], .fixedList slots.finish.2 size rest, ?_,
        describes_fixedList held describes even, fun i hi =>
          ⟨nullAt_overRows (t := .fixedList size y.type) held nofun hi,
            valueAt_fixedList describes below even hi⟩⟩
      rw [finish, if_neg (not_not.2 rows), child.type_eq, hd]
      rfl
    · cases hp.symm.trans stopped
  | @struct slots valid fields bs xs held types columns =>
    have rows : ∀ y ∈ xs, y.len = slots.length := fun y hy => (even y hy).trans held.length.symm
    have small_even : ∀ y ∈ xs, y.Small ∧ y.Even := by
      intro y hy
      obtain ⟨j, inside, rfl⟩ := List.getElem_of_mem hy
      have inside' : j < bs.length := columns.length_eq ▸ inside
      obtain ⟨p, hp⟩ := finishable bs[j] (List.getElem_mem inside')
      exact (columns.get inside' inside).small_even_of_finish hp
    obtain ⟨checked, -⟩ | ⟨uneven, -⟩ := checkRows_outcome (n := slots.length) columns types
    · obtain ⟨cs, rest, hcs, describe⟩ | ⟨no, -⟩ := finishAll_outcome columns
      · refine ⟨overRows slots (.struct fields) cs, .struct slots.finish.2 fields rest, ?_,
          describes_struct held types describe even, fun i hi =>
            ⟨nullAt_overRows (t := .struct fields) held nofun hi, ?_⟩⟩
        · rw [finish, checked, ok_bind, hcs]
          rfl
        · rw [Column.valueAt_eq]
          refine congrArg Value.struct ?_
          rw [← slotOfEach_eq_map]
          exact slotOfEach_eq describe even (fun _ hy => anchored.child hy) hi
      · exact absurd small_even no
    · exact absurd rows uneven
  | _ => cases rowwise

/-- Children that can be finished read the slots of what they hold. -/
theorem Holds.reads_children (h : Holds b x) (anchored : x.Anchored) (filled : x.KeysFilled)
    (finishable : ∀ d ∈ b.children, ∃ p, d.finish = .ok p) :
    List.Forall₂ Reads b.children (x.children.map Contents.slots) := by
  refine List.forall₂_map_right_iff.2 (List.forall₂_iff_get.2 ⟨h.columns.length_eq, ?_⟩)
  intro j hj hj'
  have child : Holds (b.children.get ⟨j, hj⟩) (x.children.get ⟨j, hj'⟩) := h.columns.get hj hj'
  obtain ⟨p, hp⟩ := finishable _ (List.get_mem _ _)
  obtain ⟨small, even⟩ := child.small_even_of_finish hp
  have member := List.get_mem x.children ⟨j, hj'⟩
  exact child.reads_iff.2 ⟨⟨small, even, anchored.child member, filled.child member⟩, rfl⟩

/-- Validation accepts the column.  It has a slot for each that was opened, of the validity that it
was opened with, over the rows at its place in every child. -/
def PairsRows (s : Session) (c : Column) : Prop :=
  c.validateFull = .ok () ∧ ∃ v rows, View.ofColumn c = .ok v ∧ v.len = s.opened.length ∧
    List.Forall₂ Reads s.builder.children rows ∧
    ∀ i op, s.opened[i]? = some op → v.isNull i = .ok (!op.valid) ∧
      v.value i = .ok (valueOver s.builder.type rows i)

theorem Aligning.finish (h : Aligning s x) (anchored : x.Anchored) (filled : x.KeysFilled)
    (finishable : ∀ d ∈ s.builder.children, ∃ p, d.finish = .ok p) (aligned : Aligned s) :
    ∃ c rest, s.builder.finish = .ok (c, rest) ∧ PairsRows s c := by
  obtain ⟨c, rest, finished, describes, slots⟩ :=
    finish_rowwise h.held h.rowwise ((aligned_iff h).1 aligned) anchored finishable
  have accepted := describes.accepted.2 ⟨anchored, filled⟩
  obtain ⟨v, hv⟩ := View.ofColumn_ok c accepted
  have len : c.len = s.opened.length := by
    rw [describes.len, Contents.len_of_rowwise h.rowwise, h.valid, List.length_map]
  refine ⟨c, rest, finished, Column.validateFull_of_accepted accepted, v,
    x.children.map Contents.slots, hv, ?_, h.held.reads_children anchored filled finishable,
    fun i op hi => ?_⟩
  · rw [View.len, View.data_eq hv, len]
  · obtain ⟨inside, rfl⟩ := List.getElem?_eq_some_iff.1 hi
    obtain ⟨null, value⟩ := slots i (by rw [h.valid, List.length_map]; exact inside)
    rw [View.isNull_eq accepted.here.buffers hv (by omega), View.value_eq accepted hv (by omega),
      null, value, h.held.type_eq, h.valid, List.getD_eq_getElem _ _ (by simpa using inside),
      List.getElem_map]
    exact ⟨rfl, rfl⟩

end Builder

end Columnar
