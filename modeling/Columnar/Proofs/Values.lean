import Columnar.Proofs.Slicing
import Columnar.View.Value

/-!
# Values of slots, from the buffers

`Column.valueAt` and `Column.slotAt` tell the value of a slot from what the buffers say, by
recursion over the column: the rows of a nested slot are addressed in the child where they are.
Views reach the same rows through slices of the child; that they find the same values is shown in
`Columnar.Proofs.Views`.

The values of a slice are those of the window (`Column.valueAt_slice`).  The columns of a struct are
the only place where this needs an induction.
-/

namespace Columnar

/-- The key and the item of a map entry. -/
def Value.pair : Value → Value × Value
  | .struct [key, item] => (key, item)
  | _ => (.null, .null)

namespace Column

/-- The value given, unless slot `i` is null. -/
def orNull (c : Column) (i : Nat) (value : Value) : Value := if c.nullAt i then .null else value

mutual

/-- The value of slot `i`, whether or not the slot is null.  Only a dictionary slot that is null has
no value of its own. -/
def valueAt : Column → (i : Nat) → Value
  | ⟨type, len, offset, nulls, buffers, children, dictionary⟩, i =>
    let c : Column := ⟨type, len, offset, nulls, buffers, children, dictionary⟩
    match type with
    | .null => .null
    | .bool => .bool (c.bitAt i)
    | .num t => .num t (c.wordAt t.width i)
    | .utf8 => .text (c.bytesAt i)
    | .binary => .binary (c.bytesAt i)
    | .list _ => .list (firstSlots children (c.firstRow i) (c.rowCount i))
    | .fixedList size _ => .list (firstSlots children ((offset + i) * size) size)
    | .struct _ => .struct (slotOfEach children i)
    | .map _ _ _ => .map (firstPairs children (c.firstRow i) (c.rowCount i))
    | .dictionary index _ _ => c.orNull i (entryAt dictionary (c.indexAt index i).toNat)
termination_by structural c => c

/-- The `n` slots of the first column from slot `start` on. -/
def firstSlots : List Column → (start n : Nat) → List Value
  | c :: _, start, n => (List.range n).map fun k => c.orNull (start + k) (valueAt c (start + k))
  | [], _, _ => []
termination_by structural cs => cs

/-- The `n` map entries of the first column from slot `start` on. -/
def firstPairs : List Column → (start n : Nat) → List (Value × Value)
  | c :: _, start, n => (List.range n).map fun k => (valueAt c (start + k)).pair
  | [], _, _ => []
termination_by structural cs => cs

/-- Slot `i` of every column. -/
def slotOfEach : List Column → (i : Nat) → List Value
  | [], _ => []
  | c :: cs, i => c.orNull i (valueAt c i) :: slotOfEach cs i
termination_by structural cs => cs

/-- Entry `k` of a dictionary. -/
def entryAt : Option Column → (k : Nat) → Value
  | some d, k => .entry k (d.orNull k (valueAt d k))
  | none, k => .entry k .null
termination_by structural d => d

end

/-- The value of slot `i`, or null. -/
def slotAt (c : Column) (i : Nat) : Value := c.orNull i (c.valueAt i)

variable {c s : Column} {o n i : Nat}

theorem valueAt_eq (c : Column) (i : Nat) :
    c.valueAt i =
      match c.type with
      | .null => .null
      | .bool => .bool (c.bitAt i)
      | .num t => .num t (c.wordAt t.width i)
      | .utf8 => .text (c.bytesAt i)
      | .binary => .binary (c.bytesAt i)
      | .list _ => .list (firstSlots c.children (c.firstRow i) (c.rowCount i))
      | .fixedList size _ => .list (firstSlots c.children ((c.offset + i) * size) size)
      | .struct _ => .struct (slotOfEach c.children i)
      | .map _ _ _ => .map (firstPairs c.children (c.firstRow i) (c.rowCount i))
      | .dictionary index _ _ => c.orNull i (entryAt c.dictionary (c.indexAt index i).toNat) := by
  obtain ⟨type, len, offset, nulls, buffers, children, dictionary⟩ := c
  cases type <;> rfl

/-! ### Slices -/

theorem IsWindow.orNull (w : c.IsWindow o n s) (value : Value) :
    s.orNull i value = c.orNull (o + i) value := by
  rw [Column.orNull, Column.orNull, w.nullAt]

mutual

/-- **Slot `i` of a slice has the value of slot `o + i` of the column.** -/
theorem valueAt_slice : (c : Column) → {s : Column} → c.slice o n = .ok s →
    s.valueAt i = c.valueAt (o + i)
  | ⟨type, len, offset, nulls, buffers, children, dictionary⟩, s, h => by
    have w := isWindow_of_slice h
    rw [valueAt_eq s, w.type, valueAt_eq ⟨type, len, offset, nulls, buffers, children, dictionary⟩]
    cases type with
    | struct fields =>
      -- the columns were sliced along, so row `i` of them is row `o + i` of the old ones
      have columns := slotOfEach_slice children (w.slices_children rfl)
      exact congrArg Value.struct columns
    | bool => exact congrArg Value.bool w.bitAt
    | num t => exact congrArg (Value.num t) (w.wordAt t.width)
    | utf8 => exact congrArg Value.text w.bytesAt
    | binary => exact congrArg Value.binary w.bytesAt
    -- the child is the same, and the offsets that address it have moved along
    | list elem =>
      simp only [w.keeps_children rfl, w.firstRow, w.rowCount]
    | fixedList size elem =>
      simp only [w.keeps_children rfl, w.offset, Nat.add_assoc]
    | map key value sorted =>
      simp only [w.keeps_children rfl, w.firstRow, w.rowCount]
    | dictionary index value sorted =>
      simp only [w.dictionary, w.indexAt, w.orNull]
    | null => rfl

theorem slotOfEach_slice : (cs : List Column) → {ss : List Column} →
    List.Forall₂ (fun d e => d.slice o n = .ok e) cs ss → slotOfEach ss i = slotOfEach cs (o + i)
  | [], _, .nil => rfl
  | c :: cs, _ :: _, .cons first rest => by
    have value := valueAt_slice c first
    rw [slotOfEach, slotOfEach, (isWindow_of_slice first).orNull, value, slotOfEach_slice cs rest]

end

theorem slotAt_slice (h : c.slice o n = .ok s) : s.slotAt i = c.slotAt (o + i) := by
  rw [slotAt, slotAt, (isWindow_of_slice h).orNull, valueAt_slice c h]

/-! ### Heights -/

theorem height_eq (c : Column) :
    c.height = 1 + max (heightOfAll c.children) (heightOfDictionary c.dictionary) := by
  cases c
  rfl

theorem height_child {d : Column} (h : d ∈ c.children) : d.height < c.height := by
  have listed : ∀ cs : List Column, d ∈ cs → d.height ≤ heightOfAll cs := by
    intro cs hd
    induction cs with
    | nil => cases hd
    | cons c cs ih =>
      rw [heightOfAll]
      rcases List.mem_cons.1 hd with rfl | hd
      · omega
      · have := ih hd
        omega
  have := listed c.children h
  rw [height_eq c]
  omega

theorem height_only {d : Column} (hc : c.children = [d]) : d.height < c.height :=
  height_child (hc ▸ List.mem_singleton_self d)

theorem height_entry {d : Column} (h : c.dictionary = some d) : d.height < c.height := by
  rw [height_eq c, h, heightOfDictionary]
  omega

mutual

/-- A slice is as high as its column. -/
theorem height_slice : (c : Column) → {s : Column} → c.slice o n = .ok s → s.height = c.height
  | ⟨type, len, offset, nulls, buffers, children, dictionary⟩, s, h => by
    have w := isWindow_of_slice h
    have below : heightOfAll s.children = heightOfAll children := by
      by_cases rows : type.hasRowChildren = true
      · exact heightOfAll_slice children (w.slices_children rows)
      · rw [w.keeps_children (Bool.eq_false_iff.2 rows)]
    rw [height_eq s, below, w.dictionary]
    rfl

theorem heightOfAll_slice : (cs : List Column) → {ss : List Column} →
    List.Forall₂ (fun d e => d.slice o n = .ok e) cs ss → heightOfAll ss = heightOfAll cs
  | [], _, .nil => rfl
  | c :: cs, _ :: _, .cons first rest => by
    rw [heightOfAll, heightOfAll, height_slice c first, heightOfAll_slice cs rest]

end

end Column

end Columnar
