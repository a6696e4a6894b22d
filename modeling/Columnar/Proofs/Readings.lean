import Columnar.Column.Equality
import Columnar.Proofs.Outcomes
import Columnar.Proofs.WellFormed
import Columnar.Proofs.Words
import Columnar.View.Basic
import Mathlib.Data.Nat.Init

/-!
# Reading coherent columns

The accessors of a column fail where a buffer is too short.  Where the buffers fit they go through,
and give what the buffers say: each accessor has one lemma here that tells its result in terms of
the readings of `Columnar.Proofs.WellFormed`.

The lemmas ask for no more of the column than the accessor relies on, so that they can be used
while a column is still being checked.
-/

namespace Columnar

/-- The type of the child rows that offsets address: those of a map are its entries. -/
def DataType.rowType? : DataType → Option DataType
  | list elem => some elem
  | map key value _ => some (.entries key value)
  | _ => none

theorem hasOffsets_of_rowType? {t elem : DataType} (h : t.rowType? = some elem) :
    t.hasOffsets = true := by
  cases t <;> first | rfl | cases h

namespace Column

variable {c : Column} {i : Nat}

/-! ### Buffers by type -/

namespace BuffersFit

variable (h : c.BuffersFit)
include h

/-- A validity bitmap covers the slots. -/
theorem validity (ht : c.type ≠ .null) {b : Buffer} (hb : c.buffer? 0 = some b) :
    c.offset + c.len ≤ 8 * b.size := by
  have fits : c.BufferFits 0 .bitmap := by
    apply h 0
    cases hc : c.type <;> first | rfl | exact absurd hc ht
  rcases fits with ⟨-, none⟩ | ⟨b', hb', covers⟩
  · -- the bitmap is there, so this case does not arise
    rw [none] at hb; cases hb
  · rw [hb'] at hb; cases hb; exact covers

theorem bits (ht : c.type = .bool) :
    ∃ b, c.buffer? 1 = some b ∧ c.offset + c.len ≤ 8 * b.size := by
  have fits : c.BufferFits 1 .bitmap := h 1 _ (by rw [ht]; rfl)
  rcases fits with ⟨zero, -⟩ | fits
  · cases zero
  · exact fits

theorem numbers {t : NumType} (ht : c.type = .num t) :
    ∃ b, c.buffer? 1 = some b ∧ (c.offset + c.len) * t.width ≤ b.size := by
  have fits : c.BufferFits 1 (.fixedWidth t.width) := h 1 _ (by rw [ht]; rfl)
  simpa [BufferFits, ht, DataType.hasOffsets] using fits

theorem indices {index : IntType} {value : DataType} {sorted : Bool}
    (ht : c.type = .dictionary index value sorted) :
    ∃ b, c.buffer? 1 = some b ∧ (c.offset + c.len) * index.width ≤ b.size := by
  have fits : c.BufferFits 1 (.fixedWidth index.width) := h 1 _ (by rw [ht]; rfl)
  simpa [BufferFits, ht, DataType.hasOffsets] using fits

theorem offsets (ho : c.type.hasOffsets = true) :
    ∃ b, c.buffer? 1 = some b ∧
      ((c.len = 0 ∧ b.size = 0) ∨ (c.offset + c.len + 1) * 4 ≤ b.size) := by
  have fits : c.BufferFits 1 (.fixedWidth 4) := by
    apply h 1
    cases hc : c.type <;> first | rfl | (rw [hc] at ho; cases ho)
  simpa [BufferFits, ho] using fits

theorem bytes (hk : c.type.layout.buffers[2]? = some .variableWidth) :
    ∃ b, c.buffer? 2 = some b := h 2 _ hk

end BuffersFit

/-! ### Validity -/

theorem buffer?_zero : c.buffer? 0 = c.buffers.head?.join := by
  rw [buffer?, List.head?_eq_getElem?]

theorem nullAt_of_null (ht : c.type = .null) : c.nullAt i = true := by
  simp [nullAt, ht]

theorem nullAt_of_some (ht : c.type ≠ .null) {b : Buffer} (hb : c.buffer? 0 = some b) :
    c.nullAt i = !b.bytes.testBit (c.offset + i) := by
  rw [nullAt, hb]
  cases hc : c.type <;> first | rfl | exact absurd hc ht

theorem nullAt_of_none (ht : c.type ≠ .null) (hb : c.buffer? 0 = none) : c.nullAt i = false := by
  rw [nullAt, hb]
  cases hc : c.type <;> first | rfl | exact absurd hc ht

theorem isNull_of_ne (ht : c.type ≠ .null) (hi : i < c.len) :
    c.isNull i =
      match c.buffer? 0 with
      | some b => do return !(← b.bytes.bit (c.offset + i))
      | none => .ok false := by
  rw [isNull, if_pos hi]
  cases hc : c.type <;> first | exact absurd hc ht | (cases c.buffer? 0 <;> rfl)

theorem isNull_eq (h : c.BuffersFit) (hi : i < c.len) : c.isNull i = .ok (c.nullAt i) := by
  by_cases ht : c.type = .null
  · rw [isNull, if_pos hi, nullAt_of_null ht, ht]
  · rw [isNull_of_ne ht hi]
    cases hb : c.buffer? 0 with
    | none => rw [nullAt_of_none ht hb]
    | some b =>
      have covers : c.offset + i < 8 * b.bytes.size :=
        Nat.lt_of_lt_of_le (by omega) (h.validity ht hb)
      rw [nullAt_of_some ht hb]
      simp only [Bytes.bit_eq covers]
      rfl

theorem countNulls_of_ne {type : DataType} (ht : type ≠ .null) (len offset : Nat)
    (buffers : List (Option Buffer)) :
    countNulls type len offset buffers =
      match buffers.head?.join with
      | some b => do return len - (← b.bytes.countBits offset len)
      | none => .ok 0 := by
  rcases buffers with - | ⟨- | b, bs⟩ <;> cases type <;> first | rfl | exact absurd rfl ht

/-- Counting goes through, and counts the null slots. -/
theorem countNulls_eq (h : c.BuffersFit) :
    countNulls c.type c.len c.offset c.buffers = .ok c.nullSlots := by
  by_cases ht : c.type = .null
  · rw [nullSlots, List.countP_eq_length.2 fun i _ => nullAt_of_null ht, List.length_range, ht]
    rfl
  · rw [countNulls_of_ne ht, ← buffer?_zero]
    cases hb : c.buffer? 0 with
    | none => rw [nullSlots, List.countP_eq_zero.2 fun i _ => by simp [nullAt_of_none ht hb]]
    | some b =>
      have covers : c.offset + c.len ≤ 8 * b.bytes.size := h.validity ht hb
      -- the bitmap is counted for set bits, and what is left over is null
      have clear : c.nullAt = fun i => !b.bytes.testBit (c.offset + i) := by
        funext i
        exact nullAt_of_some ht hb
      rw [nullSlots, clear, ← Bytes.sub_ones]
      simp only [Bytes.countBits_eq b.bytes c.offset c.len (.inr covers)]
      rfl

theorem nullSlots_le : c.nullSlots ≤ c.len := by
  have := List.countP_le_length (p := c.nullAt) (l := List.range c.len)
  rwa [List.length_range] at this

theorem nullAt_of_nulls (hn : c.nulls = c.nullSlots) (none : c.nulls = 0) (hi : i < c.len) :
    c.nullAt i = false := by
  have valid := List.countP_eq_zero.1 (hn.symm.trans none) i (List.mem_range.2 hi)
  exact Bool.eq_false_iff.2 valid

theorem mask_eq {b : Buffer} {offset len : Nat} (covers : offset + len ≤ 8 * b.size) :
    Mask.make b.bytes offset len = .ok ⟨b.bytes, offset, len⟩ :=
  if_pos (bytesFor_le_iff.2 covers)

theorem wordAt_of_some {b : Buffer} (hb : c.buffer? 1 = some b) (width i : Nat) :
    c.wordAt width i = b.bytes.wordAt width (c.offset + i) := by
  rw [wordAt, hb]

theorem toInt_wordAt_lt (t : IntType) : t.toInt (c.wordAt t.width i) < 2 ^ 64 := by
  cases hb : c.buffer? 1 with
  | none =>
    rw [wordAt, hb]
    exact Int.lt_of_le_of_lt (t.toInt_le 0) (by decide)
  | some b => rw [wordAt_of_some hb]; exact t.toInt_wordAt_lt _ _

theorem indexAt_lt (index : IntType) : c.indexAt index i < 2 ^ 64 := toInt_wordAt_lt index

theorem offsetAt_lt : c.offsetAt i < 2 ^ 64 := toInt_wordAt_lt .int32

theorem values_eq {b : Buffer} {width : Nat} (hw : 0 < width) (hb : c.buffer? 1 = some b)
    (covers : (c.offset + c.len) * width ≤ b.size) :
    c.values width = .ok ⟨b.bytes, width, c.offset, c.len⟩ := by
  rw [values, hb]
  exact Bytes.wordWindow_eq hw covers

theorem wordOf_eq {b : Buffer} {t : NumType} (hb : c.buffer? 1 = some b)
    (covers : (c.offset + c.len) * t.width ≤ b.size) (hi : i < c.len) :
    c.wordOf t i = .ok (c.wordAt t.width i) := by
  rw [wordOf, checkSlot, if_pos hi, ok_bind, values_eq t.width_pos hb covers, ok_bind,
    WordRun.get_eq hi, wordAt_of_some hb]

theorem valueBit_eq {b : Buffer} (hb : c.buffer? 1 = some b)
    (covers : c.offset + c.len ≤ 8 * b.size) (hi : i < c.len) :
    c.valueBit i = .ok (c.bitAt i) := by
  rw [valueBit, bitAt, hb]
  exact Bytes.bit_eq (Nat.lt_of_lt_of_le (by omega) covers)

/-! ### Offsets -/

/-- What `Column.offsets` gives: one entry more than there are slots, or none where there are no
slots; in either case the offsets of the slots. -/
structure IsOffsets (c : Column) (run : WordRun) : Prop where
  count : run.count = c.len + 1 ∨ (run.count = 0 ∧ c.len = 0 ∧ ∀ i, c.offsetAt i = 0)
  get : ∀ i, i < run.count → ∃ w, run.get i = .ok w ∧ offsetValue w = c.offsetAt i

theorem offsets_eq (h : c.BuffersFit) (ho : c.type.hasOffsets = true) :
    ∃ run, c.offsets = .ok run ∧ c.IsOffsets run := by
  obtain ⟨b, hb, none | covers⟩ := h.offsets ho
  · -- an empty buffer, which reads as zeros
    refine ⟨.empty 4, by rw [offsets, hb]; exact if_pos none.2, .inr ⟨rfl, none.1, fun i => ?_⟩,
      fun i hi => absurd hi (Nat.not_lt_zero i)⟩
    rw [offsetAt, wordAt_of_some hb, Bytes.wordAt_of_size_eq_zero none.2]
    rfl
  · -- the offsets of the window, and the one behind the last slot
    refine ⟨⟨b.bytes, 4, c.offset, c.len + 1⟩, ?_, .inl rfl, ?_⟩
    · rw [offsets, hb]
      simp only
      rw [if_neg (by omega), Nat.add_assoc]
      exact Bytes.wordWindow_eq (by decide) covers
    · intro i hi
      exact ⟨_, WordRun.get_eq hi, by rw [offsetAt, wordAt_of_some hb]⟩

theorem offsetAt_mono (ordered : ∀ i, i < c.len → c.offsetAt i ≤ c.offsetAt (i + 1)) {j : Nat}
    (hij : i ≤ j) (hj : j ≤ c.len) : c.offsetAt i ≤ c.offsetAt j := by
  induction j, hij using Nat.le_induction with
  | base => exact Int.le_refl _
  | succ j _ ih => exact Int.le_trans (ih (by omega)) (ordered j (by omega))

namespace OffsetsFit

variable (h : c.OffsetsFit)
include h

theorem mono {j : Nat} (hij : i ≤ j) (hj : j ≤ c.len) : c.offsetAt i ≤ c.offsetAt j :=
  offsetAt_mono h.ordered hij hj

theorem nonneg (hi : i ≤ c.len) : 0 ≤ c.offsetAt i :=
  Int.le_trans h.start (h.mono (Nat.zero_le i) hi)

theorem le_bound (hi : i ≤ c.len) : c.offsetAt i ≤ c.offsetBound :=
  Int.le_trans (h.mono hi (Nat.le_refl _)) h.stop

theorem unsigned (hi : i ≤ c.len) : unsigned64 (c.offsetAt i) = c.firstRow i :=
  unsigned64_of_nonneg (h.nonneg hi) offsetAt_lt

theorem firstRow_mono {j : Nat} (hij : i ≤ j) (hj : j ≤ c.len) : c.firstRow i ≤ c.firstRow j :=
  Int.toNat_le_toNat (h.mono hij hj)

theorem firstRow_le (hi : i ≤ c.len) : c.firstRow i ≤ c.offsetBound :=
  Int.toNat_le.2 (h.le_bound hi)

/-- The rows of slot `i` are among the values. -/
theorem rows_le (hi : i < c.len) : c.firstRow i + c.rowCount i ≤ c.offsetBound := by
  have order : c.firstRow i ≤ c.firstRow (i + 1) := h.firstRow_mono (by omega) hi
  have inside : c.firstRow (i + 1) ≤ c.offsetBound := h.firstRow_le hi
  rw [rowCount]
  omega

/-- The difference of the offsets of slot `i` is not negative. -/
theorem length_eq (hi : i < c.len) : c.offsetAt (i + 1) - c.offsetAt i = c.rowCount i := by
  have start : 0 ≤ c.offsetAt i := h.nonneg (by omega)
  have order := h.ordered i hi
  rw [rowCount, firstRow, firstRow]
  omega

/-- So it is the same number without its sign. -/
theorem unsigned_length (hi : i < c.len) :
    unsigned64 (c.offsetAt (i + 1) - c.offsetAt i) = c.rowCount i := by
  have length := h.length_eq hi
  have start : 0 ≤ c.offsetAt i := h.nonneg (by omega)
  have below : c.offsetAt (i + 1) < 2 ^ 64 := offsetAt_lt
  rw [unsigned64_of_nonneg (by omega) (by omega), length]
  rfl

theorem window_eq {b : Buffer} (hb : c.buffer? 2 = some b) (bound : c.offsetBound = b.size)
    (hi : i < c.len) :
    b.bytes.window (unsigned64 (c.offsetAt i)) (unsigned64 (c.offsetAt (i + 1))) =
      .ok (c.bytesAt i) := by
  have start : unsigned64 (c.offsetAt i) = c.firstRow i := h.unsigned (by omega)
  have stop : unsigned64 (c.offsetAt (i + 1)) = c.firstRow (i + 1) := h.unsigned hi
  have inside : c.firstRow (i + 1) ≤ b.size := bound ▸ h.firstRow_le hi
  rw [start, stop, Bytes.window_eq (h.firstRow_mono (by omega) hi) inside, bytesAt, hb]

end OffsetsFit

theorem offsetBound_of_bytes {b : Buffer} (ht : c.type = .utf8 ∨ c.type = .binary)
    (hb : c.buffer? 2 = some b) : c.offsetBound = b.size := by
  rcases ht with ht | ht <;> rw [offsetBound, ht] <;> simp [hb]

theorem offsetPair_eq (h : c.BuffersFit) (ho : c.type.hasOffsets = true) (hi : i < c.len) :
    c.offsetPair i = .ok (c.offsetAt i, c.offsetAt (i + 1)) := by
  obtain ⟨run, hrun, count | ⟨-, none, -⟩, get⟩ := offsets_eq h ho
  · obtain ⟨w, hw, start⟩ := get i (by omega)
    obtain ⟨w', hw', stop⟩ := get (i + 1) (by omega)
    rw [offsetPair, hrun, ok_bind, hw, ok_bind, hw', ok_bind, start, stop]
    rfl
  · omega

/-- An index that is not negative is the position that it names. -/
theorem BuffersFit.keyAt_eq (h : c.BuffersFit) {index : IntType} {value : DataType} {sorted : Bool}
    (ht : c.type = .dictionary index value sorted) (hi : i < c.len)
    (nonneg : 0 ≤ c.indexAt index i) :
    c.keyAt (c.offset + i) = .ok (c.indexAt index i).toNat := by
  obtain ⟨b, hb, covers⟩ := h.indices ht
  -- the key is looked up among all words of the buffer, not only those of the window
  have inside : c.offset + i < b.bytes.size / index.width :=
    Nat.lt_of_lt_of_le (by omega) ((Nat.le_div_iff_mul_le index.width_pos).2 covers)
  have get : (b.bytes.words index.width).get (c.offset + i) = .ok (c.wordAt index.width i) := by
    rw [WordRun.get_eq (by simpa [Bytes.words, Bytes.wordCount] using inside),
      wordAt_of_some hb]
    simp [Bytes.words]
  rw [keyAt, hb, ht]
  simp only
  rw [get, ok_bind, ← indexAt, unsigned64_of_nonneg nonneg (indexAt_lt index)]
  rfl

namespace Coherent

variable (h : c.Coherent)
include h

/-! ### Spans of slots -/

theorem span_eq (ho : c.type.hasOffsets = true) (hi : i < c.len) :
    c.span i = .ok (c.firstRow i, c.firstRow (i + 1)) := by
  have fits := h.offsets ho
  rw [span, offsetPair_eq h.buffers ho hi, ok_bind]
  simp only
  rw [fits.unsigned (by omega), fits.unsigned hi]
  rfl

theorem rowsOf_eq (ho : c.type.hasOffsets = true) (hi : i < c.len) :
    c.rowsOf i = .ok (c.firstRow i, c.rowCount i) := by
  have fits := h.offsets ho
  rw [rowsOf, checkSlot, if_pos hi, ok_bind, offsetPair_eq h.buffers ho hi, ok_bind]
  simp only
  rw [fits.unsigned (by omega), fits.unsigned_length hi]
  rfl

/-! ### Bytes of slots -/

theorem slotBytes_eq (ht : c.type = .utf8 ∨ c.type = .binary) (hi : i < c.len) :
    c.slotBytes i = .ok (c.bytesAt i) := by
  have ho : c.type.hasOffsets = true := by rcases ht with ht | ht <;> rw [ht] <;> rfl
  have fits := h.offsets ho
  obtain ⟨b, hb⟩ := h.buffers.bytes (by rcases ht with ht | ht <;> rw [ht] <;> rfl)
  have window := fits.window_eq hb (offsetBound_of_bytes ht hb) hi
  rw [fits.unsigned (by omega), fits.unsigned hi] at window
  rw [slotBytes, h.span_eq ho hi, ok_bind, hb]
  exact window

theorem bytesOf_eq (ht : c.type = .utf8 ∨ c.type = .binary) (hi : i < c.len) :
    c.bytesOf i = .ok (c.bytesAt i) := by
  have ho : c.type.hasOffsets = true := by rcases ht with ht | ht <;> rw [ht] <;> rfl
  obtain ⟨b, hb⟩ := h.buffers.bytes (by rcases ht with ht | ht <;> rw [ht] <;> rfl)
  have window := (h.offsets ho).window_eq hb (offsetBound_of_bytes ht hb) hi
  obtain ⟨run, hrun, count | ⟨-, none, -⟩, get⟩ := offsets_eq h.buffers ho
  · obtain ⟨w, hw, start⟩ := get i (by omega)
    obtain ⟨w', hw', stop⟩ := get (i + 1) (by omega)
    rw [bytesOf, checkSlot, if_pos hi, ok_bind, hrun, ok_bind, hb]
    simp only
    rw [hw, ok_bind, hw', ok_bind, start, stop, window]
  · omega

/-! ### Children and entries -/

/-- Lists and maps have one child, in which the rows of every slot lie. -/
theorem listChild {elem : DataType} (ht : c.type.rowType? = some elem) :
    ∃ d, c.children = [d] ∧ d.type = elem ∧
      ∀ i, i < c.len → c.firstRow i + c.rowCount i ≤ d.len := by
  have ho := hasOffsets_of_rowType? ht
  obtain ⟨d, hc, typed⟩ : ∃ d, c.children = [d] ∧ d.type = elem := by
    have fit := h.children
    cases hk : c.type <;> rw [hk] at ht <;> cases ht <;> simp only [ChildrenFit, hk] at fit
    · exact fit
    · obtain ⟨d, hc, typed, -⟩ := fit
      exact ⟨d, hc, typed⟩
  have bound : c.offsetBound = d.len := by
    cases hk : c.type <;> rw [hk] at ht <;> cases ht <;> rw [offsetBound, hk, hc] <;> rfl
  exact ⟨d, hc, typed, fun i hi => bound ▸ (h.offsets ho).rows_le hi⟩

theorem mapChild {key value : DataType} {sorted : Bool} {d : Column}
    (ht : c.type = .map key value sorted) (hc : c.children = [d]) :
    d.type = .entries key value := by
  obtain ⟨d', hc', typed, -⟩ := h.listChild (by rw [ht]; rfl)
  exact List.singleton_inj.1 (hc.symm.trans hc') ▸ typed

/-- Fixed-size lists have one child, in which the rows of every slot lie. -/
theorem fixedChild {size : Nat} {elem : DataType} (ht : c.type = .fixedList size elem) :
    ∃ d, c.children = [d] ∧ d.type = elem ∧
      ∀ i, i < c.len → (c.offset + i) * size + size ≤ d.len := by
  have fit := h.children
  simp only [ChildrenFit, ht] at fit
  obtain ⟨d, hc, typed, room⟩ := fit
  refine ⟨d, hc, typed, fun i hi => Nat.le_trans ?_ room⟩
  -- the last row of slot `i` is before the first one of slot `i + 1`
  rw [← Nat.succ_mul]
  exact Nat.mul_le_mul_right size (by omega)

/-- A slot of a dictionary column that is not null names an entry. -/
theorem keyAt_eq {index : IntType} {value : DataType} {sorted : Bool} {d : Column}
    (ht : c.type = .dictionary index value sorted) (hd : c.dictionary = some d) (hi : i < c.len)
    (valid : c.nullAt i = false) :
    c.keyAt (c.offset + i) = .ok (c.indexAt index i).toNat ∧ (c.indexAt index i).toNat < d.len := by
  have fit := h.dictionary
  simp only [DictionaryFits, ht] at fit
  obtain ⟨-, d', hd', -, below⟩ := fit
  rw [hd] at hd'
  cases hd'
  obtain ⟨nonneg, lt⟩ := below i hi valid
  exact ⟨h.buffers.keyAt_eq ht hi nonneg, by omega⟩

end Coherent

end Column

end Columnar
