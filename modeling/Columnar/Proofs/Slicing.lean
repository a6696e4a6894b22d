import Columnar.Column.Slice
import Columnar.Proofs.Validation
import Mathlib.Data.List.Forall2

/-!
# Slices are windows

A slice keeps the buffers and moves the offset, so that slot `i` of the slice is read where slot
`o + i` of the column is.  `Column.IsWindow` says what a slice has in common with the column that it
was taken from; the readings of `Columnar.Proofs.WellFormed` move along with it.

The children of a struct are sliced with it, all others are addressed through the new offset.  With
either convention a slice of an accepted column is there and is accepted
(`Column.slice_accepted`).
-/

namespace Columnar

namespace Column

variable {c s : Column} {o n : Nat}

/-! ### What a slice has in common with its column -/

/-- `s` is the window of `n` slots of `c` from slot `o` on. -/
structure IsWindow (c : Column) (o n : Nat) (s : Column) : Prop where
  fits : o + n ≤ c.len
  type : s.type = c.type
  len : s.len = n
  offset : s.offset = c.offset + o
  nulls : countNulls c.type n (c.offset + o) c.buffers = .ok s.nulls
  buffers : s.buffers = c.buffers
  children : if c.type.hasRowChildren then
      List.Forall₂ (fun d e => d.slice o n = .ok e) c.children s.children
    else s.children = c.children
  dictionary : s.dictionary = c.dictionary

theorem slice_eq (c : Column) (o n : Nat) :
    c.slice o n =
      if o + n ≤ c.len then do
        let below ← (if c.type.hasRowChildren then sliceAll o n c.children else .ok c.children)
        let nulls ← countNulls c.type n (c.offset + o) c.buffers
        return ⟨c.type, n, c.offset + o, nulls, c.buffers, below, c.dictionary⟩
      else (Misuse.slice o (o + n) c.len).stop := by
  cases c
  rw [slice]
  rfl

theorem sliceAll_eq_ok {cs ss : List Column} (h : sliceAll o n cs = .ok ss) :
    List.Forall₂ (fun d e => d.slice o n = .ok e) cs ss := by
  induction cs generalizing ss with
  | nil =>
    cases h
    exact .nil
  | cons d ds ih =>
    rw [sliceAll, bind_eq_ok] at h
    obtain ⟨e, first, h⟩ := h
    rw [bind_eq_ok] at h
    obtain ⟨es, rest, h⟩ := h
    cases h
    exact .cons first (ih rest)

/-- What a slice that was taken is. -/
theorem isWindow_of_slice (h : c.slice o n = .ok s) : c.IsWindow o n s := by
  rw [slice_eq] at h
  split_ifs at h with fits rows
  · rw [bind_eq_ok] at h
    obtain ⟨below, sliced, h⟩ := h
    rw [bind_eq_ok] at h
    obtain ⟨nulls, counted, h⟩ := h
    cases h
    exact ⟨fits, rfl, rfl, rfl, counted, rfl, by rw [if_pos rows]; exact sliceAll_eq_ok sliced, rfl⟩
  · rw [ok_bind, bind_eq_ok] at h
    obtain ⟨nulls, counted, h⟩ := h
    cases h
    exact ⟨fits, rfl, rfl, rfl, counted, rfl, by rw [if_neg rows], rfl⟩
  · cases h

/-- The buffers also fit a narrower window. -/
theorem BuffersFit.narrow (h : c.BuffersFit) (fits : o + n ≤ c.len) :
    BuffersFit { c with len := n, offset := c.offset + o } := by
  intro slot kind hk
  have fit := h slot kind hk
  cases kind with
  | alwaysNull => exact trivial
  | bitmap =>
    rcases fit with absent | ⟨b, hb, covers⟩
    · exact .inl absent
    · exact .inr ⟨b, hb, Nat.le_trans (by simp only; omega) covers⟩
  | fixedWidth width =>
    obtain ⟨b, hb, covers⟩ := fit
    refine ⟨b, hb, ?_⟩
    simp only
    split_ifs at covers ⊢
    · rcases covers with none | covers
      · -- no slots, so the window has none either
        exact .inl ⟨by omega, none.2⟩
      · exact .inr (Nat.le_trans (Nat.mul_le_mul_right width (by omega)) covers)
    · exact Nat.le_trans (Nat.mul_le_mul_right width (by omega)) covers
  | variableWidth => exact fit

/-- Slices of several columns have the types of the columns, and all the same length. -/
theorem slices_shape {ds es : List Column}
    (h : List.Forall₂ (fun d e => d.slice o n = .ok e) ds es) :
    es.map Column.type = ds.map Column.type ∧ ∀ e ∈ es, e.len = n := by
  induction h with
  | nil => exact ⟨rfl, by simp⟩
  | cons first _ ih =>
    have w := isWindow_of_slice first
    exact ⟨by rw [List.map_cons, List.map_cons, w.type, ih.1], by simpa [w.len] using ih.2⟩

namespace IsWindow

variable (w : c.IsWindow o n s) {i : Nat}
include w

/-! ### Readings move along -/

theorem buffer? (k : Nat) : s.buffer? k = c.buffer? k := by
  rw [Column.buffer?, Column.buffer?, w.buffers]

theorem nullAt : s.nullAt i = c.nullAt (o + i) := by
  rw [Column.nullAt, Column.nullAt, w.buffer?, w.type, w.offset, Nat.add_assoc]

theorem bitAt : s.bitAt i = c.bitAt (o + i) := by
  rw [Column.bitAt, Column.bitAt, w.buffer?, w.offset, Nat.add_assoc]

theorem wordAt (width : Nat) : s.wordAt width i = c.wordAt width (o + i) := by
  rw [Column.wordAt, Column.wordAt, w.buffer?, w.offset, Nat.add_assoc]

theorem offsetAt : s.offsetAt i = c.offsetAt (o + i) := by
  rw [Column.offsetAt, Column.offsetAt, w.wordAt]

theorem firstRow : s.firstRow i = c.firstRow (o + i) := by
  rw [Column.firstRow, Column.firstRow, w.offsetAt]

theorem rowCount : s.rowCount i = c.rowCount (o + i) := by
  rw [Column.rowCount, Column.rowCount, w.firstRow, w.firstRow, Nat.add_assoc]

theorem indexAt (index : IntType) : s.indexAt index i = c.indexAt index (o + i) := by
  rw [Column.indexAt, Column.indexAt, w.wordAt]

theorem bytesAt : s.bytesAt i = c.bytesAt (o + i) := by
  rw [Column.bytesAt, Column.bytesAt, w.buffer?, w.firstRow, w.firstRow, Nat.add_assoc]

/-- The null slots of a slice are those of the window. -/
theorem nullSlots : s.nullSlots = (List.range n).countP fun i => c.nullAt (o + i) := by
  have shifted : s.nullAt = fun i => c.nullAt (o + i) := by
    funext i
    exact w.nullAt
  rw [Column.nullSlots, w.len, shifted]

theorem keeps_children (h : c.type.hasRowChildren = false) : s.children = c.children := by
  simpa [h] using w.children

theorem slices_children (h : c.type.hasRowChildren = true) :
    List.Forall₂ (fun d e => d.slice o n = .ok e) c.children s.children := by
  simpa [h] using w.children

/-! ### The parts of a slice fit -/

theorem buffersFit (h : c.BuffersFit) : s.BuffersFit := by
  have narrow := h.narrow w.fits
  -- what fits a column does not depend on its children
  obtain ⟨type, len, offset, nulls, buffers, children, dictionary⟩ := s
  obtain ⟨-, rfl, rfl, rfl, -, rfl, -, -⟩ := w
  exact narrow

theorem nulls_eq (h : c.BuffersFit) : s.nulls = s.nullSlots := by
  -- the count was made anew over the window
  have counted := countNulls_eq (w.buffersFit h)
  rw [w.type, w.len, w.offset, w.buffers, w.nulls] at counted
  exact Except.ok.inj counted

theorem childrenFit (h : c.ChildrenFit) : s.ChildrenFit := by
  have fits := w.fits
  cases ht : c.type with
  | fixedList size elem =>
    simp only [ChildrenFit, ht] at h
    simp only [ChildrenFit, w.type, ht, w.keeps_children (by rw [ht]; rfl), w.offset, w.len]
    obtain ⟨child, hc, typed, room⟩ := h
    exact ⟨child, hc, typed, Nat.le_trans (Nat.mul_le_mul_right size (by omega)) room⟩
  | struct fields =>
    have sliced := w.slices_children (by rw [ht]; rfl)
    simp only [ChildrenFit, ht] at h
    obtain ⟨types, lengths⟩ := slices_shape sliced
    simp only [ChildrenFit, w.type, ht, w.len]
    exact ⟨types.trans h.1, lengths⟩
  | _ =>
    simp only [ChildrenFit, ht] at h
    simp only [ChildrenFit, w.type, ht, w.keeps_children (by rw [ht]; rfl)]
    exact h

theorem offsetsFit (ho : c.type.hasOffsets = true) (h : c.OffsetsFit) : s.OffsetsFit := by
  have fits := w.fits
  have kept : s.children = c.children :=
    w.keeps_children (by cases ht : c.type <;> first | rfl | (rw [ht] at ho; cases ho))
  -- the values behind the offsets are kept whole
  have bound : s.offsetBound = c.offsetBound := by
    rw [offsetBound, offsetBound, w.type, w.buffer?, kept]
  refine ⟨?_, ?_, ?_⟩
  · rw [w.offsetAt]
    exact h.nonneg (by omega)
  · intro i hi
    rw [w.len] at hi
    rw [w.offsetAt, w.offsetAt]
    exact h.ordered (o + i) (by omega)
  · rw [w.offsetAt, bound, w.len]
    exact h.le_bound fits

theorem indicesBelow {index : IntType} {bound : Int} (h : c.IndicesBelow index bound) :
    s.IndicesBelow index bound := by
  intro i hi valid
  have fits := w.fits
  rw [w.len] at hi
  rw [w.nullAt] at valid
  rw [w.indexAt]
  exact h (o + i) (by omega) valid

theorem dictionaryFits (h : c.DictionaryFits) : s.DictionaryFits := by
  cases ht : c.type with
  | dictionary index value sorted =>
    simp only [DictionaryFits, ht] at h
    simp only [DictionaryFits, w.type, ht, w.dictionary]
    obtain ⟨signed, d, hd, typed, below⟩ := h
    exact ⟨signed, d, hd, typed, w.indicesBelow below⟩
  | _ =>
    simp only [DictionaryFits, ht] at h
    simp only [DictionaryFits, w.type, ht, w.dictionary]
    exact h

/-- A slice of an accepted node is accepted. -/
theorem accepted (h : c.Accepted) : s.Accepted where
  bufferCount := by rw [w.buffers, w.type]; exact h.bufferCount
  buffers := w.buffersFit h.buffers
  nulls := w.nulls_eq h.buffers
  children := w.childrenFit h.children
  offsets ho := w.offsetsFit (w.type ▸ ho) (h.offsets (w.type ▸ ho))
  text ht i hi := by
    have fits := w.fits
    rw [w.len] at hi
    rw [w.bytesAt]
    exact h.text (w.type ▸ ht) (o + i) (by omega)
  dictionary := w.dictionaryFits h.dictionary
  indices index value sorted d ht hd :=
    w.indicesBelow (h.indices index value sorted d (w.type ▸ ht) (w.dictionary ▸ hd))

end IsWindow

/-! ### Slices of accepted columns -/

theorem Coherent.columns_len (h : c.Coherent) (rows : c.type.hasRowChildren = true) {d : Column}
    (hd : d ∈ c.children) : d.len = c.len := by
  have fit := h.children
  cases ht : c.type with
  | struct fields =>
    simp only [ChildrenFit, ht] at fit
    exact fit.2 d hd
  | _ =>
    rw [ht] at rows
    cases rows

mutual

/-- **A window of an accepted column can be sliced, and the slice is accepted.** -/
theorem slice_accepted : (c : Column) → c.Everywhere Accepted → o + n ≤ c.len →
    ∃ s, c.slice o n = .ok s ∧ s.Everywhere Accepted
  | ⟨type, len, offset, nulls, buffers, children, dictionary⟩, h, fits => by
    obtain ⟨below, sliced, valid⟩ : ∃ below,
        (if type.hasRowChildren then sliceAll o n children else .ok children) = .ok below ∧
          ∀ d ∈ below, d.Everywhere Accepted := by
      split_ifs with rows
      · -- the columns of a struct are as long as the struct
        refine sliceAll_accepted children (fun d hd => h.child hd) ?_
        intro d hd
        rw [h.here.columns_len rows hd]
        exact fits
      · exact ⟨children, rfl, fun d hd => h.child hd⟩
    obtain ⟨count, counted⟩ : ∃ count, countNulls type n (offset + o) buffers = .ok count :=
      ⟨_, countNulls_eq (h.here.buffers.narrow fits)⟩
    have taken : slice o n ⟨type, len, offset, nulls, buffers, children, dictionary⟩ =
        .ok ⟨type, n, offset + o, count, buffers, below, dictionary⟩ := by
      simp only [slice_eq, if_pos fits, sliced, ok_bind, counted]
      rfl
    exact ⟨_, taken, .node ((isWindow_of_slice taken).accepted h.here) valid
      fun d hd => h.entry hd⟩

theorem sliceAll_accepted : (cs : List Column) → (∀ c ∈ cs, c.Everywhere Accepted) →
    (∀ c ∈ cs, o + n ≤ c.len) →
    ∃ ss, sliceAll o n cs = .ok ss ∧ ∀ s ∈ ss, s.Everywhere Accepted
  | [], _, _ => ⟨[], rfl, by simp⟩
  | c :: cs, h, fits => by
    obtain ⟨s, hs, valid⟩ := slice_accepted c (h c (by simp)) (fits c (by simp))
    obtain ⟨ss, hss, rest⟩ := sliceAll_accepted cs (fun d hd => h d (by simp [hd]))
      fun d hd => fits d (by simp [hd])
    exact ⟨s :: ss, by rw [sliceAll, hs, ok_bind, hss]; rfl, by simpa [valid] using rest⟩

end

end Column

end Columnar
