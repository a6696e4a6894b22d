import Columnar.Column.Assemble
import Columnar.Column.Slice
import Columnar.Proofs.WellFormed

/-!
# Sizes that keep their digits

Checking a column and slicing it compute a few sizes from each node: the end of its slots, and what
a buffer or a child has to hold for them.  `Column.InRange` says that these are words.  Then no
digit is lost, and it does not matter how sums come out: a column is accepted or refused as it is by
unbounded sizes (`Column.validateFull_sizes`), and sliced alike (`Column.slice_sizes`).
-/

namespace Columnar

namespace Column

variable {c : Column} {sizes : Sizes} {o n i : Nat}

/-- The end of the slots is a word. -/
def EndsInRange (c : Column) : Prop := c.offset + c.len < Bytes.wordRange 8

/-- What the buffer at one layout slot must hold, where it is there and of fixed width. -/
def needAt (c : Column) (slot : Nat) : Nat :=
  match c.type.layout.buffers[slot]?, c.buffer? slot with
  | some (.fixedWidth width), some b => c.fixedNeed slot width b
  | _, _ => 0

/-- What the child of a fixed-size list must hold. -/
def rowsNeeded (c : Column) : Nat :=
  match c.type with
  | .fixedList size _ => (c.offset + c.len) * size
  | _ => 0

/-- The sizes that are computed from the node are words. -/
structure InRange (c : Column) : Prop where
  stop : c.EndsInRange
  needs : ∀ slot < c.type.layout.buffers.length, c.needAt slot < Bytes.wordRange 8
  rows : c.rowsNeeded < Bytes.wordRange 8

instance : DecidablePred EndsInRange := fun c =>
  inferInstanceAs (Decidable (c.offset + c.len < Bytes.wordRange 8))

instance : DecidablePred InRange := fun c =>
  decidable_of_iff (c.EndsInRange ∧
    (∀ slot < c.type.layout.buffers.length, c.needAt slot < Bytes.wordRange 8) ∧
    c.rowsNeeded < Bytes.wordRange 8)
    ⟨fun h => ⟨h.1, h.2.1, h.2.2⟩, fun h => ⟨h.stop, h.needs, h.rows⟩⟩

theorem countNulls_sizes {type : DataType} {len offset : Nat} {buffers : List (Option Buffer)}
    (stop : offset + len < Bytes.wordRange 8) :
    countNulls type len offset buffers sizes = countNulls type len offset buffers := by
  unfold countNulls
  simp only [Bytes.countBits_of_lt _ stop]

/-! ### One node -/

namespace InRange

variable (h : c.InRange)
include h

theorem need {slot width : Nat} {b : Buffer}
    (kind : c.type.layout.buffers[slot]? = some (.fixedWidth width))
    (hb : c.buffer? slot = some b) : c.fixedNeed slot width b < Bytes.wordRange 8 := by
  have need := h.needs slot (List.getElem?_eq_some_iff.1 kind).1
  rwa [needAt, kind, hb] at need

theorem rows_lt {size : Nat} {elem : DataType} (ht : c.type = .fixedList size elem) :
    (c.offset + c.len) * size < Bytes.wordRange 8 := by
  have rows := h.rows
  rwa [rowsNeeded, ht] at rows

theorem fixedNeed_sizes {slot width : Nat} {b : Buffer}
    (kind : c.type.layout.buffers[slot]? = some (.fixedWidth width))
    (hb : c.buffer? slot = some b) : c.fixedNeed slot width b sizes = c.fixedNeed slot width b := by
  have need := h.need kind hb
  unfold fixedNeed at need ⊢
  split_ifs at need ⊢
  · rfl
  · exact sizes.fit_of_lt need
  · exact sizes.fit_of_lt need

theorem checkBuffer_sizes {slot : Nat} {kind : BufferKind}
    (hk : c.type.layout.buffers[slot]? = some kind) :
    c.checkBuffer slot kind sizes = c.checkBuffer slot kind := by
  rw [checkBuffer.eq_def, checkBuffer.eq_def]
  cases hb : c.buffer? slot with
  | none => cases kind <;> rfl
  | some b =>
    cases kind with
    | bitmap =>
      simp only
      rw [sizes.fit_of_lt h.stop, Sizes.fit_unbounded]
    | fixedWidth width =>
      simp only
      rw [h.fixedNeed_sizes hk hb]
    | alwaysNull | variableWidth => rfl

theorem checkBuffers_sizes {slot : Nat} {kinds : List BufferKind}
    (listed : ∀ k kind, kinds[k]? = some kind → c.type.layout.buffers[slot + k]? = some kind) :
    c.checkBuffers slot kinds sizes = c.checkBuffers slot kinds := by
  induction kinds generalizing slot with
  | nil => rfl
  | cons kind kinds ih =>
    have rest (k : Nat) (kind' : BufferKind) (hk : kinds[k]? = some kind') :
        c.type.layout.buffers[slot + 1 + k]? = some kind' := by
      rw [Nat.add_right_comm, Nat.add_assoc]
      exact listed (k + 1) kind' hk
    have first : c.checkBuffer slot kind sizes = c.checkBuffer slot kind :=
      h.checkBuffer_sizes (listed 0 kind rfl)
    rw [checkBuffers, checkBuffers, first, ih rest]

theorem checkNulls_sizes : c.checkNulls sizes = c.checkNulls := by
  rw [checkNulls, checkNulls, countNulls_sizes h.stop]

theorem checkChildren_sizes : c.checkChildren sizes = c.checkChildren := by
  rw [checkChildren, checkChildren]
  cases c.children with
  | nil => cases c.type <;> rfl
  | cons child rest =>
    cases ht : c.type with
    | fixedList size elem =>
      simp only
      rw [sizes.fit_of_lt (h.rows_lt ht), Sizes.fit_unbounded]
    | _ => rfl

theorem offsets_sizes (ho : c.type.hasOffsets = true) : c.offsets sizes = c.offsets := by
  rw [offsets, offsets]
  cases hb : c.buffer? 1 with
  | none => rfl
  | some b =>
    by_cases empty : b.size = 0
    · simp only [if_pos empty]
    · have kind : c.type.layout.buffers[1]? = some (.fixedWidth 4) := by
        cases hc : c.type <;> first | rfl | (rw [hc] at ho; cases ho)
      have need := h.need kind hb
      rw [fixedNeed, if_pos ⟨ho, rfl⟩, if_neg fun both => empty both.2,
        Sizes.fit_unbounded] at need
      have next : c.offset + c.len + 1 < Bytes.wordRange 8 := by omega
      simp only [sizes.fit_of_lt next, Sizes.fit_unbounded]

theorem validate_sizes : c.validate sizes = c.validate := by
  have buffers : c.checkBuffers 0 c.type.layout.buffers sizes =
      c.checkBuffers 0 c.type.layout.buffers :=
    h.checkBuffers_sizes fun k kind hk => (Nat.zero_add k).symm ▸ hk
  have offsets : (if c.type.hasOffsets then c.checkOffsets sizes else .ok ()) =
      if c.type.hasOffsets then c.checkOffsets else .ok () := by
    split
    · next ho => rw [checkOffsets, checkOffsets, h.offsets_sizes ho]
    · rfl
  have text : (if c.type = .utf8 then c.checkText sizes else .ok ()) =
      if c.type = .utf8 then c.checkText else .ok () := by
    split
    · next ht => rw [checkText, checkText, h.offsets_sizes (by rw [ht]; rfl)]
    · rfl
  rw [validate, validate]
  simp only [buffers, h.checkNulls_sizes, h.checkChildren_sizes, offsets, text]

end InRange

/-! ### Whole columns -/

mutual

/-- **Nothing depends on how sums come out where no digit is lost.** -/
theorem validateFull_sizes : (c : Column) → c.Everywhere InRange →
    c.validateFull sizes = c.validateFull
  | ⟨type, len, offset, nulls, buffers, children, dictionary⟩, h => by
    rw [validateFull, validateFull, h.here.validate_sizes,
      validateAll_sizes children fun d hd => h.child hd,
      validateDictionary_sizes dictionary fun d hd => h.entry hd]

theorem validateAll_sizes : (cs : List Column) → (∀ c ∈ cs, c.Everywhere InRange) →
    validateAll cs sizes = validateAll cs
  | [], _ => rfl
  | c :: cs, h => by
    obtain ⟨first, rest⟩ := List.forall_mem_cons.1 h
    rw [validateAll, validateAll, validateFull_sizes c first, validateAll_sizes cs rest]

theorem validateDictionary_sizes : (dictionary : Option Column) →
    (∀ d, dictionary = some d → d.Everywhere InRange) →
    validateDictionary dictionary sizes = validateDictionary dictionary
  | none, _ => rfl
  | some d, h => by
    rw [validateDictionary, validateDictionary, validateFull_sizes d (h d rfl)]

end

/-! ### New columns -/

section Make

variable {type : DataType} {len offset : Nat} {nulls? : Option Nat}
  {buffers : List (Option Buffer)} {children columns : List Column} {dictionary : Option Column}
  {fields : List Field} {validity : Option Buffer}

theorem make_sizes
    (range : ∀ nulls, Column.Everywhere InRange
      ⟨type, len, offset, nulls, buffers, children, dictionary⟩) :
    make type len offset nulls? buffers children dictionary sizes =
      make type len offset nulls? buffers children dictionary := by
  have stop : offset + len < Bytes.wordRange 8 := (range 0).here.stop
  have bitmap (bits : Option Buffer) :
      checkValidity len offset bits sizes = checkValidity len offset bits := by
    rw [checkValidity.eq_def, checkValidity.eq_def, sizes.fit_of_lt stop, Sizes.fit_unbounded]
  have parts : ofParts type len offset nulls? buffers children dictionary sizes =
      ofParts type len offset nulls? buffers children dictionary := by
    rw [ofParts.eq_def, ofParts.eq_def, countNulls_sizes stop]
  have checked (nulls : Nat) :
      validateFull ⟨type, len, offset, nulls, buffers, children, dictionary⟩ sizes =
        validateFull ⟨type, len, offset, nulls, buffers, children, dictionary⟩ :=
    validateFull_sizes _ (range nulls)
  rw [make, make, bitmap, parts]
  simp only [ofParts, bind_assoc, pure_bind, checked]

/-- Nor does a struct of columns in range. -/
theorem structOf_sizes (range : ∀ c ∈ columns, c.Everywhere InRange) :
    structOf fields columns validity sizes = structOf fields columns validity := by
  have stop : (columns.head?.map Column.len).getD 0 < Bytes.wordRange 8 := by
    cases columns with
    | nil => exact Nat.pow_pos (by decide)
    | cons c _ => exact Nat.lt_of_le_of_lt (Nat.le_add_left _ _) (range c (by simp)).here.stop
  have made : make (.struct fields) ((columns.head?.map Column.len).getD 0) 0 none [validity]
      columns none sizes = make (.struct fields) ((columns.head?.map Column.len).getD 0) 0 none
        [validity] columns none := by
    refine make_sizes fun nulls => .node ⟨?_, ?_, ?_⟩ range (by simp)
    · rwa [EndsInRange, Nat.zero_add]
    · intro slot inside
      obtain rfl : slot = 0 := Nat.lt_one_iff.1 inside
      exact Nat.pow_pos (by decide)
    · exact Nat.pow_pos (by decide)
  rw [structOf, structOf, DataType.tryStructOf]
  cases Field.duplicate? [] fields with
  | some f => rfl
  | none => exact congrArg _ made

end Make

/-! ### Slices -/

mutual

/-- **Columns whose slots end at a word are sliced alike**, however sums come out. -/
theorem slice_sizes : (c : Column) → c.Everywhere EndsInRange → o + n < Bytes.wordRange 8 →
    c.slice o n sizes = c.slice o n
  | ⟨type, len, offset, nulls, buffers, children, dictionary⟩, h, window => by
    have stop : offset + len < Bytes.wordRange 8 := h.here
    rw [slice, slice, sizes.fit_of_lt window, Sizes.fit_unbounded,
      sliceAll_sizes children (fun d hd => h.child hd) window]
    split
    · next fits =>
      have window' : offset + o + n < Bytes.wordRange 8 := by omega
      have counted : countNulls type n (offset + o) buffers sizes =
          countNulls type n (offset + o) buffers := countNulls_sizes window'
      rw [sizes.fit_of_lt (by omega), Sizes.fit_unbounded]
      simp only [counted]
    · rfl

theorem sliceAll_sizes : (cs : List Column) → (∀ c ∈ cs, c.Everywhere EndsInRange) →
    o + n < Bytes.wordRange 8 → sliceAll o n cs sizes = sliceAll o n cs
  | [], _, _ => rfl
  | c :: cs, h, window => by
    obtain ⟨first, rest⟩ := List.forall_mem_cons.1 h
    rw [sliceAll, sliceAll, slice_sizes c first window, sliceAll_sizes cs rest window]

end

end Column

end Columnar
