import Columnar.Proofs.Building.Runs
import Columnar.Proofs.Validation

/-!
# Builders of scalars, as lists of values

What a builder of truth values, numbers or bytes holds is told by two lists: the validities of its
slots, and what is stored for each slot, null or not.  Every operation has one lemma that tells the
lists afterwards.  A finished builder gives a column that is accepted
(`BoolBuilder.Holds.accepted_finish` and so on), whose slots read as the lists say.
-/

namespace Columnar

/-! ### Truth values -/

namespace BoolBuilder

variable {b : BoolBuilder} {valid bits : List Bool}

/-- The slots have these validities and these value bits. -/
structure Holds (b : BoolBuilder) (valid bits : List Bool) : Prop where
  slots : b.slots.Holds valid
  count : bits.length = valid.length
  fits : b.values.Fits
  len : b.values.len = bytesFor bits.length
  bit : ∀ i, i < bits.length → b.values.bytes.testBit i = bits.getD i false

theorem holds_empty (tracked : Bool) : (empty tracked).Holds [] [] where
  slots := Slots.holds_empty tracked
  count := rfl
  fits := GrowBuffer.fits_empty tracked
  len := rfl
  bit := nofun

namespace Holds

variable (h : b.Holds valid bits)
include h

theorem resize (c : Nat) :
    (b.resize c).Holds (valid.take (max c minCapacity)) (bits.take (max c minCapacity)) := by
  have slots := h.slots.resize (max c minCapacity)
  have count : (bits.take (max c minCapacity)).length =
      (valid.take (max c minCapacity)).length := by
    rw [List.length_take, List.length_take, h.count]
  have fits := GrowBuffer.fits_truncate h.fits
    (bytesFor (b.slots.resize (max c minCapacity)).length)
  have shorter : (bits.take (max c minCapacity)).length ≤ bits.length := by
    rw [List.length_take]
    exact Nat.min_le_right _ _
  exact
    { slots := slots
      count := count
      fits := GrowBuffer.fits_reallocate fits _
      len := by
        rw [BoolBuilder.resize]
        simp only [GrowBuffer.len_reallocate, GrowBuffer.len_truncate]
        rw [slots.length, ← count, h.len]
        unfold bytesFor
        omega
      bit := by
        intro i hi
        have below : i < max c minCapacity := by rw [List.length_take] at hi; omega
        rw [BoolBuilder.resize]
        simp only
        rw [GrowBuffer.bytes_reallocate fits, GrowBuffer.bytes_truncate h.fits,
          Bytes.testBit_extract _ (by rw [slots.length, ← count]; unfold bytesFor; omega),
          h.bit i (by omega), List.getD_eq_getElem?_getD, List.getD_eq_getElem?_getD,
          List.getElem?_take_of_lt below] }

theorem reserve (n : Nat) : (b.reserve n).Holds valid bits := by
  have length := h.slots.length
  rw [BoolBuilder.reserve]
  cases grows : b.slots.growTarget? n with
  | none => exact h
  | some c =>
    have room := Slots.le_of_growTarget? grows
    have kept := h.resize c
    rwa [List.take_of_length_le (by omega), List.take_of_length_le (by rw [h.count]; omega)]
      at kept

theorem room_reserve (n : Nat) : valid.length + n ≤ (b.reserve n).slots.capacity := by
  rw [← h.slots.length, BoolBuilder.reserve]
  cases grows : b.slots.growTarget? n with
  | none => exact Slots.room_of_growTarget? grows
  | some c =>
    simp only [BoolBuilder.resize, Slots.capacity_resize]
    exact Nat.le_trans (Slots.le_of_growTarget? grows) (Nat.le_max_left _ _)

theorem append (x v : Bool) : (b.append x v).Holds (valid ++ [v]) (bits ++ [x]) := by
  have kept := h.reserve 1
  have room := h.room_reserve 1
  have length : (b.reserve 1).slots.length = bits.length := kept.slots.length.trans h.count.symm
  have fits := GrowBuffer.fits_resize kept.fits (bytesFor (bits.length + 1)) 0
  exact
    { slots := kept.slots.append v (by rw [kept.slots.length]; exact room)
      count := by rw [List.length_append, List.length_append, h.count]; rfl
      fits := by
        rw [BoolBuilder.append]
        simp only [length]
        exact GrowBuffer.fits_putBit fits _ _
      len := by
        rw [BoolBuilder.append]
        simp only [length, GrowBuffer.len_putBit, GrowBuffer.len_resize, List.length_append,
          List.length_singleton]
      bit := by
        intro i hi
        rw [List.length_append, List.length_singleton] at hi
        rw [BoolBuilder.append]
        simp only [length]
        rw [GrowBuffer.testBit_bytes_putBit fits
          (by rw [GrowBuffer.len_resize]; unfold bytesFor; omega)]
        split_ifs with last
        · rw [last, List.getD_append_right _ _ _ _ (Nat.le_refl _), Nat.sub_self]
          rfl
        · have old : i < bits.length := by omega
          rw [GrowBuffer.bytes_resize kept.fits, Bytes.testBit_append_zeros,
            Bytes.testBit_extract _ (by unfold bytesFor; omega), kept.bit i old,
            List.getD_append _ _ _ _ old] }

theorem appendNulls (n : Nat) :
    (n.repeat appendNull b).Holds (valid ++ List.replicate n false)
      (bits ++ List.replicate n false) := by
  induction n with
  | zero =>
    rw [List.replicate_zero, List.append_nil, List.append_nil]
    exact h
  | succ n ih =>
    rw [List.replicate_succ', ← List.append_assoc, ← List.append_assoc]
    exact ih.append false false

/-- The finished column is accepted. -/
theorem accepted_finish : b.finish.1.Everywhere Column.Accepted := by
  have length := h.slots.length
  have typed : b.finish.1.type ≠ .null := nofun
  have bitmap : b.finish.1.BufferFits 0 .bitmap :=
    h.slots.bufferFits_of_finish rfl length rfl
  have bits : b.finish.1.BufferFits 1 .bitmap := by
    refine .inr ⟨_, rfl, ?_⟩
    show 0 + b.slots.length ≤ 8 * b.values.bytes.size
    rw [GrowBuffer.size_bytes h.fits, h.len, h.count, length]
    unfold bytesFor
    omega
  refine .node ?_ nofun nofun
  exact
    { bufferCount := rfl
      buffers := by
        rintro (_ | _ | _) kind ⟨⟩
        · exact bitmap
        · exact bits
      nulls := by
        rw [h.slots.nullSlots_of_finish typed rfl length rfl]
        exact h.slots.nulls
      children := rfl
      offsets := nofun
      text := nofun
      dictionary := rfl
      indices := nofun }

theorem nullAt_finish {i : Nat} (hi : i < valid.length) :
    b.finish.1.nullAt i = !valid.getD i false := by
  have length := h.slots.length
  have typed : b.finish.1.type ≠ .null := nofun
  exact h.slots.nullAt_of_finish typed rfl length rfl (Nat.lt_of_lt_of_eq hi length.symm)

theorem bitAt_finish {i : Nat} (hi : i < bits.length) :
    b.finish.1.bitAt i = bits.getD i false := by
  show b.values.bytes.testBit (0 + i) = _
  rw [Nat.zero_add, h.bit i hi]

end Holds

theorem holds_finish (b : BoolBuilder) : b.finish.2.Holds [] [] where
  slots := b.slots.holds_finish
  count := rfl
  fits := GrowBuffer.fits_empty _
  len := rfl
  bit := nofun

end BoolBuilder

/-! ### Numbers -/

namespace NumBuilder

variable {b : NumBuilder} {valid : List Bool} {words : List Nat}

/-- The slots have these validities and these words. -/
structure Holds (b : NumBuilder) (valid : List Bool) (words : List Nat) : Prop where
  slots : b.slots.Holds valid
  count : words.length = valid.length
  fits : b.values.Fits
  bytes : b.values.bytes = wordBytes b.type.width words

theorem holds_empty (type : NumType) (tracked : Bool) : (empty type tracked).Holds [] [] where
  slots := Slots.holds_empty tracked
  count := rfl
  fits := GrowBuffer.fits_empty tracked
  bytes := rfl

@[simp] theorem type_resize (b : NumBuilder) (c : Nat) : (b.resize c).type = b.type := rfl

@[simp] theorem type_reserve (b : NumBuilder) (n : Nat) : (b.reserve n).type = b.type := by
  rw [NumBuilder.reserve]
  split <;> rfl

@[simp] theorem type_append (b : NumBuilder) (word : Nat) (v : Bool) :
    (b.append word v).type = b.type := type_reserve b 1

@[simp] theorem type_appendSlice (b : NumBuilder) (words : List Nat) :
    (b.appendSlice words).type = b.type := type_reserve b _

@[simp] theorem type_repeat (b : NumBuilder) (n : Nat) :
    (n.repeat appendNull b).type = b.type := by
  induction n with
  | zero => rfl
  | succ n ih => exact (type_append _ _ _).trans ih

namespace Holds

variable (h : b.Holds valid words)
include h

theorem resize (c : Nat) :
    (b.resize c).Holds (valid.take (max c minCapacity)) (words.take (max c minCapacity)) := by
  have slots := h.slots.resize (max c minCapacity)
  have kept : words.take (b.slots.resize (max c minCapacity)).length =
      words.take (max c minCapacity) := by
    rw [slots.length, List.length_take, List.take_eq_take_iff, h.count]
    omega
  have fits := GrowBuffer.fits_truncate h.fits
    ((b.slots.resize (max c minCapacity)).length * b.type.width)
  exact
    { slots := slots
      count := by rw [List.length_take, List.length_take, h.count]
      fits := GrowBuffer.fits_reallocate fits _
      bytes := by
        rw [NumBuilder.resize]
        simp only
        rw [GrowBuffer.bytes_reallocate fits, GrowBuffer.bytes_truncate h.fits, h.bytes,
          Bytes.extract_wordBytes, kept] }

theorem reserve (n : Nat) : (b.reserve n).Holds valid words := by
  have length := h.slots.length
  rw [NumBuilder.reserve]
  cases grows : b.slots.growTarget? n with
  | none => exact h
  | some c =>
    have room := Slots.le_of_growTarget? grows
    have kept := h.resize c
    rwa [List.take_of_length_le (by omega), List.take_of_length_le (by rw [h.count]; omega)]
      at kept

theorem room_reserve (n : Nat) : valid.length + n ≤ (b.reserve n).slots.capacity := by
  rw [← h.slots.length, NumBuilder.reserve]
  cases grows : b.slots.growTarget? n with
  | none => exact Slots.room_of_growTarget? grows
  | some c =>
    simp only [NumBuilder.resize, Slots.capacity_resize]
    exact Nat.le_trans (Slots.le_of_growTarget? grows) (Nat.le_max_left _ _)

/-- New words behind the old ones, in slots that already hold their validities. -/
theorem write {slots : Slots} {more : List Bool} {new : List Nat}
    (hs : slots.Holds (valid ++ more)) (count : new.length = more.length) :
    ({ b with slots, values := b.values.append (wordBytes b.type.width new) } : NumBuilder).Holds
      (valid ++ more) (words ++ new) where
  slots := hs
  count := by rw [List.length_append, List.length_append, h.count, count]
  fits := GrowBuffer.fits_append _ _
  bytes := by
    simp only
    rw [GrowBuffer.bytes_append h.fits, h.bytes, Bytes.wordBytes_append]

theorem append (word : Nat) (v : Bool) :
    (b.append word v).Holds (valid ++ [v]) (words ++ [word]) := by
  have kept := h.reserve 1
  have slots := kept.slots.append v (by rw [kept.slots.length]; exact h.room_reserve 1)
  have written := kept.write slots (rfl : [word].length = [v].length)
  rwa [Bytes.wordBytes_singleton] at written

theorem appendNulls (n : Nat) :
    (n.repeat appendNull b).Holds (valid ++ List.replicate n false)
      (words ++ List.replicate n 0) := by
  induction n with
  | zero =>
    rw [List.replicate_zero, List.replicate_zero, List.append_nil, List.append_nil]
    exact h
  | succ n ih =>
    rw [List.replicate_succ', List.replicate_succ', ← List.append_assoc, ← List.append_assoc]
    exact ih.append 0 false

theorem appendSlice (new : List Nat) :
    (b.appendSlice new).Holds (valid ++ List.replicate new.length true) (words ++ new) := by
  have kept := h.reserve new.length
  have slots := kept.slots.appendMany true new.length
    (by rw [kept.slots.length]; exact h.room_reserve new.length)
  exact kept.write slots (by rw [List.length_replicate])

theorem appendValues {new : List Nat} {more : List Bool} (count : new.length = more.length) :
    ∃ b', b.appendValues new more = .ok b' ∧ b'.type = b.type ∧
      b'.Holds (valid ++ more) (words ++ new) := by
  have kept := h.reserve new.length
  have slots := kept.slots.appendAll more
    (by rw [kept.slots.length, ← count]; exact h.room_reserve new.length)
  exact ⟨_, if_pos count, type_reserve b _, kept.write slots count⟩

/-- The finished column is accepted. -/
theorem accepted_finish : b.finish.1.Everywhere Column.Accepted := by
  have length := h.slots.length
  have typed : b.finish.1.type ≠ .null := nofun
  have bitmap : b.finish.1.BufferFits 0 .bitmap :=
    h.slots.bufferFits_of_finish rfl length rfl
  have numbers : b.finish.1.BufferFits 1 (.fixedWidth b.type.width) := by
    refine ⟨_, rfl, ?_⟩
    show (0 + b.slots.length) * b.type.width ≤ b.values.bytes.size
    rw [h.bytes, Bytes.size_wordBytes, h.count, length, Nat.zero_add]
  refine .node ?_ nofun nofun
  exact
    { bufferCount := rfl
      buffers := by
        rintro (_ | _ | _) kind ⟨⟩
        · exact bitmap
        · exact numbers
      nulls := by
        rw [h.slots.nullSlots_of_finish typed rfl length rfl]
        exact h.slots.nulls
      children := rfl
      offsets := nofun
      text := nofun
      dictionary := rfl
      indices := nofun }

theorem nullAt_finish {i : Nat} (hi : i < valid.length) :
    b.finish.1.nullAt i = !valid.getD i false := by
  have length := h.slots.length
  have typed : b.finish.1.type ≠ .null := nofun
  exact h.slots.nullAt_of_finish typed rfl length rfl (Nat.lt_of_lt_of_eq hi length.symm)

theorem wordAt_finish {i : Nat} (hi : i < words.length) :
    b.finish.1.wordAt b.type.width i = words.getD i 0 % Bytes.wordRange b.type.width := by
  show b.values.bytes.wordAt b.type.width (0 + i) = _
  rw [Nat.zero_add, h.bytes, Bytes.wordAt_wordBytes hi, List.getD_eq_getElem _ _ hi]

end Holds

theorem holds_finish (b : NumBuilder) : b.finish.2.Holds [] [] where
  slots := b.slots.holds_finish
  count := rfl
  fits := GrowBuffer.fits_empty _
  bytes := rfl

end NumBuilder

/-! ### Text and raw bytes -/

namespace BytesBuilder

variable {b : BytesBuilder} {valid : List Bool} {runs : List (List UInt8)}

/-- The slots have these validities and these runs of bytes. -/
structure Holds (b : BytesBuilder) (valid : List Bool) (runs : List (List UInt8)) : Prop where
  spans : b.spans.Holds valid (startsOf runs)
  fits : b.values.Fits
  bytes : b.values.bytes.toList = runs.flatten

theorem holds_empty (type : BytesType) (tracked : Bool) : (empty type tracked).Holds [] [] where
  spans := Spans.holds_empty tracked
  fits := GrowBuffer.fits_empty tracked
  bytes := rfl

@[simp] theorem type_resize (b : BytesBuilder) (c : Nat) : (b.resize c).type = b.type := rfl

@[simp] theorem type_reserve (b : BytesBuilder) (n : Nat) : (b.reserve n).type = b.type := by
  rw [BytesBuilder.reserve]
  split <;> rfl

namespace Holds

variable (h : b.Holds valid runs)
include h

theorem count : runs.length = valid.length := by rw [← h.spans.count, length_startsOf]

theorem len_values : b.values.len = runs.flatten.length := by
  rw [← GrowBuffer.size_bytes h.fits, ← h.bytes, Array.length_toList]

theorem resize (c : Nat) :
    (b.resize c).Holds (valid.take (max c minCapacity)) (runs.take (max c minCapacity)) := by
  have spans := h.spans.resize c
  rw [← startsOf_take] at spans
  have length : (b.spans.resize c).slots.length = (runs.take (max c minCapacity)).length := by
    rw [spans.length, length_startsOf]
  have offsets : b.spans.offsets.len = runs.length * 4 := by
    rw [h.spans.len_offsets, length_startsOf]
  rw [BytesBuilder.resize]
  simp only [length, offsets, List.length_take]
  split_ifs with shrinks
  · -- the bytes end where the first slot that is dropped started
    have cut : min (max c minCapacity) runs.length = max c minCapacity := by omega
    have inside : max c minCapacity < (startsOf runs).length := by rw [length_startsOf]; omega
    have start : b.spans.start (max c minCapacity) =
        (runs.take (max c minCapacity)).flatten.length := by
      rw [h.spans.start_eq inside]
      simp [startsOf]
    exact
      { spans := spans
        fits := GrowBuffer.fits_truncate h.fits _
        bytes := by
          simp only
          rw [cut, GrowBuffer.bytes_truncate h.fits, start, Array.toList_extract, List.extract,
            Nat.sub_zero, List.drop_zero, h.bytes]
          have split : runs.flatten = (runs.take (max c minCapacity)).flatten ++
              (runs.drop (max c minCapacity)).flatten := by
            rw [← List.flatten_append, List.take_append_drop]
          rw [split, List.take_left] }
  · have all : runs.take (max c minCapacity) = runs := List.take_of_length_le (by omega)
    rw [all] at spans ⊢
    exact ⟨spans, h.fits, h.bytes⟩

theorem reserve (n : Nat) : (b.reserve n).Holds valid runs := by
  have length := h.spans.slots.length
  rw [BytesBuilder.reserve]
  cases grows : b.spans.slots.growTarget? n with
  | none => exact h
  | some c =>
    have room := Slots.le_of_growTarget? grows
    have kept := h.resize c
    rwa [List.take_of_length_le (by omega), List.take_of_length_le (by rw [h.count]; omega)]
      at kept

theorem room_reserve (n : Nat) : valid.length + n ≤ (b.reserve n).spans.slots.capacity := by
  rw [← h.spans.slots.length, BytesBuilder.reserve]
  cases grows : b.spans.slots.growTarget? n with
  | none => exact Slots.room_of_growTarget? grows
  | some c =>
    simp only [BytesBuilder.resize, Spans.resize, Slots.capacity_resize]
    exact Nat.le_trans (Slots.le_of_growTarget? grows) (Nat.le_max_left _ _)

theorem stop_eq (small : runs.flatten.length ≤ maxOffset) : b.stop = .ok runs.flatten.length := by
  rw [stop, h.len_values, if_pos small]

theorem small_of_stop {n : Nat} (hn : b.stop = .ok n) : runs.flatten.length ≤ maxOffset := by
  rw [stop, h.len_values] at hn
  split_ifs at hn with small
  · exact small
  · cases hn

/-- What a slot more leaves behind, if there is one. -/
theorem appended (bytes : Bytes) (v : Bool) (small : runs.flatten.length ≤ maxOffset) :
    ∃ b', b.append bytes v = .ok b' ∧ b'.type = b.type ∧
      b'.Holds (valid ++ [v]) (runs ++ [bytes.toList]) := by
  have kept := h.reserve 1
  have room := h.room_reserve 1
  have spans := kept.spans.append v small (by rw [kept.spans.slots.length]; exact room)
  refine ⟨{ b.reserve 1 with
    spans := (b.reserve 1).spans.append runs.flatten.length v
    values := (b.reserve 1).values.append bytes }, ?_, type_reserve b 1, ?_⟩
  · rw [BytesBuilder.append]
    simp only
    rw [kept.stop_eq small]
    rfl
  · exact
      { spans := startsOf_append runs bytes.toList ▸ spans
        fits := GrowBuffer.fits_append _ _
        bytes := by
          simp only
          rw [GrowBuffer.bytes_append kept.fits, Array.toList_append, kept.bytes,
            List.flatten_append, List.flatten_singleton] }

theorem of_append {bytes : Bytes} {v : Bool} {b' : BytesBuilder}
    (hb : b.append bytes v = .ok b') :
    b'.type = b.type ∧ b'.Holds (valid ++ [v]) (runs ++ [bytes.toList]) := by
  have small : runs.flatten.length ≤ maxOffset := by
    rw [BytesBuilder.append] at hb
    obtain ⟨n, hn, -⟩ := bind_eq_ok.1 hb
    exact (h.reserve 1).small_of_stop hn
  obtain ⟨b'', hb'', typed, held⟩ := h.appended bytes v small
  cases hb.symm.trans hb''
  exact ⟨typed, held⟩

/-- There is room for null slots, which have no bytes. -/
theorem appendedNulls (small : runs.flatten.length ≤ maxOffset) (n : Nat) :
    ∃ b', iterate appendNull b n = .ok b' := by
  induction n generalizing b valid runs with
  | zero => exact ⟨b, rfl⟩
  | succ n ih =>
    obtain ⟨b₁, first, -, held₁⟩ := h.appended #[] false small
    obtain ⟨b', rest⟩ := ih held₁ (by simpa using small)
    exact ⟨b', bind_eq_ok.2 ⟨b₁, first, rest⟩⟩

theorem of_appendNulls {n : Nat} {b' : BytesBuilder} (hb : iterate appendNull b n = .ok b') :
    b'.type = b.type ∧
      b'.Holds (valid ++ List.replicate n false) (runs ++ List.replicate n []) := by
  induction n generalizing b valid runs with
  | zero =>
    cases hb
    rw [List.replicate_zero, List.replicate_zero, List.append_nil, List.append_nil]
    exact ⟨rfl, h⟩
  | succ n ih =>
    rw [iterate] at hb
    obtain ⟨b₁, first, rest⟩ := bind_eq_ok.1 hb
    obtain ⟨typed₁, held₁⟩ := h.of_append first
    obtain ⟨typed, held⟩ := ih held₁ rest
    rw [List.replicate_succ, List.replicate_succ, List.append_cons, List.append_cons runs]
    exact ⟨typed.trans typed₁, held⟩

end Holds

/-- The column of the slots so far, whose last run ends at `stop`. -/
def finished (b : BytesBuilder) (stop : Nat) : Column :=
  ⟨b.type.type, b.spans.slots.length, 0, b.spans.slots.nulls,
    [(b.spans.finish stop).1, some (b.spans.finish stop).2.1, some b.values.freeze], [], none⟩

/-- The builder without slots and memory. -/
def emptied (b : BytesBuilder) (stop : Nat) : BytesBuilder :=
  { b with spans := (b.spans.finish stop).2.2, values := .empty b.values.tracked }

theorem finish_eq (b : BytesBuilder) :
    b.finish = (b.stop >>= fun stop => .ok (b.finished stop, b.emptied stop)) := rfl

theorem holds_emptied (b : BytesBuilder) (stop : Nat) : (b.emptied stop).Holds [] [] where
  spans := b.spans.holds_finish stop
  fits := GrowBuffer.fits_empty _
  bytes := rfl

theorem type_ne_null (t : BytesType) : t.type ≠ .null := by cases t <;> nofun

theorem hasOffsets_type (t : BytesType) : t.type.hasOffsets = true := by cases t <;> rfl

namespace Holds

variable (h : b.Holds valid runs) (small : runs.flatten.length ≤ maxOffset)
include h

theorem nullAt_finished (stop : Nat) {i : Nat} (hi : i < valid.length) :
    (b.finished stop).nullAt i = !valid.getD i false := by
  have length := h.spans.slots.length
  exact h.spans.slots.nullAt_of_finish (type_ne_null b.type) rfl length rfl
    (Nat.lt_of_lt_of_eq hi length.symm)

theorem buffersFit_finished (stop : Nat) : (b.finished stop).BuffersFit := by
  have length := h.spans.slots.length
  have bitmap : (b.finished stop).BufferFits 0 .bitmap :=
    h.spans.slots.bufferFits_of_finish rfl length rfl
  have offsets : (b.finished stop).BufferFits 1 (.fixedWidth 4) :=
    h.spans.bufferFits_of_finish rfl length rfl (hasOffsets_type b.type)
  have layout : (b.finished stop).type.layout.buffers =
      [.bitmap, .fixedWidth 4, .variableWidth] := by
    show b.type.type.layout.buffers = _
    cases b.type <;> rfl
  intro slot kind hk
  rw [layout] at hk
  rcases slot with _ | _ | _ | slot <;> cases hk
  · exact bitmap
  · exact offsets
  · exact ⟨_, rfl⟩

include small

theorem firstRow_finished {i : Nat} (hi : i ≤ runs.length) :
    (b.finished runs.flatten.length).firstRow i = (runs.take i).flatten.length := by
  have length := h.spans.slots.length
  have inside : i ≤ (b.finished runs.flatten.length).len := by
    rw [h.count, ← length] at hi
    exact hi
  rw [h.spans.firstRow_of_finish small rfl length rfl inside, bound_eq runs hi]

/-- The bytes of a slot are its run. -/
theorem bytesAt_finished {i : Nat} (hi : i < runs.length) :
    (b.finished runs.flatten.length).bytesAt i = runs[i].toArray := by
  have third : (b.finished runs.flatten.length).buffer? 2 = some b.values.freeze := rfl
  rw [Column.bytesAt, third, h.firstRow_finished small (Nat.le_of_lt hi),
    h.firstRow_finished small hi]
  apply Array.toList_inj.1
  rw [← window_flatten hi, Array.toList_extract, List.extract, flatten_take_succ hi,
    List.length_append, Nat.add_sub_cancel_left]
  exact congrArg (List.take _ <| List.drop _ ·) h.bytes

/-- The finished column is accepted. -/
theorem accepted_finished (text : b.type = .utf8 → ∀ run ∈ runs, Utf8.WellFormed run) :
    (b.finished runs.flatten.length).Everywhere Column.Accepted := by
  have length := h.spans.slots.length
  have typed : (b.finished runs.flatten.length).type = b.type.type := rfl
  have bound : (b.finished runs.flatten.length).offsetBound = runs.flatten.length := by
    have kinds : b.type.type = .utf8 ∨ b.type.type = .binary := by
      cases b.type <;> simp [BytesType.type]
    rw [Column.offsetBound_of_bytes kinds rfl, ← h.bytes]
    exact Array.length_toList.symm
  refine .node ?_ nofun nofun
  exact
    { bufferCount := by rw [typed]; cases b.type <;> rfl
      buffers := h.buffersFit_finished _
      nulls := by
        rw [h.spans.slots.nullSlots_of_finish (type_ne_null b.type) rfl length rfl]
        exact h.spans.slots.nulls
      children := by rw [Column.ChildrenFit, typed]; cases b.type <;> rfl
      offsets := fun _ =>
        (h.spans.offsetsFit_iff small rfl length rfl bound).2 (isChain_bounds runs)
      text := by
        intro utf8 i hi
        have inside : i < runs.length := by
          rw [h.count, ← length]
          exact hi
        rw [h.bytesAt_finished small inside]
        refine text ?_ _ (List.getElem_mem inside)
        cases kind : b.type with
        | utf8 => rfl
        | binary => rw [typed, kind] at utf8; cases utf8
      dictionary := by rw [Column.DictionaryFits, typed]; cases b.type <;> rfl
      indices := by
        intro index value sorted d ht
        rw [typed] at ht
        cases kind : b.type <;> rw [kind] at ht <;> cases ht }

end Holds

end BytesBuilder

/-! ### Nulls -/

theorem NullBuilder.len_reserve (b : NullBuilder) (n : Nat) : (b.reserve n).len = b.len := by
  rw [NullBuilder.reserve]
  split_ifs
  · have enough : b.len + n ≤ nextPower (Sizes.unbounded.fit (b.len + n)) := le_nextPower _
    exact Nat.min_eq_left (by omega)
  · rfl

theorem NullBuilder.len_appendMany (b : NullBuilder) (n : Nat) :
    (b.appendMany n).len = b.len + n := congrArg (· + n) (b.len_reserve n)

theorem NullBuilder.accepted_finish (b : NullBuilder) :
    b.finish.1.Everywhere Column.Accepted := by
  refine .node ?_ nofun nofun
  exact
    { bufferCount := rfl
      buffers := by
        rintro (_ | _) kind ⟨⟩
        exact trivial
      nulls := by
        have all : b.finish.1.nullSlots = b.finish.1.len := by
          rw [Column.nullSlots, List.countP_eq_length.2 fun i _ => Column.nullAt_of_null rfl,
            List.length_range]
        exact all.symm
      children := rfl
      offsets := nofun
      text := nofun
      dictionary := rfl
      indices := nofun }

end Columnar
