import Columnar.Builder.Append
import Columnar.Proofs.Building.Buffers
import Columnar.Proofs.Readings
import Mathlib.Data.List.GetD

/-!
# Slots of a builder, as a list of validities

`Slots.Holds s valid` says that the slots of a builder have these validities: the counts are those
of the list, the capacity covers it, and the bitmap has a set bit exactly for each valid slot.
Every operation has one lemma that tells the list afterwards: growing keeps it, `resize` cuts it
off, `append` and its like add at the end, `finish` leaves it empty.

`Slots.nullAt_of_finish` and the lemmas after it say what a column reads from the finished bitmap.
-/

namespace Columnar

theorem count_false_eq (valid : List Bool) :
    valid.count false = (List.range valid.length).countP fun i => !valid.getD i false := by
  have listed : valid = (List.range valid.length).map fun i => valid.getD i false := by
    apply List.ext_getElem
    · simp
    · intro i hi _
      rw [List.getElem_map, List.getElem_range, List.getD_eq_getElem _ _ hi]
  conv_lhs => rw [listed, List.count_eq_countP, List.countP_map]
  refine List.countP_congr fun i _ => ?_
  rw [Function.comp_apply]
  cases valid.getD i false <;> decide

namespace Slots

variable {s : Slots} {valid : List Bool} {n c : Nat} {v : Bool}

/-- The bitmap has a set bit exactly for each valid slot. -/
structure Marks (capacity : Nat) (valid : List Bool) (b : GrowBuffer) : Prop where
  fits : b.Fits
  len : b.len = bytesFor capacity
  bit : ∀ i, b.bytes.testBit i = valid.getD i false

/-- The slots have these validities. -/
structure Holds (s : Slots) (valid : List Bool) : Prop where
  length : s.length = valid.length
  nulls : s.nulls = valid.count false
  room : s.length ≤ s.capacity
  /-- Without a bitmap there is no capacity. -/
  unmarked : s.validity = none → s.capacity = 0
  marked : ∀ b, s.validity = some b → Marks s.capacity valid b

theorem holds_empty (tracked : Bool) : (empty tracked).Holds [] where
  length := rfl
  nulls := rfl
  room := Nat.le_refl 0
  unmarked := fun _ => rfl
  marked := nofun

/-! ### Setting the capacity -/

theorem marks_make (capacity : Nat) (tracked : Bool) :
    Marks capacity [] ((GrowBuffer.make (bytesFor capacity) tracked).resize (bytesFor capacity) 0)
    where
  fits := GrowBuffer.fits_resize (GrowBuffer.fits_make _ _) _ _
  len := GrowBuffer.len_resize _ _ _
  bit := by
    intro i
    rw [GrowBuffer.bytes_resize (GrowBuffer.fits_make _ _), GrowBuffer.bytes_make,
      Bytes.testBit_append_zeros]
    rw [Bytes.testBit_of_size_le] <;> simp

/-- The bitmap for another capacity has the same bits, as far as it reaches. -/
theorem bit_resized {b : GrowBuffer} (fits : b.Fits) (capacity i : Nat)
    (clear : 8 * bytesFor capacity ≤ i → b.bytes.testBit i = false) :
    ((b.resize (bytesFor capacity) 0).reallocate (bytesFor capacity)).bytes.testBit i =
      b.bytes.testBit i := by
  rw [GrowBuffer.bytes_reallocate (GrowBuffer.fits_resize fits _ _),
    GrowBuffer.bytes_resize fits, Bytes.testBit_append_zeros]
  by_cases hi : i < 8 * bytesFor capacity
  · exact Bytes.testBit_extract _ hi
  · rw [clear (by omega), Bytes.testBit_of_size_le]
    rw [Array.size_extract]
    omega

namespace Holds

variable (h : s.Holds valid)
include h

theorem eq_nil (none : s.validity = none) : valid = [] := by
  have := h.unmarked none
  have := h.room
  have := h.length
  exact List.length_eq_zero_iff.1 (by omega)

/-- A capacity below the length drops the slots from there on. -/
theorem resize (c : Nat) : (s.resize c).Holds (valid.take c) := by
  have length := h.length
  have room := h.room
  rw [Slots.resize]
  cases hb : s.validity with
  | none =>
    obtain rfl := h.eq_nil hb
    rw [List.take_nil]
    exact
      { length := length
        nulls := h.nulls
        room := Nat.le_trans (Nat.le_of_eq length) (Nat.zero_le _)
        unmarked := nofun
        marked := by
          rintro _ ⟨⟩
          exact marks_make c s.tracked }
  | some bitmap =>
    obtain ⟨fits, size, bit⟩ := h.marked bitmap hb
    simp only
    split_ifs with shrinks
    · -- bits past the length are clear already, those from the new capacity on are cleared
      have last : min (bitmap.len * 8) (bytesFor s.length * 8) = bytesFor s.length * 8 := by
        rw [size]
        unfold bytesFor
        omega
      have clears (i : Nat) :
          (bitmap.putBits c false (min (bitmap.len * 8) (bytesFor s.length * 8) - c)).bytes.testBit
            i = (valid.take c).getD i false := by
        rw [last, GrowBuffer.testBit_bytes_putBits fits (by rw [size]; unfold bytesFor; omega), bit]
        unfold bytesFor
        by_cases below : i < c
        · rw [if_neg (by omega), List.getD_eq_getElem?_getD, List.getD_eq_getElem?_getD,
            List.getElem?_take_of_lt below]
        · rw [List.getD_eq_default (valid.take c) false (by rw [List.length_take]; omega)]
          split_ifs
          · rfl
          · exact List.getD_eq_default _ _ (by omega)
      have kept : (valid.take c).length = c := by rw [List.length_take]; omega
      exact
        { length := kept.symm
          nulls := by
            simp only
            rw [Bytes.sub_ones, count_false_eq, kept]
            simp only [Nat.zero_add, clears]
          room := Nat.le_refl _
          unmarked := nofun
          marked := by
            rintro _ ⟨⟩
            exact
              { fits := GrowBuffer.fits_reallocate
                  (GrowBuffer.fits_resize (GrowBuffer.fits_putBits fits _ _ _) _ _) _
                len := by simp
                bit := by
                  intro i
                  rw [bit_resized (GrowBuffer.fits_putBits fits _ _ _) c i, clears i]
                  intro outside
                  rw [clears i]
                  refine List.getD_eq_default _ _ ?_
                  rw [kept]
                  unfold bytesFor at outside
                  omega } }
    · rw [List.take_of_length_le (by omega)]
      exact
        { length := length
          nulls := h.nulls
          room := Nat.le_of_not_lt shrinks
          unmarked := nofun
          marked := by
            rintro _ ⟨⟩
            exact
              { fits := GrowBuffer.fits_reallocate (GrowBuffer.fits_resize fits _ _) _
                len := by simp
                bit := by
                  intro i
                  rw [bit_resized fits c i, bit]
                  intro outside
                  rw [bit]
                  refine List.getD_eq_default _ _ ?_
                  unfold bytesFor at outside
                  omega } }

/-- A capacity that covers the slots keeps them. -/
theorem resize_of_le (hc : s.length ≤ c) : (s.resize c).Holds valid := by
  have kept := h.resize c
  rwa [List.take_of_length_le (h.length ▸ hc)] at kept

end Holds

@[simp] theorem capacity_resize (s : Slots) (c : Nat) : (s.resize c).capacity = c := by
  rw [Slots.resize]
  cases s.validity with
  | none => rfl
  | some bitmap =>
    simp only
    split_ifs <;> rfl

/-! ### Making room -/

theorem le_of_growTarget? (grows : s.growTarget? n = some c) : s.length + n ≤ c := by
  rw [growTarget?] at grows
  split_ifs at grows
  cases grows
  exact Nat.le_trans (le_nextPower _) (Nat.le_max_left _ _)

theorem room_of_growTarget? (stays : s.growTarget? n = none) : s.length + n ≤ s.capacity := by
  rw [growTarget?, Sizes.fit_unbounded] at stays
  split_ifs at stays
  omega

/-- Capacities are at least the smallest one from the first growth on. -/
theorem growTarget?_eq {sizes : Sizes} (grows : s.growTarget? n sizes = some c) :
    max c minCapacity = c := by
  rw [growTarget?] at grows
  split_ifs at grows
  cases grows
  exact Nat.max_eq_left (Nat.le_max_right _ _)

namespace Holds

variable (h : s.Holds valid)
include h

theorem reserve (n : Nat) : (s.reserve n).Holds valid := by
  rw [Slots.reserve]
  cases grows : s.growTarget? n with
  | none => exact h
  | some c => exact h.resize_of_le (Nat.le_trans (Nat.le_add_right _ _) (le_of_growTarget? grows))

end Holds

/-- There is room for as many slots as have been reserved. -/
theorem room_reserve (s : Slots) (n : Nat) : s.length + n ≤ (s.reserve n).capacity := by
  rw [Slots.reserve]
  cases grows : s.growTarget? n with
  | none => exact room_of_growTarget? grows
  | some c =>
    simp only [capacity_resize]
    exact le_of_growTarget? grows

/-! ### Adding slots -/

theorem getD_append_replicate (valid : List Bool) (v : Bool) (n i : Nat) :
    (valid ++ List.replicate n v).getD i false =
      if valid.length ≤ i ∧ i < valid.length + n then v else valid.getD i false := by
  rcases Nat.lt_or_ge i valid.length with inside | outside
  · rw [List.getD_append _ _ _ _ inside, if_neg (by omega)]
  · rw [List.getD_append_right _ _ _ _ outside, List.getD_eq_default valid _ outside]
    split_ifs with among
    · exact List.getD_replicate _ (by omega)
    · exact List.getD_eq_default _ _ (by rw [List.length_replicate]; omega)

theorem append_eq (s : Slots) (v : Bool) : s.append v = s.appendMany v 1 := by cases v <;> rfl

namespace Holds

variable (h : s.Holds valid)
include h

theorem appendMany (v : Bool) (n : Nat) (room : s.length + n ≤ s.capacity) :
    (s.appendMany v n).Holds (valid ++ List.replicate n v) := by
  have length := h.length
  cases v with
  | true =>
    exact
      { length := by
          rw [List.length_append, List.length_replicate, ← length]
          rfl
        nulls := by
          rw [List.count_append, List.count_replicate]
          exact h.nulls
        room := room
        unmarked := fun none => h.unmarked (Option.map_eq_none_iff.1 none)
        marked := by
          intro b' hb'
          obtain ⟨b, hb, rfl⟩ := Option.map_eq_some_iff.1 hb'
          obtain ⟨fits, size, bit⟩ := h.marked b hb
          exact
            { fits := GrowBuffer.fits_putBits fits _ _ _
              len := (GrowBuffer.len_putBits _ _ _ _).trans size
              bit := by
                intro i
                have covers : s.length + n ≤ 8 * b.len := by
                  rw [size]
                  unfold bytesFor
                  omega
                rw [GrowBuffer.testBit_bytes_putBits fits covers, bit, getD_append_replicate,
                  length] } }
  | false =>
    exact
      { length := by
          rw [List.length_append, List.length_replicate, ← length]
          rfl
        nulls := by
          rw [List.count_append, List.count_replicate, ← h.nulls]
          rfl
        room := room
        unmarked := h.unmarked
        marked := by
          intro b hb
          obtain ⟨fits, size, bit⟩ := h.marked b hb
          refine ⟨fits, size, fun i => ?_⟩
          -- new slots are past the old ones, where the bits are clear
          rw [bit, getD_append_replicate]
          split_ifs with among
          · exact List.getD_eq_default _ _ among.1
          · rfl }

theorem append (v : Bool) (room : s.length < s.capacity) : (s.append v).Holds (valid ++ [v]) := by
  rw [append_eq]
  exact h.appendMany v 1 room

theorem appendAll (more : List Bool) (room : s.length + more.length ≤ s.capacity) :
    (more.foldl Slots.append s).Holds (valid ++ more) := by
  induction more generalizing s valid with
  | nil =>
    rw [List.append_nil]
    exact h
  | cons v more ih =>
    rw [List.length_cons] at room
    have first := h.append v (by omega)
    have capacity : (s.append v).capacity = s.capacity := by cases v <;> rfl
    have length : (s.append v).length = s.length + 1 := by cases v <;> rfl
    rw [List.append_cons]
    exact ih first (by omega)

/-- One slot more, with room made for it. -/
theorem push (v : Bool) : ((s.reserve 1).append v).Holds (valid ++ [v]) := by
  have kept := h.reserve 1
  have room := s.room_reserve 1
  exact kept.append v (by rw [kept.length, ← h.length]; omega)

theorem openMany (v : Bool) (n : Nat) : (s.openMany v n).Holds (valid ++ List.replicate n v) := by
  induction n generalizing s valid with
  | zero =>
    rw [List.replicate_zero, List.append_nil]
    exact h
  | succ n ih =>
    rw [List.replicate_succ, List.append_cons]
    exact ih (h.push v)

end Holds

/-! ### Finishing -/

theorem holds_finish (s : Slots) : s.finish.2.Holds [] := holds_empty s.tracked

/-- A bitmap is handed out only where some slot is null. -/
theorem finish_eq (s : Slots) :
    s.finish.1 =
      if 0 < s.nulls then s.validity.map fun b => (b.truncate (bytesFor s.length)).freeze
      else none := rfl

namespace Holds

theorem bitmap_of_finish (h : s.Holds valid) {b : Buffer} (hb : s.finish.1 = some b) :
    b.size = bytesFor s.length ∧ ∀ i, i < s.length → b.bytes.testBit i = valid.getD i false := by
  have room := h.room
  rw [finish_eq] at hb
  split_ifs at hb
  obtain ⟨bitmap, hbitmap, rfl⟩ := Option.map_eq_some_iff.1 hb
  obtain ⟨fits, size, bit⟩ := h.marked bitmap hbitmap
  have visible : (bitmap.truncate (bytesFor s.length)).freeze.bytes =
      bitmap.bytes.extract 0 (bytesFor s.length) := GrowBuffer.bytes_truncate fits _
  constructor
  · rw [Buffer.size, visible, Array.size_extract, GrowBuffer.size_bytes fits, size]
    unfold bytesFor
    omega
  · intro i hi
    rw [visible, Bytes.testBit_extract _ (by unfold bytesFor; omega), bit]

/-- The bitmap that is handed out has no stray bits. -/
theorem testBit_of_finish (h : s.Holds valid) {b : Buffer} (hb : s.finish.1 = some b)
    (i : Nat) : b.bytes.testBit i = valid.getD i false := by
  obtain ⟨size, inside⟩ := h.bitmap_of_finish hb
  rw [finish_eq] at hb
  split_ifs at hb
  obtain ⟨bitmap, hbitmap, rfl⟩ := Option.map_eq_some_iff.1 hb
  obtain ⟨fits, -, bit⟩ := h.marked bitmap hbitmap
  have visible : (bitmap.truncate (bytesFor s.length)).freeze.bytes =
      bitmap.bytes.extract 0 (bytesFor s.length) := GrowBuffer.bytes_truncate fits _
  by_cases early : i < 8 * bytesFor s.length
  · rw [visible, Bytes.testBit_extract _ early, bit]
  · have outside : valid.length ≤ i := by
      rw [← h.length]
      unfold bytesFor at early
      omega
    rw [Bytes.testBit_of_size_le (by rw [← Buffer.size, size]; omega),
      List.getD_eq_default _ _ outside]

/-- A bitmap is handed out exactly where some slot is null. -/
theorem finish_eq_none (h : s.Holds valid) : s.finish.1 = none ↔ s.nulls = 0 := by
  rw [finish_eq]
  constructor
  · intro none
    split_ifs at none with some
    · rw [h.nulls, h.eq_nil (Option.map_eq_none_iff.1 none), List.count_nil]
    · omega
  · intro filled
    rw [if_neg (by omega)]

theorem bytes_finish {s' : Slots} (h : s.Holds valid) (h' : s'.Holds valid) :
    s.finish.1.map Buffer.bytes = s'.finish.1.map Buffer.bytes := by
  have nulls : s.finish.1 = none ↔ s'.finish.1 = none := by
    rw [h.finish_eq_none, h'.finish_eq_none, h.nulls, h'.nulls]
  cases one : s.finish.1 with
  | none => rw [nulls.1 one]
  | some b =>
    cases other : s'.finish.1 with
    | none => cases one.symm.trans (nulls.2 other)
    | some b' =>
      refine congrArg some (Bytes.ext_testBit ?_ fun i => ?_)
      · have size : b.size = b'.size := by
          rw [(h.bitmap_of_finish one).1, (h'.bitmap_of_finish other).1, h.length, h'.length]
        exact size
      · rw [h.testBit_of_finish one, h'.testBit_of_finish other]

variable {c : Column} (h : s.Holds valid) (ht : c.type ≠ .null) (offset : c.offset = 0)
  (len : c.len = valid.length) (first : c.buffer? 0 = s.finish.1)
include h ht offset len first

theorem nullAt_of_finish {i : Nat} (hi : i < c.len) : c.nullAt i = !valid.getD i false := by
  cases hb : c.buffer? 0 with
  | some b =>
    rw [Column.nullAt_of_some ht hb, offset, Nat.zero_add,
      (h.bitmap_of_finish (first ▸ hb)).2 i (by rw [h.length, ← len]; exact hi)]
  | none =>
    -- without a bitmap no slot was null
    have all : valid.count false = 0 := by
      rw [first, finish_eq] at hb
      split_ifs at hb with some
      · have empty := h.eq_nil (Option.map_eq_none_iff.1 hb)
        rw [empty]
        rfl
      · rw [← h.nulls]
        omega
    have inside : i < valid.length := len ▸ hi
    rw [Column.nullAt_of_none ht hb, List.getD_eq_getElem _ _ inside]
    cases value : valid[i] with
    | true => rfl
    | false =>
      have member : false ∈ valid := value ▸ List.getElem_mem inside
      exact absurd (List.count_pos_iff.2 member) (by omega)

theorem nullSlots_of_finish : c.nullSlots = valid.count false := by
  rw [Column.nullSlots, count_false_eq, ← len]
  refine List.countP_congr fun i hi => ?_
  rw [h.nullAt_of_finish ht offset len first (List.mem_range.1 hi)]

omit ht in
theorem bufferFits_of_finish : c.BufferFits 0 .bitmap := by
  cases hb : c.buffer? 0 with
  | none => exact .inl ⟨rfl, hb⟩
  | some b =>
    refine .inr ⟨b, hb, ?_⟩
    rw [offset, Nat.zero_add, ← bytesFor_le_iff, (h.bitmap_of_finish (first ▸ hb)).1, h.length, len]

end Holds

end Slots

end Columnar
