import Columnar.Builder.Leaf
import Columnar.Proofs.Building.Slots

/-!
# Runs of values, and slots that span them

Runs laid end to end start where the ones before them end (`startsOf`), and are found again between
these bounds (`window_flatten`).  Words are laid end to end as bytes and read back one by one
(`Bytes.wordAt_wordBytes`).

`Spans.Holds s valid starts` says that the slots have these validities and these recorded starts,
whatever the starts are.  A finished column reads them as its offsets (`Spans.Holds.offsetAt`), and
they fit exactly where they do not decrease and end within the values
(`Spans.Holds.offsetsFit_iff`).
-/

namespace Columnar

/-! ### Runs laid end to end -/

section Runs

variable {α : Type} {runs : List (List α)} {i : Nat}

/-- Where each of several runs, laid end to end, starts. -/
def startsOf (runs : List (List α)) : List Nat :=
  (List.range runs.length).map fun i => (runs.take i).flatten.length

@[simp] theorem length_startsOf (runs : List (List α)) : (startsOf runs).length = runs.length := by
  simp [startsOf]

theorem startsOf_append (runs : List (List α)) (r : List α) :
    startsOf (runs ++ [r]) = startsOf runs ++ [runs.flatten.length] := by
  rw [startsOf, startsOf, List.length_append, List.length_singleton, List.range_succ,
    List.map_append, List.map_singleton, List.take_left]
  refine congrArg (· ++ _) (List.map_congr_left fun i hi => ?_)
  rw [List.take_append_of_le_length (Nat.le_of_lt (List.mem_range.1 hi))]

theorem startsOf_take (runs : List (List α)) (n : Nat) :
    startsOf (runs.take n) = (startsOf runs).take n := by
  apply List.ext_getElem
  · simp
  · intro i hi _
    have below : i < n := by simp only [length_startsOf, List.length_take] at hi; omega
    simp [startsOf, List.take_take, Nat.min_eq_left (Nat.le_of_lt below)]

/-- The bounds of the runs: their starts, and the end of the last one. -/
theorem bound_eq (runs : List (List α)) (hi : i ≤ runs.length) :
    (startsOf runs ++ [runs.flatten.length]).getD i 0 = (runs.take i).flatten.length := by
  rcases Nat.lt_or_eq_of_le hi with inside | rfl
  · rw [List.getD_append _ _ _ _ (by rw [length_startsOf]; exact inside),
      List.getD_eq_getElem _ _ (by rw [length_startsOf]; exact inside)]
    simp [startsOf]
  · rw [List.getD_append_right _ _ _ _ (by simp), length_startsOf, Nat.sub_self, List.take_length]
    rfl

theorem flatten_take_succ (hi : i < runs.length) :
    (runs.take (i + 1)).flatten = (runs.take i).flatten ++ runs[i] := by
  rw [List.take_succ_eq_append_getElem hi, List.flatten_append, List.flatten_singleton]

theorem isChain_bounds (runs : List (List α)) :
    (startsOf runs ++ [runs.flatten.length]).IsChain (· ≤ ·) := by
  rw [List.isChain_iff_getElem]
  intro i hi
  rw [List.length_append, length_startsOf, List.length_singleton] at hi
  have bound (k : Nat) (hk : k ≤ runs.length)
      (h : k < (startsOf runs ++ [runs.flatten.length]).length) :
      (startsOf runs ++ [runs.flatten.length])[k] = (runs.take k).flatten.length := by
    rw [← bound_eq runs hk, List.getD_eq_getElem]
  rw [bound i (by omega), bound (i + 1) (by omega), flatten_take_succ (by omega),
    List.length_append]
  omega

/-- Each run is found between its bounds. -/
theorem window_flatten (hi : i < runs.length) :
    (runs.flatten.drop (runs.take i).flatten.length).take runs[i].length = runs[i] := by
  have split :
      runs.flatten = (runs.take i).flatten ++ (runs[i] ++ (runs.drop (i + 1)).flatten) := by
    conv_lhs => rw [← List.take_append_drop i runs, List.drop_eq_getElem_cons hi]
    rw [List.flatten_append, List.flatten_cons]
  rw [split, List.drop_left, List.take_left]

end Runs

/-! ### Words laid end to end -/

namespace Bytes

open NumBuilder

variable {width i n : Nat}

theorem wordBytes_append (width : Nat) (xs ys : List Nat) :
    wordBytes width (xs ++ ys) = wordBytes width xs ++ wordBytes width ys := by
  apply Array.toList_inj.1
  simp [wordBytes]

theorem wordBytes_singleton (width n : Nat) : wordBytes width [n] = Bytes.ofNat width n := by
  simp [wordBytes, Bytes.ofNat]

@[simp] theorem size_wordBytes (width : Nat) (xs : List Nat) :
    (wordBytes width xs).size = xs.length * width := by
  simp [wordBytes]

theorem extract_wordBytes (xs : List Nat) (n : Nat) :
    (wordBytes width xs).extract 0 (n * width) = wordBytes width (xs.take n) := by
  rcases Nat.le_total n xs.length with inside | all
  · have split :
        wordBytes width xs = wordBytes width (xs.take n) ++ wordBytes width (xs.drop n) := by
      rw [← wordBytes_append, List.take_append_drop]
    have size : (wordBytes width (xs.take n)).size = n * width := by
      rw [size_wordBytes, List.length_take, Nat.min_eq_left inside]
    rw [split, ← size, Array.extract_append_left]
    exact Array.extract_eq_self_of_le (Nat.le_refl _)
  · rw [List.take_of_length_le all, Array.extract_eq_self_of_le]
    rw [size_wordBytes]
    exact Nat.mul_le_mul_right width all

theorem wordAt_wordBytes {xs : List Nat} (hi : i < xs.length) :
    (wordBytes width xs).wordAt width i = xs[i] % wordRange width := by
  -- the word is the last one of those up to it
  have upTo : (wordBytes width xs).extract 0 ((i + 1) * width) =
      wordBytes width (xs.take i) ++ Bytes.ofNat width xs[i] := by
    rw [extract_wordBytes, List.take_succ_eq_append_getElem hi, wordBytes_append,
      wordBytes_singleton]
  have size : (wordBytes width (xs.take i)).size = i * width := by
    rw [size_wordBytes, List.length_take, Nat.min_eq_left (Nat.le_of_lt hi)]
  have word : (wordBytes width xs).extract (i * width) ((i + 1) * width) =
      Bytes.ofNat width xs[i] := by
    have last : ((wordBytes width xs).extract 0 ((i + 1) * width)).extract (i * width)
        ((i + 1) * width) = (wordBytes width xs).extract (i * width) ((i + 1) * width) := by
      rw [Array.extract_extract, Nat.zero_add, Nat.zero_add, Nat.min_self]
    have stop : (i + 1) * width = (wordBytes width (xs.take i)).size + width := by
      rw [size, Nat.succ_mul]
    rw [← last, upTo, stop, ← size, Array.extract_append_right]
    exact Array.extract_eq_self_of_le (by rw [size_ofNat])
  rw [wordAt, word]
  exact littleEndian_digits width xs[i]

/-- A word is read from the first bytes as from all of them. -/
theorem wordAt_extract (b : Bytes) (h : (i + 1) * width ≤ n) :
    Bytes.wordAt (b.extract 0 n) width i = b.wordAt width i := by
  rw [wordAt, wordAt, Array.extract_extract, Nat.zero_add, Nat.zero_add, Nat.min_eq_left h]

end Bytes

/-! ### Slots that span values -/

theorem offsetValue_of_le {n : Nat} (h : n ≤ maxOffset) :
    offsetValue (n % Bytes.wordRange 4) = n := by
  have wide : Bytes.wordRange 4 = 4294967296 := rfl
  have most : maxOffset = 2147483647 := rfl
  rw [offsetValue, IntType.toInt, Nat.mod_eq_of_lt (by omega), if_neg]
  rintro ⟨-, large⟩
  rw [show IntType.int32.width = 4 from rfl] at large
  omega

namespace Spans

/-- The recorded starts. -/
def starts (s : Spans) : List Nat := (List.range s.slots.length).map s.start

section

variable {s : Spans} {valid : List Bool} {starts : List Nat} {stop : Nat}

/-- The slots have these validities and these recorded starts. -/
structure Holds (s : Spans) (valid : List Bool) (starts : List Nat) : Prop where
  slots : s.slots.Holds valid
  count : starts.length = valid.length
  small : ∀ n ∈ starts, n ≤ maxOffset
  fits : s.offsets.Fits
  words : s.offsets.bytes = NumBuilder.wordBytes 4 starts

theorem holds_empty (tracked : Bool) : (empty tracked).Holds [] [] where
  slots := Slots.holds_empty tracked
  count := rfl
  small := nofun
  fits := GrowBuffer.fits_empty tracked
  words := rfl

namespace Holds

variable (h : s.Holds valid starts)
include h

theorem length : s.slots.length = starts.length := h.slots.length.trans h.count.symm

theorem len_offsets : s.offsets.len = starts.length * 4 := by
  rw [← GrowBuffer.size_bytes h.fits, h.words, Bytes.size_wordBytes]

theorem start_eq {i : Nat} (hi : i < starts.length) : s.start i = starts[i] := by
  have small := h.small _ (List.getElem_mem hi)
  have wide : maxOffset < Bytes.wordRange 4 := by decide
  have inside : (i + 1) * 4 ≤ s.offsets.len := by
    rw [h.len_offsets]
    omega
  rw [start, GrowBuffer.wordAt, ← Bytes.wordAt_extract _ inside, ← GrowBuffer.bytes, h.words,
    Bytes.wordAt_wordBytes hi, Nat.mod_eq_of_lt (by omega)]

theorem starts_eq : s.starts = starts := by
  apply List.ext_getElem
  · rw [Spans.starts, List.length_map, List.length_range, h.length]
  · intro i _ hi
    simp only [Spans.starts, List.getElem_map, List.getElem_range, h.start_eq hi]

theorem resize (c : Nat) :
    (s.resize c).Holds (valid.take (max c minCapacity)) (starts.take (max c minCapacity)) := by
  have slots := h.slots.resize (max c minCapacity)
  have kept : starts.take (s.slots.resize (max c minCapacity)).length =
      starts.take (max c minCapacity) := by
    rw [slots.length, List.length_take, List.take_eq_take_iff, h.count]
    omega
  have fits := GrowBuffer.fits_truncate h.fits ((s.slots.resize (max c minCapacity)).length * 4)
  exact
    { slots := slots
      count := by rw [List.length_take, List.length_take, h.count]
      small := fun n hn => h.small n (List.mem_of_mem_take hn)
      fits := GrowBuffer.fits_reallocate fits _
      words := by
        rw [Spans.resize]
        simp only
        rw [GrowBuffer.bytes_reallocate fits, GrowBuffer.bytes_truncate h.fits, h.words,
          Bytes.extract_wordBytes, kept] }

theorem reserve (n : Nat) : (s.reserve n).Holds valid starts := by
  have length := h.length
  rw [Spans.reserve]
  cases grows : s.slots.growTarget? n with
  | none => exact h
  | some c =>
    have room := Slots.le_of_growTarget? grows
    have kept := h.resize c
    rwa [List.take_of_length_le (by rw [← h.count]; omega), List.take_of_length_le (by omega)]
      at kept

/-- There is room for as many slots as have been reserved. -/
theorem room_reserve (n : Nat) : starts.length + n ≤ (s.reserve n).slots.capacity := by
  rw [← h.length, Spans.reserve]
  cases grows : s.slots.growTarget? n with
  | none => exact Slots.room_of_growTarget? grows
  | some c =>
    simp only [Spans.resize, Slots.capacity_resize]
    exact Nat.le_trans (Slots.le_of_growTarget? grows) (Nat.le_max_left _ _)

theorem append {start : Nat} (v : Bool) (small : start ≤ maxOffset)
    (room : s.slots.length < s.slots.capacity) :
    (s.append start v).Holds (valid ++ [v]) (starts ++ [start]) where
  slots := h.slots.append v room
  count := by rw [List.length_append, List.length_append, h.count]; rfl
  small := by
    intro n hn
    rcases List.mem_append.1 hn with hn | hn
    · exact h.small n hn
    · exact List.mem_singleton.1 hn ▸ small
  fits := GrowBuffer.fits_append _ _
  words := by
    rw [Spans.append, GrowBuffer.bytes_append h.fits, h.words, Bytes.wordBytes_append,
      Bytes.wordBytes_singleton]

/-- One slot more, with room made for it. -/
theorem push {start : Nat} (v : Bool) (small : start ≤ maxOffset) :
    ((s.reserve 1).append start v).Holds (valid ++ [v]) (starts ++ [start]) := by
  have kept := h.reserve 1
  exact kept.append v small (by rw [kept.length]; exact h.room_reserve 1)

theorem appendMany {start : Nat} (v : Bool) (small : start ≤ maxOffset) (n : Nat) :
    (s.appendMany start v n).Holds (valid ++ List.replicate n v)
      (starts ++ List.replicate n start) := by
  induction n generalizing s valid starts with
  | zero =>
    rw [List.replicate_zero, List.replicate_zero, List.append_nil, List.append_nil]
    exact h
  | succ n ih =>
    rw [List.replicate_succ, List.replicate_succ, List.append_cons, List.append_cons starts]
    exact ih (h.push v small)

end Holds

/-! ### Finishing -/

theorem holds_finish (s : Spans) (stop : Nat) : (s.finish stop).2.2.Holds [] [] where
  slots := Slots.holds_empty _
  count := rfl
  small := nofun
  fits := GrowBuffer.fits_empty _
  words := rfl

namespace Holds

variable {c : Column} (h : s.Holds valid starts) (small : stop ≤ maxOffset)
  (offset : c.offset = 0) (len : c.len = valid.length)
  (second : c.buffer? 1 = some (s.finish stop).2.1)
include h

theorem words_finish : (s.finish stop).2.1.bytes = NumBuilder.wordBytes 4 (starts ++ [stop]) := by
  have written : (s.finish stop).2.1 = (s.offsets.append (Bytes.ofNat 4 stop)).freeze := rfl
  rw [written, GrowBuffer.freeze, GrowBuffer.bytes_append h.fits, h.words, Bytes.wordBytes_append,
    Bytes.wordBytes_singleton]

/-- The bytes that are handed out are those that are held. -/
theorem bytes_finish {s' : Spans} (h' : s'.Holds valid starts) (stop : Nat) :
    (s.finish stop).1.map Buffer.bytes = (s'.finish stop).1.map Buffer.bytes ∧
      (s.finish stop).2.1.bytes = (s'.finish stop).2.1.bytes :=
  ⟨h.slots.bytes_finish h'.slots, h.words_finish.trans h'.words_finish.symm⟩

include offset len second

theorem bufferFits_of_finish (ho : c.type.hasOffsets = true) : c.BufferFits 1 (.fixedWidth 4) := by
  refine ⟨_, second, ?_⟩
  rw [if_pos ⟨ho, rfl⟩, Buffer.size, h.words_finish, Bytes.size_wordBytes, List.length_append,
    h.count, offset, len]
  right
  simp

include small

theorem offsetAt_of_finish {i : Nat} (hi : i ≤ c.len) :
    c.offsetAt i = (starts ++ [stop]).getD i 0 := by
  have inside : i < (starts ++ [stop]).length := by
    rw [List.length_append, h.count, List.length_singleton]
    omega
  have bounded : (starts ++ [stop])[i] ≤ maxOffset := by
    rcases List.mem_append.1 (List.getElem_mem inside) with mem | mem
    · exact h.small _ mem
    · rw [List.mem_singleton.1 mem]
      exact small
  rw [Column.offsetAt, Column.wordAt_of_some second, offset, Nat.zero_add, h.words_finish,
    Bytes.wordAt_wordBytes inside, offsetValue_of_le bounded, List.getD_eq_getElem _ _ inside]

theorem firstRow_of_finish {i : Nat} (hi : i ≤ c.len) :
    c.firstRow i = (starts ++ [stop]).getD i 0 := by
  rw [Column.firstRow, h.offsetAt_of_finish small offset len second hi, Int.toNat_natCast]

/-- **The offsets of a finished column fit exactly where they do not decrease.** -/
theorem offsetsFit_iff (bound : c.offsetBound = stop) :
    c.OffsetsFit ↔ (starts ++ [stop]).IsChain (· ≤ ·) := by
  have count : (starts ++ [stop]).length = c.len + 1 := by
    rw [List.length_append, h.count, len, List.length_singleton]
  have at_ (i : Nat) (hi : i < (starts ++ [stop]).length) :
      c.offsetAt i = ((starts ++ [stop])[i] : Nat) := by
    rw [h.offsetAt_of_finish small offset len second (by omega), List.getD_eq_getElem _ _ hi]
  rw [List.isChain_iff_getElem]
  constructor
  · intro fits i hi
    have ordered := fits.ordered i (by omega)
    rw [at_ i (by omega), at_ (i + 1) hi] at ordered
    exact Int.ofNat_le.1 ordered
  · intro chain
    refine ⟨?_, ?_, ?_⟩
    · rw [at_ 0 (by omega)]
      exact Int.natCast_nonneg _
    · intro i hi
      rw [at_ i (by omega), at_ (i + 1) (by omega)]
      exact Int.ofNat_le.2 (chain i (by omega))
    · rw [h.offsetAt_of_finish small offset len second (Nat.le_refl _), bound, len, ← h.count,
        List.getD_append_right _ _ _ _ (Nat.le_refl _), Nat.sub_self]
      exact Int.le_refl _

end Holds

end

end Spans

end Columnar
