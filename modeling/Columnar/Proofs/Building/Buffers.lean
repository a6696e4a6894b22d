import Columnar.Memory.Buffer
import Columnar.Proofs.Words

/-!
# Buffers being written, as byte sequences

The visible bytes of a `GrowBuffer` lie inside its region (`GrowBuffer.Fits`), and every operation
keeps them there.  One lemma for each operation tells the visible bytes after it in terms of those
before it: making room changes nothing, `append` adds at the end, `resize` cuts off or fills up.

Bits are told one by one (`Bytes.testBit_putBit`, `GrowBuffer.testBit_putBits`).
-/

namespace Columnar

/-! ### Bits -/

namespace Bytes

variable {b : Bytes} {i j : Nat}

theorem testBit_of_size_le (h : 8 * b.size ≤ i) : b.testBit i = false := by
  have outside : b[i / 8]? = none := Array.getElem?_eq_none (by omega)
  rw [testBit, outside]
  exact Nat.zero_testBit _

theorem toNat_bitMask : ∀ k < 8, (bitMask k).toNat = 2 ^ k := by decide

theorem testBit_not_bitMask :
    ∀ k < 8, ∀ m < 8, (~~~ bitMask k).toNat.testBit m = !decide (m = k) := by decide

/-- Setting or clearing a bit of a byte leaves the other bits alone. -/
theorem testBit_put (x : UInt8) {k m : Nat} (hk : k < 8) (hm : m < 8) (v : Bool) :
    (if v then x ||| bitMask k else x &&& ~~~ bitMask k).toNat.testBit m =
      if m = k then v else x.toNat.testBit m := by
  cases v with
  | true =>
    rw [if_pos rfl, UInt8.toNat_or, Nat.testBit_or, toNat_bitMask k hk, Nat.testBit_two_pow]
    by_cases same : m = k
    · simp [same]
    · simp [same, Ne.symm same]
  | false =>
    rw [if_neg Bool.false_ne_true, UInt8.toNat_and, Nat.testBit_and,
      testBit_not_bitMask k hk m hm]
    by_cases same : m = k <;> simp [same]

theorem testBit_putBit (v : Bool) (h : i < 8 * b.size) :
    (b.putBit i v).testBit j = if j = i then v else b.testBit j := by
  have inside : i / 8 < b.size := by omega
  rw [testBit, putBit, Array.getElem?_modify]
  by_cases byte : i / 8 = j / 8
  · rw [if_pos byte, testBit, ← byte, Array.getElem?_eq_getElem inside]
    simp only [Option.map_some, Option.getD_some]
    rw [testBit_put _ (Nat.mod_lt _ (by decide)) (Nat.mod_lt _ (by decide))]
    by_cases same : j = i
    · rw [if_pos same, if_pos (by rw [same])]
    · rw [if_neg same, if_neg (by omega)]
  · rw [if_neg byte, if_neg (by rintro rfl; exact byte rfl), testBit]

theorem testBit_append_zeros (b : Bytes) (n i : Nat) :
    (b ++ Array.replicate n 0).testBit i = b.testBit i := by
  rw [testBit, testBit, Array.getElem?_append]
  split
  · rfl
  · next outside =>
    rw [Array.getElem?_eq_none (Nat.le_of_not_lt outside), Array.getElem?_replicate]
    split <;> rfl

theorem testBit_extract (b : Bytes) {n : Nat} (h : i < 8 * n) :
    Bytes.testBit (b.extract 0 n) i = b.testBit i := by
  have inside : i / 8 < n := by omega
  rw [testBit, testBit, Array.getElem?_extract]
  simp only [Nat.zero_add, Nat.sub_zero]
  by_cases short : i / 8 < b.size
  · rw [if_pos (by omega)]
  · rw [if_neg (by omega), Array.getElem?_eq_none (Nat.le_of_not_lt short)]

/-- Regions of one size with the same bits are the same. -/
theorem ext_testBit {b c : Bytes} (size : b.size = c.size)
    (bits : ∀ i, b.testBit i = c.testBit i) : b = c := by
  refine Array.ext size fun k hb hc => UInt8.toNat_inj.1 (Nat.eq_of_testBit_eq fun m => ?_)
  by_cases low : m < 8
  · have bit := bits (8 * k + m)
    rwa [testBit, testBit, show (8 * k + m) / 8 = k by omega, show (8 * k + m) % 8 = m by omega,
      Array.getElem?_eq_getElem hb, Array.getElem?_eq_getElem hc] at bit
  · have high (v : UInt8) : v.toNat.testBit m = false :=
      Nat.testBit_lt_two_pow (Nat.lt_of_lt_of_le v.toNat_lt (Nat.pow_le_pow_right (by decide)
        (Nat.le_of_not_lt low)))
    rw [high, high]

/-! ### Overwriting -/

theorem overwrite_toList (b : Bytes) (i : Nat) (src : List UInt8) (h : i + src.length ≤ b.size) :
    (b.overwrite i src).toList = b.toList.take i ++ (src ++ b.toList.drop (i + src.length)) := by
  induction src generalizing b i with
  | nil => simp [overwrite]
  | cons x src ih =>
    rw [List.length_cons] at h
    have inside : i < b.toList.length := by rw [Array.length_toList]; omega
    have front : (b.toList.set i x).take (i + 1) = b.toList.take i ++ [x] := by
      rw [List.take_add_one, List.take_set_of_le (Nat.le_refl i), List.getElem?_set_self inside]
      rfl
    rw [overwrite, ih _ _ (by rw [Array.size_setIfInBounds]; omega), Array.toList_setIfInBounds,
      front, List.drop_set_of_lt (by omega), List.length_cons, List.append_assoc,
      Nat.add_assoc, Nat.add_comm 1]
    rfl

theorem fill_eq_overwrite (b : Bytes) (i : Nat) (v : UInt8) (n : Nat) :
    b.fill i v n = b.overwrite i (List.replicate n v) := by
  induction n generalizing b i with
  | zero => rfl
  | succ n ih => rw [fill, ih, List.replicate_succ, overwrite]

end Bytes

theorem le_roundUp (n : Nat) : n ≤ roundUp n := by
  rw [roundUp, Sizes.fit_unbounded, alignment]
  omega

/-! ### Visible bytes -/

namespace GrowBuffer

variable {b : GrowBuffer} {n : Nat}

/-- The visible bytes lie inside the region. -/
def Fits (b : GrowBuffer) : Prop := b.len ≤ b.region.size

theorem size_bytes (h : b.Fits) : b.bytes.size = b.len := by
  rw [bytes, Array.size_extract, Nat.sub_zero, Nat.min_eq_left h]

theorem fits_empty (tracked : Bool) : (empty tracked).Fits := Nat.le_refl 0

theorem fits_of_len_zero (none : b.len = 0) : b.Fits :=
  Nat.le_trans (Nat.le_of_eq none) (Nat.zero_le _)

theorem bytes_of_len_zero (none : b.len = 0) : b.bytes = #[] := by
  rw [bytes, none]
  exact Array.extract_empty_of_stop_le_start (Nat.le_refl 0)

theorem fits_make (capacity : Nat) (tracked : Bool) : (make capacity tracked).Fits := Nat.zero_le _

theorem bytes_make (capacity : Nat) (tracked : Bool) : (make capacity tracked).bytes = #[] :=
  bytes_of_len_zero rfl

/-! ### Making room -/

theorem le_reallocated (b : GrowBuffer) (n : Nat) : max n b.len ≤ b.reallocated n := le_roundUp _

theorem extract_resized (r : Bytes) {len target : Nat} (h : len ≤ r.size) (ht : len ≤ target) :
    (r.resized target).extract 0 len = r.extract 0 len := by
  apply Array.toList_inj.1
  simp only [Bytes.resized, Array.toList_extract, List.extract, Nat.sub_zero, List.drop_zero,
    Array.toList_append]
  rw [List.take_append_of_le_length, List.take_take, Nat.min_eq_left ht]
  rw [List.length_take, Array.length_toList]
  omega

theorem fits_reallocate (h : b.Fits) (n : Nat) : (b.reallocate n).Fits := by
  rw [reallocate]
  split
  · exact h
  · have := b.le_reallocated n
    show b.len ≤ (b.region.resized (b.reallocated n)).size
    rw [Bytes.size_resized]
    omega

@[simp] theorem len_reallocate (b : GrowBuffer) (n : Nat) (sizes : Sizes := .unbounded) :
    (b.reallocate n sizes).len = b.len := by
  rw [reallocate]
  split <;> rfl

theorem bytes_reallocate (h : b.Fits) (n : Nat) : (b.reallocate n).bytes = b.bytes := by
  rw [reallocate]
  split
  · rfl
  · have := b.le_reallocated n
    exact extract_resized b.region h (Nat.le_trans (Nat.le_max_right n b.len) this)

@[simp] theorem tracked_reallocate (b : GrowBuffer) (n : Nat) (sizes : Sizes := .unbounded) :
    (b.reallocate n sizes).tracked = b.tracked := by
  rw [reallocate]
  split <;> rfl

theorem fits_reserve (h : b.Fits) (n : Nat) : (b.reserve n).Fits := by
  rw [reserve]
  split
  · exact fits_reallocate h _
  · exact h

@[simp] theorem len_reserve (b : GrowBuffer) (n : Nat) (sizes : Sizes := .unbounded) :
    (b.reserve n sizes).len = b.len := by
  rw [reserve]
  split
  · exact len_reallocate b _ sizes
  · rfl

theorem bytes_reserve (h : b.Fits) (n : Nat) : (b.reserve n).bytes = b.bytes := by
  rw [reserve]
  split
  · exact bytes_reallocate h _
  · rfl

/-- There is room for as many bytes as have been reserved. -/
theorem room_reserve (b : GrowBuffer) (n : Nat) : b.len + n ≤ (b.reserve n).region.size := by
  show b.len + n ≤ (b.reserve n).capacity
  rw [capacity_reserve, reserved, Sizes.fit_unbounded]
  split
  · have := b.le_reallocated (max (roundUp (b.len + n)) (b.capacity * 2))
    have := le_roundUp (b.len + n)
    omega
  · omega

/-! ### Writing -/

theorem fits_append (b : GrowBuffer) (src : Bytes) : (b.append src).Fits := by
  show (b.reserve src.size).len + src.size ≤
    ((b.reserve src.size).region.overwrite (b.reserve src.size).len src.toList).size
  rw [Bytes.size_overwrite, len_reserve]
  exact b.room_reserve src.size

@[simp] theorem len_append (b : GrowBuffer) (src : Bytes) :
    (b.append src).len = b.len + src.size := by
  show (b.reserve src.size).len + src.size = _
  rw [len_reserve]

theorem bytes_append (h : b.Fits) (src : Bytes) : (b.append src).bytes = b.bytes ++ src := by
  have room := b.room_reserve src.size
  rw [← bytes_reserve h src.size, bytes, bytes, len_append, append, len_reserve]
  apply Array.toList_inj.1
  simp only [Array.toList_append, Array.toList_extract, List.extract, Nat.sub_zero, List.drop_zero]
  rw [Bytes.overwrite_toList _ _ _ (by rw [Array.length_toList]; exact room),
    ← List.append_assoc, List.take_left']
  rw [List.length_append, List.length_take, Array.length_toList, Array.length_toList]
  omega

theorem fits_resize (h : b.Fits) (n : Nat) (v : UInt8) : (b.resize n v).Fits := by
  rw [resize]
  split
  · have := b.room_reserve (n - b.len)
    show n ≤ ((b.reserve (n - b.len)).region.fill b.len v (n - b.len)).size
    rw [Bytes.size_fill]
    omega
  · next shrinks => exact Nat.le_trans (Nat.le_of_not_lt shrinks) h

@[simp] theorem len_resize (b : GrowBuffer) (n : Nat) (v : UInt8) : (b.resize n v).len = n := by
  rw [resize]
  split <;> rfl

theorem bytes_resize (h : b.Fits) (n : Nat) (v : UInt8) :
    (b.resize n v).bytes = b.bytes.extract 0 n ++ Array.replicate (n - b.len) v := by
  have size := size_bytes h
  rw [resize]
  split
  · next grows =>
    have room := b.room_reserve (n - b.len)
    rw [Array.extract_eq_self_of_le (by omega), ← bytes_reserve h (n - b.len), bytes, bytes,
      len_reserve]
    simp only [Bytes.fill_eq_overwrite]
    apply Array.toList_inj.1
    simp only [Array.toList_append, Array.toList_extract, List.extract, Nat.sub_zero,
      List.drop_zero, Array.toList_replicate]
    rw [Bytes.overwrite_toList _ _ _ (by rw [List.length_replicate]; exact room),
      ← List.append_assoc, List.take_left']
    rw [List.length_append, List.length_take, Array.length_toList, List.length_replicate]
    omega
  · next shrinks =>
    rw [show n - b.len = 0 by omega, Array.replicate_zero, Array.append_empty, bytes, bytes,
      Array.extract_extract, Nat.zero_add, Nat.zero_add, Nat.min_eq_left (by omega)]

theorem fits_truncate (h : b.Fits) (n : Nat) : (b.truncate n).Fits := by
  rw [truncate]
  split
  · next shorter => exact Nat.le_trans (Nat.le_of_lt shorter) h
  · exact h

theorem len_truncate (b : GrowBuffer) (n : Nat) : (b.truncate n).len = min n b.len := by
  rw [truncate]
  split
  · next shorter => exact (Nat.min_eq_left (Nat.le_of_lt shorter)).symm
  · next longer => exact (Nat.min_eq_right (Nat.le_of_not_lt longer)).symm

theorem bytes_truncate (h : b.Fits) (n : Nat) : (b.truncate n).bytes = b.bytes.extract 0 n := by
  have size := size_bytes h
  rw [truncate]
  split
  · rw [bytes, bytes, Array.extract_extract, Nat.zero_add, Nat.zero_add,
      Nat.min_eq_left (by omega)]
  · rw [Array.extract_eq_self_of_le (by omega)]

/-! ### Setting bits -/

theorem fits_putBit (h : b.Fits) (i : Nat) (v : Bool) : (b.putBit i v).Fits := by
  rw [putBit]
  split
  · rw [Fits, Bytes.size_putBit]
    exact h
  · exact h

@[simp] theorem len_putBit (b : GrowBuffer) (i : Nat) (v : Bool) : (b.putBit i v).len = b.len := by
  rw [putBit]
  split <;> rfl

theorem testBit_bytes (b : GrowBuffer) {i : Nat} (hi : i < 8 * b.len) :
    b.bytes.testBit i = b.region.testBit i := Bytes.testBit_extract _ hi

theorem testBit_bytes_putBit (h : b.Fits) {i : Nat} (hi : i < 8 * b.len) (v : Bool) (j : Nat) :
    (b.putBit i v).bytes.testBit j = if j = i then v else b.bytes.testBit j := by
  have size := size_bytes h
  have size' := size_bytes (fits_putBit h i v)
  rw [len_putBit] at size'
  by_cases hj : j < 8 * b.len
  · have inside : i < 8 * b.region.size := Nat.lt_of_lt_of_le hi (Nat.mul_le_mul_left 8 h)
    rw [testBit_bytes _ (by rw [len_putBit]; exact hj), testBit_bytes _ hj, putBit,
      if_pos (by omega)]
    exact Bytes.testBit_putBit v inside
  · rw [Bytes.testBit_of_size_le (by omega), Bytes.testBit_of_size_le (by omega),
      if_neg (by omega)]

theorem fits_putBits (h : b.Fits) (i : Nat) (v : Bool) (n : Nat) : (b.putBits i v n).Fits := by
  induction n generalizing b i with
  | zero => exact h
  | succ n ih => exact ih (fits_putBit h i v) (i + 1)

@[simp] theorem len_putBits (b : GrowBuffer) (i : Nat) (v : Bool) (n : Nat) :
    (b.putBits i v n).len = b.len := by
  induction n generalizing b i with
  | zero => rfl
  | succ n ih => rw [putBits, ih, len_putBit]

theorem testBit_bytes_putBits (h : b.Fits) {i n : Nat} (hi : i + n ≤ 8 * b.len) (v : Bool)
    (j : Nat) :
    (b.putBits i v n).bytes.testBit j =
      if i ≤ j ∧ j < i + n then v else b.bytes.testBit j := by
  induction n generalizing b i with
  | zero => rw [putBits, if_neg (by omega)]
  | succ n ih =>
    rw [putBits, ih (fits_putBit h i v) (by rw [len_putBit]; omega),
      testBit_bytes_putBit h (by omega)]
    split_ifs <;> first | rfl | omega

end GrowBuffer

end Columnar
