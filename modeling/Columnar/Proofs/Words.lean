import Columnar.Bits
import Mathlib.Algebra.Order.Ring.Int
import Mathlib.Tactic.SplitIfs

/-!
# Words in byte regions

Reading a word or a window of words inside the region goes through, and the numbers that come out
are bounded by the width of the word.  Two windows of words hold the same bytes exactly when they
hold the same words (`Bytes.extract_eq_iff`), so that runs of values can be compared at once.
-/

namespace Columnar

/-! ### Bits -/

theorem bytesFor_le_iff {bits n : Nat} : bytesFor bits ≤ n ↔ bits ≤ 8 * n := by
  unfold bytesFor; omega

namespace Bytes

variable {b b' : Bytes} {width i j n : Nat}

theorem bit_eq (h : i < 8 * b.size) : b.bit i = .ok (b.testBit i) := by
  rw [bit, if_pos (by omega)]

/-- The clear bits of a window are those that are not set. -/
theorem sub_ones (b : Bytes) (offset len : Nat) :
    len - b.ones offset len = (List.range len).countP fun i => !b.testBit (offset + i) := by
  have h := List.length_eq_countP_add_countP (fun i => b.testBit (offset + i)) (l := List.range len)
  rw [List.length_range] at h
  simp only [ones, Bool.not_eq_true, Bool.decide_eq_false] at h ⊢
  omega

/-! ### Reading words -/

theorem wordRange_mono {w w' : Nat} (h : w ≤ w') : wordRange w ≤ wordRange w' :=
  Nat.pow_le_pow_right (by decide) h

theorem littleEndian_lt (l : List UInt8) : littleEndian l < wordRange l.length := by
  induction l with
  | nil => decide
  | cons x l ih =>
    have := x.toNat_lt
    rw [littleEndian, List.length_cons, wordRange_succ]
    omega

theorem littleEndian_inj {l l' : List UInt8} (hl : l.length = l'.length)
    (h : littleEndian l = littleEndian l') : l = l' := by
  induction l generalizing l' with
  | nil => exact (List.length_eq_zero_iff.1 hl.symm).symm
  | cons x l ih =>
    cases l' with
    | nil => simp at hl
    | cons y l' =>
      have hx := x.toNat_lt
      have hy := y.toNat_lt
      simp only [littleEndian] at h
      have hxy : x = y := UInt8.toNat_inj.1 (by omega)
      rw [hxy, ih (by simpa using hl) (by omega)]

theorem wordAt_lt (b : Bytes) (width i : Nat) : b.wordAt width i < wordRange width := by
  refine Nat.lt_of_lt_of_le (littleEndian_lt _) (wordRange_mono ?_)
  rw [Array.length_toList, Array.size_extract, Nat.succ_mul]
  omega

theorem wordAt_of_size_eq_zero (h : b.size = 0) : b.wordAt width i = 0 := by
  rw [Array.eq_empty_of_size_eq_zero h]
  simp [wordAt, littleEndian]

theorem wordWindow_eq (hw : 0 < width) (h : (i + n) * width ≤ b.size) :
    b.wordWindow width i (i + n) = .ok ⟨b, width, i, n⟩ := by
  have fits : i + n ≤ b.wordCount width := (Nat.le_div_iff_mul_le hw).2 h
  rw [wordWindow, if_pos ⟨by omega, fits⟩, Nat.add_sub_cancel_left]

theorem window_eq (h : i ≤ j) (hj : j ≤ b.size) : b.window i j = .ok (b.extract i j) := by
  rw [window, if_pos ⟨h, hj⟩]

/-! ### Comparing words -/

/-- Two words are the same number exactly when they are the same bytes. -/
theorem wordAt_eq_iff (h : (i + 1) * width ≤ b.size) (h' : (j + 1) * width ≤ b'.size) :
    b.wordAt width i = b'.wordAt width j ↔
      b.extract (i * width) ((i + 1) * width) = b'.extract (j * width) ((j + 1) * width) := by
  constructor
  · intro e
    rw [← Array.toList_inj]
    refine littleEndian_inj ?_ e
    simp only [Array.length_toList, Array.size_extract, Nat.succ_mul] at *
    omega
  · intro e
    rw [wordAt, e, wordAt]

theorem extract_succ (b : Bytes) (width i n : Nat) :
    b.extract (i * width) ((i + (n + 1)) * width) =
      b.extract (i * width) ((i + n) * width)
        ++ b.extract ((i + n) * width) ((i + n + 1) * width) := by
  rw [Array.extract_append_extract, Nat.min_eq_left (Nat.mul_le_mul_right _ (by omega)),
    Nat.max_eq_right (Nat.mul_le_mul_right _ (by omega)), Nat.add_assoc]

/-- **Two windows of words hold the same bytes exactly when they hold the same words.** -/
theorem extract_eq_iff (h : (i + n) * width ≤ b.size) (h' : (j + n) * width ≤ b'.size) :
    b.extract (i * width) ((i + n) * width) = b'.extract (j * width) ((j + n) * width) ↔
      ∀ k, k < n → b.wordAt width (i + k) = b'.wordAt width (j + k) := by
  induction n with
  | zero =>
    rw [Nat.add_zero, Nat.add_zero, Array.extract_empty_of_stop_le_start (Nat.le_refl _),
      Array.extract_empty_of_stop_le_start (Nat.le_refl _)]
    simp
  | succ n ih =>
    have low : (i + n) * width ≤ b.size := by rw [← Nat.add_assoc, Nat.succ_mul] at h; omega
    have low' : (j + n) * width ≤ b'.size := by rw [← Nat.add_assoc, Nat.succ_mul] at h'; omega
    have sizes : (b.extract (i * width) ((i + n) * width)).size =
        (b'.extract (j * width) ((j + n) * width)).size := by
      simp only [Array.size_extract, Nat.add_mul] at *
      omega
    -- the first `n` words take as many bytes on both sides, so the last ones are aligned
    rw [extract_succ b, extract_succ b']
    constructor
    · intro e k hlt
      obtain ⟨front, last⟩ := Array.append_inj e sizes
      rcases Nat.lt_succ_iff_lt_or_eq.1 hlt with hlt | rfl
      · exact (ih low low').1 front k hlt
      · exact (wordAt_eq_iff h h').2 last
    · intro hk
      have front := (ih low low').2 fun k hlt => hk k (by omega)
      have last := (wordAt_eq_iff (i := i + n) (j := j + n) h h').1 (hk n (by omega))
      rw [front, last]

end Bytes

namespace WordRun

theorem get_eq {r : WordRun} {i : Nat} (h : i < r.count) :
    r.get i = .ok (r.bytes.wordAt r.width (r.start + i)) := by
  rw [get, if_pos h]

end WordRun

/-! ### Numbers -/

theorem IntType.toInt_le (t : IntType) (word : Nat) : t.toInt word ≤ word := by
  rw [IntType.toInt]
  split_ifs <;> omega

theorem IntType.width_le (t : IntType) : t.width ≤ 8 := by cases t <;> decide

theorem IntType.width_pos (t : IntType) : 0 < t.width := by cases t <;> decide

/-- Values of words fit into 64 bits. -/
theorem IntType.toInt_wordAt_lt (t : IntType) (b : Bytes) (i : Nat) :
    t.toInt (b.wordAt t.width i) < 2 ^ 64 := by
  have bound : b.wordAt t.width i < 2 ^ 64 :=
    Nat.lt_of_lt_of_le (b.wordAt_lt _ _) (Bytes.wordRange_mono t.width_le)
  have := t.toInt_le (b.wordAt t.width i)
  omega

theorem unsigned64_of_nonneg {v : Int} (h : 0 ≤ v) (hv : v < 2 ^ 64) : unsigned64 v = v.toNat := by
  rw [unsigned64, Int.emod_eq_of_lt h (show v < (Bytes.wordRange 8 : Int) from hv)]

/-- A number read as a signed one of 64 bits is not above itself. -/
theorem bmod_le (n : Nat) : Int.bmod n (Bytes.wordRange 8) ≤ n := by
  have wide : (Bytes.wordRange 8 : Int) = 18446744073709551616 := rfl
  rw [Int.bmod_def, wide]
  split <;> omega

theorem bmod_eq_of_lt {n : Nat} (h : n < 2 ^ 63) : Int.bmod n (Bytes.wordRange 8) = n := by
  have wide : (Bytes.wordRange 8 : Int) = 18446744073709551616 := rfl
  rw [Int.bmod_def, wide]
  split <;> omega

end Columnar
