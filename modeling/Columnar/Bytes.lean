import Columnar.Fault

/-!
# Byte regions and little-endian words

A region is a sequence of bytes.  It can also be read as words of a fixed width, least significant
byte first; bytes after the last whole word are ignored.  Writing a word and reading it back gives
the word (`Bytes.wordAt_ofNat`).
-/

namespace Columnar

/-- A sequence of bytes. -/
abbrev Bytes := Array UInt8

namespace Bytes

/-- `n` zero bytes. -/
def zeros (n : Nat) : Bytes := Array.replicate n 0

/-- The bytes from `start` up to `stop`. -/
def window (b : Bytes) (start stop : Nat) : Except Fault Bytes :=
  if start ≤ stop ∧ stop ≤ b.size then .ok (b.extract start stop) else .error .outOfRange

/-- The first `n` bytes, filled up with zeros. -/
def resized (b : Bytes) (n : Nat) : Bytes := b.extract 0 n ++ zeros (n - b.size)

theorem size_zeros (n : Nat) : (zeros n).size = n := by simp [zeros]

theorem size_resized (b : Bytes) (n : Nat) : (b.resized n).size = n := by
  simp [resized, zeros]; omega

/-! ### Words -/

/-- The number whose digits to the base 256 are the bytes, least significant first. -/
def littleEndian : List UInt8 → Nat
  | [] => 0
  | b :: bs => b.toNat + 256 * littleEndian bs

/-- The lowest `width` digits of `n` to the base 256, least significant first. -/
def digits : (width n : Nat) → List UInt8
  | 0, _ => []
  | width + 1, n => UInt8.ofNat n :: digits width (n / 256)

/-- The word `n` of `width` bytes; higher digits are dropped. -/
def ofNat (width n : Nat) : Bytes := (digits width n).toArray

/-- Number of different words of `width` bytes. -/
def wordRange (width : Nat) : Nat := Nat.pow 256 width

/-- Number of whole words of `width` bytes. -/
def wordCount (b : Bytes) (width : Nat) : Nat := b.size / width

/-- The word of `width` bytes at word position `i`. -/
def wordAt (b : Bytes) (width i : Nat) : Nat :=
  littleEndian (b.extract (i * width) ((i + 1) * width)).toList

@[simp] theorem length_digits (width n : Nat) : (digits width n).length = width := by
  induction width generalizing n with
  | zero => rfl
  | succ w ih => simp [digits, ih]

theorem size_ofNat (width n : Nat) : (ofNat width n).size = width := by simp [ofNat]

theorem wordRange_succ (width : Nat) : wordRange (width + 1) = 256 * wordRange width :=
  Nat.mul_comm _ _

theorem littleEndian_digits (width n : Nat) :
    littleEndian (digits width n) = n % wordRange width := by
  induction width generalizing n with
  | zero => exact (Nat.mod_one n).symm
  | succ w ih =>
    have low : (UInt8.ofNat n).toNat = n % 256 := by simp
    rw [digits, littleEndian, ih, low, wordRange_succ, Nat.mod_mul]

theorem wordAt_ofNat (width n : Nat) (h : n < wordRange width) :
    (ofNat width n).wordAt width 0 = n := by
  have e : (ofNat width n).extract 0 width = ofNat width n := by
    rw [Array.extract_eq_self_of_le]; simp [size_ofNat]
  simp only [wordAt, Nat.zero_mul, Nat.zero_add, Nat.one_mul, e]
  simp [ofNat, littleEndian_digits, Nat.mod_eq_of_lt h]

end Bytes

/-- A run of words inside a region: `count` words of `width` bytes from word position `start`. -/
structure WordRun where
  bytes : Bytes
  width : Nat
  start : Nat
  count : Nat

namespace WordRun

/-- No words at all. -/
def empty (width : Nat) : WordRun := ⟨#[], width, 0, 0⟩

/-- The word at position `i` of the run. -/
def get (r : WordRun) (i : Nat) : Except Fault Nat :=
  if i < r.count then .ok (r.bytes.wordAt r.width (r.start + i)) else .error .outOfRange

/-- The words in order. -/
def toList (r : WordRun) : List Nat :=
  (List.range r.count).map fun i => r.bytes.wordAt r.width (r.start + i)

end WordRun

namespace Bytes

/-- All whole words. -/
def words (b : Bytes) (width : Nat) : WordRun := ⟨b, width, 0, b.wordCount width⟩

/-- The words from position `start` up to `stop`. -/
def wordWindow (b : Bytes) (width start stop : Nat) : Except Fault WordRun :=
  if start ≤ stop ∧ stop ≤ b.wordCount width then .ok ⟨b, width, start, stop - start⟩
  else .error .outOfRange

/-- The region with the bytes from position `i` on replaced by `src`; nothing is written past the
end. -/
def overwrite (b : Bytes) (i : Nat) (src : List UInt8) : Bytes :=
  match src with
  | [] => b
  | x :: rest => overwrite (b.setIfInBounds i x) (i + 1) rest

/-- The region with the `n` bytes from position `i` on equal to `v`; nothing is written past the
end. -/
def fill (b : Bytes) (i : Nat) (v : UInt8) : (n : Nat) → Bytes
  | 0 => b
  | n + 1 => fill (b.setIfInBounds i v) (i + 1) v n

theorem size_overwrite (b : Bytes) (i : Nat) (src : List UInt8) :
    (b.overwrite i src).size = b.size := by
  induction src generalizing b i with
  | nil => rfl
  | cons x rest ih => simp [overwrite, ih]

theorem size_fill (b : Bytes) (i : Nat) (v : UInt8) (n : Nat) : (b.fill i v n).size = b.size := by
  induction n generalizing b i with
  | zero => rfl
  | succ n ih => simp [fill, ih]

end Bytes

/-! ### Numbers -/

namespace IntType

/-- The word of `v`, in two's complement. -/
def ofInt (t : IntType) (v : Int) : Nat := (v % Bytes.wordRange t.width).toNat

/-- The value of a word. -/
def toInt (t : IntType) (word : Nat) : Int :=
  if t.signed ∧ Bytes.wordRange t.width ≤ 2 * word then (word : Int) - Bytes.wordRange t.width
  else word

end IntType

/-- The number of the 64 bits that represent `v` in two's complement. -/
def unsigned64 (v : Int) : Nat := (v % Bytes.wordRange 8).toNat

/-- The signed value of a word of four bytes, as offsets are stored. -/
def offsetValue (word : Nat) : Int := IntType.int32.toInt word

end Columnar
