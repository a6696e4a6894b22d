import Columnar.Sizes

/-!
# Packed bits

Bit `i` of a region is bit `i % 8` of byte `i / 8`, least significant bit first.  `Bytes.testBit`
is the meaning of a bit (clear past the end); `Bytes.bit`, `Bytes.setBit` and `Bytes.clearBit` fail
past the end.  `Bytes.countBits` counts whole bytes at once, `Bytes.countEach` bit by bit; inside
the region both give the number of set bits, `Bytes.ones` (`Bytes.countEach_eq`,
`Bytes.countBits_eq`).
-/

namespace Columnar

/-- Bytes needed for `bits` bits. -/
def bytesFor (bits : Nat) : Nat := (bits + 7) / 8

namespace Bytes

/-- Bit `i`, clear past the end. -/
def testBit (b : Bytes) (i : Nat) : Bool := (b[i / 8]?.getD 0).toNat.testBit (i % 8)

/-- Bit `i`. -/
def bit (b : Bytes) (i : Nat) : Except Fault Bool :=
  if i / 8 < b.size then .ok (b.testBit i) else .error .outOfRange

/-- The byte whose only set bit is bit `k`. -/
def bitMask (k : Nat) : UInt8 := 1 <<< UInt8.ofNat k

/-- The region with bit `i` set or cleared; nothing changes past the end. -/
def putBit (b : Bytes) (i : Nat) (v : Bool) : Bytes :=
  b.modify (i / 8) fun x =>
    if v then x ||| bitMask (i % 8) else x &&& ~~~ bitMask (i % 8)

def setBit (b : Bytes) (i : Nat) : Except Fault Bytes :=
  if i / 8 < b.size then .ok (b.putBit i true) else .error .outOfRange

def clearBit (b : Bytes) (i : Nat) : Except Fault Bytes :=
  if i / 8 < b.size then .ok (b.putBit i false) else .error .outOfRange

@[simp] theorem size_putBit (b : Bytes) (i : Nat) (v : Bool) : (b.putBit i v).size = b.size := by
  simp [putBit]

/-! ### Counting -/

/-- Number of set bits among the `len` bits from `offset` on; bits past the end are clear. -/
def ones (b : Bytes) (offset len : Nat) : Nat :=
  (List.range len).countP fun i => b.testBit (offset + i)

/-- Number of set bits of a byte. -/
def popCount (x : UInt8) : Nat := (List.range 8).countP x.toNat.testBit

/-- Number of set bits among the `n` bits from `i` on, added to `sum`. -/
def countEach (b : Bytes) (i : Nat) (sum : Nat) : (n : Nat) → Except Fault Nat
  | 0 => .ok sum
  | n + 1 => do
    let v ← b.bit i
    countEach b (i + 1) (if v then sum + 1 else sum) n

/-- Number of set bits among the `len` bits from `offset` on.  Whole bytes are counted at once, the
bits before and after them one by one. -/
def countBits (b : Bytes) (offset len : Nat) (sizes : Sizes := .unbounded) : Except Fault Nat :=
  let stop := sizes.fit (offset + len)
  let firstWhole := bytesFor offset
  let lastWhole := stop / 8
  if len = 0 then .ok 0
  else if lastWhole ≤ firstWhole then b.countEach offset 0 (stop - offset)
  else do
    let before ← b.countEach offset 0 (firstWhole * 8 - offset)
    let body ← b.window firstWhole lastWhole
    let after ← b.countEach (lastWhole * 8) 0 (stop - lastWhole * 8)
    return before + body.foldl (fun sum x => sum + popCount x) 0 + after

/-! ### What is counted -/

theorem ones_zero (b : Bytes) (offset : Nat) : b.ones offset 0 = 0 := rfl

theorem ones_add (b : Bytes) (offset m n : Nat) :
    b.ones offset (m + n) = b.ones offset m + b.ones (offset + m) n := by
  simp only [ones, List.range_add, List.countP_append, List.countP_map]
  congr 2
  funext i
  simp [Nat.add_assoc]

theorem ones_succ (b : Bytes) (offset n : Nat) :
    b.ones offset (n + 1) = (b.testBit offset).toNat + b.ones (offset + 1) n := by
  rw [Nat.add_comm n 1, ones_add]
  rfl

theorem countEach_eq (b : Bytes) (i sum n : Nat) (h : n = 0 ∨ i + n ≤ 8 * b.size) :
    b.countEach i sum n = .ok (sum + b.ones i n) := by
  induction n generalizing i sum with
  | zero => simp [countEach, ones_zero]
  | succ n ih =>
    have hi : i / 8 < b.size := by omega
    simp only [countEach, bit, hi, if_true, bind, Except.bind]
    rw [ih _ _ (by omega), ones_succ]
    cases b.testBit i
    · simp
    · simp; omega

theorem popCount_eq (b : Bytes) (k : Nat) (h : k < b.size) : popCount b[k] = b.ones (8 * k) 8 := by
  simp only [popCount, ones]
  apply List.countP_congr
  intro i hi
  have hi : i < 8 := by simpa using hi
  have e1 : (8 * k + i) / 8 = k := by omega
  have e2 : (8 * k + i) % 8 = i := by omega
  simp [testBit, e1, e2, h]

theorem foldl_popCount (b : Bytes) (s k n : Nat) (h : k + n ≤ b.size) :
    (b.extract k (k + n)).toList.foldl (fun sum x => sum + popCount x) s
      = s + b.ones (8 * k) (8 * n) := by
  induction n generalizing s k with
  | zero => simp [ones_zero]
  | succ n ih =>
    have hk : k < b.size := by omega
    have e : (b.extract k (k + (n + 1))).toList
        = b[k] :: (b.extract (k + 1) (k + 1 + n)).toList := by
      rw [Array.toList_extract, Array.toList_extract]
      simp only [List.extract]
      have : k + (n + 1) - k = (n + 1) := by omega
      rw [this, List.drop_eq_getElem_cons (by simpa using hk)]
      simp
    rw [e, List.foldl_cons, ih _ (k + 1) (by omega), popCount_eq b k hk]
    rw [show 8 * (n + 1) = 8 + 8 * n by omega, ones_add, Nat.add_assoc]
    rfl

/-- A window cut at the byte boundaries `p` and `q`. -/
theorem ones_cut (b : Bytes) {offset len p q : Nat} (hp : offset ≤ 8 * p) (hpq : p ≤ q)
    (hq : 8 * q ≤ offset + len) :
    b.ones offset len
      = b.ones offset (p * 8 - offset) + b.ones (8 * p) (8 * (q - p))
        + b.ones (q * 8) (offset + len - q * 8) := by
  obtain ⟨n, rfl⟩ : ∃ n, len = (p * 8 - offset) + 8 * (q - p) + n :=
    ⟨offset + len - q * 8, by omega⟩
  have first : offset + (p * 8 - offset) = 8 * p := by omega
  have last : offset + (p * 8 - offset + 8 * (q - p)) = q * 8 := by omega
  have rest : offset + (p * 8 - offset + 8 * (q - p) + n) - q * 8 = n := by omega
  rw [ones_add, ones_add, first, last, rest]

/-- Whole bytes count as their bits do. -/
theorem countBits_eq (b : Bytes) (offset len : Nat) (h : len = 0 ∨ offset + len ≤ 8 * b.size) :
    b.countBits offset len = .ok (b.ones offset len) := by
  simp only [countBits, Sizes.fit_unbounded, Nat.add_sub_cancel_left]
  split
  · next h0 => subst h0; rfl
  · split
    · rw [countEach_eq b _ _ _ (by omega), Nat.zero_add]
    · unfold bytesFor at *
      have hp : offset ≤ 8 * ((offset + 7) / 8) := by omega
      have hpq : (offset + 7) / 8 ≤ (offset + len) / 8 := by omega
      have hq : 8 * ((offset + len) / 8) ≤ offset + len := by omega
      have whole :=
        foldl_popCount b 0 ((offset + 7) / 8) ((offset + len) / 8 - (offset + 7) / 8) (by omega)
      rw [Nat.add_sub_cancel' hpq, Nat.zero_add] at whole
      rw [countEach_eq b _ _ _ (by omega), countEach_eq b _ _ _ (by omega), window,
        if_pos (by omega), ones_cut b hp hpq hq, ← whole]
      simp only [bind, Except.bind, pure, Except.pure, ← Array.foldl_toList, Nat.zero_add]

/-- No digit is lost where the end of the window is a word. -/
theorem countBits_of_lt (b : Bytes) {offset len : Nat} {sizes : Sizes}
    (stop : offset + len < wordRange 8) :
    b.countBits offset len sizes = b.countBits offset len := by
  rw [countBits, countBits, sizes.fit_of_lt stop, Sizes.fit_unbounded]

end Bytes

end Columnar
