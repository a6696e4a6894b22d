import Columnar.Bytes

/-!
# Sizes

Lengths, offsets and capacities are words of eight bytes.  Where a sum or a product of them needs
more, its high digits are lost and the program goes on with the rest.

The definitions that compute sizes say in their last argument how the sums come out.
`Sizes.wrapping` is what the program does.  `Sizes.unbounded`, the default, keeps every digit, and
comes to the same as long as nothing is lost (`Sizes.fit_of_lt`).
-/

namespace Columnar

/-- How sums and products of sizes come out. -/
inductive Sizes where
  /-- As they are, however large. -/
  | unbounded
  /-- As words of eight bytes, without the digits that have no room. -/
  | wrapping
  deriving DecidableEq, Repr

namespace Sizes

/-- What becomes of a size. -/
def fit : Sizes → (n : Nat) → Nat
  | unbounded, n => n
  | wrapping, n => n % Bytes.wordRange 8

@[simp] theorem fit_unbounded (n : Nat) : unbounded.fit n = n := rfl

theorem fit_of_lt (sizes : Sizes) {n : Nat} (h : n < Bytes.wordRange 8) : sizes.fit n = n := by
  cases sizes with
  | unbounded => rfl
  | wrapping => exact Nat.mod_eq_of_lt h

end Sizes

end Columnar
