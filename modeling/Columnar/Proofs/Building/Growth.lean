import Columnar.Proofs.Building.Reserving

/-!
# Growing once and growing step by step

Builders grow to powers of two, and from whatever capacity they have.  Growing to the capacity for
`m` slots at once is the same as growing to that for fewer slots first and then further
(`growCapacity_eq`, `Slots.Holds.resize_resize`), and adding a slot first and growing then is the
same as growing first (`Slots.Holds.resize_append`).

These are equations of states, spare bytes included.  They rest on the region being no larger than
the capacity calls for: growing then never gives memory back, so that no spare byte is lost on the
way.
-/

namespace Columnar

/-! ### Capacities -/

theorem nextPower_le_iff {n e : Nat} : nextPower n ≤ 2 ^ e ↔ n ≤ 2 ^ e := by
  have positive := Nat.two_pow_pos e
  show 2 ^ (if n ≤ 1 then 0 else (n - 1).log2 + 1) ≤ 2 ^ e ↔ _
  rw [Nat.pow_le_pow_iff_right (by decide)]
  split_ifs with small
  · exact iff_of_true (Nat.zero_le e) (by omega)
  · have below := Nat.log2_lt (n := n - 1) (k := e) (by omega)
    rw [Nat.add_one_le_iff, below]
    omega

theorem minCapacity_le_growCapacity (n : Nat) : minCapacity ≤ growCapacity n := Nat.le_max_right _ _

/-- A capacity that covers the slots also covers what they grow to. -/
theorem growCapacity_le {m k : Nat} (fits : m ≤ growCapacity k) :
    growCapacity m ≤ growCapacity k := by
  obtain ⟨e, power⟩ : ∃ e, growCapacity k = 2 ^ e := by
    rw [growCapacity]
    rcases Nat.le_total (nextPower k) minCapacity with small | large
    · exact ⟨5, Nat.max_eq_right small⟩
    · exact ⟨_, Nat.max_eq_left large⟩
  have smallest := minCapacity_le_growCapacity k
  rw [power] at fits smallest ⊢
  exact Nat.max_le.2 ⟨nextPower_le_iff.2 fits, smallest⟩

theorem le_growCapacity (n : Nat) : n ≤ growCapacity n :=
  Nat.le_trans (le_nextPower n) (Nat.le_max_left _ _)

/-- More slots that still fit grow to the same capacity. -/
theorem growCapacity_eq {m k : Nat} (more : k ≤ m) (fits : m ≤ growCapacity k) :
    growCapacity m = growCapacity k :=
  Nat.le_antisymm (growCapacity_le fits) (growCapacity_le (Nat.le_trans more (le_growCapacity m)))

theorem bytesFor_mono {m n : Nat} (h : m ≤ n) : bytesFor m ≤ bytesFor n := by
  unfold bytesFor
  omega

theorem roundUp_mono {m n : Nat} (h : m ≤ n) : roundUp m ≤ roundUp n := by
  rw [roundUp, roundUp, Sizes.fit_unbounded, Sizes.fit_unbounded, alignment]
  omega

/-! ### Regions -/

namespace Bytes

variable {b : Bytes} {i j m n : Nat}

theorem getElem?_resized (b : Bytes) (n i : Nat) :
    (b.resized n)[i]? = if i < n then some (b[i]?.getD 0) else none := by
  rw [resized, zeros, Array.getElem?_append, Array.size_extract, Array.getElem?_extract,
    Array.getElem?_replicate, Nat.sub_zero, Nat.zero_add]
  by_cases below : i < n
  · rw [if_pos below]
    by_cases inside : i < b.size
    · rw [if_pos (by omega), if_pos (by omega), Array.getElem?_eq_getElem inside]
      rfl
    · rw [if_neg (by omega), if_pos (by omega), Array.getElem?_eq_none (by omega)]
      rfl
  · rw [if_neg below, if_neg (by omega), if_neg (by omega)]

/-- Growing in two steps. -/
theorem resized_resized (b : Bytes) (fits : b.size ≤ n ∨ m ≤ n) :
    (b.resized n).resized m = b.resized m := by
  apply Array.ext_getElem?
  intro i
  simp only [getElem?_resized]
  by_cases inside : i < n
  · rw [if_pos inside, Option.getD_some]
  · rw [if_neg inside]
    by_cases below : i < m
    · rw [if_pos below, if_pos below, Array.getElem?_eq_none (by omega), Option.getD_none]
    · rw [if_neg below, if_neg below]

theorem resized_self (b : Bytes) : b.resized b.size = b := by
  apply Array.ext_getElem?
  intro i
  rw [getElem?_resized]
  by_cases inside : i < b.size
  · rw [if_pos inside, Array.getElem?_eq_getElem inside]
    rfl
  · rw [if_neg inside, Array.getElem?_eq_none (Nat.le_of_not_lt inside)]

/-- A byte inside can be changed before or after. -/
theorem resized_modify (b : Bytes) (f : UInt8 → UInt8) (inside : i < b.size) :
    resized (b.modify i f) n = (b.resized n).modify i f := by
  apply Array.ext_getElem?
  intro j
  simp only [getElem?_resized, Array.getElem?_modify]
  by_cases same : i = j
  · subst same
    rw [if_pos rfl, if_pos rfl, Array.getElem?_eq_getElem inside]
    split_ifs <;> rfl
  · rw [if_neg same, if_neg same]

theorem resized_set (b : Bytes) (x : UInt8) (inside : i < b.size) :
    resized (b.setIfInBounds i x) n = (b.resized n).setIfInBounds i x := by
  apply Array.ext_getElem?
  intro j
  simp only [getElem?_resized, Array.getElem?_setIfInBounds, size_resized]
  by_cases same : i = j
  · subst same
    rw [if_pos rfl, if_pos rfl, if_pos inside]
    split_ifs <;> rfl
  · rw [if_neg same, if_neg same]

theorem resized_overwrite (b : Bytes) (src : List UInt8) (inside : i + src.length ≤ b.size) :
    (b.overwrite i src).resized n = (b.resized n).overwrite i src := by
  induction src generalizing b i with
  | nil => rfl
  | cons x src ih =>
    rw [List.length_cons] at inside
    rw [overwrite, overwrite, ih _ (by rw [Array.size_setIfInBounds]; omega),
      resized_set b x (by omega)]

theorem overwrite_append (b : Bytes) (i : Nat) (xs ys : List UInt8) :
    b.overwrite i (xs ++ ys) = (b.overwrite i xs).overwrite (i + xs.length) ys := by
  induction xs generalizing b i with
  | nil => rfl
  | cons x xs ih =>
    rw [List.cons_append, overwrite, overwrite, ih, List.length_cons, Nat.add_right_comm,
      Nat.add_assoc]

theorem fill_add (b : Bytes) (i : Nat) (v : UInt8) (m n : Nat) :
    b.fill i v (m + n) = (b.fill i v m).fill (i + m) v n := by
  rw [fill_eq_overwrite, fill_eq_overwrite, fill_eq_overwrite, List.replicate_add,
    overwrite_append, List.length_replicate]

theorem resized_fill (b : Bytes) (v : UInt8) (inside : i + m ≤ b.size) :
    (b.fill i v m).resized n = (b.resized n).fill i v m := by
  rw [fill_eq_overwrite, fill_eq_overwrite]
  exact b.resized_overwrite _ (by rwa [List.length_replicate])

/-- A bit before the bytes that are filled can be set before or after. -/
theorem fill_putBit (b : Bytes) (v : UInt8) (bit : Bool) (before : j / 8 < i) :
    (b.putBit j bit).fill i v n = (b.fill i v n).putBit j bit := by
  induction n generalizing b i with
  | zero => rfl
  | succ n ih =>
    have commutes : (b.putBit j bit).setIfInBounds i v = putBit (b.setIfInBounds i v) j bit := by
      apply Array.ext_getElem?
      intro k
      simp only [putBit, Array.getElem?_setIfInBounds, Array.getElem?_modify, Array.size_modify]
      by_cases here : i = k
      · have apart : ¬ j / 8 = k := by omega
        simp only [if_pos here, if_neg apart]
      · simp only [if_neg here]
    rw [fill, fill, commutes, ih _ (by omega)]

end Bytes

/-! ### Bitmaps -/

namespace GrowBuffer

variable {b : GrowBuffer} {i m n : Nat} {v : Bool}

theorem reallocate_eq (b : GrowBuffer) (n : Nat) :
    b.reallocate n = { b with region := b.region.resized (b.reallocated n) } := by
  rw [reallocate]
  split
  · next same =>
    have kept : b.region.resized (b.reallocated n) = b.region := by
      rw [same]
      exact b.region.resized_self
    rw [kept]
  · rfl

/-- A buffer grown to `n` visible bytes, new ones zero, with room for no more. -/
def grown (b : GrowBuffer) (n : Nat) : GrowBuffer := (b.resize n 0).reallocate n

theorem grown_eq (covers : b.len ≤ n) :
    b.grown n = ⟨(b.region.resized (roundUp n)).fill b.len 0 (n - b.len), n, b.tracked⟩ := by
  have target : roundUp (max n n) = roundUp n := by rw [Nat.max_self]
  have room := le_roundUp n
  rw [grown, reallocate_eq, reallocated, len_resize, target]
  by_cases grows : b.len < n
  · have wanted : b.len + (n - b.len) = n := by omega
    rw [resize, if_pos grows, reserve, wanted, Sizes.fit_unbounded]
    by_cases short : b.capacity < n
    · -- room is made first, more than is kept
      have more := le_roundUp (max (max (roundUp n) (b.capacity * 2)) b.len)
      simp only [if_pos short, reallocate_eq, reallocated]
      rw [Bytes.resized_fill _ _ (by rw [Bytes.size_resized]; omega),
        Bytes.resized_resized _ (.inr (by omega))]
    · have inside : b.len + (n - b.len) ≤ b.region.size := by
        have : b.capacity = b.region.size := rfl
        omega
      simp only [if_neg short]
      rw [Bytes.resized_fill _ _ inside]
  · obtain rfl : b.len = n := by omega
    rw [resize, if_neg grows, Nat.sub_self]
    rfl

/-- Growing in two steps, from a region that is not larger than it has to be. -/
theorem grown_grown (tight : b.capacity ≤ roundUp m) (first : b.len ≤ m) (second : m ≤ n) :
    (b.grown m).grown n = b.grown n := by
  have room := le_roundUp m
  have inside : b.len + (m - b.len) ≤ (b.region.resized (roundUp m)).size := by
    rw [Bytes.size_resized]
    omega
  have parts : n - b.len = (m - b.len) + (n - m) := by omega
  rw [grown_eq first, grown_eq (Nat.le_trans first second), grown_eq second]
  simp only
  rw [Bytes.resized_fill _ _ inside, Bytes.resized_resized _ (.inl tight), parts, Bytes.fill_add,
    Nat.add_sub_cancel' first]

/-- A visible bit can be set before growing or after. -/
theorem grown_putBit (covers : b.len ≤ n) (fits : b.Fits) (inside : i / 8 < b.len) :
    (b.putBit i v).grown n = (b.grown n).putBit i v := by
  have here : i / 8 < b.region.size := Nat.lt_of_lt_of_le inside fits
  rw [grown_eq (by rw [len_putBit]; exact covers), grown_eq covers, putBit, if_pos inside, putBit,
    if_pos (Nat.lt_of_lt_of_le inside covers)]
  simp only
  rw [← Bytes.fill_putBit _ _ _ inside, Bytes.putBit, Bytes.resized_modify _ _ here]
  rfl

/-- The capacity is what the visible bytes call for. -/
theorem capacity_grown (b : GrowBuffer) (n : Nat) : (b.grown n).capacity = roundUp n := by
  rw [grown, capacity_reallocate, reallocated, len_resize, Nat.max_self]

theorem capacity_putBit (b : GrowBuffer) (i : Nat) (v : Bool) :
    (b.putBit i v).capacity = b.capacity := by
  rw [putBit]
  split_ifs
  · exact Bytes.size_putBit _ _ _
  · rfl

/-- A clear buffer is an empty one grown. -/
theorem resize_make (n : Nat) (tracked : Bool) :
    (make n tracked).resize n 0 = (empty tracked).grown n := by
  have zeros : Bytes.resized #[] (roundUp n) = Bytes.zeros (roundUp n) := by
    simp [Bytes.resized]
  have room : ¬ roundUp n < 0 + (n - 0) := by
    have := le_roundUp n
    omega
  rw [grown_eq (Nat.zero_le n)]
  simp only [empty, zeros]
  rw [resize, make]
  simp only [reserve, capacity, Bytes.size_zeros, Sizes.fit_unbounded, if_neg room]
  by_cases some : 0 < n
  · rw [if_pos some]
  · obtain rfl : n = 0 := by omega
    rfl

end GrowBuffer

/-! ### Slots -/

namespace Slots

variable {s : Slots} {valid : List Bool} {c c' : Nat} {v : Bool}

/-- The bitmap, or one without bits. -/
def bitmap (s : Slots) : GrowBuffer := s.validity.getD (.empty s.tracked)

/-- The bitmap has no more room than the capacity calls for. -/
def Tight (s : Slots) : Prop := ∀ b, s.validity = some b → b.capacity = roundUp b.len

/-- A capacity that covers the slots lets the bitmap grow. -/
theorem resize_eq (covers : s.length ≤ c) :
    s.resize c = { s with validity := some (s.bitmap.grown (bytesFor c)), capacity := c } := by
  rw [resize, bitmap]
  cases s.validity with
  | none =>
    rw [init, GrowBuffer.resize_make]
    rfl
  | some b =>
    simp only [if_neg (Nat.not_lt.2 covers)]
    rfl

theorem tight_resize (s : Slots) (c : Nat) : (s.resize c).Tight := by
  have full (b : GrowBuffer) (n : Nat) : (b.grown n).capacity = roundUp (b.grown n).len := by
    rw [GrowBuffer.capacity_grown, GrowBuffer.grown, GrowBuffer.len_reallocate,
      GrowBuffer.len_resize]
  rw [resize]
  cases s.validity with
  | none =>
    rintro _ ⟨⟩
    rw [GrowBuffer.resize_make]
    exact full _ _
  | some b =>
    simp only
    split_ifs <;> rintro _ ⟨⟩ <;> exact full _ _

theorem Tight.append (tight : s.Tight) (v : Bool) : (s.append v).Tight := by
  cases v with
  | true =>
    intro b hb
    obtain ⟨b, kept, rfl⟩ := Option.map_eq_some_iff.1 hb
    rw [GrowBuffer.capacity_putBit, GrowBuffer.len_putBit]
    exact tight b kept
  | false => exact tight

theorem Tight.appendAll (tight : s.Tight) (more : List Bool) :
    (more.foldl Slots.append s).Tight := by
  induction more generalizing s with
  | nil => exact tight
  | cons v more ih => exact ih (tight.append v)

theorem appendMany_true (s : Slots) (n : Nat) :
    s.appendMany true n = (List.replicate n true).foldl append s := by
  induction n generalizing s with
  | zero =>
    show { s with validity := s.validity.map fun b => b, length := s.length } = s
    rw [Option.map_id']
  | succ n ih =>
    rw [List.replicate_succ, List.foldl_cons, ← ih]
    simp only [appendMany, append, if_true, Option.map_map, Slots.mk.injEq, and_true, true_and]
    exact ⟨rfl, by omega⟩

namespace Holds

variable (h : s.Holds valid)
include h

theorem len_bitmap : s.bitmap.len = bytesFor s.capacity := by
  rw [bitmap]
  cases hb : s.validity with
  | none =>
    rw [h.unmarked hb]
    rfl
  | some b => exact (h.marked b hb).len

theorem capacity_bitmap (tight : s.Tight) : s.bitmap.capacity = roundUp (bytesFor s.capacity) := by
  rw [← h.len_bitmap, bitmap]
  cases hb : s.validity with
  | none =>
    show 0 = roundUp 0
    decide
  | some b => exact tight b hb

/-- **Growing in two steps is growing at once.** -/
theorem resize_resize (tight : s.Tight) (first : s.capacity ≤ c) (second : c ≤ c') :
    (s.resize c).resize c' = s.resize c' := by
  have covers : s.length ≤ c := Nat.le_trans h.room first
  have covers' : s.length ≤ c' := Nat.le_trans covers second
  have small : s.bitmap.capacity ≤ roundUp (bytesFor c) := by
    rw [h.capacity_bitmap tight]
    exact roundUp_mono (bytesFor_mono first)
  have shorter : s.bitmap.len ≤ bytesFor c := by
    rw [h.len_bitmap]
    exact bytesFor_mono first
  have once := GrowBuffer.grown_grown small shorter (bytesFor_mono second)
  rw [resize_eq (s := s.resize c) (by rw [length_resize covers]; exact covers'), resize_eq covers,
    resize_eq covers']
  simp only [bitmap, Option.getD_some] at once ⊢
  rw [once]

/-- **A slot can be added before growing or after.** -/
theorem resize_append (room : s.length < s.capacity) (covers : s.capacity ≤ c) (v : Bool) :
    (s.append v).resize c = (s.resize c).append v := by
  rw [resize_eq (by rw [length_append]; omega), resize_eq (by omega)]
  cases v with
  | false => rfl
  | true =>
    cases hb : s.validity with
    | none => exact absurd (h.unmarked hb) (by omega)
    | some b =>
      obtain ⟨fits, len, -⟩ := h.marked b hb
      have inside : s.length / 8 < b.len ∧ b.len ≤ bytesFor c := by
        rw [len]
        unfold bytesFor
        omega
      have commutes := b.grown_putBit (v := true) inside.2 fits inside.1
      simp only [Slots.append, if_true, bitmap, hb, Option.map_some, Option.getD_some, commutes]

end Holds

end Slots

end Columnar
