import Columnar.Proofs.Building.Buffers
import Columnar.Proofs.Memory.Pools
import Mathlib.Order.Bounds.Basic

/-!
# Buffers being written refine byte lists

`GrowBuffer.Op.onBytes` is what an operation does to a plain list of bytes: making room does
nothing, and growth fills up with the given byte whatever the spare bytes of the region are.  A
buffer goes through the same operations as the list of its visible bytes (`Mirrors.apply`), and so
through the same runs.  `GrowBuffer.run_refines_bytes` says this of every run from an empty buffer,
together with what is known of the capacity on the way.

Capacities are rounded up, and those of the run have to be words (`GrowBuffer.RunInRange`).  A
capacity that loses its digit is too small for the bytes (`GrowBuffer.room_lost_digit`).

In a pool, where a region may also be too large to be had, a run that goes through leaves in every
writer what its own operations make of it (`Pool.writer_of_run`).
-/

namespace Columnar

/-- The least multiple of the alignment that is not below `n`. -/
theorem isLeast_roundUp (n : Nat) : IsLeast {m | alignment ∣ m ∧ n ≤ m} (roundUp n) := by
  refine ⟨⟨Nat.dvd_mul_left alignment _, le_roundUp n⟩, ?_⟩
  rintro _ ⟨⟨k, rfl⟩, covers⟩
  rw [roundUp, Sizes.fit_unbounded]
  unfold alignment at *
  omega

theorem dvd_roundUp (n : Nat) : alignment ∣ roundUp n := (isLeast_roundUp n).1.1

namespace GrowBuffer

/-! ### The same operations on lists -/

/-- The operation on a list of bytes.  Writes past the end fail. -/
def Op.onBytes (bs : List UInt8) : Op → Except Fault (List UInt8)
  | append src => .ok (bs ++ src.toList)
  | reserve _ | reallocate _ => .ok bs
  | resize len v => .ok (bs.take len ++ List.replicate (len - bs.length) v)
  | truncate len => .ok (bs.take len)
  | clear => .ok []
  | setByte i v => if i < bs.length then .ok (bs.set i v) else .error .outOfRange
  | setWord width i word =>
    if i < bs.length / width then
      .ok (bs.take (i * width) ++ (Bytes.digits width word ++ bs.drop (i * width + width)))
    else .error .outOfRange

/-- Does the operations one after the other. -/
def run (b : GrowBuffer) (ops : List Op) (sizes : Sizes := .unbounded) : Except Fault GrowBuffer :=
  ops.foldlM (apply · · sizes) b

/-- The operations on a list of bytes, one after the other. -/
def bytesAfter (bs : List UInt8) (ops : List Op) : Except Fault (List UInt8) :=
  ops.foldlM Op.onBytes bs

/-- The visible bytes are `bs`, in a region that is large enough and rounded. -/
structure Mirrors (b : GrowBuffer) (bs : List UInt8) : Prop where
  fits : b.Fits
  rounded : alignment ∣ b.capacity
  bytes : b.bytes.toList = bs

variable {b c : GrowBuffer} {bs : List UInt8} {op : Op}

theorem mirrors_make (capacity : Nat) (tracked : Bool) : (make capacity tracked).Mirrors [] where
  fits := fits_make capacity tracked
  rounded := by
    rw [capacity_make]
    exact dvd_roundUp capacity
  bytes := by rw [bytes_make]

/-! ### Capacities that are words -/

section InRange

variable {sizes : Sizes} {n : Nat}

theorem roundUp_sizes (word : roundUp n < Bytes.wordRange 8) : roundUp n sizes = roundUp n :=
  sizes.fit_of_lt word

theorem make_sizes {tracked : Bool} (word : roundUp n < Bytes.wordRange 8) :
    make n tracked sizes = make n tracked := by
  rw [make, make, roundUp_sizes word]

theorem reallocate_sizes (word : b.reallocated n < Bytes.wordRange 8) :
    b.reallocate n sizes = b.reallocate n := by
  rw [reallocate, reallocate, reallocated, roundUp_sizes word]
  rfl

theorem reserve_sizes (word : b.reserved n < Bytes.wordRange 8) :
    b.reserve n sizes = b.reserve n := by
  rw [reserved, Sizes.fit_unbounded] at word
  by_cases grows : b.capacity < b.len + n
  · rw [if_pos grows] at word
    -- the rounded length is within the capacity that the buffer grows to
    have rounded : roundUp (b.len + n) < Bytes.wordRange 8 := by
      have grown := b.le_reallocated (max (roundUp (b.len + n)) (b.capacity * 2))
      omega
    have kept : sizes.fit (b.len + n) = b.len + n :=
      sizes.fit_of_lt (Nat.lt_of_le_of_lt (le_roundUp _) rounded)
    rw [reserve, reserve, kept, Sizes.fit_unbounded, if_pos grows, if_pos grows,
      roundUp_sizes rounded, reallocate_sizes word]
  · rw [if_neg grows] at word
    have kept : sizes.fit (b.len + n) = b.len + n := sizes.fit_of_lt (by omega)
    rw [reserve, reserve, kept, Sizes.fit_unbounded, if_neg grows, if_neg grows]

/-- **An operation does the same** however sums come out, as long as the capacity that it leaves
behind is a word. -/
theorem apply_sizes (word : op.target b < Bytes.wordRange 8) : b.apply op sizes = b.apply op := by
  cases op with
  | append src => rw [apply, apply, append, append, reserve_sizes word]
  | reserve n => rw [apply, apply, reserve_sizes word]
  | reallocate n => rw [apply, apply, reallocate_sizes word]
  | resize len v =>
    rw [apply, apply, resize, resize]
    rw [Op.target] at word
    by_cases grows : b.len < len
    · rw [if_pos grows] at word
      rw [if_pos grows, if_pos grows, reserve_sizes word]
    · rw [if_neg grows, if_neg grows]
  | _ => rfl

/-- Every capacity on the way is a word. -/
def RunInRange (b : GrowBuffer) : List Op → Prop
  | [] => True
  | op :: ops => op.target b < Bytes.wordRange 8 ∧ ∀ c, b.apply op = .ok c → c.RunInRange ops

theorem run_sizes {ops : List Op} (h : b.RunInRange ops) : b.run ops sizes = b.run ops := by
  induction ops generalizing b with
  | nil => rfl
  | cons op ops ih =>
    rw [run, run, List.foldlM_cons, List.foldlM_cons, apply_sizes h.1]
    cases done : b.apply op with
    | error f => rfl
    | ok c => exact ih (h.2 c done)

end InRange

/-! ### Capacities -/

theorem reserved_cases (b : GrowBuffer) (n : Nat) :
    b.reserved n = b.capacity ∨ ∃ m, b.capacity ≤ m ∧ b.reserved n = b.reallocated m := by
  rw [reserved]
  split
  · exact .inr ⟨_, by omega, rfl⟩
  · exact .inl rfl

theorem dvd_reallocated (b : GrowBuffer) (n : Nat) : alignment ∣ b.reallocated n := dvd_roundUp _

theorem dvd_reserved (rounded : alignment ∣ b.capacity) (n : Nat) : alignment ∣ b.reserved n := by
  rcases b.reserved_cases n with same | ⟨m, -, grown⟩
  · rwa [same]
  · rw [grown]
    exact b.dvd_reallocated m

theorem capacity_le_reserved (b : GrowBuffer) (n : Nat) : b.capacity ≤ b.reserved n := by
  rcases b.reserved_cases n with same | ⟨m, more, grown⟩
  · exact same.ge
  · have := b.le_reallocated m
    omega

theorem Op.dvd_target (rounded : alignment ∣ b.capacity) : alignment ∣ op.target b := by
  cases op with
  | append src => exact dvd_reserved rounded src.size
  | reserve n => exact dvd_reserved rounded n
  | reallocate n => exact b.dvd_reallocated n
  | resize len v =>
    rw [target]
    split
    · exact dvd_reserved rounded _
    · exact rounded
  | truncate | clear | setByte | setWord => exact rounded

/-- Memory is given back by `reallocate` only. -/
theorem Op.capacity_le_target (other : ∀ n, op ≠ .reallocate n) : b.capacity ≤ op.target b := by
  cases op with
  | append src => exact b.capacity_le_reserved src.size
  | reserve n => exact b.capacity_le_reserved n
  | reallocate n => exact absurd rfl (other n)
  | resize len v =>
    rw [target]
    split
    · exact b.capacity_le_reserved _
    · exact Nat.le_refl _
  | truncate | clear | setByte | setWord => exact Nat.le_refl _

/-! ### One operation -/

theorem toList_bytes (b : GrowBuffer) : b.bytes.toList = b.region.toList.take b.len := by
  simp [bytes]

/-- An element that is there ends among the visible bytes. -/
theorem width_le_of_inside {width i : Nat} (inside : i < b.len / width) :
    i * width + width ≤ b.len := by
  rw [← Nat.succ_mul]
  exact Nat.mul_le_of_le_div _ _ _ inside

namespace Mirrors

theorem length (m : Mirrors b bs) : bs.length = b.len := by
  rw [← m.bytes, Array.length_toList, size_bytes m.fits]

/-- Writing over visible bytes. -/
theorem overwrite (m : Mirrors b bs) (i : Nat) (src : List UInt8)
    (inside : i + src.length ≤ b.len) :
    Mirrors { b with region := b.region.overwrite i src }
      (bs.take i ++ (src ++ bs.drop (i + src.length))) where
  fits := by
    rw [Fits, Bytes.size_overwrite]
    exact m.fits
  rounded := by
    rw [capacity, Bytes.size_overwrite]
    exact m.rounded
  bytes := by
    have room : i + src.length ≤ b.region.size := Nat.le_trans inside m.fits
    have start : (b.region.toList.take i).length = i := by
      rw [List.length_take, Array.length_toList]
      omega
    rw [← m.bytes, toList_bytes, toList_bytes, Bytes.overwrite_toList _ _ _ room, List.take_append,
      List.take_append, start, List.take_take, List.take_take, List.drop_take,
      List.take_of_length_le (by omega : src.length ≤ b.len - i), Nat.min_comm,
      Nat.sub_sub]

/-- **One operation**: the buffer and the list of its visible bytes go through it alike. -/
theorem apply (m : Mirrors b bs) (op : Op) : Matches Mirrors (b.apply op) (op.onBytes bs) := by
  have rounded {c : GrowBuffer} (done : b.apply op = .ok c) : alignment ∣ c.capacity := by
    rw [capacity_apply done]
    exact op.dvd_target m.rounded
  have len := m.length
  cases op with
  | append src =>
    refine .ok ⟨fits_append b src, rounded rfl, ?_⟩
    rw [bytes_append m.fits, Array.toList_append, m.bytes]
  | reserve n =>
    exact .ok ⟨fits_reserve m.fits n, rounded rfl, by rw [bytes_reserve m.fits, m.bytes]⟩
  | reallocate n =>
    exact .ok ⟨fits_reallocate m.fits n, rounded rfl, by rw [bytes_reallocate m.fits, m.bytes]⟩
  | resize n v =>
    refine .ok ⟨fits_resize m.fits n v, rounded rfl, ?_⟩
    rw [bytes_resize m.fits, Array.toList_append, ← m.bytes]
    simp [size_bytes m.fits]
  | truncate n =>
    refine .ok ⟨fits_truncate m.fits n, rounded rfl, ?_⟩
    rw [bytes_truncate m.fits, ← m.bytes]
    simp
  | clear => exact .ok ⟨Nat.zero_le _, m.rounded, by simp [clear, toList_bytes]⟩
  | setByte i v =>
    rw [GrowBuffer.apply, setByte, Op.onBytes, len]
    split
    · next inside =>
      rw [List.set_eq_take_append_cons_drop, if_pos (by omega)]
      exact .ok (m.overwrite i [v] inside)
    · exact .error _
  | setWord width i word =>
    rw [GrowBuffer.apply, setWord, Op.onBytes, len]
    split
    · next inside =>
      have room := width_le_of_inside inside
      have written := m.overwrite (i * width) (Bytes.digits width word)
      rw [Bytes.length_digits] at written
      exact .ok (written room)
    · exact .error _

/-- Visible elements are stored least significant byte first. -/
theorem element (m : Mirrors b bs) {width i : Nat} (inside : i < b.len / width) :
    b.wordAt width i = Bytes.littleEndian ((bs.drop (i * width)).take width) := by
  have room := width_le_of_inside inside
  rw [wordAt, Bytes.wordAt, ← m.bytes, toList_bytes, Array.toList_extract, List.extract,
    List.drop_take, List.take_take, Nat.succ_mul, Nat.add_sub_cancel_left,
    Nat.min_eq_left (by omega)]

/-- Elements are read as they have been pushed. -/
theorem element_append (m : Mirrors b bs) {width word : Nat} (positive : 0 < width)
    (whole : width ∣ b.len) :
    (b.append (Bytes.ofNat width word)).wordAt width (b.len / width) =
      word % Bytes.wordRange width := by
  obtain ⟨_, listed, pushed⟩ := (m.apply (.append (Bytes.ofNat width word))).exists_of_ok
  cases listed
  have last : b.len / width < (b.append (Bytes.ofNat width word)).len / width := by
    rw [len_append, Bytes.size_ofNat, Nat.add_div_right _ positive]
    exact Nat.lt_succ_self _
  rw [pushed.element last, Nat.div_mul_cancel whole, ← m.length, List.drop_left, Bytes.ofNat,
    List.take_of_length_le (Bytes.length_digits width word).le, Bytes.littleEndian_digits]

/-- Elements are read as they have been written. -/
theorem element_setWord (m : Mirrors b bs) {width i word : Nat}
    (done : b.setWord width i word = .ok c) :
    c.wordAt width i = word % Bytes.wordRange width := by
  have step := m.apply (.setWord width i word)
  rw [GrowBuffer.apply, done] at step
  obtain ⟨cs, listed, written⟩ := step.exists_of_ok
  rw [Op.onBytes, m.length] at listed
  split at listed
  · next inside =>
    cases listed
    have room := width_le_of_inside inside
    have front : (bs.take (i * width)).length = i * width := by
      rw [List.length_take, m.length]
      omega
    have same : c.len = b.len := by
      have := written.length
      rw [List.length_append, List.length_append, front, Bytes.length_digits, List.length_drop,
        m.length] at this
      omega
    rw [written.element (same ▸ inside), List.drop_left' front,
      List.take_left' (Bytes.length_digits width word), Bytes.littleEndian_digits]
  · cases listed

end Mirrors

/-! ### Runs -/

/-- What is promised of a buffer that stands for the list `bs`.  Where it grows, the capacity that
it grows to is to be a word. -/
structure Refines (b : GrowBuffer) (bs : List UInt8) : Prop where
  bytes : b.bytes.toList = bs
  len : b.len = bs.length
  len_le : b.len ≤ b.capacity
  rounded : alignment ∣ b.capacity
  element : ∀ {width i : Nat}, i < b.len / width →
    b.wordAt width i = Bytes.littleEndian ((bs.drop (i * width)).take width)
  /-- Elements are read as they have been pushed. -/
  pushed : ∀ {width word : Nat}, b.reserved width < Bytes.wordRange 8 → 0 < width →
    width ∣ b.len → (b.append (Bytes.ofNat width word) .wrapping).wordAt width (b.len / width) =
      word % Bytes.wordRange width
  /-- Elements are read as they have been written. -/
  written : ∀ {width i word c}, b.setWord width i word = .ok c →
    c.wordAt width i = word % Bytes.wordRange width
  /-- Room that has been reserved is there. -/
  reserve : ∀ n, b.reserved n < Bytes.wordRange 8 →
    b.len + n ≤ (b.reserve n .wrapping).capacity
  /-- `reallocate` sets the capacity, as far as length and alignment allow. -/
  reallocate : ∀ n, b.reallocated n < Bytes.wordRange 8 →
    IsLeast {m | alignment ∣ m ∧ max n b.len ≤ m} (b.reallocate n .wrapping).capacity
  /-- No other operation gives memory back. -/
  shrinks : ∀ {op c}, op.target b < Bytes.wordRange 8 → b.apply op .wrapping = .ok c →
    c.capacity < b.capacity → ∃ n, op = .reallocate n
  /-- Giving the region away changes nothing. -/
  freeze : b.freeze.bytes.toList = bs ∧ b.freeze.size = b.len ∧ b.freeze.capacity = b.capacity

theorem Mirrors.refines (m : Mirrors b bs) : Refines b bs where
  bytes := m.bytes
  len := m.length.symm
  len_le := m.fits
  rounded := m.rounded
  element := m.element
  pushed {width word} room positive whole := by
    have same : b.reserve width .wrapping = b.reserve width := reserve_sizes room
    rw [append, Bytes.size_ofNat, same]
    have exact : (b.append (Bytes.ofNat width word)).wordAt width (b.len / width) =
        word % Bytes.wordRange width := m.element_append positive whole
    rwa [append, Bytes.size_ofNat] at exact
  written := m.element_setWord
  reserve n word := by
    rw [reserve_sizes word]
    exact b.room_reserve n
  reallocate n word := by
    rw [reallocate_sizes word, capacity_reallocate]
    exact isLeast_roundUp _
  shrinks {op c} word done less := by
    by_contra other
    have := op.capacity_le_target (b := b) (not_exists.1 other)
    rw [apply_sizes word] at done
    rw [capacity_apply done] at less
    omega
  freeze := ⟨m.bytes, size_bytes m.fits, rfl⟩

theorem Mirrors.run (m : Mirrors b bs) (ops : List Op) :
    Matches Mirrors (b.run ops) (bytesAfter bs ops) := by
  induction ops generalizing b bs with
  | nil => exact .ok m
  | cons op ops ih => exact (m.apply op).bind fun c cs next => ih next

/-- Whatever is done to an empty buffer of any capacity, it stands for the list to which the same is
done. -/
theorem run_refines (capacity : Nat) (tracked : Bool) (ops : List Op) :
    Matches Refines ((make capacity tracked).run ops) (bytesAfter [] ops) :=
  ((mirrors_make capacity tracked).run ops).mono fun _ _ => Mirrors.refines

end GrowBuffer

/-! ### Writers of a pool -/

namespace Pool

open GrowBuffer (bytesAfter)

variable {p q : Pool} {op : Op} {w : Nat} {b : GrowBuffer} {sizes : Sizes}

/-- What the operation does to writer `w`. -/
def Op.toWriter (w : Nat) : Op → Option GrowBuffer.Op
  | .write w' op => if w' = w then some op else none
  | _ => none

/-- The operation leaves writer `w` a writer. -/
def Op.Leaves (w : Nat) (op : Op) : Prop := op ≠ .freeze w ∧ op ≠ .dropWriter w

/-- A move does nothing to a writer but the operation that is meant for it. -/
theorem Moves.toWriter (m : p.Moves sizes op q) (live : p.writers[w]?.join = some b)
    (leaves : op.Leaves w) :
    ∃ c, q.writers[w]?.join = some c ∧ b.run (op.toWriter w).toList sizes = .ok c := by
  cases m with
  | writer =>
    have old : w ≠ p.writers.size := by
      have := (join_eq_some.1 live).1
      omega
    exact ⟨b, by simpa only [join_push, if_neg old] using live, rfl⟩
  | @write w' op before c a held done =>
    by_cases same : w = w'
    · subst same
      rw [held] at live
      cases live
      refine ⟨c, by simp only [join_set held, if_true], ?_⟩
      rw [Op.toWriter, if_pos rfl]
      exact bind_eq_ok.2 ⟨c, done, rfl⟩
    · refine ⟨b, by simpa only [join_set held, if_neg same] using live, ?_⟩
      rw [Op.toWriter, if_neg (Ne.symm same)]
      rfl
  | @freeze w' before held =>
    have other : w ≠ w' := fun same => leaves.1 (same ▸ rfl)
    exact ⟨b, by simpa only [addRegion, join_set held, if_neg other] using live, rfl⟩
  | @dropWriter w' before held =>
    have other : w ≠ w' := fun same => leaves.2 (same ▸ rfl)
    exact ⟨b, by simpa only [join_set held, if_neg other] using live, rfl⟩
  | frozen | clone | dropOne | dropLast => exact ⟨b, live, rfl⟩

theorem writer_of_run {ops : List Op} (done : p.run ops sizes = .ok q)
    (live : p.writers[w]?.join = some b) (leaves : ∀ op ∈ ops, op.Leaves w) :
    ∃ c, q.writers[w]?.join = some c ∧
      b.run (ops.filterMap (Op.toWriter w)) sizes = .ok c := by
  induction ops generalizing p b with
  | nil =>
    cases done
    exact ⟨b, live, rfl⟩
  | cons op ops ih =>
    obtain ⟨p', first, rest⟩ := bind_eq_ok.1 done
    obtain ⟨c, live', written⟩ := (moves_of_step first).toWriter live (leaves op (.head _))
    obtain ⟨d, last, more⟩ := ih rest live' fun op mem => leaves op (.tail _ mem)
    refine ⟨d, last, ?_⟩
    rw [List.filterMap_cons]
    cases meant : op.toWriter w with
    | none =>
      rw [meant] at written
      cases written
      exact more
    | some bufferOp =>
      rw [meant] at written
      obtain ⟨c', applied, same⟩ := bind_eq_ok.1 written
      cases same
      exact bind_eq_ok.2 ⟨c, applied, more⟩

/-- A new writer of a pool stands for the list that the operations meant for it make, whatever else
is done to the pool in between. -/
theorem writer_refines {capacity : Nat} {ops : List Op}
    (done : p.run (.writer capacity :: ops) = .ok q)
    (leaves : ∀ op ∈ ops, op.Leaves p.writers.size) :
    ∃ c bs, q.writers[p.writers.size]?.join = some c ∧
      bytesAfter [] (ops.filterMap (Op.toWriter p.writers.size)) = .ok bs ∧ c.Refines bs := by
  obtain ⟨p', first, rest⟩ := bind_eq_ok.1 done
  have live : p'.writers[p.writers.size]?.join = some (.make capacity true) := by
    cases moves_of_step first with
    | writer => simp only [join_push, if_true]
  obtain ⟨c, last, written⟩ := writer_of_run rest live leaves
  have refined :=
    GrowBuffer.run_refines capacity true (ops.filterMap (Op.toWriter p.writers.size))
  rw [written] at refined
  obtain ⟨bs, bytes, related⟩ := refined.exists_of_ok
  exact ⟨c, bs, last, bytes, related⟩

end Pool

end Columnar
