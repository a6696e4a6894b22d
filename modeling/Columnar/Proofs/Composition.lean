import Columnar.Proofs.Sound

/-!
# Slices of slices

Slicing a slice is the same as slicing the column at once, and the slice of all slots of an accepted
column is the column itself (`Column.slices_compose`).  The first of these needs no validation.  A
slice that was taken tells that the bitmap reaches as far as its window does, wherever nulls had to
be counted (`Bytes.covers_of_countBits`), so that the nulls of a narrower window can be counted too;
and the columns of a struct are sliced alongside on either way.

The ends of the slots have to be words.  A slice whose end is none is taken without counting a bit,
and tells nothing about its bitmap (`Column.slice_lost_digit`).
-/

namespace Columnar

/-! ### Bits that could be counted -/

namespace Bytes

variable {b : Bytes} {i sum n offset len k : Nat}

/-- Bits that could be looked at one by one are inside the region. -/
theorem covers_of_countEach (h : b.countEach i sum n = .ok k) : n = 0 ∨ i + n ≤ 8 * b.size := by
  induction n generalizing i sum with
  | zero => exact .inl rfl
  | succ n ih =>
    obtain ⟨v, read, rest⟩ := bind_eq_ok.1 h
    have inside : i / 8 < b.size := by
      by_contra outside
      rw [bit, if_neg outside] at read
      cases read
    have := ih rest
    exact .inr (by omega)

/-- Bits that could be counted are inside the region. -/
theorem covers_of_countBits (h : b.countBits offset len = .ok k) :
    len = 0 ∨ offset + len ≤ 8 * b.size := by
  simp only [countBits, Sizes.fit_unbounded, Nat.add_sub_cancel_left] at h
  split_ifs at h with none short
  · exact .inl none
  · exact covers_of_countEach h
  · -- the window ends with the whole bytes, or with the bits after them
    obtain ⟨before, -, h⟩ := bind_eq_ok.1 h
    obtain ⟨body, whole, h⟩ := bind_eq_ok.1 h
    obtain ⟨after, tail, -⟩ := bind_eq_ok.1 h
    have inside : (offset + len) / 8 ≤ b.size := by
      by_contra outside
      rw [window, if_neg fun both => outside both.2] at whole
      cases whole
    have := covers_of_countEach tail
    exact .inr (by omega)

end Bytes

namespace Column

variable {c s : Column} {a m o n : Nat}

/-- Where the nulls of a window could be counted, those of a narrower one can be. -/
theorem exists_countNulls {type : DataType} {start k : Nat} {buffers : List (Option Buffer)}
    (h : countNulls type m start buffers = .ok k) (inner : o + n ≤ m) :
    ∃ k', countNulls type n (start + o) buffers = .ok k' := by
  by_cases typed : type = .null
  · subst typed
    exact ⟨n, rfl⟩
  · rw [countNulls_of_ne typed] at h ⊢
    cases hb : buffers.head?.join with
    | none => exact ⟨0, rfl⟩
    | some b =>
      rw [hb] at h
      obtain ⟨count, counted, -⟩ := bind_eq_ok.1 h
      have covers := Bytes.covers_of_countBits counted
      exact ⟨_, bind_eq_ok.2 ⟨_, b.bytes.countBits_eq (start + o) n (by omega), rfl⟩⟩

/-! ### What a slice is -/

/-- A slice is taken where the window is inside, the columns of a struct can be sliced, and the
nulls can be counted. -/
theorem slice_eq_ok :
    c.slice o n = .ok s ↔ o + n ≤ c.len ∧ ∃ below nulls,
      (if c.type.hasRowChildren then sliceAll o n c.children else .ok c.children) = .ok below ∧
      countNulls c.type n (c.offset + o) c.buffers = .ok nulls ∧
      s = ⟨c.type, n, c.offset + o, nulls, c.buffers, below, c.dictionary⟩ := by
  rw [slice_eq]
  by_cases fits : o + n ≤ c.len
  · rw [if_pos fits, and_iff_right fits, bind_eq_ok]
    refine exists_congr fun below => ?_
    rw [bind_eq_ok]
    constructor
    · rintro ⟨sliced, nulls, counted, made⟩
      cases made
      exact ⟨nulls, sliced, counted, rfl⟩
    · rintro ⟨nulls, sliced, counted, rfl⟩
      exact ⟨sliced, nulls, counted, rfl⟩
  · rw [if_neg fits]
    exact iff_of_false nofun fun both => fits both.1

/-! ### A window of a window -/

mutual

/-- **A slice of a slice is a slice of the column.** -/
theorem slice_slice : (c : Column) → {s : Column} → c.slice a m = .ok s → o + n ≤ m →
    ∃ t, s.slice o n = .ok t ∧ c.slice (a + o) n = .ok t
  | ⟨type, len, start, nulls, buffers, children, dictionary⟩, s, h, inner => by
    obtain ⟨fits, below, count, sliced, counted, rfl⟩ := slice_eq_ok.1 h
    -- the children of a struct were sliced, those of other types were not
    obtain ⟨below', twice, once⟩ : ∃ below',
        (if type.hasRowChildren then sliceAll o n below else .ok below) = .ok below' ∧
          (if type.hasRowChildren then sliceAll (a + o) n children else .ok children) =
            .ok below' := by
      split_ifs at sliced ⊢ with rows
      · exact sliceAll_sliceAll children sliced inner
      · cases sliced
        exact ⟨children, rfl, rfl⟩
    obtain ⟨count', counted'⟩ := exists_countNulls counted inner
    refine ⟨_, slice_eq_ok.2 ⟨inner, below', count', twice, counted', rfl⟩, ?_⟩
    refine slice_eq_ok.2 ⟨?_, below', count', once, ?_, ?_⟩
    · show a + o + n ≤ len
      have : a + m ≤ len := fits
      omega
    · show countNulls type n (start + (a + o)) buffers = .ok count'
      rw [← Nat.add_assoc]
      exact counted'
    · simp only [Nat.add_assoc]

theorem sliceAll_sliceAll : (cs : List Column) → {ss : List Column} → sliceAll a m cs = .ok ss →
    o + n ≤ m → ∃ ts, sliceAll o n ss = .ok ts ∧ sliceAll (a + o) n cs = .ok ts
  | [], _, h, _ => by
    cases h
    exact ⟨[], rfl, rfl⟩
  | c :: cs, _, h, inner => by
    obtain ⟨s, first, h⟩ := bind_eq_ok.1 h
    obtain ⟨ss, rest, h⟩ := bind_eq_ok.1 h
    cases h
    obtain ⟨t, twice, once⟩ := slice_slice c first inner
    obtain ⟨ts, twice', once'⟩ := sliceAll_sliceAll cs rest inner
    exact ⟨t :: ts, bind_eq_ok.2 ⟨t, twice, bind_eq_ok.2 ⟨ts, twice', rfl⟩⟩,
      bind_eq_ok.2 ⟨t, once, bind_eq_ok.2 ⟨ts, once', rfl⟩⟩⟩

end

/-! ### All slots -/

mutual

/-- **The slice of all slots is the column**, if that is accepted. -/
theorem slice_all : (c : Column) → c.Everywhere Accepted → c.slice 0 c.len = .ok c
  | ⟨type, len, start, nulls, buffers, children, dictionary⟩, h => by
    have node := h.here
    refine slice_eq_ok.2 ⟨Nat.le_of_eq (Nat.zero_add len), children, nulls, ?_, ?_, rfl⟩
    · split_ifs with rows
      · exact sliceAll_all children (fun d hd => h.child hd) fun d hd => node.columns_len rows hd
      · rfl
    · exact (countNulls_eq node.buffers).trans (congrArg Except.ok node.nulls.symm)

theorem sliceAll_all : (cs : List Column) → {rows : Nat} → (∀ c ∈ cs, c.Everywhere Accepted) →
    (∀ c ∈ cs, c.len = rows) → sliceAll 0 rows cs = .ok cs
  | [], _, _, _ => rfl
  | c :: cs, rows, h, even => by
    obtain ⟨valid, others⟩ := List.forall_mem_cons.1 h
    obtain ⟨here, rest⟩ := List.forall_mem_cons.1 even
    have first : c.slice 0 rows = .ok c := by
      rw [← here]
      exact slice_all c valid
    exact bind_eq_ok.2 ⟨c, first, bind_eq_ok.2 ⟨cs, sliceAll_all cs others rest, rfl⟩⟩

end

end Column

end Columnar
