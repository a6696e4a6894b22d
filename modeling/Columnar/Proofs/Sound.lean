import Columnar.Proofs.InRange
import Columnar.Proofs.Slicing

/-!
# Accepted columns in range

Slices of a column in range are in range again, as those of an accepted column are accepted.  A
column that is both (`Column.Sound`) is accepted and sliced by the program as it is with unbounded
sizes, and so is whatever it is taken apart into.

The range matters: `Column.hollow` is accepted, but only because a product has lost its digits.
-/

namespace Columnar

namespace Column

variable {c d s : Column} {sizes : Sizes} {o n : Nat}

/-! ### Slices -/

theorem EndsInRange.window (h : c.EndsInRange) (w : c.IsWindow o n s) : s.EndsInRange := by
  have fits := w.fits
  have stop : c.offset + c.len < Bytes.wordRange 8 := h
  show s.offset + s.len < Bytes.wordRange 8
  rw [w.offset, w.len]
  omega

/-- What a window calls for is no more than what the column does. -/
theorem IsWindow.fixedNeed_le (w : c.IsWindow o n s) (slot width : Nat) (b : Buffer) :
    s.fixedNeed slot width b ≤ c.fixedNeed slot width b := by
  have fits := w.fits
  simp only [fixedNeed, w.type, w.len, w.offset, Sizes.fit_unbounded]
  split_ifs with offsets none _ full
  · exact Nat.zero_le _
  · exact Nat.zero_le _
  · exact absurd ⟨by omega, full.2⟩ none
  · exact Nat.mul_le_mul_right width (by omega)
  · exact Nat.mul_le_mul_right width (by omega)

theorem InRange.window (h : c.InRange) (w : c.IsWindow o n s) : s.InRange where
  stop := h.stop.window w
  needs slot inside := by
    refine Nat.lt_of_le_of_lt ?_ (h.needs slot (w.type ▸ inside))
    rw [needAt, needAt, w.type, w.buffer?]
    split
    · exact w.fixedNeed_le _ _ _
    · exact Nat.le_refl 0
  rows := by
    have fits := w.fits
    refine Nat.lt_of_le_of_lt ?_ h.rows
    rw [rowsNeeded, rowsNeeded, w.type]
    split
    · exact Nat.mul_le_mul_right _ (by rw [w.offset, w.len]; omega)
    · exact Nat.le_refl 0

mutual

/-- What windows keep of one node, slices keep of all nodes. -/
theorem slice_everywhere {P : Column → Prop}
    (keeps : ∀ {c s : Column}, P c → c.IsWindow o n s → P s) :
    (c : Column) → {s : Column} → c.Everywhere P → c.slice o n = .ok s → s.Everywhere P
  | ⟨type, len, offset, nulls, buffers, children, dictionary⟩, s, h, taken => by
    have w := isWindow_of_slice taken
    refine .node (keeps h.here w) ?_ fun d hd => h.entry (w.dictionary ▸ hd)
    by_cases rows : type.hasRowChildren = true
    · exact slices_everywhere keeps children (fun d hd => h.child hd) (w.slices_children rows)
    · rw [w.keeps_children (Bool.eq_false_iff.2 rows)]
      exact fun d hd => h.child hd

theorem slices_everywhere {P : Column → Prop}
    (keeps : ∀ {c s : Column}, P c → c.IsWindow o n s → P s) :
    (cs : List Column) → {ss : List Column} → (∀ c ∈ cs, c.Everywhere P) →
    List.Forall₂ (fun c s => c.slice o n = .ok s) cs ss → ∀ s ∈ ss, s.Everywhere P
  | [], _, _, taken => by
    cases taken
    simp
  | c :: cs, _, h, taken => by
    cases taken with
    | cons first rest =>
      obtain ⟨here, others⟩ := List.forall_mem_cons.1 h
      exact List.forall_mem_cons.2
        ⟨slice_everywhere keeps c here first, slices_everywhere keeps cs others rest⟩

end

/-- Slices of a column in range are in range. -/
theorem slice_inRange (h : c.Everywhere InRange) (taken : c.slice o n = .ok s) :
    s.Everywhere InRange :=
  slice_everywhere InRange.window c h taken

/-! ### Accepted columns -/

/-- Accepted, with sizes that are words, at every depth. -/
structure Sound (c : Column) : Prop where
  accepted : c.Everywhere Accepted
  range : c.Everywhere InRange

/-- A column in range that is accepted is so however sums come out. -/
theorem sound_of_validateFull (range : c.Everywhere InRange)
    (h : c.validateFull sizes = .ok ()) : c.Sound :=
  ⟨accepted_of_validateFull (validateFull_sizes c range ▸ h), range⟩

namespace Sound

variable (h : c.Sound)
include h

theorem validateFull : c.validateFull sizes = .ok () :=
  (validateFull_sizes c h.range).trans (validateFull_of_accepted h.accepted)

theorem child (hd : d ∈ c.children) : d.Sound := ⟨h.accepted.child hd, h.range.child hd⟩

theorem only (hc : c.children = [d]) : d.Sound := ⟨h.accepted.only hc, h.range.only hc⟩

theorem entry (hd : c.dictionary = some d) : d.Sound := ⟨h.accepted.entry hd, h.range.entry hd⟩

theorem slice_sizes (fits : o + n ≤ c.len) : c.slice o n sizes = c.slice o n := by
  have stop : c.offset + c.len < Bytes.wordRange 8 := h.range.here.stop
  exact Column.slice_sizes c (h.range.mono fun _ range => range.stop) (by omega)

theorem slice (fits : o + n ≤ c.len) : ∃ s, c.slice o n = .ok s ∧ s.Sound := by
  obtain ⟨s, taken, accepted⟩ := slice_accepted c h.accepted fits
  exact ⟨s, taken, accepted, slice_inRange h.range taken⟩

end Sound

/-! ### Lost digits -/

/-- More numbers than a word can count the bytes of, and none of their bytes.  Nothing is left of
the size that the buffer must have. -/
def hollow : Column := ⟨.num (.int .int64), 2305843009213693952, 0, 0,
  [none, some (.ofBytes #[] false)], [], none⟩

/-- Range cannot be left out of `sound_of_validateFull`. -/
theorem hollow_validates : hollow.validateFull .wrapping = .ok () ∧
    hollow.validateFull = (Defect.bufferTooShort 1 0 hollow.type 18446744073709551616).refuse :=
  ⟨rfl, rfl⟩

end Column

end Columnar
