import Columnar.Proofs.Building.Finishing

/-!
# What a builder reads

`Builder.Reads b vs` says that finishing `b` goes through, and that the column is one of its type
that validation accepts and whose slots are `vs`.

Finishing itself goes through only where offsets are large enough and children have the rows that
slots call for (`Builder.Holds.small_even_of_finish`).  With what validation asks for these are the
four conditions of `Contents.Complete`, and a builder reads exactly the slots of complete contents
(`Builder.Holds.reads_iff`).  What an operation does to the slots that a builder reads is then a
question about contents.
-/

namespace Columnar

namespace Builder

/-- Finishing gives a column of the type that validation accepts, with these values in its slots. -/
def Reads (b : Builder) (vs : List Value) : Prop :=
  ∃ c rest v, b.finish = .ok (c, rest) ∧ c.type = b.type ∧ c.len = vs.length ∧
    c.nulls = vs.countP Value.isNull ∧ c.validateFull = .ok () ∧ View.ofColumn c = .ok v ∧
    v.slots = .ok vs

variable {b b' : Builder} {x : Contents} {valid : List Bool}

/-! ### Slots and nulls -/

theorem length_whereValid (valid : List Bool) (value : Nat → Value) :
    (whereValid valid value).length = valid.length := by
  rw [whereValid, List.length_map, List.length_range]

theorem countP_whereValid {value : Nat → Value} (some : ∀ i, (value i).isNull = false) :
    (whereValid valid value).countP Value.isNull = valid.count false := by
  rw [whereValid, List.countP_map, count_false_eq]
  refine List.countP_congr fun i _ => ?_
  rw [Function.comp_apply]
  cases valid.getD i false with
  | true => simp [some i]
  | false => simp [Value.isNull]

theorem getElem?_whereValid (valid : List Bool) (value : Nat → Value) (i : Nat) :
    (whereValid valid value)[i]? = valid[i]?.map fun v => if v then value i else .null := by
  rw [whereValid, List.getElem?_map]
  by_cases inside : i < valid.length
  · rw [List.getElem?_range inside, List.getElem?_eq_getElem inside, Option.map_some,
      Option.map_some, List.getD_eq_getElem _ _ inside]
  · rw [List.getElem?_eq_none (Nat.le_of_not_lt inside),
      List.getElem?_eq_none (by simpa using inside)]
    rfl

/-- The first slots have the first validities. -/
theorem whereValid_take (valid : List Bool) (value : Nat → Value) (k : Nat) :
    (whereValid valid value).take k = whereValid (valid.take k) value := by
  apply List.ext_getElem?
  intro i
  rw [getElem?_whereValid, List.getElem?_take, List.getElem?_take, getElem?_whereValid]
  split <;> rfl

namespace Contents

theorem nulls_eq (x : Contents) : x.nulls = x.slots.countP Value.isNull := by
  cases x with
  | null n =>
    rw [slots, List.countP_replicate]
    rfl
  | entries keys items =>
    rw [slots, List.countP_map, List.countP_eq_zero.2 (by rintro ⟨k, v⟩ -; exact nofun)]
    rfl
  | bytes t => exact (countP_whereValid fun i => by cases t <;> rfl).symm
  | _ => exact (countP_whereValid fun _ => rfl).symm

theorem length_slots : (x : Contents) → x.Even → x.slots.length = x.len
  | null _, _ => List.length_replicate
  | bool _ _, _ | num _ _ _, _ | bytes _ _ _, _ | list _ _ _, _ | fixedList _ _ _, _
  | struct _ _ _, _ | map _ _ _ _ _, _ => length_whereValid _ _
  | entries keys items, even => by
    have first := length_slots keys (even.child (by simp [children]))
    have second := length_slots items (even.child (by simp [children]))
    have paired : keys.len = items.len := even.here
    rw [slots, List.length_map, List.length_zip, first, second, paired, Nat.min_self, len, paired]

/-- What finishing and validation ask for. -/
structure Complete (x : Contents) : Prop where
  small : x.Small
  even : x.Even
  anchored : x.Anchored
  filled : x.KeysFilled

theorem Complete.child {x y : Contents} (h : x.Complete) (hy : y ∈ x.children) : y.Complete :=
  ⟨h.small.child hy, h.even.child hy, h.anchored.child hy, h.filled.child hy⟩

theorem complete_iff (x : Contents) :
    x.Complete ↔ (x.extent ≤ maxOffset ∧ x.EvenHere ∧ StartsWithin x.starts x.rows ∧
      x.nullKeys = 0) ∧ ∀ y ∈ x.children, y.Complete := by
  constructor
  · intro h
    exact ⟨⟨h.small.here, h.even.here, h.anchored.here, h.filled.here⟩, fun y hy => h.child hy⟩
  · rintro ⟨⟨small, even, anchored, filled⟩, below⟩
    exact ⟨.node small fun y hy => (below y hy).small, .node even fun y hy => (below y hy).even,
      .node anchored fun y hy => (below y hy).anchored,
      .node filled fun y hy => (below y hy).filled⟩

end Contents

/-! ### When finishing goes through -/

theorem leaf_small_even {x : Contents} (leaf : x.children = []) (small : x.extent ≤ maxOffset)
    (even : x.EvenHere) : x.Small ∧ x.Even :=
  ⟨.node small (by rw [leaf]; exact List.forall_mem_nil _),
    .node even (by rw [leaf]; exact List.forall_mem_nil _)⟩

mutual

/-- What could be finished is small enough and even. -/
theorem Holds.small_even_of_finish : {b : Builder} → {x : Contents} → Holds b x →
    {p : Column × Builder} → b.finish = .ok p → x.Small ∧ x.Even
  | _, _, .null _, _, _ | _, _, .bool _, _, _ | _, _, .num _, _, _ =>
    leaf_small_even rfl (Nat.zero_le _) trivial
  | _, _, .bytes held _, _, hb => by
    obtain ⟨p, first, -⟩ := bind_eq_ok.1 hb
    obtain ⟨stop, hstop, -⟩ := bind_eq_ok.1 first
    exact leaf_small_even rfl (held.small_of_stop hstop) trivial
  | _, _, .list _ child, _, hb => by
    obtain ⟨stop, hstop, hb⟩ := bind_eq_ok.1 hb
    obtain ⟨p, hp, -⟩ := bind_eq_ok.1 hb
    obtain ⟨small, even⟩ := Holds.small_even_of_finish child hp
    exact ⟨.node (child.offset_eq_ok.1 hstop).2 (List.forall_mem_singleton.2 small),
      .node trivial (List.forall_mem_singleton.2 even)⟩
  | _, _, .fixedList held child, _, hb => by
    rw [finish, child.len_eq, held.length] at hb
    split_ifs at hb with rows
    · cases hb
    · -- what was tested before the child was finished is that rows are even
      obtain ⟨p, hp, -⟩ := bind_eq_ok.1 hb
      obtain ⟨small, even⟩ := Holds.small_even_of_finish child hp
      exact ⟨.node (Nat.zero_le _) (List.forall_mem_singleton.2 small),
        .node (not_not.1 rows) (List.forall_mem_singleton.2 even)⟩
  | _, _, .struct held types columns, _, hb => by
    obtain ⟨⟨⟩, rows, hb⟩ := bind_eq_ok.1 hb
    obtain ⟨p, hp, -⟩ := bind_eq_ok.1 hb
    have below := small_even_of_finishAll columns hp
    obtain ⟨-, even⟩ | ⟨-, m, stopped⟩ := checkRows_outcome columns types
    · exact ⟨.node (Nat.zero_le _) fun y hy => (below y hy).1,
        .node (fun y hy => (even y hy).trans held.length) fun y hy => (below y hy).2⟩
    · cases rows.symm.trans stopped
  | _, _, .entries first second, _, hb => by
    obtain ⟨⟨⟩, rows, hb⟩ := bind_eq_ok.1 hb
    obtain ⟨p, hp, hb⟩ := bind_eq_ok.1 hb
    obtain ⟨q, hq, -⟩ := bind_eq_ok.1 hb
    have keys := Holds.small_even_of_finish first hp
    have items := Holds.small_even_of_finish second hq
    obtain ⟨-, even⟩ | ⟨-, m, stopped⟩ := checkPairs_outcome first second
    · exact ⟨.node (Nat.zero_le _) (List.forall_mem_cons.2
          ⟨keys.1, List.forall_mem_singleton.2 items.1⟩),
        .node even (List.forall_mem_cons.2 ⟨keys.2, List.forall_mem_singleton.2 items.2⟩)⟩
    · cases rows.symm.trans stopped
  | _, _, .map _ first second, _, hb => by
    obtain ⟨stop, hstop, hb⟩ := bind_eq_ok.1 hb
    obtain ⟨⟨⟩, rows, hb⟩ := bind_eq_ok.1 hb
    obtain ⟨p, hp, hb⟩ := bind_eq_ok.1 hb
    obtain ⟨q, hq, -⟩ := bind_eq_ok.1 hb
    have keys := Holds.small_even_of_finish first hp
    have items := Holds.small_even_of_finish second hq
    obtain ⟨-, even⟩ | ⟨-, m, stopped⟩ := checkPairs_outcome first second
    · exact ⟨.node (first.offset_eq_ok.1 hstop).2 (List.forall_mem_cons.2
          ⟨keys.1, List.forall_mem_singleton.2 items.1⟩),
        .node even (List.forall_mem_cons.2 ⟨keys.2, List.forall_mem_singleton.2 items.2⟩)⟩
    · cases rows.symm.trans stopped

theorem small_even_of_finishAll : {bs : List Builder} → {xs : List Contents} →
    List.Forall₂ Holds bs xs → {p : List Column × List Builder} → finishAll bs = .ok p →
    ∀ x ∈ xs, x.Small ∧ x.Even
  | _, _, .nil, _, _ => List.forall_mem_nil _
  | _, _, .cons h rest, _, hb => by
    obtain ⟨p, hp, hb⟩ := bind_eq_ok.1 hb
    obtain ⟨q, hq, -⟩ := bind_eq_ok.1 hb
    exact List.forall_mem_cons.2
      ⟨Holds.small_even_of_finish h hp, small_even_of_finishAll rest hq⟩

end

/-! ### What is read -/

/-- **A builder reads the slots of what it holds, exactly where that is complete.** -/
theorem Holds.reads_iff (h : Holds b x) {vs : List Value} :
    b.Reads vs ↔ x.Complete ∧ x.slots = vs := by
  constructor
  · rintro ⟨c, rest, v, finished, -, -, -, passed, hv, read⟩
    obtain ⟨small, even⟩ := h.small_even_of_finish finished
    obtain ⟨c', rest', finished', describes⟩ | ⟨-, m, stopped⟩ := h.finish_outcome
    · cases finished.symm.trans finished'
      have accepted := (Column.validateFull_decides c).ok_iff.1 passed
      obtain ⟨anchored, filled⟩ := describes.accepted.1 accepted
      refine ⟨⟨small, even, anchored, filled⟩, ?_⟩
      rw [View.slots_eq accepted hv, describes.slots anchored] at read
      exact Except.ok.inj read
    · cases finished.symm.trans stopped
  · rintro ⟨complete, rfl⟩
    obtain ⟨c, rest, finished, describes⟩ | ⟨stops, -⟩ := h.finish_outcome
    · have accepted := describes.accepted.2 ⟨complete.anchored, complete.filled⟩
      obtain ⟨v, hv⟩ := View.ofColumn_ok c accepted
      refine ⟨c, rest, v, finished, ?_, ?_, ?_, ?_, hv, ?_⟩
      · rw [describes.type, h.type_eq]
      · rw [describes.len, x.length_slots complete.even]
      · rw [describes.nulls, x.nulls_eq]
      · exact Column.validateFull_of_accepted accepted
      · rw [View.slots_eq accepted hv, describes.slots complete.anchored]
    · exact absurd ⟨complete.small, complete.even⟩ stops

/-- A builder reads one list of values. -/
theorem Holds.eq_of_reads (h : Holds b x) {vs ws : List Value} (one : b.Reads vs)
    (other : b.Reads ws) : vs = ws :=
  (h.reads_iff.1 one).2.symm.trans (h.reads_iff.1 other).2

end Builder

end Columnar
