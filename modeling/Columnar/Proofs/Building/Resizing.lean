import Columnar.Proofs.Building.Reached
import Columnar.Proofs.Building.Reading
import Columnar.Proofs.Building.RoundTrip
import Mathlib.Data.List.TakeDrop

/-!
# Setting the capacity of lists and structs

A capacity below the length drops slots.  Builders of scalars drop what is stored for these slots
with them, but lists, fixed-size lists and structs leave the rows of their children as they are.

The last slot that a list keeps then has the rows of all dropped slots, and fixed-size lists and
structs cannot be finished any more, as their children have too many rows.  They read just the
first slots exactly where the dropped ones have no rows (`Builder.resize_nested`).  For lists that
were appended by their calls these are the rows that were appended
(`Builder.resize_appended_lists`).
-/

namespace Columnar

namespace Builder

variable {allowed : Builder → Builder → Prop} {b : Builder} {x y : Contents} {vs : List Value}
  {valid : List Bool} {starts : List Nat} {i j k c : Nat}

/-- No capacity is zero. -/
theorem capacity_pos (c : Nat) : max c minCapacity ≠ 0 := by
  have least : minCapacity ≤ max c minCapacity := Nat.le_max_right ..
  rw [minCapacity] at least ⊢
  omega

/-! ### Lists -/

theorem bound_take (starts : List Nat) (n : Nat) (hj : j < k) :
    (starts.take k ++ [n]).getD j 0 = (starts ++ [n]).getD j 0 := by
  by_cases inside : j < starts.length
  · rw [List.getD_append _ _ _ _ (by rw [List.length_take]; omega), List.getD_append _ _ _ _ inside,
      List.getD_eq_getElem _ _ (by rw [List.length_take]; omega), List.getD_eq_getElem _ _ inside,
      List.getElem_take]
  · rw [List.take_of_length_le (by omega)]

theorem bound_length (starts : List Nat) (n : Nat) :
    (starts ++ [n]).getD starts.length 0 = n := by
  simp

theorem bound_mono {n : Nat} (within : StartsWithin starts n) (hi : i ≤ j)
    (hj : j ≤ starts.length) :
    (starts ++ [n]).getD i 0 ≤ (starts ++ [n]).getD j 0 := by
  have ordered := List.isChain_iff_pairwise.1 (StartsWithin.isChain_iff.2 within)
  have inside : j < (starts ++ [n]).length := by simpa using Nat.lt_succ_of_le hj
  rw [List.getD_eq_getElem _ _ (Nat.lt_of_le_of_lt hi inside), List.getD_eq_getElem _ _ inside]
  rcases Nat.eq_or_lt_of_le hi with rfl | less
  · exact Nat.le_refl _
  · exact List.pairwise_iff_getElem.1 ordered i j _ inside less

/-- Slots before the last one that is kept end where they did. -/
theorem runOf_take {α : Type} (starts : List Nat) (rows : List α) (hi : i + 1 < k) :
    runOf (starts.take k) rows i = runOf starts rows i := by
  rw [runOf, runOf]
  simp only
  rw [bound_take starts _ hi, bound_take starts _ (Nat.lt_of_succ_lt hi)]

/-- The last slot that is kept ends where the rows end. -/
theorem runOf_take_last {α : Type} (starts : List Nat) (rows : List α) (hk : k < starts.length) :
    runOf (starts.take (k + 1)) rows k = rows.drop (starts.getD k 0) := by
  have length : (starts.take (k + 1)).length = k + 1 := by rw [List.length_take]; omega
  have stop : (starts.take (k + 1) ++ [rows.length]).getD (k + 1) 0 = rows.length := by
    have last := bound_length (starts.take (k + 1)) rows.length
    rwa [length] at last
  rw [runOf]
  simp only
  rw [stop, bound_take starts _ (Nat.lt_succ_self k), List.getD_append _ _ _ _ hk]
  exact List.take_of_length_le (by rw [List.length_drop])

/-- The slot with all rows from `start` on, unless it is null. -/
def handOver (rows : List Value) (start : Nat) (v : Value) : Value :=
  if v.isNull then v else .list (rows.drop start)

theorem modify_eq_self_iff {α : Type} {l : List α} {f : α → α} :
    l.modify i f = l ↔ ∀ a, l[i]? = some a → f a = a := by
  constructor
  · intro same a ha
    have there := congrArg (·[i]?) same
    simp only [List.getElem?_modify, ha, if_true, Option.map_eq_map, Option.map_some] at there
    exact Option.some.inj there
  · intro same
    apply List.ext_getElem?
    intro j
    rw [List.getElem?_modify]
    cases found : l[j]? with
    | none => rfl
    | some a =>
      by_cases here : i = j
      · subst here
        simp [same a found]
      · simp [here]

namespace Contents

/-- A list that is cut gives the rows of the dropped slots to the last slot that it keeps. -/
theorem slots_resize_list (count : starts.length = valid.length) (x : Contents) (c : Nat) :
    ((list valid starts x).resize c).slots =
      ((list valid starts x).slots.take (max c minCapacity)).modify (max c minCapacity - 1)
        (handOver x.slots (starts.getD (max c minCapacity - 1) 0)) := by
  obtain ⟨k, hk⟩ : ∃ k, max c minCapacity = k + 1 :=
    Nat.exists_eq_succ_of_ne_zero (capacity_pos c)
  rw [resize, hk, Nat.add_sub_cancel, slots, slots, whereValid_take]
  -- slot by slot: only slot `k`, the last one that is kept, may end elsewhere than before
  apply List.ext_getElem?
  intro i
  rw [List.getElem?_modify, getElem?_whereValid, getElem?_whereValid]
  cases found : (valid.take (k + 1))[i]? with
  | none => rfl
  | some v =>
    obtain ⟨inside, -⟩ := List.getElem?_eq_some_iff.1 found
    rw [List.length_take] at inside
    cases v with
    | false => by_cases last : k = i <;> simp [last, handOver, Value.isNull]
    | true =>
      by_cases last : k = i
      · subst last
        simp [handOver, Value.isNull, runOf_take_last starts x.slots (by omega : k < starts.length)]
      · simp [last, runOf_take starts x.slots (by omega : i + 1 < k + 1)]

theorem complete_resize_list (h : (list valid starts x).Complete) (c : Nat) :
    ((list valid starts x).resize c).Complete := by
  have here := (complete_iff _).1 h
  refine (complete_iff _).2 ⟨⟨here.1.1, trivial, ?_, rfl⟩, here.2⟩
  exact h.anchored.here.sublist (List.take_sublist _ _) (.inr (Nat.le_refl _))

/-- Where the rows of a slot are all rows from its start on. -/
theorem runOf_eq_drop_iff {α : Type} {rows : List α} (within : StartsWithin starts rows.length)
    (hk : k < starts.length) :
    rows.drop (starts.getD k 0) = runOf starts rows k ↔
      (starts ++ [rows.length]).getD (k + 1) 0 = rows.length := by
  have start : (starts ++ [rows.length]).getD k 0 = starts.getD k 0 := List.getD_append _ _ _ _ hk
  have order : _ ≤ (starts ++ [rows.length]).getD (k + 1) 0 := bound_mono within (Nat.le_succ k) hk
  have stop := bound_le within (k + 1)
  rw [runOf]
  simp only
  rw [start] at order ⊢
  rw [eq_comm, List.take_eq_self_iff, List.length_drop]
  omega

/-- The last list that is kept is the same exactly where the dropped slots have no rows. -/
theorem modify_handOver_iff (h : (list valid starts x).Complete)
    (count : starts.length = valid.length) (some : k ≠ 0) :
    ((list valid starts x).slots.take k).modify (k - 1)
          (handOver x.slots (starts.getD (k - 1) 0)) =
        (list valid starts x).slots.take k ↔
      valid.length ≤ k ∨ ((list valid starts x).slots.getD (k - 1) .null).isNull = true ∨
        starts.getD k 0 = x.len := by
  obtain ⟨k, rfl⟩ : ∃ n, k = n + 1 := Nat.exists_eq_succ_of_ne_zero some
  rw [Nat.add_sub_cancel]
  have rows : x.slots.length = x.len := x.length_slots (h.even.child (List.mem_singleton_self _))
  have within : StartsWithin starts x.slots.length := rows.symm ▸ h.anchored.here
  have slot : (list valid starts x).slots[k]? =
      valid[k]?.map fun v => if v then .list (runOf starts x.slots k) else .null :=
    getElem?_whereValid _ _ _
  have last : (list valid starts x).slots.getD k .null =
      (list valid starts x).slots[k]?.getD .null := List.getD_eq_getElem?_getD
  rw [modify_eq_self_iff, List.getElem?_take_of_lt (Nat.lt_succ_self k), last, slot]
  by_cases inside : k < valid.length
  · rw [List.getElem?_eq_getElem inside]
    cases valid[k] with
    | false => simp [handOver, Value.isNull]
    | true =>
      have all := runOf_eq_drop_iff within (count ▸ inside)
      -- the next slot starts where all rows end, or there is no next slot
      have bound : (starts ++ [x.slots.length]).getD (k + 1) 0 = x.slots.length ↔
          valid.length ≤ k + 1 ∨ starts.getD (k + 1) 0 = x.len := by
        rcases Nat.lt_or_ge (k + 1) starts.length with more | last
        · rw [List.getD_append _ _ _ _ more, rows]
          exact (or_iff_right (by omega)).symm
        · have same : k + 1 = starts.length := by omega
          rw [same, bound_length]
          exact iff_of_true rfl (.inl (by omega))
      simp only [Option.map_some, if_true, Option.some.injEq, forall_eq', handOver, Value.isNull,
        Bool.false_eq_true, if_false, Value.list.injEq, Option.getD_some, false_or]
      rw [all, bound]
  · rw [List.getElem?_eq_none (Nat.le_of_not_lt inside)]
    simp [show valid.length ≤ k + 1 by omega]

/-! ### Fixed-size lists and structs -/

/-- A fixed-size list that is cut keeps the first slots, and is complete only if no rows are too
many. -/
theorem complete_resize_fixedList {size : Nat} (h : (fixedList valid size x).Complete) (c : Nat) :
    ((fixedList valid size x).resize c).Complete ↔ valid.length ≤ max c minCapacity ∨ size = 0 := by
  have here := (complete_iff _).1 h
  have even : x.len = valid.length * size := here.1.2.1
  have fits : x.len = (valid.take (max c minCapacity)).length * size ↔
      valid.length ≤ max c minCapacity ∨ size = 0 := by
    rw [even, List.length_take, mul_eq_mul_right_iff]
    omega
  rw [← fits]
  constructor
  · exact fun complete => complete.even.here
  · exact fun fits => (complete_iff _).2 ⟨⟨Nat.zero_le _, fits, .nil _, rfl⟩, here.2⟩

/-- So does a struct. -/
theorem complete_resize_struct {fields : List Field} {xs : List Contents}
    (h : (struct valid fields xs).Complete) (c : Nat) :
    ((struct valid fields xs).resize c).Complete ↔ valid.length ≤ max c minCapacity ∨ xs = [] := by
  have here := (complete_iff _).1 h
  have even : ∀ y ∈ xs, y.len = valid.length := here.1.2.1
  have fits : (∀ y ∈ xs, y.len = (valid.take (max c minCapacity)).length) ↔
      valid.length ≤ max c minCapacity ∨ xs = [] := by
    rw [List.length_take]
    cases xs with
    | nil => simp
    | cons y ys =>
      constructor
      · intro all
        have first := (all y (by simp)).symm.trans (even y (by simp))
        exact .inl (by omega)
      · rintro (room | ⟨⟨⟩⟩)
        exact fun z hz => (even z hz).trans (by omega)
  rw [← fits]
  constructor
  · exact fun complete => complete.even.here
  · exact fun fits => (complete_iff _).2 ⟨⟨Nat.zero_le _, fits, .nil _, rfl⟩, here.2⟩

end Contents

/-! ### What is read after appending -/

/-- Values that are appended by their calls are read. -/
theorem exists_reads (tracked : Bool) {t : DataType} (buildable : t.isBuildable = true)
    (typed : ∀ v ∈ vs, v.isOf t = true) (small : (Contents.ofValues t vs).Small) :
    ∃ b b', make tracked t = .ok b ∧ b.run (vs.flatMap Value.calls) = .ok b' ∧
      Reached (fun _ _ => True) b' ∧ Holds b' (.ofValues t vs) ∧ b'.Reads vs := by
  obtain ⟨b, made, -⟩ := exists_make tracked t buildable
  obtain ⟨b', ran, held⟩ := appendsAll vs (holds_make t made) typed small
  refine ⟨b, b', made, ran, (Reached.make made).run ran, held, held.reads_iff.2 ⟨?_, ?_⟩⟩
  · exact ⟨small, Contents.even_ofValues typed, Contents.anchored_ofValues typed,
      Contents.keysFilled_ofValues typed⟩
  · exact Contents.slots_ofValues t vs typed

/-! ### What is read after cutting -/

/-- **A list that is cut** reads the first slots, of which the last one has all rows from its start
on.  These are its own rows exactly where the dropped slots have none. -/
theorem resize_list {spans : Spans} {values : Builder} (h : Reached allowed (.list spans values))
    (reads : (Builder.list spans values).Reads vs) (c : Nat) :
    let k := max c minCapacity
    ∃ rows, values.Reads rows ∧
      ((Builder.list spans values).resize c).Reads
        ((vs.take k).modify (k - 1) (handOver rows (spans.starts.getD (k - 1) 0))) ∧
      (((Builder.list spans values).resize c).Reads (vs.take k) ↔
        vs.length ≤ k ∨ (vs.getD (k - 1) .null).isNull = true ∨
          spans.starts.getD k 0 = rows.length) := by
  intro k
  obtain ⟨x, held⟩ := h.holds
  obtain ⟨complete, rfl⟩ := held.reads_iff.1 reads
  have resized (ws : List Value) : ((Builder.list spans values).resize c).Reads ws ↔
      (x.resize c).Complete ∧ (x.resize c).slots = ws := (held.resize c).reads_iff
  cases held with
  | @list _ valid starts _ y spansHeld child =>
    have childComplete : y.Complete := complete.child (List.mem_singleton_self _)
    have slots := Contents.slots_resize_list spansHeld.count y c
    have complete' := Contents.complete_resize_list complete c
    refine ⟨y.slots, child.reads_iff.2 ⟨childComplete, rfl⟩, ?_, ?_⟩
    · rw [spansHeld.starts_eq]
      exact (resized _).2 ⟨complete', slots⟩
    · have length : ((Contents.list valid starts y).slots).length = valid.length :=
        length_whereValid _ _
      rw [resized, and_iff_right complete', slots, spansHeld.starts_eq, length,
        y.length_slots childComplete.even]
      exact Contents.modify_handOver_iff complete spansHeld.count (capacity_pos c)

/-- As many slots as the capacity has, where there were more. -/
theorem length_of_cut {slots : Slots} (held : slots.Holds valid) (more : ¬ valid.length ≤ k) :
    (slots.resize k).length = k := by
  rw [(held.resize k).length, List.length_take]
  omega

/-- **A fixed-size list that is cut** reads the first slots if there are no rows too many, and
otherwise finishing it stops. -/
theorem resize_fixedList {slots : Slots} {size : Nat} {values : Builder}
    (h : Reached allowed (.fixedList slots size values))
    (reads : (Builder.fixedList slots size values).Reads vs) (c : Nat) :
    let k := max c minCapacity
    if vs.length ≤ k ∨ size = 0 then
      ((Builder.fixedList slots size values).resize c).Reads (vs.take k)
    else ((Builder.fixedList slots size values).resize c).finish =
      (Misuse.fixedListRows values.len k size).stop := by
  intro k
  obtain ⟨x, held⟩ := h.holds
  obtain ⟨complete, rfl⟩ := held.reads_iff.1 reads
  have resized (ws : List Value) : ((Builder.fixedList slots size values).resize c).Reads ws ↔
      (x.resize c).Complete ∧ (x.resize c).slots = ws := (held.resize c).reads_iff
  cases held with
  | @fixedList _ valid _ _ y slotsHeld child =>
    have length : ((Contents.fixedList valid size y).slots).length = valid.length :=
      length_whereValid _ _
    have even : y.len = valid.length * size := complete.even.here
    have whole := Contents.complete_resize_fixedList complete c
    rw [length]
    split_ifs with fits
    · exact (resized _).2 ⟨whole.2 fits, (whereValid_take valid _ k).symm⟩
    · obtain ⟨more, some⟩ := not_or.1 fits
      have cut := length_of_cut slotsHeld more
      -- the slots are cut to `k`, but the rows are those of all slots
      have uneven : values.len ≠ k * size := by
        rw [child.len_eq, even]
        intro same
        exact more (Nat.le_of_eq (Nat.eq_of_mul_eq_mul_right (Nat.pos_of_ne_zero some) same))
      show finish (.fixedList (slots.resize k) size values) = _
      rw [finish, cut, if_pos uneven]

/-- **A struct that is cut**, likewise. -/
theorem resize_struct {slots : Slots} {fields : List Field} {children : List Builder}
    (h : Reached allowed (.struct slots fields children))
    (reads : (Builder.struct slots fields children).Reads vs) (c : Nat) :
    let k := max c minCapacity
    if vs.length ≤ k ∨ children = [] then
      ((Builder.struct slots fields children).resize c).Reads (vs.take k)
    else ∃ f fs, fields = f :: fs ∧ ((Builder.struct slots fields children).resize c).finish =
      (Misuse.fieldRows f.name vs.length k).stop := by
  intro k
  obtain ⟨x, held⟩ := h.holds
  obtain ⟨complete, rfl⟩ := held.reads_iff.1 reads
  have resized (ws : List Value) : ((Builder.struct slots fields children).resize c).Reads ws ↔
      (x.resize c).Complete ∧ (x.resize c).slots = ws := (held.resize c).reads_iff
  cases held with
  | @struct _ valid _ _ ys slotsHeld types columns =>
    have length : ((Contents.struct valid fields ys).slots).length = valid.length :=
      length_whereValid _ _
    have even : ∀ y ∈ ys, y.len = valid.length := complete.even.here
    have whole := Contents.complete_resize_struct complete c
    rw [length]
    split_ifs with fits
    · have none : valid.length ≤ k ∨ ys = [] := fits.imp_right fun empty => by
        subst empty
        exact List.forall₂_nil_left_iff.1 columns
      exact (resized _).2 ⟨whole.2 none, (whereValid_take valid _ k).symm⟩
    · obtain ⟨more, some⟩ := not_or.1 fits
      have cut := length_of_cut slotsHeld more
      cases columns with
      | nil => exact absurd rfl some
      | @cons b y bs ys first rest =>
        cases fields with
        | nil => cases types
        | cons f fs =>
          -- already the first field has a row for each dropped slot
          have rows : b.len = valid.length := first.len_eq.trans (even y (by simp))
          have uneven : valid.length ≠ k := fun same => more (Nat.le_of_eq same)
          refine ⟨f, fs, rfl, ?_⟩
          show finish (.struct (slots.resize k) (f :: fs) (b :: bs)) = _
          rw [finish, cut, checkRows, rows, if_neg uneven]
          rfl

/-- **Nested builders that are cut.**  Lists give the rows of dropped slots to the last slot that
they keep; fixed-size lists with rows and structs with fields cannot be finished; and the first
slots are read exactly where the dropped slots have no rows. -/
theorem resize_nested (h : Reached allowed b) (reads : b.Reads vs) (c : Nat) :
    let k := max c minCapacity
    (∀ spans values, b = .list spans values → ∃ rows, values.Reads rows ∧
      (b.resize c).Reads
        ((vs.take k).modify (k - 1) (handOver rows (spans.starts.getD (k - 1) 0))) ∧
      ((b.resize c).Reads (vs.take k) ↔
        vs.length ≤ k ∨ (vs.getD (k - 1) .null).isNull = true ∨
          spans.starts.getD k 0 = rows.length)) ∧
    (∀ slots size values, b = .fixedList slots size values →
      if vs.length ≤ k ∨ size = 0 then (b.resize c).Reads (vs.take k)
      else (b.resize c).finish = (Misuse.fixedListRows values.len k size).stop) ∧
    (∀ slots fields children, b = .struct slots fields children →
      if vs.length ≤ k ∨ children = [] then (b.resize c).Reads (vs.take k)
      else ∃ f fs, fields = f :: fs ∧
        (b.resize c).finish = (Misuse.fieldRows f.name vs.length k).stop) := by
  refine ⟨?_, ?_, ?_⟩
  · rintro spans values rfl
    exact resize_list h reads c
  · rintro slots size values rfl
    exact resize_fixedList h reads c
  · rintro slots fields children rfl
    exact resize_struct h reads c

/-- As many null lists as leave room for one slot in the smallest capacity, then an empty list and
one of a number. -/
def filledLists : List Value :=
  List.replicate 31 .null ++ [.list [], .list [.num (.int .int32) 7]]

theorem typed_filledLists :
    ∀ v ∈ filledLists, v.isOf (.list (.num (.int .int32))) = true :=
  Value.areOf_iff.1 (by decide)

theorem small_filledLists :
    (Contents.ofValues (.list (.num (.int .int32))) filledLists).Small :=
  .node (by decide) (List.forall_mem_singleton.2 (.node (by decide) nofun))

theorem resize_nested_filled :
    ∃ b, Reached (fun _ _ => True) b ∧ b.Reads filledLists ∧
      let k := max 1 minCapacity
      (∀ spans values, b = .list spans values → ∃ rows, values.Reads rows ∧
        (b.resize 1).Reads
          ((filledLists.take k).modify (k - 1) (handOver rows (spans.starts.getD (k - 1) 0))) ∧
        ((b.resize 1).Reads (filledLists.take k) ↔
          filledLists.length ≤ k ∨ (filledLists.getD (k - 1) .null).isNull = true ∨
            spans.starts.getD k 0 = rows.length)) ∧
      (∀ slots size values, b = .fixedList slots size values →
        if filledLists.length ≤ k ∨ size = 0 then (b.resize 1).Reads (filledLists.take k)
        else (b.resize 1).finish = (Misuse.fixedListRows values.len k size).stop) ∧
      (∀ slots fields children, b = .struct slots fields children →
        if filledLists.length ≤ k ∨ children = [] then (b.resize 1).Reads (filledLists.take k)
        else ∃ f fs, fields = f :: fs ∧
          (b.resize 1).finish = (Misuse.fieldRows f.name filledLists.length k).stop) := by
  obtain ⟨-, b, -, -, reached, -, reads⟩ :=
    exists_reads (t := .list (.num (.int .int32))) true rfl typed_filledLists small_filledLists
  exact ⟨b, reached, reads, resize_nested reached reads 1⟩

/-! ### Lists that are appended and cut -/

/-- The rows of the first slots, and of those from a slot on. -/
theorem drop_bound {α : Type} (f : Value → List α) (hk : k ≤ vs.length) :
    (vs.flatMap f).drop ((startsOf (vs.map f) ++ [(vs.flatMap f).length]).getD k 0) =
      (vs.drop k).flatMap f := by
  have bound := bound_eq (vs.map f) (by simpa using hk : k ≤ (vs.map f).length)
  rw [List.flatMap_def, bound, List.flatMap_def, List.map_drop]
  conv_lhs => rw [← List.take_append_drop k (vs.map f), List.flatten_append]
  rw [List.take_append_drop, List.drop_left]

/-- What a list that was appended by its calls and cut has in its slots. -/
theorem Contents.slots_resize_appended {elem : DataType}
    (typed : ∀ v ∈ vs, v.isOf (.list elem) = true) (c : Nat) :
    ((ofValues (.list elem) vs).resize c).slots =
      (vs.take (max c minCapacity)).modify (max c minCapacity - 1) fun v =>
        if v.isNull then v else .list ((vs.drop (max c minCapacity - 1)).flatMap Value.items) := by
  have count : (startsOf (vs.map Value.items)).length = (Value.validities vs).length := by
    simp [Value.validities]
  have rows : (ofValues elem (vs.flatMap Value.items)).slots = vs.flatMap Value.items :=
    slots_ofValues elem _ (List.forall_mem_flatMap.2 fun v hv => Value.items_isOf (typed v hv))
  have cut := slots_resize_list count (ofValues elem (vs.flatMap Value.items)) c
  have all : (list (Value.validities vs) (startsOf (vs.map Value.items))
      (ofValues elem (vs.flatMap Value.items))).slots = vs := slots_ofValues (.list elem) vs typed
  rw [all, rows] at cut
  rw [ofValues, cut]
  rcases Nat.lt_or_ge (max c minCapacity - 1) vs.length with inside | outside
  · -- the last slot that is kept starts behind the rows of those before it
    have start := drop_bound Value.items (Nat.le_of_lt inside)
    rw [List.getD_append _ _ _ _ (by simpa using inside)] at start
    unfold handOver
    rw [start]
  · rw [List.modify_eq_self (by rw [List.length_take]; omega),
      List.modify_eq_self (by rw [List.length_take]; omega)]

/-- The last list that is kept is what was appended exactly where no dropped list has rows. -/
theorem modify_items_iff {elem : DataType} (typed : ∀ v ∈ vs, v.isOf (.list elem) = true)
    (some : k ≠ 0) :
    ((vs.take k).modify (k - 1) fun v =>
        if v.isNull then v else .list ((vs.drop (k - 1)).flatMap Value.items)) = vs.take k ↔
      vs.length ≤ k ∨ (vs.getD (k - 1) .null).isNull = true ∨
        (vs.drop k).flatMap Value.items = [] := by
  obtain ⟨k, rfl⟩ : ∃ n, k = n + 1 := Nat.exists_eq_succ_of_ne_zero some
  rw [Nat.add_sub_cancel, modify_eq_self_iff, List.getElem?_take_of_lt (Nat.lt_succ_self k)]
  by_cases inside : k < vs.length
  · have last : vs.getD k .null = vs[k] := List.getD_eq_getElem _ _ inside
    rw [last, List.getElem?_eq_getElem inside, List.drop_eq_getElem_cons inside, List.flatMap_cons]
    simp only [Option.some.injEq, forall_eq']
    cases null : vs[k].isNull with
    | true => simp
    | false =>
      have stored : .list vs[k].items = vs[k] :=
        Value.isStored (typed _ (List.getElem_mem inside)) null
      have none : vs.length ≤ k + 1 → (vs.drop (k + 1)).flatMap Value.items = [] := by
        intro few
        rw [List.drop_eq_nil_of_le few, List.flatMap_nil]
      have same : Value.list (vs[k].items ++ (vs.drop (k + 1)).flatMap Value.items) = vs[k] ↔
          (vs.drop (k + 1)).flatMap Value.items = [] := by
        conv_lhs => rw [← stored]
        rw [Value.list.injEq, Value.items, List.append_right_eq_self]
      simp only [Bool.false_eq_true, if_false, false_or]
      rw [same]
      exact ⟨.inr, fun either => either.elim none id⟩
  · rw [List.getElem?_eq_none (Nat.le_of_not_lt inside)]
    simp [show vs.length ≤ k + 1 by omega]

/-- **Lists that are appended by their calls and cut.**  The last list that is kept has the rows of
all dropped lists, and is what was appended exactly where these are empty. -/
theorem resize_appended_lists (tracked : Bool) {elem : DataType}
    (buildable : elem.isBuildable = true) (typed : ∀ v ∈ vs, v.isOf (.list elem) = true)
    (small : (Contents.ofValues (.list elem) vs).Small) (c : Nat) :
    let k := max c minCapacity
    ∃ b b', make tracked (.list elem) = .ok b ∧ b.run (vs.flatMap Value.calls) = .ok b' ∧
      b'.Reads vs ∧
      (b'.resize c).Reads ((vs.take k).modify (k - 1) fun v =>
        if v.isNull then v else .list ((vs.drop (k - 1)).flatMap Value.items)) ∧
      ((b'.resize c).Reads (vs.take k) ↔ vs.length ≤ k ∨
        (vs.getD (k - 1) .null).isNull = true ∨ (vs.drop k).flatMap Value.items = []) := by
  intro k
  obtain ⟨b, b', made, ran, -, held, reads⟩ :=
    exists_reads (t := .list elem) tracked buildable typed small
  have whole := Contents.complete_resize_list (held.reads_iff.1 reads).1 c
  have slots := Contents.slots_resize_appended typed c
  have now : (b'.resize c).Reads _ := (held.resize c).reads_iff.2 ⟨whole, slots⟩
  refine ⟨b, b', made, ran, reads, now, ?_⟩
  rw [← modify_items_iff typed (capacity_pos c)]
  constructor
  · exact fun first => (held.resize c).eq_of_reads now first
  · exact fun same => same ▸ now

/-- An empty list that is the last one kept has the row of the list after it. -/
theorem resize_filledLists :
    ∃ b b', make true (.list (.num (.int .int32))) = .ok b ∧
      b.run (filledLists.flatMap Value.calls) = .ok b' ∧ b'.Reads filledLists ∧
      ¬ (b'.resize 1).Reads (filledLists.take (max 1 minCapacity)) := by
  obtain ⟨b, b', made, ran, reads, -, kept⟩ :=
    resize_appended_lists true rfl typed_filledLists small_filledLists 1
  refine ⟨b, b', made, ran, reads, fun first => ?_⟩
  obtain few | null | none := kept.1 first
  · exact absurd few (by decide)
  · exact absurd null (by decide)
  · exact absurd (congrArg List.length none) (by decide)

end Builder

end Columnar
