import Columnar.Proofs.Building.Reached
import Columnar.Proofs.Building.Room

/-!
# Sessions

A caller whose call is refused goes on with the builder as it was.  `Builder.attempt` makes a call
in this way and gives what it tells the caller; `Builder.attemptAll` makes several.

A `Session` is a builder in use together with what has been done to it: the operations that opened
its slots, in order, and for each row of each child how many slots were open when the row came.
Calls may be made on the builder and on those below it in any order.  Two facts are the same for all
builders with children: no row came after more slots than there are, and rows came in the order of
the slots (`Session.Ordered`).  A call below the builder adds rows to children and touches nothing
else (`Builder.Holds.call_below`).
-/

namespace Columnar

namespace Builder

/-! ### Calls that may be refused -/

/-- What goes on after an attempt is the call's own result, or the builder itself. -/
theorem attempt_eq_ok {b b' : Builder} {c : Call} {sizes : Sizes}
    {told : Option (Except Refusal Column)} :
    b.attempt c sizes = .ok (b', told) ↔
      (∃ answer, b.call c sizes = .ok (b', answer) ∧ told = answer.map .ok) ∨
        ∃ r, b.call c sizes = .error (.refusal r) ∧ b' = b ∧ told = some (.error r) := by
  rw [attempt]
  generalize b.call c sizes = result
  rcases result with (⟨r⟩ | _ | _ | _) | ⟨b₁, answer⟩
  · simp [eq_comm]
  all_goals simp [eq_comm, and_comm]

/-- Number of rows of child `j`. -/
def rowsOf (b : Builder) (j : Nat) : Nat := (b.children[j]?.map len).getD 0

/-- The operation opens a slot of a nested builder. -/
def Op.opens : Op → Bool
  | appendNull | append _ => true
  | _ => false

/-- The validity of the slot that the operation opens. -/
def Op.valid : Op → Bool
  | append valid => valid
  | _ => false

/-- The call opens a slot of the builder or makes room for one, or adds below the builder. -/
def Call.fills : Call → Bool
  | ⟨[], .appendNull⟩ | ⟨[], .append _⟩ | ⟨[], .reserve _⟩ => true
  | ⟨[], _⟩ => false
  | ⟨_ :: _, op⟩ => op.adds

/-- A builder in use, and what has been done to it. -/
structure Session where
  builder : Builder
  /-- What opened each slot of the builder. -/
  opened : List Op
  /-- For each row of a child, the number of slots that were open when it came.  Rows that come with
  a slot, as those of a null slot do, are left out. -/
  came : Nat → List Nat

namespace Session

/-- Before the first call, rows are those that the children were given beforehand. -/
def start (b : Builder) : Session := ⟨b, [], fun j => List.replicate (b.rowsOf j) 0⟩

/-- After a call that has made a builder into `b`. -/
def record (s : Session) (c : Call) (b : Builder) : Session :=
  match c.path with
  | [] => { s with builder := b, opened := s.opened ++ [c.op].filter Op.opens }
  | _ :: _ =>
    { s with
      builder := b
      came := fun j =>
        s.came j ++ List.replicate (b.rowsOf j - s.builder.rowsOf j) s.opened.length }

/-- Makes the call.  Nothing has happened if it is refused. -/
def step (s : Session) (c : Call) (sizes : Sizes := .unbounded) : Except Fault Session := do
  match ← s.builder.attempt c sizes with
  | (_, some (.error _)) => return s
  | (b, _) => return s.record c b

/-- Makes the calls one after the other, until one fails. -/
def run (s : Session) (calls : List Call) (sizes : Sizes := .unbounded) : Except Fault Session :=
  calls.foldlM (step · · sizes) s

variable {s s' : Session} {c : Call} {f : Fault} {calls : List Call}

theorem step_eq_ok :
    s.step c = .ok s' ↔ (∃ b answer, s.builder.call c = .ok (b, answer) ∧ s' = s.record c b) ∨
      ∃ r, s.builder.call c = .error (.refusal r) ∧ s' = s := by
  rw [step]
  constructor
  · intro stepped
    obtain ⟨⟨b, told⟩, attempted, stepped⟩ := bind_eq_ok.1 stepped
    obtain ⟨answer, called, rfl⟩ | ⟨r, called, rfl, rfl⟩ := attempt_eq_ok.1 attempted
    · refine .inl ⟨b, answer, called, ?_⟩
      cases answer <;> cases stepped <;> rfl
    · cases stepped
      exact .inr ⟨r, called, rfl⟩
  · rintro (⟨b, answer, called, rfl⟩ | ⟨r, called, rfl⟩)
    · rw [attempt_eq_ok.2 (.inl ⟨answer, called, rfl⟩)]
      cases answer <;> rfl
    · rw [attempt_eq_ok.2 (.inr ⟨r, called, rfl, rfl⟩)]
      rfl

theorem builder_of_step {p : Builder × Option (Except Refusal Column)}
    (attempted : s.builder.attempt c = .ok p) (stepped : s.step c = .ok s') : s'.builder = p.1 := by
  obtain ⟨answer, called, -⟩ | ⟨r, called, same, -⟩ := attempt_eq_ok.1 attempted
  · obtain ⟨b, answer', called', rfl⟩ | ⟨r, called', -⟩ := step_eq_ok.1 stepped
    · cases called.symm.trans called'
      rw [record]
      split <;> rfl
    · cases called.symm.trans called'
  · obtain ⟨b, answer', called', -⟩ | ⟨r', -, rfl⟩ := step_eq_ok.1 stepped
    · cases called.symm.trans called'
    · exact same.symm

theorem step_sizes {sizes : Sizes} (h : s.builder.CallInRange c) : s.step c sizes = s.step c := by
  rw [step, step, attempt_sizes h]

/-- The calls after those that were made are in range. -/
theorem inRange_of_run {after : List Call} (h : s.builder.RunInRange (calls ++ after))
    (ran : s.run calls = .ok s') : s'.builder.RunInRange after := by
  induction calls generalizing s with
  | nil =>
    cases ran
    exact h
  | cons c cs ih =>
    rw [run, List.foldlM_cons] at ran
    obtain ⟨s₁, stepped, rest⟩ := bind_eq_ok.1 ran
    obtain ⟨p, attempted, -⟩ := bind_eq_ok.1 stepped
    have same : s₁.builder = p.1 := builder_of_step attempted stepped
    exact ih (same ▸ h.2 p attempted) rest

/-- **A session goes the same way**, however sums come out. -/
theorem run_sizes {sizes : Sizes} (h : s.builder.RunInRange calls) :
    s.run calls sizes = s.run calls := by
  induction calls generalizing s with
  | nil => rfl
  | cons c cs ih =>
    rw [run, run, List.foldlM_cons, List.foldlM_cons, step_sizes h.1]
    cases stepped : s.step c with
    | error f => rfl
    | ok s' =>
      have first : s.run [c] = .ok s' := by
        rw [run, List.foldlM_cons, stepped]
        rfl
      rw [ok_bind, ok_bind]
      exact ih (inRange_of_run h first)

/-- What a call that fills can do: open a slot, make room, add below the builder, or be refused. -/
theorem step_cases (fills : c.fills = true) (stepped : s.step c = .ok s') :
    (∃ op b answer, op.opens = true ∧ s.builder.call ⟨[], op⟩ = .ok (b, answer) ∧
        s' = s.record ⟨[], op⟩ b) ∨
      (∃ n b answer, s.builder.call ⟨[], .reserve n⟩ = .ok (b, answer) ∧
        s' = s.record ⟨[], .reserve n⟩ b) ∨
      (∃ i path op b answer, op.adds = true ∧ s.builder.call ⟨i :: path, op⟩ = .ok (b, answer) ∧
        s' = s.record ⟨i :: path, op⟩ b) ∨ s' = s := by
  obtain ⟨b, answer, called, rfl⟩ | ⟨r, -, rfl⟩ := step_eq_ok.1 stepped
  · obtain ⟨path, op⟩ := c
    cases path with
    | nil =>
      cases op with
      | appendNull | append => exact .inl ⟨_, b, answer, rfl, called, rfl⟩
      | reserve n => exact .inr (.inl ⟨n, b, answer, called, rfl⟩)
      | _ => cases fills
    | cons i path => exact .inr (.inr (.inl ⟨i, path, op, b, answer, fills, called, rfl⟩))
  · exact .inr (.inr (.inr rfl))

theorem opened_record {op : Op} (opens : op.opens = true) (b : Builder) :
    (s.record ⟨[], op⟩ b).opened = s.opened ++ [op] := by
  show s.opened ++ [op].filter Op.opens = _
  rw [List.filter_singleton, opens]
  rfl

theorem opened_record_reserve (n : Nat) (b : Builder) :
    (s.record ⟨[], .reserve n⟩ b).opened = s.opened := List.append_nil _

/-! ### The order of rows -/

/-- Rows came in the order of the slots, none after more slots than there are. -/
def Ordered (s : Session) : Prop :=
  ∀ j, (s.came j).Pairwise (· ≤ ·) ∧ ∀ k ∈ s.came j, k ≤ s.opened.length

theorem ordered_record (h : s.Ordered) (c : Call) (b : Builder) : (s.record c b).Ordered := by
  intro j
  obtain ⟨sorted, bound⟩ := h j
  rw [record]
  split
  · refine ⟨sorted, fun k hk => Nat.le_trans (bound k hk) ?_⟩
    rw [List.length_append]
    exact Nat.le_add_right _ _
  · -- new rows come after all slots that there are
    have within : StartsWithin (s.came j) s.opened.length := ⟨sorted, bound⟩
    have more := within.extend (b.rowsOf j - s.builder.rowsOf j)
    exact ⟨more.ordered, more.within⟩

theorem Ordered.step (h : s.Ordered) (stepped : s.step c = .ok s') : s'.Ordered := by
  obtain ⟨b', answer, -, rfl⟩ | ⟨r, -, rfl⟩ := step_eq_ok.1 stepped
  · exact ordered_record h c b'
  · exact h

end Session

/-! ### Contents in a session -/

namespace Contents

/-- Number of rows of child `j`. -/
def rowsOf (x : Contents) (j : Nat) : Nat := (x.children[j]?.map len).getD 0

/-- The validities of the slots themselves. -/
def validity : Contents → List Bool
  | bool valid _ | num _ valid _ | bytes _ valid _ | list valid _ _ | fixedList valid _ _
  | struct valid _ _ | map valid _ _ _ _ => valid
  | null _ | entries _ _ => []

theorem rowsOf_of_child? {x y : Contents} {i : Nat} (hy : x.child? i = some y) :
    x.rowsOf i = y.len := by
  rw [rowsOf, ← child?_eq, hy]
  rfl

theorem validity_setChild (x : Contents) (i : Nat) (y : Contents) :
    (x.setChild i y).validity = x.validity := by
  rcases x with _ | _ | _ | _ | _ | _ | _ | _ | _ <;> rcases i with _ | _ | i <;> rfl

theorem rowsOf_setChild {x y : Contents} {i : Nat} (hy : x.child? i = some y) (y' : Contents)
    (j : Nat) : (x.setChild i y').rowsOf j = if j = i then y'.len else x.rowsOf j := by
  have found := (child?_eq x i).symm.trans hy
  obtain ⟨inside, rfl⟩ := List.getElem?_eq_some_iff.1 found
  rw [rowsOf, children_setChild, List.getElem?_set]
  by_cases same : i = j
  · subst same
    simp [inside]
  · rw [if_neg same, if_neg (Ne.symm same), rowsOf]

end Contents

namespace Holds

variable {b b' : Builder} {x : Contents}

theorem rowsOf_eq (h : Holds b x) (j : Nat) : b.rowsOf j = x.rowsOf j := by
  have columns := h.columns
  rw [rowsOf, Contents.rowsOf]
  by_cases inside : j < b.children.length
  · have inside' : j < x.children.length := columns.length_eq ▸ inside
    rw [List.getElem?_eq_getElem inside, List.getElem?_eq_getElem inside']
    exact (columns.get inside inside').len_eq
  · have outside : ¬ j < x.children.length := columns.length_eq ▸ inside
    rw [List.getElem?_eq_none (Nat.le_of_not_lt inside),
      List.getElem?_eq_none (Nat.le_of_not_lt outside)]
    rfl

/-- A call that adds below child `i` changes that child only, and drops none of its rows. -/
theorem call_below (h : Holds b x) {i : Nat} {path : List Nat} {op : Op} {answer : Option Column}
    (called : b.call ⟨i :: path, op⟩ = .ok (b', answer)) (adds : op.adds = true) :
    ∃ y y', x.child? i = some y ∧ y.Grows y' ∧ Holds b' (x.setChild i y') := by
  have held := h.call called
  obtain ⟨c, hc, -⟩ := bind_eq_ok.1 called
  obtain ⟨y, hy, -⟩ := h.child hc
  refine ⟨y, y.modifyAt (·.apply op) path, hy,
    Contents.grows_modifyAt (fun z => z.grows_apply adds) path y, ?_⟩
  rwa [Contents.call, Contents.modifyAt, hy] at held

end Holds

/-- What came of rows when a call below child `i` has made of `y` the contents `y'`. -/
theorem Session.came_record_below {s : Session} {x y y' : Contents} {b' : Builder} {i : Nat}
    {path : List Nat} {op : Op} (h : Holds s.builder x) (hy : x.child? i = some y)
    (held : Holds b' (x.setChild i y')) (j : Nat) :
    (s.record ⟨i :: path, op⟩ b').came j =
      s.came j ++ List.replicate (if j = i then y'.len - y.len else 0) s.opened.length := by
  show s.came j ++ List.replicate (b'.rowsOf j - s.builder.rowsOf j) s.opened.length = _
  rw [held.rowsOf_eq, h.rowsOf_eq, Contents.rowsOf_setChild hy]
  by_cases same : j = i
  · rw [if_pos same, if_pos same, same, Contents.rowsOf_of_child? hy]
  · rw [if_neg same, if_neg same, Nat.sub_self]

end Builder

end Columnar
