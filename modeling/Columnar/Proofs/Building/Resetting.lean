import Columnar.Proofs.Building.Reached

/-!
# Finishing leaves a fresh builder

`Builder.fresh` is the builder of the same shape without slots and without memory: what is left of
a builder is which children it has, the types and sizes that it was made for, and whether its memory
counts as outstanding.  No call touches any of these (`Builder.fresh_call`), and finishing leaves
nothing else (`Builder.fresh_of_finish`), whatever the calls before it were.

`Builder.Grown fresh b` says how `b` was made, by wrapping and by calls in any order, and that
`fresh` is made in the same way without the calls.  Finishing `b` leaves exactly `fresh`
(`Builder.Grown.finish_resets`), so whatever is asked of the one afterwards is answered as by the
other.
-/

namespace Columnar

/-! ### What operations on buffers and slots leave alone -/

namespace GrowBuffer

variable (b : GrowBuffer)

@[simp] theorem tracked_reserve (n : Nat) (sizes : Sizes := .unbounded) :
    (b.reserve n sizes).tracked = b.tracked := by
  rw [reserve]
  split
  · exact b.tracked_reallocate _ sizes
  · rfl

@[simp] theorem tracked_append (src : Bytes) : (b.append src).tracked = b.tracked :=
  b.tracked_reserve src.size

@[simp] theorem tracked_resize (n : Nat) (v : UInt8) : (b.resize n v).tracked = b.tracked := by
  rw [resize]
  split
  · exact b.tracked_reserve _
  · rfl

@[simp] theorem tracked_truncate (n : Nat) : (b.truncate n).tracked = b.tracked := by
  rw [truncate]
  split <;> rfl

@[simp] theorem tracked_putBit (i : Nat) (v : Bool) : (b.putBit i v).tracked = b.tracked := by
  rw [putBit]
  split <;> rfl

end GrowBuffer

namespace Slots

variable (s : Slots)

@[simp] theorem tracked_resize (c : Nat) : (s.resize c).tracked = s.tracked := by
  rw [resize]
  cases s.validity with
  | none => rfl
  | some bitmap =>
    simp only
    split_ifs <;> rfl

@[simp] theorem tracked_reserve (n : Nat) (sizes : Sizes := .unbounded) :
    (s.reserve n sizes).tracked = s.tracked := by
  rw [Slots.reserve]
  cases s.growTarget? n sizes with
  | none => rfl
  | some c => exact s.tracked_resize c

@[simp] theorem tracked_append (v : Bool) : (s.append v).tracked = s.tracked := by
  cases v <;> rfl

@[simp] theorem tracked_appendMany (v : Bool) (n : Nat) :
    (s.appendMany v n).tracked = s.tracked := by
  cases v <;> rfl

@[simp] theorem tracked_appendAll (more : List Bool) :
    (more.foldl Slots.append s).tracked = s.tracked := by
  induction more generalizing s with
  | nil => rfl
  | cons v more ih => exact (ih (s.append v)).trans (s.tracked_append v)

@[simp] theorem tracked_openMany (v : Bool) (n : Nat) : (s.openMany v n).tracked = s.tracked := by
  induction n generalizing s with
  | zero => rfl
  | succ n ih => rw [openMany, ih, tracked_append, tracked_reserve]

end Slots

namespace Spans

variable (s : Spans)

/-- No slots and no memory. -/
def fresh : Spans := ⟨.empty s.slots.tracked, .empty s.offsets.tracked⟩

@[simp] theorem fresh_resize (c : Nat) : (s.resize c).fresh = s.fresh := by
  simp [fresh, resize]

@[simp] theorem fresh_reserve (n : Nat) (sizes : Sizes := .unbounded) :
    (s.reserve n sizes).fresh = s.fresh := by
  rw [reserve]
  cases s.slots.growTarget? n sizes with
  | none => rfl
  | some c => exact s.fresh_resize c

@[simp] theorem fresh_append (start : Nat) (v : Bool) : (s.append start v).fresh = s.fresh := by
  simp [fresh, append]

@[simp] theorem fresh_appendMany (start : Nat) (v : Bool) (n : Nat) :
    (s.appendMany start v n).fresh = s.fresh := by
  induction n generalizing s with
  | zero => rfl
  | succ n ih => rw [appendMany, ih, fresh_append, fresh_reserve]

end Spans

namespace BoolBuilder

variable (b : BoolBuilder)

/-- No slots and no memory. -/
def fresh : BoolBuilder := ⟨.empty b.slots.tracked, .empty b.values.tracked⟩

@[simp] theorem fresh_resize (c : Nat) : (b.resize c).fresh = b.fresh := by
  simp [fresh, resize]

@[simp] theorem fresh_reserve (n : Nat) (sizes : Sizes := .unbounded) :
    (b.reserve n sizes).fresh = b.fresh := by
  rw [reserve]
  cases b.slots.growTarget? n sizes with
  | none => rfl
  | some c => exact b.fresh_resize c

@[simp] theorem fresh_append (x v : Bool) : (b.append x v).fresh = b.fresh := by
  rw [← b.fresh_reserve 1]
  simp [fresh, append]

theorem fresh_appendNulls (n : Nat) : (n.repeat appendNull b).fresh = b.fresh := by
  induction n with
  | zero => rfl
  | succ n ih => exact (fresh_append _ false false).trans ih

end BoolBuilder

namespace NumBuilder

variable (b : NumBuilder)

/-- No slots and no memory. -/
def fresh : NumBuilder := ⟨b.type, .empty b.slots.tracked, .empty b.values.tracked⟩

@[simp] theorem fresh_resize (c : Nat) : (b.resize c).fresh = b.fresh := by
  simp [fresh, resize]

@[simp] theorem fresh_reserve (n : Nat) (sizes : Sizes := .unbounded) :
    (b.reserve n sizes).fresh = b.fresh := by
  rw [reserve]
  cases b.slots.growTarget? n sizes with
  | none => rfl
  | some c => exact b.fresh_resize c

@[simp] theorem fresh_append (word : Nat) (v : Bool) : (b.append word v).fresh = b.fresh := by
  rw [← b.fresh_reserve 1]
  simp [fresh, append]

theorem fresh_appendNulls (n : Nat) : (n.repeat appendNull b).fresh = b.fresh := by
  induction n with
  | zero => rfl
  | succ n ih => exact (fresh_append _ 0 false).trans ih

theorem fresh_appendSlice (words : List Nat) : (b.appendSlice words).fresh = b.fresh := by
  rw [← b.fresh_reserve words.length]
  simp [fresh, appendSlice]

theorem fresh_of_appendValues {b b' : NumBuilder} {words : List Nat} {valid : List Bool}
    (hb : b.appendValues words valid = .ok b') : b'.fresh = b.fresh := by
  rw [appendValues] at hb
  split_ifs at hb
  · cases hb
    rw [← b.fresh_reserve words.length]
    simp [fresh]
  · cases hb

end NumBuilder

namespace BytesBuilder

variable (b : BytesBuilder)

/-- No slots and no memory. -/
def fresh : BytesBuilder := ⟨b.type, b.spans.fresh, .empty b.values.tracked⟩

@[simp] theorem fresh_resize (c : Nat) : (b.resize c).fresh = b.fresh := by
  simp only [resize, fresh]
  split_ifs <;> simp

@[simp] theorem fresh_reserve (n : Nat) (sizes : Sizes := .unbounded) :
    (b.reserve n sizes).fresh = b.fresh := by
  rw [reserve]
  cases b.spans.slots.growTarget? n sizes with
  | none => rfl
  | some c => exact b.fresh_resize c

variable {b} {b' : BytesBuilder}

theorem fresh_of_append {bytes : Bytes} {v : Bool} (hb : b.append bytes v = .ok b') :
    b'.fresh = b.fresh := by
  obtain ⟨start, -, hb⟩ := bind_eq_ok.1 hb
  cases hb
  rw [← b.fresh_reserve 1]
  simp [fresh]

theorem fresh_of_appendNulls {n : Nat} (hb : iterate appendNull b n = .ok b') :
    b'.fresh = b.fresh := by
  induction n generalizing b with
  | zero =>
    cases hb
    rfl
  | succ n ih =>
    obtain ⟨b₁, first, rest⟩ := bind_eq_ok.1 hb
    exact (ih rest).trans (fresh_of_append first)

end BytesBuilder

namespace Builder

/-! ### Fresh builders -/

mutual

/-- The builder of the same shape without slots and memory. -/
def fresh : Builder → Builder
  | null _ => .null {}
  | bool b => .bool b.fresh
  | num b => .num b.fresh
  | bytes b => .bytes b.fresh
  | list spans values => .list spans.fresh values.fresh
  | fixedList slots size values => .fixedList (.empty slots.tracked) size values.fresh
  | struct slots fields children => .struct (.empty slots.tracked) fields (freshAll children)
  | entries keys items => .entries keys.fresh items.fresh
  | map spans keys items sorted => .map spans.fresh keys.fresh items.fresh sorted

/-- The same of several builders. -/
def freshAll : List Builder → List Builder
  | [] => []
  | b :: bs => b.fresh :: freshAll bs

end

/-- The bitmap that the builder itself writes, if it has one. -/
def bitmap? : Builder → Option GrowBuffer
  | bool b => b.slots.validity
  | num b => b.slots.validity
  | bytes b => b.spans.slots.validity
  | list spans _ | map spans _ _ _ => spans.slots.validity
  | fixedList slots _ _ | struct slots _ _ => slots.validity
  | null _ | entries _ _ => none

/-- The offsets and values that the builder itself writes. -/
def buffers : Builder → List GrowBuffer
  | bool b => [b.values]
  | num b => [b.values]
  | bytes b => [b.spans.offsets, b.values]
  | list spans _ | map spans _ _ _ => [spans.offsets]
  | null _ | fixedList _ _ _ | struct _ _ _ | entries _ _ => []

/-- The builder itself has no slots and no memory. -/
structure BlankHere (b : Builder) : Prop where
  len : b.len = 0
  nulls : b.nulls = 0
  capacity : b.capacity = 0
  bitmap : b.bitmap? = none
  buffers : ∀ v ∈ b.buffers, v.len = 0 ∧ v.capacity = 0

/-- The builder and all those below it have no slots and no memory. -/
def Blank (b : Builder) : Prop := Throughout children BlankHere b

theorem freshAll_eq (bs : List Builder) : freshAll bs = bs.map fresh := by
  induction bs with
  | nil => rfl
  | cons b bs ih => rw [freshAll, List.map_cons, ih]

mutual

/-- A fresh builder is blank. -/
theorem blank_fresh : (b : Builder) → b.fresh.Blank
  | null _ => .node ⟨rfl, rfl, rfl, rfl, List.forall_mem_nil _⟩ (List.forall_mem_nil _)
  | bool _ | num _ =>
    .node ⟨rfl, rfl, rfl, rfl, List.forall_mem_singleton.2 ⟨rfl, rfl⟩⟩ (List.forall_mem_nil _)
  | bytes _ =>
    .node ⟨rfl, rfl, rfl, rfl, List.forall_mem_cons.2
      ⟨⟨rfl, rfl⟩, List.forall_mem_singleton.2 ⟨rfl, rfl⟩⟩⟩ (List.forall_mem_nil _)
  | list _ values =>
    .node ⟨rfl, rfl, rfl, rfl, List.forall_mem_singleton.2 ⟨rfl, rfl⟩⟩
      (List.forall_mem_singleton.2 (blank_fresh values))
  | fixedList _ _ values =>
    .node ⟨rfl, rfl, rfl, rfl, List.forall_mem_nil _⟩
      (List.forall_mem_singleton.2 (blank_fresh values))
  | struct _ _ bs => .node ⟨rfl, rfl, rfl, rfl, List.forall_mem_nil _⟩ (blank_freshAll bs)
  | entries keys items => by
    have first := blank_fresh keys
    have second := blank_fresh items
    refine .node ⟨first.here.len, rfl, ?_, rfl, List.forall_mem_nil _⟩
      (List.forall_mem_cons.2 ⟨first, List.forall_mem_singleton.2 second⟩)
    rw [fresh, capacity, first.here.capacity, Nat.zero_min]
  | map _ keys items _ =>
    .node ⟨rfl, rfl, rfl, rfl, List.forall_mem_singleton.2 ⟨rfl, rfl⟩⟩
      (List.forall_mem_cons.2 ⟨blank_fresh keys, List.forall_mem_singleton.2 (blank_fresh items)⟩)

theorem blank_freshAll : (bs : List Builder) → ∀ b ∈ freshAll bs, b.Blank
  | [] => List.forall_mem_nil _
  | b :: bs => List.forall_mem_cons.2 ⟨blank_fresh b, blank_freshAll bs⟩

end

/-! ### What calls leave alone -/

variable {b b' : Builder}

theorem fresh_resize : (b : Builder) → (c : Nat) → (b.resize c).fresh = b.fresh
  | null _, _ => rfl
  | bool b, c => congrArg bool (b.fresh_resize c)
  | num b, c => congrArg num (b.fresh_resize c)
  | bytes b, c => congrArg bytes (b.fresh_resize c)
  | list _ _, _ | fixedList _ _ _, _ | struct _ _ _, _ => by simp [resize, fresh]
  | entries keys items, c => by rw [resize, fresh, fresh, fresh_resize keys, fresh_resize items]
  | map _ keys items _, c => by
    simp only [resize, fresh, Spans.fresh_resize, fresh_resize keys, fresh_resize items]

theorem fresh_reserve (n : Nat) (sizes : Sizes) : (b : Builder) →
    (b.reserve n sizes).fresh = b.fresh
  | null _ => rfl
  | bool b => congrArg bool (b.fresh_reserve n sizes)
  | num b => congrArg num (b.fresh_reserve n sizes)
  | bytes b => congrArg bytes (b.fresh_reserve n sizes)
  | list _ _ | fixedList _ _ _ | struct _ _ _ => by simp [reserve, fresh]
  | entries keys items => by
    rw [reserve, fresh, fresh, fresh_reserve n sizes keys, fresh_reserve n sizes items]
  | map _ keys items _ => by
    simp only [reserve, fresh, Spans.fresh_reserve, fresh_reserve n sizes keys,
      fresh_reserve n sizes items]

mutual

theorem fresh_of_appendNulls : (b : Builder) → {n : Nat} → {b' : Builder} →
    b.appendNulls n = .ok b' → b'.fresh = b.fresh
  | b, 0, b', hb => by
    have same : b.appendNulls 0 = .ok b := by cases b <;> rfl
    cases same.symm.trans hb
    rfl
  | null _, n + 1, b', hb => by
    cases hb
    rfl
  | bool b, n + 1, b', hb => by
    cases hb
    exact congrArg bool (b.fresh_appendNulls (n + 1))
  | num b, n + 1, b', hb => by
    cases hb
    exact congrArg num (b.fresh_appendNulls (n + 1))
  | bytes b, n + 1, b', hb => by
    obtain ⟨b₁, many, hb⟩ := bind_eq_ok.1 hb
    cases hb
    exact congrArg bytes (BytesBuilder.fresh_of_appendNulls many)
  | list spans values, n + 1, b', hb => by
    obtain ⟨start, -, hb⟩ := bind_eq_ok.1 hb
    cases hb
    rw [fresh, fresh, Spans.fresh_appendMany]
  | fixedList slots size values, n + 1, b', hb => by
    obtain ⟨values', padded, hb⟩ := bind_eq_ok.1 hb
    cases hb
    rw [fresh, fresh, Slots.tracked_openMany, fresh_of_appendNulls values padded]
  | struct slots fields children, n + 1, b', hb => by
    obtain ⟨children', padded, hb⟩ := bind_eq_ok.1 hb
    cases hb
    rw [fresh, fresh, Slots.tracked_openMany, fresh_of_appendNullsToAll children padded]
  | entries keys items, n + 1, b', hb => by
    obtain ⟨keys', first, hb⟩ := bind_eq_ok.1 hb
    obtain ⟨items', second, hb⟩ := bind_eq_ok.1 hb
    cases hb
    rw [fresh, fresh, fresh_of_appendNulls keys first, fresh_of_appendNulls items second]
  | map spans keys items sorted, n + 1, b', hb => by
    obtain ⟨start, -, hb⟩ := bind_eq_ok.1 hb
    cases hb
    rw [fresh, fresh, Spans.fresh_appendMany]

theorem fresh_of_appendNullsToAll : (bs : List Builder) → {n : Nat} → {bs' : List Builder} →
    appendNullsToAll bs n = .ok bs' → freshAll bs' = freshAll bs
  | [], _, _, hb => by
    cases hb
    rfl
  | b :: bs, n, bs', hb => by
    obtain ⟨b₁, first, hb⟩ := bind_eq_ok.1 hb
    obtain ⟨bs₁, others, hb⟩ := bind_eq_ok.1 hb
    cases hb
    rw [freshAll, freshAll, fresh_of_appendNulls b first, fresh_of_appendNullsToAll bs others]

end

theorem fresh_of_append {v : Bool} (hb : b.append v = .ok b') : b'.fresh = b.fresh := by
  cases b with
  | list spans values =>
    obtain ⟨start, -, hb⟩ := bind_eq_ok.1 hb
    cases hb
    rw [fresh, fresh, Spans.fresh_append, Spans.fresh_reserve]
  | fixedList slots size values =>
    cases v with
    | true =>
      cases hb
      rw [fresh, fresh, Slots.tracked_append, Slots.tracked_reserve]
    | false =>
      obtain ⟨values', padded, hb⟩ := bind_eq_ok.1 hb
      cases hb
      rw [fresh, fresh, Slots.tracked_append, Slots.tracked_reserve,
        fresh_of_appendNulls values padded]
  | struct slots fields children =>
    cases hb
    rw [fresh, fresh, Slots.tracked_append, Slots.tracked_reserve]
  | map spans keys items sorted =>
    rw [append] at hb
    split_ifs at hb
    · obtain ⟨start, -, hb⟩ := bind_eq_ok.1 hb
      cases hb
      rw [fresh, fresh, Spans.fresh_append, Spans.fresh_reserve]
    · cases hb
  | _ => cases hb

theorem fresh_of_appendScalar {v : Value} (hb : b.appendScalar v = .ok b') :
    b'.fresh = b.fresh := by
  cases v with
  | null =>
    have null : b.appendScalar .null = b.appendNulls 1 := by cases b <;> rfl
    exact fresh_of_appendNulls b (null ▸ hb)
  | bool v =>
    cases b with
    | bool b =>
      cases hb
      exact congrArg bool (b.fresh_append v true)
    | _ => cases hb
  | num t word =>
    cases b with
    | num b =>
      cases hb
      exact congrArg num (b.fresh_append word true)
    | _ => cases hb
  | text v | binary v =>
    cases b with
    | bytes b =>
      obtain ⟨b₁, first, hb⟩ := bind_eq_ok.1 hb
      cases hb
      exact congrArg bytes (BytesBuilder.fresh_of_append first)
    | _ => cases hb
  | _ => cases b <;> cases hb

mutual

/-- Finishing leaves nothing but the fresh builder. -/
theorem fresh_of_finish : (b : Builder) → {c : Column} → {rest : Builder} →
    b.finish = .ok (c, rest) → rest = b.fresh
  | null _, _, _, hb | bool _, _, _, hb | num _, _, _, hb => by
    cases hb
    rfl
  | bytes b, _, _, hb => by
    obtain ⟨⟨c₁, b₁⟩, first, hb⟩ := bind_eq_ok.1 hb
    cases hb
    rw [BytesBuilder.finish_eq] at first
    obtain ⟨stop, -, first⟩ := bind_eq_ok.1 first
    cases first
    rfl
  | list spans values, _, _, hb => by
    obtain ⟨stop, -, hb⟩ := bind_eq_ok.1 hb
    obtain ⟨⟨c₁, values'⟩, below, hb⟩ := bind_eq_ok.1 hb
    cases hb
    rw [fresh_of_finish values below]
    rfl
  | fixedList slots size values, _, _, hb => by
    rw [finish] at hb
    split_ifs at hb
    · cases hb
    · obtain ⟨⟨c₁, values'⟩, below, hb⟩ := bind_eq_ok.1 hb
      cases hb
      rw [fresh_of_finish values below]
      rfl
  | struct slots fields children, _, _, hb => by
    obtain ⟨-, -, hb⟩ := bind_eq_ok.1 hb
    obtain ⟨⟨cs, children'⟩, below, hb⟩ := bind_eq_ok.1 hb
    cases hb
    rw [freshAll_of_finishAll children below]
    rfl
  | entries keys items, _, _, hb => by
    obtain ⟨-, -, hb⟩ := bind_eq_ok.1 hb
    obtain ⟨⟨k, keys'⟩, first, hb⟩ := bind_eq_ok.1 hb
    obtain ⟨⟨v, items'⟩, second, hb⟩ := bind_eq_ok.1 hb
    cases hb
    rw [fresh_of_finish keys first, fresh_of_finish items second]
    rfl
  | map spans keys items sorted, _, _, hb => by
    obtain ⟨stop, -, hb⟩ := bind_eq_ok.1 hb
    obtain ⟨-, -, hb⟩ := bind_eq_ok.1 hb
    obtain ⟨⟨k, keys'⟩, first, hb⟩ := bind_eq_ok.1 hb
    obtain ⟨⟨v, items'⟩, second, hb⟩ := bind_eq_ok.1 hb
    cases hb
    rw [fresh_of_finish keys first, fresh_of_finish items second]
    rfl

theorem freshAll_of_finishAll : (bs : List Builder) → {cs : List Column} → {rest : List Builder} →
    finishAll bs = .ok (cs, rest) → rest = freshAll bs
  | [], _, _, hb => by
    cases hb
    rfl
  | b :: bs, _, _, hb => by
    obtain ⟨⟨c₁, b₁⟩, first, hb⟩ := bind_eq_ok.1 hb
    obtain ⟨⟨cs₁, bs₁⟩, others, hb⟩ := bind_eq_ok.1 hb
    cases hb
    rw [fresh_of_finish b first, freshAll_of_finishAll bs others]
    rfl

end

mutual

theorem fresh_fresh : (b : Builder) → b.fresh.fresh = b.fresh
  | null _ | bool _ | num _ | bytes _ => rfl
  | list spans values => congrArg (list spans.fresh) (fresh_fresh values)
  | fixedList _ size values => congrArg (fixedList _ size) (fresh_fresh values)
  | struct _ fields children => congrArg (struct _ fields) (freshAll_freshAll children)
  | entries keys items => congrArg₂ entries (fresh_fresh keys) (fresh_fresh items)
  | map spans keys items sorted =>
    congrArg₂ (map spans.fresh · · sorted) (fresh_fresh keys) (fresh_fresh items)

theorem freshAll_freshAll : (bs : List Builder) → freshAll (freshAll bs) = freshAll bs
  | [] => rfl
  | b :: bs => congrArg₂ List.cons (fresh_fresh b) (freshAll_freshAll bs)

end

/-- No operation touches what makes up the fresh builder. -/
theorem fresh_of_apply {op : Op} {sizes : Sizes} {answer : Option Column}
    (hb : op.apply b sizes = .ok (b', answer)) : b'.fresh = b.fresh := by
  cases op with
  | appendNull =>
    obtain ⟨b₁, first, hb⟩ := bind_eq_ok.1 hb
    cases hb
    exact fresh_of_appendNulls b first
  | append v =>
    obtain ⟨b₁, first, hb⟩ := bind_eq_ok.1 hb
    cases hb
    exact fresh_of_append first
  | appendScalar v =>
    rw [Op.apply] at hb
    split_ifs at hb
    obtain ⟨b₁, first, hb⟩ := bind_eq_ok.1 hb
    cases hb
    exact fresh_of_appendScalar first
  | appendSlice words =>
    cases b with
    | num b =>
      cases hb
      exact congrArg num (b.fresh_appendSlice words)
    | _ => cases hb
  | appendValues words valid =>
    cases b with
    | num b =>
      obtain ⟨b₁, first, hb⟩ := bind_eq_ok.1 hb
      cases hb
      exact congrArg num (NumBuilder.fresh_of_appendValues first)
    | _ => cases hb
  | reserve n =>
    cases hb
    exact fresh_reserve n sizes b
  | resize c =>
    cases hb
    exact fresh_resize b c
  | finish =>
    obtain ⟨⟨c, b₁⟩, first, hb⟩ := bind_eq_ok.1 hb
    cases hb
    rw [fresh_of_finish b first, fresh_fresh]

theorem fresh_setChild {i : Nat} {c c' : Builder} (hc : b.child i = .ok c)
    (same : c'.fresh = c.fresh) : (b.setChild i c').fresh = b.fresh := by
  cases b with
  | list | fixedList =>
    rcases i with _ | i <;> cases hc
    rw [setChild, fresh, fresh, same]
  | struct slots fields children =>
    rw [child] at hc
    cases found : children[i]? with
    | none =>
      rw [found] at hc
      cases hc
    | some d =>
      rw [found] at hc
      cases hc
      obtain ⟨inside, rfl⟩ := List.getElem?_eq_some_iff.1 found
      have inside' : i < (children.map fresh).length := by rw [List.length_map]; exact inside
      have old : children[i].fresh = (children.map fresh)[i] := (List.getElem_map fresh).symm
      rw [setChild, fresh, fresh, freshAll_eq, freshAll_eq, List.map_set, same, old,
        List.set_getElem_self]
  | entries | map =>
    rcases i with _ | _ | i <;> cases hc <;> rw [setChild, fresh, fresh, same]
  | _ => cases hc

theorem fresh_modifyAt {α : Type} {change : Builder → Except Fault (Builder × α)}
    (same : ∀ {b b' a}, change b = .ok (b', a) → b'.fresh = b.fresh) :
    (path : List Nat) → {b b' : Builder} → {a : α} → modifyAt change path b = .ok (b', a) →
    b'.fresh = b.fresh
  | [], _, _, _, hb => same hb
  | i :: path, b, _, _, hb => by
    obtain ⟨c, hc, hb⟩ := bind_eq_ok.1 hb
    obtain ⟨⟨c', a'⟩, changed, hb⟩ := bind_eq_ok.1 hb
    cases hb
    exact fresh_setChild hc (fresh_modifyAt same path changed)

/-- **No call touches what makes up the fresh builder.** -/
theorem fresh_call {c : Call} {sizes : Sizes} {answer : Option Column}
    (hb : b.call c sizes = .ok (b', answer)) : b'.fresh = b.fresh :=
  fresh_modifyAt fresh_of_apply c.path hb

/-! ### How builders are made -/

mutual

/-- A new builder is fresh. -/
theorem fresh_of_make {tracked : Bool} : (t : DataType) → {b : Builder} →
    make tracked t = .ok b → b.fresh = b
  | .null, _, hb | .bool, _, hb | .num _, _, hb | .utf8, _, hb | .binary, _, hb => by
    cases hb
    rfl
  | .list elem, _, hb => by
    obtain ⟨values, below, hb⟩ := bind_eq_ok.1 hb
    cases hb
    rw [ofValues, fresh, fresh_of_make elem below]
    rfl
  | .fixedList size elem, _, hb => by
    obtain ⟨values, below, hb⟩ := bind_eq_ok.1 hb
    cases hb
    rw [fresh, fresh_of_make elem below]
    rfl
  | .struct fields, _, hb => by
    obtain ⟨children, below, hb⟩ := bind_eq_ok.1 hb
    obtain ⟨rfl, -⟩ := ofFields_eq_ok.1 hb
    rw [fresh, freshAll_of_makeAll fields below]
    rfl
  | .map key item sorted, _, hb => by
    obtain ⟨keys, first, hb⟩ := bind_eq_ok.1 hb
    obtain ⟨items, second, hb⟩ := bind_eq_ok.1 hb
    cases hb
    rw [ofEntries, fresh, fresh_of_make key first, fresh_of_make item second]
    rfl
  | .dictionary _ _ _, _, hb => by cases hb

theorem fresh_of_makeField {tracked : Bool} : (f : Field) → {b : Builder} →
    makeField tracked f = .ok b → b.fresh = b
  | ⟨_, t, _, _⟩, _, hb => fresh_of_make t hb

theorem freshAll_of_makeAll {tracked : Bool} : (fields : List Field) → {bs : List Builder} →
    makeAll tracked fields = .ok bs → freshAll bs = bs
  | [], _, hb => by
    cases hb
    rfl
  | f :: fs, _, hb => by
    obtain ⟨b, first, hb⟩ := bind_eq_ok.1 hb
    obtain ⟨bs, others, hb⟩ := bind_eq_ok.1 hb
    cases hb
    rw [freshAll, fresh_of_makeField f first, freshAll_of_makeAll fs others]

end

/-- `b` is made by wrapping builders and by any calls on any of them, and `fresh` in the same way
without the calls. -/
inductive Grown : (fresh b : Builder) → Prop
  | make {tracked : Bool} {t : DataType} {b : Builder} (made : make tracked t = .ok b) : Grown b b
  | sized {t : DataType} {capacity data : Nat} {sizes : Sizes} {b₀ b : Builder}
      (new : make false t = .ok b₀) (made : sized t capacity data sizes = .ok b) : Grown b₀ b
  | ofValues {values₀ values : Builder} (tracked : Bool) (child : Grown values₀ values) :
      Grown (ofValues tracked values₀) (ofValues tracked values)
  | ofFixed {tracked : Bool} {n : Int} {values₀ values b₀ b : Builder}
      (child : Grown values₀ values) (new : ofFixed tracked n values₀ = .ok b₀)
      (made : ofFixed tracked n values = .ok b) : Grown b₀ b
  /-- Each of the pairs consists of a fresh child and of one that was grown from it. -/
  | ofFields {tracked : Bool} {fields : List Field} {columns : List (Builder × Builder)}
      {b₀ b : Builder} (grown : ∀ p ∈ columns, Grown p.1 p.2)
      (new : ofFields tracked fields (columns.map Prod.fst) = .ok b₀)
      (made : ofFields tracked fields (columns.map Prod.snd) = .ok b) : Grown b₀ b
  | entries {keys₀ keys items₀ items : Builder} (first : Grown keys₀ keys)
      (second : Grown items₀ items) : Grown (.entries keys₀ items₀) (.entries keys items)
  | ofEntries {keys₀ keys items₀ items : Builder} (tracked sorted : Bool)
      (first : Grown keys₀ keys) (second : Grown items₀ items) :
      Grown (ofEntries tracked keys₀ items₀ sorted) (ofEntries tracked keys items sorted)
  | call {b₀ b b' : Builder} {c : Call} {sizes : Sizes} {answer : Option Column}
      (before : Grown b₀ b) (called : b.call c sizes = .ok (b', answer)) : Grown b₀ b'

theorem fresh_of_reserveBytes {bytes : Nat} {sizes : Sizes}
    (hb : b.reserveBytes bytes sizes = .ok b') : b'.fresh = b.fresh := by
  cases b with
  | bytes b =>
    obtain ⟨values, room, hb⟩ := bind_eq_ok.1 hb
    cases hb
    rw [GrowBuffer.reserveAddressable] at room
    split_ifs at room
    · cases room
      simp [fresh, BytesBuilder.fresh]
    · cases room
  | _ => cases hb; rfl

theorem fresh_of_sized {t : DataType} {capacity data : Nat} {sizes : Sizes} {b₀ : Builder}
    (new : make false t = .ok b₀) (made : sized t capacity data sizes = .ok b) :
    b.fresh = b₀ := by
  obtain ⟨b₁, first, made⟩ := bind_eq_ok.1 made
  cases new.symm.trans first
  rw [fresh_of_reserveBytes made, fresh_resize, fresh_of_make t new]

namespace Grown

variable {fresh : Builder}

/-- What makes up the fresh builder is what `b` was made with. -/
theorem fresh_eq (h : Grown fresh b) : b.fresh = fresh := by
  induction h with
  | make made => exact fresh_of_make _ made
  | sized new made => exact fresh_of_sized new made
  | ofValues tracked _ child => exact congrArg (list (.empty tracked)) child
  | ofFixed _ new made child =>
    obtain ⟨-, rfl⟩ := ofFixed_eq_ok.1 new
    obtain ⟨-, rfl⟩ := ofFixed_eq_ok.1 made
    exact congrArg (fixedList _ _) child
  | @ofFields tracked fields columns _ _ _ new made below =>
    obtain ⟨rfl, -⟩ := ofFields_eq_ok.1 new
    obtain ⟨rfl, -⟩ := ofFields_eq_ok.1 made
    refine congrArg (struct _ _) ?_
    rw [freshAll_eq, List.map_map]
    exact List.map_congr_left below
  | entries _ _ first second => exact congrArg₂ Builder.entries first second
  | ofEntries tracked sorted _ _ first second =>
    exact congrArg₂ (Builder.map (.empty tracked) · · sorted) first second
  | call _ called before => exact (fresh_call called).trans before

/-- Calls one after the other, on a builder that was made in some way. -/
theorem run {calls : List Call} {sizes : Sizes} (h : Grown fresh b)
    (ran : b.run calls sizes = .ok b') : Grown fresh b' := by
  induction calls generalizing b with
  | nil =>
    cases ran
    exact h
  | cons c cs ih =>
    obtain ⟨⟨b₁, answer⟩, called, ran⟩ := bind_eq_ok.1 ran
    exact ih (h.call called) ran

/-- **Finishing leaves a fresh builder.**  Whatever the calls were that led to `b`, and on whichever
of the builders below it they were, finishing `b` leaves what making it anew would give, with no
slots, no capacity, no bitmap and empty buffers at every depth. -/
theorem finish_resets (h : Grown fresh b) {c : Column} {rest : Builder}
    (finished : b.finish = .ok (c, rest)) : rest = fresh ∧ rest.Blank := by
  have left := fresh_of_finish b finished
  exact ⟨left.trans h.fresh_eq, left ▸ blank_fresh b⟩

/-- A list over a builder that has a row already, with a slot more and a row in it. -/
theorem finish_resets_wrapped :
    ∃ (b : Builder) (c : Column) (rest : Builder), b.starts = [1] ∧ b.rows = 2 ∧
      b.finish = .ok (c, rest) ∧
      rest = Builder.ofValues true (.num (.empty (.int .int32) false)) ∧ rest.Blank := by
  have made : Builder.make false (.num (.int .int32)) = .ok _ := rfl
  have appended : (num (.empty (.int .int32) false)).run
      [⟨[], .appendScalar (.num (.int .int32) 7)⟩] = .ok _ := rfl
  have child := (Grown.make made).run appended
  have row := (holds_make _ made).run appended
  have opened : (list (.empty true)
      (num (NumBuilder.append (.empty (.int .int32) false) 7 true))).run openFirst = .ok _ := rfl
  have held := (Holds.list (Spans.holds_empty true) row).run opened
  obtain ⟨c, rest, finished, -⟩ | ⟨stops, -⟩ := held.finish_outcome
  · refine ⟨_, c, rest, held.starts_eq, held.rows_eq, finished, ?_⟩
    exact ((child.ofValues true).run opened).finish_resets finished
  · refine absurd ⟨?_, ?_⟩ stops
    · exact .node (by decide) (List.forall_mem_singleton.2 (.node (by decide) nofun))
    · exact .node trivial (List.forall_mem_singleton.2 (.node trivial nofun))

end Grown

end Builder

end Columnar
