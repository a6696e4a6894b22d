import Columnar.Builder.Call
import Columnar.Proofs.Building.Leaves

/-!
# What builders hold

`Contents` is what a builder holds once memory and capacity are left out: a tree of lists, with the
validities of the slots of every builder and what is stored for them.  Lists and maps store where
the rows of a slot start in the child, whatever the child holds.

Every operation on builders has a counterpart on contents that says what it adds or drops.
`Builder.Holds` relates a builder to its contents, and is kept by every call: if `b` holds `x` and a
call on `b` goes through, then what it leaves holds what the same call leaves of `x`
(`Builder.Holds.call`).
-/

namespace Columnar

namespace Builder

/-- What a builder holds, apart from memory and capacity. -/
inductive Contents where
  | null (len : Nat)
  | bool (valid bits : List Bool)
  | num (type : NumType) (valid : List Bool) (words : List Nat)
  | bytes (type : BytesType) (valid : List Bool) (runs : List (List UInt8))
  /-- Slots, and where the rows of each start in the child. -/
  | list (valid : List Bool) (starts : List Nat) (values : Contents)
  | fixedList (valid : List Bool) (size : Nat) (values : Contents)
  | struct (valid : List Bool) (fields : List Field) (children : List Contents)
  | entries (keys items : Contents)
  | map (valid : List Bool) (starts : List Nat) (keys items : Contents) (sorted : Bool)

namespace Contents

instance : Inhabited Contents := ⟨.null 0⟩

/-! ### Reading -/

def type : Contents → DataType
  | null _ => .null
  | bool _ _ => .bool
  | num t _ _ => .num t
  | bytes t _ _ => t.type
  | list _ _ values => .list values.type
  | fixedList _ size values => .fixedList size values.type
  | struct _ fields _ => .struct fields
  | entries keys items => .entries keys.type items.type
  | map _ _ keys items sorted => .map keys.type items.type sorted

/-- Number of slots. -/
def len : Contents → Nat
  | null n => n
  | bool valid _ | num _ valid _ | bytes _ valid _ | list valid _ _ | fixedList valid _ _
  | struct valid _ _ | map valid _ _ _ _ => valid.length
  | entries keys _ => keys.len

/-- Number of null slots. -/
def nulls : Contents → Nat
  | null n => n
  | bool valid _ | num _ valid _ | bytes _ valid _ | list valid _ _ | fixedList valid _ _
  | struct valid _ _ | map valid _ _ _ _ => valid.count false
  | entries _ _ => 0

/-! ### Operations -/

/-- The first `capacity` slots, or as many as the smallest capacity has.  Rows of children stay,
except those of maps and entries. -/
def resize : Contents → (capacity : Nat) → Contents
  | null n, c => null (min n (max c minCapacity))
  | bool valid bits, c => bool (valid.take (max c minCapacity)) (bits.take (max c minCapacity))
  | num t valid words, c => num t (valid.take (max c minCapacity)) (words.take (max c minCapacity))
  | bytes t valid runs, c =>
    bytes t (valid.take (max c minCapacity)) (runs.take (max c minCapacity))
  | list valid starts values, c =>
    list (valid.take (max c minCapacity)) (starts.take (max c minCapacity)) values
  | fixedList valid size values, c => fixedList (valid.take (max c minCapacity)) size values
  | struct valid fields children, c => struct (valid.take (max c minCapacity)) fields children
  | entries keys items, c => entries (keys.resize c) (items.resize c)
  | map valid starts keys items sorted, c =>
    map (valid.take (max c minCapacity)) (starts.take (max c minCapacity))
      (keys.resize (max c minCapacity)) (items.resize (max c minCapacity)) sorted

mutual

/-- `n` null slots more. -/
def appendNulls : Contents → (n : Nat) → Contents
  | null len, n => null (len + n)
  | bool valid bits, n => bool (valid ++ List.replicate n false) (bits ++ List.replicate n false)
  | num t valid words, n => num t (valid ++ List.replicate n false) (words ++ List.replicate n 0)
  | bytes t valid runs, n => bytes t (valid ++ List.replicate n false) (runs ++ List.replicate n [])
  | list valid starts values, n =>
    list (valid ++ List.replicate n false) (starts ++ List.replicate n values.len) values
  | fixedList valid size values, n =>
    fixedList (valid ++ List.replicate n false) size (values.appendNulls (n * size))
  | struct valid fields children, n =>
    struct (valid ++ List.replicate n false) fields (appendNullsToAll children n)
  | entries keys items, n => entries (keys.appendNulls n) (items.appendNulls n)
  | map valid starts keys items sorted, n =>
    map (valid ++ List.replicate n false) (starts ++ List.replicate n keys.len) keys items sorted

/-- `n` null slots more in each. -/
def appendNullsToAll : List Contents → (n : Nat) → List Contents
  | [], _ => []
  | x :: xs, n => x.appendNulls n :: appendNullsToAll xs n

end

/-- One slot more, which starts where the rows of the child end. -/
def append : Contents → (valid : Bool) → Contents
  | list valid starts values, v => list (valid ++ [v]) (starts ++ [values.len]) values
  | fixedList valid size values, v =>
    fixedList (valid ++ [v]) size (if v then values else values.appendNulls size)
  | struct valid fields children, v => struct (valid ++ [v]) fields children
  | map valid starts keys items sorted, v =>
    map (valid ++ [v]) (starts ++ [keys.len]) keys items sorted
  | x, _ => x

/-- One slot more with a scalar value, or a null one. -/
def appendScalar (x : Contents) (v : Value) : Contents :=
  match x, v with
  | x, .null => x.appendNulls 1
  | bool valid bits, .bool v => bool (valid ++ [true]) (bits ++ [v])
  | num t valid words, .num _ word => num t (valid ++ [true]) (words ++ [word])
  | bytes t valid runs, .text v | bytes t valid runs, .binary v =>
    bytes t (valid ++ [true]) (runs ++ [v.toList])
  | x, _ => x

/-- Words more, in slots of these validities. -/
def appendWords : Contents → (words : List Nat) → (valid : List Bool) → Contents
  | num t valid words, more, moreValid => num t (valid ++ moreValid) (words ++ more)
  | x, _, _ => x

mutual

/-- No slots, here and in the children. -/
def emptied : Contents → Contents
  | null _ => null 0
  | bool _ _ => bool [] []
  | num t _ _ => num t [] []
  | bytes t _ _ => bytes t [] []
  | list _ _ values => list [] [] values.emptied
  | fixedList _ size values => fixedList [] size values.emptied
  | struct _ fields children => struct [] fields (emptiedAll children)
  | entries keys items => entries keys.emptied items.emptied
  | map _ _ keys items sorted => map [] [] keys.emptied items.emptied sorted

/-- No slots in any of them. -/
def emptiedAll : List Contents → List Contents
  | [] => []
  | x :: xs => x.emptied :: emptiedAll xs

end

/-- What the operation leaves. -/
def apply (x : Contents) : Op → Contents
  | .appendNull => x.appendNulls 1
  | .append valid => x.append valid
  | .appendScalar v => x.appendScalar v
  | .appendSlice words => x.appendWords words (List.replicate words.length true)
  | .appendValues words valid => x.appendWords words valid
  | .reserve _ => x
  | .resize capacity => x.resize capacity
  | .finish => x.emptied

/-! ### Children -/

/-- The contents of child `i`. -/
def child? (x : Contents) (i : Nat) : Option Contents :=
  match x, i with
  | list _ _ values, 0 | fixedList _ _ values, 0 => some values
  | entries keys _, 0 | map _ _ keys _ _, 0 => some keys
  | entries _ items, 1 | map _ _ _ items _, 1 => some items
  | struct _ _ children, i => children[i]?
  | _, _ => none

/-- Child `i` holds something else. -/
def setChild (x : Contents) (i : Nat) (y : Contents) : Contents :=
  match x, i with
  | list valid starts _, 0 => list valid starts y
  | fixedList valid size _, 0 => fixedList valid size y
  | entries _ items, 0 => entries y items
  | entries keys _, 1 => entries keys y
  | map valid starts _ items sorted, 0 => map valid starts y items sorted
  | map valid starts keys _ sorted, 1 => map valid starts keys y sorted
  | struct valid fields children, i => struct valid fields (children.set i y)
  | x, _ => x

/-- Changes the contents that are reached along a path. -/
def modifyAt (change : Contents → Contents) : (path : List Nat) → Contents → Contents
  | [], x => change x
  | i :: path, x =>
    match x.child? i with
    | some y => x.setChild i (modifyAt change path y)
    | none => x

/-- What the call leaves. -/
def call (x : Contents) (c : Call) : Contents := x.modifyAt (·.apply c.op) c.path

theorem appendScalar_null (x : Contents) : x.appendScalar .null = x.appendNulls 1 := by
  cases x <;> rfl

mutual

theorem appendNulls_zero : (x : Contents) → x.appendNulls 0 = x
  | null _ => rfl
  | bool _ _ | num _ _ _ | bytes _ _ _ | list _ _ _ | map _ _ _ _ _ => by simp [appendNulls]
  | fixedList _ size values => by
    rw [appendNulls, Nat.zero_mul, appendNulls_zero values, List.replicate_zero, List.append_nil]
  | struct _ _ children => by
    rw [appendNulls, appendNullsToAll_zero children, List.replicate_zero, List.append_nil]
  | entries keys items => by rw [appendNulls, appendNulls_zero keys, appendNulls_zero items]

theorem appendNullsToAll_zero : (xs : List Contents) → appendNullsToAll xs 0 = xs
  | [] => rfl
  | x :: xs => by rw [appendNullsToAll, appendNulls_zero x, appendNullsToAll_zero xs]

end

/-! ### Types -/

theorem type_resize : (x : Contents) → (c : Nat) → (x.resize c).type = x.type
  | null _, _ | bool _ _, _ | num _ _ _, _ | bytes _ _ _, _ | list _ _ _, _ | fixedList _ _ _, _
  | struct _ _ _, _ => rfl
  | entries keys items, c => by
    rw [resize, type, type, type_resize keys, type_resize items]
  | map _ _ keys items _, c => by
    rw [resize, type, type, type_resize keys, type_resize items]

mutual

theorem type_appendNulls : (x : Contents) → (n : Nat) → (x.appendNulls n).type = x.type
  | null _, _ | bool _ _, _ | num _ _ _, _ | bytes _ _ _, _ | list _ _ _, _ | struct _ _ _, _
  | map _ _ _ _ _, _ => rfl
  | fixedList _ size values, n => congrArg (DataType.fixedList size) (type_appendNulls values _)
  | entries keys items, n => by
    rw [appendNulls, type, type, type_appendNulls keys, type_appendNulls items]

theorem types_appendNullsToAll : (xs : List Contents) → (n : Nat) →
    (appendNullsToAll xs n).map type = xs.map type
  | [], _ => rfl
  | x :: xs, n => by
    rw [appendNullsToAll, List.map_cons, List.map_cons, type_appendNulls x,
      types_appendNullsToAll xs]

end

mutual

theorem type_emptied : (x : Contents) → x.emptied.type = x.type
  | null _ | bool _ _ | num _ _ _ | bytes _ _ _ | struct _ _ _ => rfl
  | list _ _ values => congrArg DataType.list (type_emptied values)
  | fixedList _ size values => congrArg (DataType.fixedList size) (type_emptied values)
  | entries keys items => by rw [emptied, type, type, type_emptied keys, type_emptied items]
  | map _ _ keys items _ => by rw [emptied, type, type, type_emptied keys, type_emptied items]

theorem types_emptiedAll : (xs : List Contents) → (emptiedAll xs).map type = xs.map type
  | [] => rfl
  | x :: xs => by rw [emptiedAll, List.map_cons, List.map_cons, type_emptied x, types_emptiedAll xs]

end

theorem type_append (x : Contents) (v : Bool) : (x.append v).type = x.type := by
  cases x <;> try rfl
  cases v with
  | true => rfl
  | false => exact congrArg (DataType.fixedList _) (type_appendNulls _ _)

theorem type_appendScalar (x : Contents) (v : Value) : (x.appendScalar v).type = x.type := by
  cases v with
  | null =>
    rw [appendScalar_null]
    exact type_appendNulls x 1
  | _ => cases x <;> rfl

theorem type_appendWords (x : Contents) (words : List Nat) (valid : List Bool) :
    (x.appendWords words valid).type = x.type := by
  cases x <;> rfl

/-- No operation changes the type. -/
theorem type_apply (x : Contents) (op : Op) : (x.apply op).type = x.type := by
  cases op with
  | appendNull => exact type_appendNulls x 1
  | append valid => exact type_append x valid
  | appendScalar v => exact type_appendScalar x v
  | appendSlice words => exact type_appendWords x _ _
  | appendValues words valid => exact type_appendWords x _ _
  | reserve => rfl
  | resize c => exact type_resize x c
  | finish => exact type_emptied x

theorem types_set {xs : List Contents} {i : Nat} {y y' : Contents} (hy : xs[i]? = some y)
    (typed : y'.type = y.type) : (xs.set i y').map type = xs.map type := by
  obtain ⟨inside, rfl⟩ := List.getElem?_eq_some_iff.1 hy
  have inside' : i < (xs.map type).length := by rw [List.length_map]; exact inside
  have same : xs[i].type = (xs.map type)[i] := (List.getElem_map type).symm
  rw [List.map_set, typed, same, List.set_getElem_self]

theorem type_setChild {x y : Contents} {i : Nat} (hy : x.child? i = some y) {y' : Contents}
    (typed : y'.type = y.type) : (x.setChild i y').type = x.type := by
  rcases x with _ | _ | _ | _ | _ | _ | _ | _ | _ <;> rcases i with _ | _ | i <;>
    simp_all [child?, setChild, type]

theorem type_modifyAt {change : Contents → Contents} (same : ∀ x, (change x).type = x.type) :
    (path : List Nat) → (x : Contents) → (x.modifyAt change path).type = x.type
  | [], x => same x
  | i :: path, x => by
    rw [modifyAt]
    cases hy : x.child? i with
    | none => rfl
    | some y => exact type_setChild hy (type_modifyAt same path y)

/-- No call changes the type. -/
theorem type_call (x : Contents) (c : Call) : (x.call c).type = x.type :=
  type_modifyAt (type_apply · c.op) c.path x

end Contents

/-! ### Builders and contents -/

/-- The builder holds these contents.  Text is well formed, and the children of a struct are of the
types of its fields. -/
inductive Holds : Builder → Contents → Prop
  | null (b : NullBuilder) : Holds (.null b) (.null b.len)
  | bool {b : BoolBuilder} {valid bits : List Bool} (held : b.Holds valid bits) :
      Holds (.bool b) (.bool valid bits)
  | num {b : NumBuilder} {valid : List Bool} {words : List Nat} (held : b.Holds valid words) :
      Holds (.num b) (.num b.type valid words)
  | bytes {b : BytesBuilder} {valid : List Bool} {runs : List (List UInt8)}
      (held : b.Holds valid runs) (text : b.type = .utf8 → ∀ run ∈ runs, Utf8.WellFormed run) :
      Holds (.bytes b) (.bytes b.type valid runs)
  | list {spans : Spans} {valid : List Bool} {starts : List Nat} {values : Builder} {x : Contents}
      (held : spans.Holds valid starts) (child : Holds values x) :
      Holds (.list spans values) (.list valid starts x)
  | fixedList {slots : Slots} {valid : List Bool} {size : Nat} {values : Builder} {x : Contents}
      (held : slots.Holds valid) (child : Holds values x) :
      Holds (.fixedList slots size values) (.fixedList valid size x)
  | struct {slots : Slots} {valid : List Bool} {fields : List Field} {children : List Builder}
      {xs : List Contents} (held : slots.Holds valid)
      (types : xs.map Contents.type = fields.map Field.type)
      (columns : List.Forall₂ Holds children xs) :
      Holds (.struct slots fields children) (.struct valid fields xs)
  | entries {keys items : Builder} {x y : Contents} (first : Holds keys x)
      (second : Holds items y) : Holds (.entries keys items) (.entries x y)
  | map {spans : Spans} {valid : List Bool} {starts : List Nat} {keys items : Builder}
      {x y : Contents} {sorted : Bool} (held : spans.Holds valid starts) (first : Holds keys x)
      (second : Holds items y) :
      Holds (.map spans keys items sorted) (.map valid starts x y sorted)

namespace Holds

theorem len_eq : {b : Builder} → {x : Contents} → Holds b x → b.len = x.len
  | _, _, .null _ => rfl
  | _, _, .bool held => held.slots.length
  | _, _, .num held => held.slots.length
  | _, _, .bytes held _ => held.spans.slots.length
  | _, _, .list held _ => held.slots.length
  | _, _, .fixedList held _ => held.length
  | _, _, .struct held _ _ => held.length
  | _, _, .entries first _ => by
    have same := len_eq first
    exact same
  | _, _, .map held _ _ => held.slots.length

theorem nulls_eq : {b : Builder} → {x : Contents} → Holds b x → b.nulls = x.nulls
  | _, _, .null _ => rfl
  | _, _, .bool held => held.slots.nulls
  | _, _, .num held => held.slots.nulls
  | _, _, .bytes held _ => held.spans.slots.nulls
  | _, _, .list held _ => held.slots.nulls
  | _, _, .fixedList held _ => held.nulls
  | _, _, .struct held _ _ => held.nulls
  | _, _, .entries _ _ => rfl
  | _, _, .map held _ _ => held.slots.nulls

theorem type_eq : {b : Builder} → {x : Contents} → Holds b x → b.type = x.type
  | _, _, .null _ => rfl
  | _, _, .bool _ => rfl
  | _, _, .num _ => rfl
  | _, _, .bytes _ _ => rfl
  | _, _, .list _ child => congrArg DataType.list (type_eq child)
  | _, _, .fixedList _ child => congrArg (DataType.fixedList _) (type_eq child)
  | _, _, .struct _ _ _ => rfl
  | _, _, .entries first second => by
    rw [Builder.type, Contents.type, type_eq first, type_eq second]
  | _, _, .map _ first second => by
    rw [Builder.type, Contents.type, type_eq first, type_eq second]

/-! ### Room and capacity -/

theorem reserve (n : Nat) : {b : Builder} → {x : Contents} → Holds b x → Holds (b.reserve n) x
  | _, _, .null b => by
    have kept : (b.reserve n).len = b.len := b.len_reserve n
    rw [← kept]
    exact .null _
  | _, _, .bool held => .bool (held.reserve n)
  | _, _, @num b valid words held => by
    rw [← b.type_reserve n]
    exact .num (held.reserve n)
  | _, _, @bytes b valid runs held text => by
    rw [← b.type_reserve n]
    exact .bytes (held.reserve n) (by rw [b.type_reserve]; exact text)
  | _, _, .list held child => .list (held.reserve n) child
  | _, _, .fixedList held child => .fixedList (held.reserve n) child
  | _, _, .struct held types columns => .struct (held.reserve n) types columns
  | _, _, .entries first second => .entries (reserve n first) (reserve n second)
  | _, _, .map held first second => .map (held.reserve n) (reserve n first) (reserve n second)

theorem resize : (c : Nat) → {b : Builder} → {x : Contents} → Holds b x →
    Holds (b.resize c) (x.resize c)
  | c, _, _, .null b => .null _
  | c, _, _, .bool held => .bool (held.resize c)
  | c, _, _, .num held => .num (held.resize c)
  | c, _, _, .bytes held text =>
    .bytes (held.resize c) fun utf8 run hrun => text utf8 run (List.mem_of_mem_take hrun)
  | c, _, _, .list held child => .list (held.resize c) child
  | c, _, _, .fixedList held child => .fixedList (held.resize _) child
  | c, _, _, .struct held types columns => .struct (held.resize _) types columns
  | c, _, _, .entries first second => .entries (resize c first) (resize c second)
  | c, _, _, .map held first second => by
    have spans := held.resize (max c minCapacity)
    rw [Nat.max_eq_left (Nat.le_max_right c minCapacity)] at spans
    exact .map spans (resize _ first) (resize _ second)

/-! ### Slots -/

theorem offset_eq_ok {b : Builder} {x : Contents} (h : Holds b x) {n : Nat} :
    b.offset = .ok n ↔ n = x.len ∧ x.len ≤ maxOffset := by
  rw [offset, h.len_eq]
  split_ifs with small
  · rw [Except.ok.injEq, and_iff_left small, eq_comm]
  · exact ⟨nofun, fun both => absurd both.2 small⟩

mutual

theorem appendNulls : {b : Builder} → {x : Contents} → Holds b x → {n : Nat} → {b' : Builder} →
    b.appendNulls n = .ok b' → Holds b' (x.appendNulls n)
  | b, x, h, 0, b', hb => by
    have same : b.appendNulls 0 = .ok b := by cases b <;> rfl
    cases same.symm.trans hb
    rw [x.appendNulls_zero]
    exact h
  | _, _, .null b, n + 1, b', hb => by
    cases hb
    rw [Contents.appendNulls, ← b.len_appendMany]
    exact .null _
  | _, _, .bool held, n + 1, b', hb => by
    cases hb
    exact .bool (held.appendNulls (n + 1))
  | _, _, @num b valid words held, n + 1, b', hb => by
    cases hb
    rw [Contents.appendNulls, ← b.type_repeat (n + 1)]
    exact .num (held.appendNulls (n + 1))
  | _, _, .bytes held text, n + 1, b', hb => by
    obtain ⟨b₁, many, hb⟩ := bind_eq_ok.1 hb
    cases hb
    obtain ⟨typed, held'⟩ := held.of_appendNulls many
    rw [Contents.appendNulls, ← typed]
    refine .bytes held' fun utf8 run hrun => ?_
    rcases List.mem_append.1 hrun with old | new
    · exact text (typed ▸ utf8) run old
    · rw [(List.mem_replicate.1 new).2]
      exact Utf8.wellFormed_nil
  | _, _, .list held child, n + 1, b', hb => by
    obtain ⟨start, hstart, hb⟩ := bind_eq_ok.1 hb
    cases hb
    obtain ⟨rfl, small⟩ := child.offset_eq_ok.1 hstart
    exact .list (held.appendMany false small (n + 1)) child
  | _, _, .fixedList held child, n + 1, b', hb => by
    obtain ⟨values, hvalues, hb⟩ := bind_eq_ok.1 hb
    cases hb
    exact .fixedList (held.openMany false (n + 1)) (appendNulls child hvalues)
  | _, _, .struct held types columns, n + 1, b', hb => by
    obtain ⟨children, hchildren, hb⟩ := bind_eq_ok.1 hb
    cases hb
    refine .struct (held.openMany false (n + 1)) ?_ (appendNullsToAll columns hchildren)
    rw [Contents.types_appendNullsToAll, types]
  | _, _, .entries first second, n + 1, b', hb => by
    obtain ⟨keys, hkeys, hb⟩ := bind_eq_ok.1 hb
    obtain ⟨items, hitems, hb⟩ := bind_eq_ok.1 hb
    cases hb
    exact .entries (appendNulls first hkeys) (appendNulls second hitems)
  | _, _, .map held first second, n + 1, b', hb => by
    obtain ⟨start, hstart, hb⟩ := bind_eq_ok.1 hb
    cases hb
    obtain ⟨rfl, small⟩ := first.offset_eq_ok.1 hstart
    exact .map (held.appendMany false small (n + 1)) first second

theorem appendNullsToAll : {bs : List Builder} → {xs : List Contents} → List.Forall₂ Holds bs xs →
    {n : Nat} → {bs' : List Builder} → Builder.appendNullsToAll bs n = .ok bs' →
    List.Forall₂ Holds bs' (Contents.appendNullsToAll xs n)
  | _, _, .nil, n, bs', hb => by
    cases hb
    exact .nil
  | _, _, .cons h rest, n, bs', hb => by
    obtain ⟨b₁, first, hb⟩ := bind_eq_ok.1 hb
    obtain ⟨bs₁, others, hb⟩ := bind_eq_ok.1 hb
    cases hb
    exact .cons (appendNulls h first) (appendNullsToAll rest others)

end

theorem append {b : Builder} {x : Contents} (h : Holds b x) {v : Bool} {b' : Builder}
    (hb : b.append v = .ok b') : Holds b' (x.append v) := by
  cases h with
  | list held child =>
    obtain ⟨start, hstart, hb⟩ := bind_eq_ok.1 hb
    cases hb
    obtain ⟨rfl, small⟩ := child.offset_eq_ok.1 hstart
    exact .list (held.push v small) child
  | fixedList held child =>
    cases v with
    | true =>
      cases hb
      exact .fixedList (held.push true) child
    | false =>
      obtain ⟨values, hvalues, hb⟩ := bind_eq_ok.1 hb
      cases hb
      exact .fixedList (held.push false) (child.appendNulls hvalues)
  | struct held types columns =>
    cases hb
    exact .struct (held.push v) types columns
  | map held first second =>
    rw [Builder.append] at hb
    split_ifs at hb with paired
    · obtain ⟨start, hstart, hb⟩ := bind_eq_ok.1 hb
      cases hb
      obtain ⟨rfl, small⟩ := first.offset_eq_ok.1 hstart
      exact .map (held.push v small) first second
    · cases hb
  | _ => cases hb

/-- A run of bytes more, which is text where the builder is one of text. -/
theorem appendRun {b b' : BytesBuilder} {valid : List Bool} {runs : List (List UInt8)}
    (held : b.Holds valid runs) (text : b.type = .utf8 → ∀ run ∈ runs, Utf8.WellFormed run)
    {v : Bytes} (run : b.type = .utf8 → Utf8.WellFormed v.toList)
    (hb : b.appendValue v = .ok b') :
    Holds (.bytes b') (.bytes b.type (valid ++ [true]) (runs ++ [v.toList])) := by
  obtain ⟨same, held'⟩ := held.of_append hb
  rw [← same]
  refine .bytes held' fun utf8 r hr => ?_
  rcases List.mem_append.1 hr with old | new
  · exact text (same ▸ utf8) r old
  · rw [List.mem_singleton.1 new]
    exact run (same ▸ utf8)

theorem appendScalar {b : Builder} {x : Contents} (h : Holds b x) {v : Value}
    (typed : v.isOf b.type = true) {b' : Builder} (hb : b.appendScalar v = .ok b') :
    Holds b' (x.appendScalar v) := by
  cases v with
  | null =>
    have null : b.appendScalar .null = b.appendNulls 1 := by cases b <;> rfl
    rw [Contents.appendScalar_null]
    exact h.appendNulls (null ▸ hb)
  | bool v =>
    cases h with
    | bool held =>
      cases hb
      exact .bool (held.append v true)
    | _ => cases hb
  | num t word =>
    cases h with
    | @num b _ _ held =>
      cases hb
      rw [Contents.appendScalar, ← b.type_append word true]
      exact .num (held.append word true)
    | _ => cases hb
  | text v =>
    cases h with
    | bytes held text =>
      obtain ⟨b₁, first, hb⟩ := bind_eq_ok.1 hb
      cases hb
      refine appendRun held text (fun utf8 => ?_) first
      rw [Builder.type, utf8] at typed
      exact Utf8.fault?_eq_none_iff.1 (Option.isNone_iff_eq_none.1 typed)
    | _ => cases hb
  | binary v =>
    cases h with
    | bytes held text =>
      obtain ⟨b₁, first, hb⟩ := bind_eq_ok.1 hb
      cases hb
      refine appendRun held text (fun utf8 => ?_) first
      -- raw bytes are refused by builders of text
      rw [Builder.type, utf8] at typed
      cases typed
    | _ => cases hb
  | _ => cases h <;> cases hb

/-! ### Finishing -/

mutual

theorem finish : {b : Builder} → {x : Contents} → Holds b x → {c : Column} → {b' : Builder} →
    b.finish = .ok (c, b') → Holds b' x.emptied
  | _, _, .null b, c, b', hb => by
    cases hb
    exact .null _
  | _, _, .bool held, c, b', hb => by
    cases hb
    exact .bool (BoolBuilder.holds_finish _)
  | _, _, .num held, c, b', hb => by
    cases hb
    exact .num (NumBuilder.holds_finish _)
  | _, _, .bytes held text, c, b', hb => by
    obtain ⟨⟨c₁, b₁⟩, first, hb⟩ := bind_eq_ok.1 hb
    cases hb
    rw [BytesBuilder.finish_eq] at first
    obtain ⟨stop, -, first⟩ := bind_eq_ok.1 first
    cases first
    exact .bytes (BytesBuilder.holds_emptied _ stop) nofun
  | _, _, .list held child, c, b', hb => by
    obtain ⟨stop, -, hb⟩ := bind_eq_ok.1 hb
    obtain ⟨⟨c₁, values⟩, hvalues, hb⟩ := bind_eq_ok.1 hb
    cases hb
    exact .list (Spans.holds_finish _ stop) (finish child hvalues)
  | _, _, .fixedList held child, c, b', hb => by
    rw [Builder.finish] at hb
    split_ifs at hb with rows
    · cases hb
    · obtain ⟨⟨c₁, values⟩, hvalues, hb⟩ := bind_eq_ok.1 hb
      cases hb
      exact .fixedList (Slots.holds_finish _) (finish child hvalues)
  | _, _, .struct held types columns, c, b', hb => by
    obtain ⟨-, -, hb⟩ := bind_eq_ok.1 hb
    obtain ⟨⟨cs, children⟩, hchildren, hb⟩ := bind_eq_ok.1 hb
    cases hb
    refine .struct (Slots.holds_finish _) ?_ (finishAll columns hchildren)
    rw [Contents.types_emptiedAll, types]
  | _, _, .entries first second, c, b', hb => by
    obtain ⟨-, -, hb⟩ := bind_eq_ok.1 hb
    obtain ⟨⟨k, keys⟩, hkeys, hb⟩ := bind_eq_ok.1 hb
    obtain ⟨⟨v, items⟩, hitems, hb⟩ := bind_eq_ok.1 hb
    cases hb
    exact .entries (finish first hkeys) (finish second hitems)
  | _, _, .map held first second, c, b', hb => by
    obtain ⟨stop, -, hb⟩ := bind_eq_ok.1 hb
    obtain ⟨-, -, hb⟩ := bind_eq_ok.1 hb
    obtain ⟨⟨k, keys⟩, hkeys, hb⟩ := bind_eq_ok.1 hb
    obtain ⟨⟨v, items⟩, hitems, hb⟩ := bind_eq_ok.1 hb
    cases hb
    exact .map (Spans.holds_finish _ stop) (finish first hkeys) (finish second hitems)

theorem finishAll : {bs : List Builder} → {xs : List Contents} → List.Forall₂ Holds bs xs →
    {cs : List Column} → {bs' : List Builder} → Builder.finishAll bs = .ok (cs, bs') →
    List.Forall₂ Holds bs' (Contents.emptiedAll xs)
  | _, _, .nil, cs, bs', hb => by
    cases hb
    exact .nil
  | _, _, .cons h rest, cs, bs', hb => by
    obtain ⟨⟨c₁, b₁⟩, first, hb⟩ := bind_eq_ok.1 hb
    obtain ⟨⟨cs₁, bs₁⟩, others, hb⟩ := bind_eq_ok.1 hb
    cases hb
    exact .cons (finish h first) (finishAll rest others)

end

/-! ### Calls -/

/-- What an operation leaves holds what it leaves of the contents. -/
theorem apply {b : Builder} {x : Contents} (h : Holds b x) {op : Op} {b' : Builder}
    {answer : Option Column} (hb : op.apply b = .ok (b', answer)) : Holds b' (x.apply op) := by
  cases op with
  | appendNull =>
    obtain ⟨b₁, first, hb⟩ := bind_eq_ok.1 hb
    cases hb
    exact h.appendNulls first
  | append v =>
    obtain ⟨b₁, first, hb⟩ := bind_eq_ok.1 hb
    cases hb
    exact h.append first
  | appendScalar v =>
    rw [Op.apply] at hb
    split_ifs at hb with typed
    · obtain ⟨b₁, first, hb⟩ := bind_eq_ok.1 hb
      cases hb
      exact h.appendScalar typed first
  | appendSlice words =>
    cases h with
    | @num b _ _ held =>
      cases hb
      rw [Contents.apply, Contents.appendWords, ← b.type_appendSlice words]
      exact .num (held.appendSlice words)
    | _ => cases hb
  | appendValues words valid =>
    cases h with
    | @num b _ _ held =>
      obtain ⟨b₁, first, hb⟩ := bind_eq_ok.1 hb
      cases hb
      have count : words.length = valid.length := by
        by_contra unequal
        rw [NumBuilder.appendValues, if_neg unequal] at first
        cases first
      obtain ⟨b₂, second, same, held'⟩ := held.appendValues count
      cases first.symm.trans second
      rw [Contents.apply, Contents.appendWords, ← same]
      exact .num held'
    | _ => cases hb
  | reserve n =>
    cases hb
    exact h.reserve n
  | resize c =>
    cases hb
    exact h.resize c
  | finish =>
    obtain ⟨⟨c, b₁⟩, first, hb⟩ := bind_eq_ok.1 hb
    cases hb
    exact h.finish first

theorem forall₂_set {α β : Type} {R : α → β → Prop} {l : List α} {m : List β} {a : α} {b : β}
    (h : List.Forall₂ R l m) (hab : R a b) (i : Nat) : List.Forall₂ R (l.set i a) (m.set i b) := by
  induction h generalizing i with
  | nil => exact .nil
  | cons first rest ih =>
    cases i with
    | zero => exact .cons hab rest
    | succ i => exact .cons first (ih i)

/-- The child of a builder holds what the contents tell of it. -/
theorem child {b : Builder} {x : Contents} (h : Holds b x) {i : Nat} {c : Builder}
    (hc : b.child i = .ok c) : ∃ y, x.child? i = some y ∧ Holds c y := by
  cases h with
  | list held child | fixedList held child =>
    rcases i with _ | i <;> cases hc
    exact ⟨_, rfl, child⟩
  | struct held types columns =>
    rename_i children xs
    rw [Builder.child] at hc
    cases found : children[i]? with
    | none =>
      rw [found] at hc
      cases hc
    | some d =>
      rw [found] at hc
      cases hc
      obtain ⟨inside, rfl⟩ := List.getElem?_eq_some_iff.1 found
      have inside' : i < xs.length := columns.length_eq ▸ inside
      exact ⟨xs[i], List.getElem?_eq_getElem inside', columns.get inside inside'⟩
  | entries first second | map held first second =>
    rcases i with _ | _ | i <;> cases hc
    · exact ⟨_, rfl, first⟩
    · exact ⟨_, rfl, second⟩
  | _ => cases hc

theorem setChild {b : Builder} {x : Contents} (h : Holds b x) {i : Nat} {y : Contents}
    (hy : x.child? i = some y) {c' : Builder} {y' : Contents} (h' : Holds c' y')
    (typed : y'.type = y.type) : Holds (b.setChild i c') (x.setChild i y') := by
  cases h with
  | list held child =>
    rcases i with _ | i <;> cases hy
    exact .list held h'
  | fixedList held child =>
    rcases i with _ | i <;> cases hy
    exact .fixedList held h'
  | struct held types columns =>
    refine .struct held ?_ (forall₂_set columns h' i)
    rw [← types]
    exact Contents.types_set hy typed
  | entries first second =>
    rcases i with _ | _ | i <;> cases hy
    · exact .entries h' second
    · exact .entries first h'
  | map held first second =>
    rcases i with _ | _ | i <;> cases hy
    · exact .map held h' second
    · exact .map held first h'
  | _ => cases hy

theorem modifyAt {α : Type} {change : Builder → Except Fault (Builder × α)}
    {change' : Contents → Contents} (same : ∀ x, (change' x).type = x.type)
    (keeps : ∀ {b x b' a}, Holds b x → change b = .ok (b', a) → Holds b' (change' x)) :
    (path : List Nat) → {b : Builder} → {x : Contents} → Holds b x → {b' : Builder} → {a : α} →
    Builder.modifyAt change path b = .ok (b', a) → Holds b' (x.modifyAt change' path)
  | [], _, _, h, _, _, hb => keeps h hb
  | i :: path, b, x, h, b', a, hb => by
    obtain ⟨c, hc, hb⟩ := bind_eq_ok.1 hb
    obtain ⟨⟨c', a'⟩, changed, hb⟩ := bind_eq_ok.1 hb
    cases hb
    obtain ⟨y, hy, held⟩ := h.child hc
    rw [Contents.modifyAt, hy]
    exact h.setChild hy (modifyAt same keeps path held changed) (Contents.type_modifyAt same path y)

/-- **A call keeps a builder and its contents together.** -/
theorem call {b : Builder} {x : Contents} (h : Holds b x) {c : Call} {b' : Builder}
    {answer : Option Column} (hb : b.call c = .ok (b', answer)) : Holds b' (x.call c) :=
  modifyAt (Contents.type_apply · c.op) (fun held changed => held.apply changed) c.path h hb

/-- Calls one after the other keep a builder and its contents together. -/
theorem run {b b' : Builder} {x : Contents} {calls : List Call} (h : Holds b x)
    (ran : b.run calls = .ok b') : Holds b' (calls.foldl Contents.call x) := by
  induction calls generalizing b x with
  | nil =>
    cases ran
    exact h
  | cons c cs ih =>
    obtain ⟨⟨b₁, answer⟩, called, ran⟩ := bind_eq_ok.1 ran
    exact ih (h.call called) ran

end Holds

end Builder

end Columnar
