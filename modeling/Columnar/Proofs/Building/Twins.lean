import Columnar.Proofs.Building.Sessions

/-!
# Builders that differ in room only

Two builders are `Builder.Twins` if they are built alike, hold the same at every level, and differ
at most in the memory that they have room in.  Making room on one of two twins leaves twins
(`Builder.Twins.reserve`), and every call fares alike on both: it fails in the same way, or it
leaves twins and tells the same (`Builder.Twins.call`).  Columns tell the same if they have the same
parts and the same bytes in every buffer (`Column.SameBytes`).

The contents of builders say nothing of stray bits behind truth values, which resizing may leave
there and which end up in the column.  Twins have these in common as well.
-/

namespace Columnar

/-! ### Columns -/

/-- Two columns without dictionaries that differ at most in the room in their buffers, and in their
children. -/
structure Column.SameNode (c d : Column) : Prop where
  type : c.type = d.type
  len : c.len = d.len
  offset : c.offset = d.offset
  nulls : c.nulls = d.nulls
  bytes : c.buffers.map (·.map Buffer.bytes) = d.buffers.map (·.map Buffer.bytes)
  children : c.children.length = d.children.length
  dictionary : c.dictionary = none ∧ d.dictionary = none

/-- The columns have the same parts and the same bytes in every buffer, at every level. -/
def Column.SameBytes (c d : Column) : Prop := Alongside Column.children Column.SameNode c d

/-! ### Leaves -/

namespace BoolBuilder

variable {b b' : BoolBuilder} {valid bits : List Bool}

/-- Both hold the same, and have the same bytes of value bits: bits past the slots, which the lists
do not tell, are the same too. -/
structure Twins (valid bits : List Bool) (b b' : BoolBuilder) : Prop where
  one : b.Holds valid bits
  other : b'.Holds valid bits
  bytes : b.values.bytes = b'.values.bytes

namespace Twins

/-- Making room keeps the bytes of value bits. -/
theorem bytes_reserve (h : b.Holds valid bits) (n : Nat) :
    (b.reserve n).values.bytes = b.values.bytes := by
  rw [BoolBuilder.reserve]
  cases grows : b.slots.growTarget? n with
  | none => rfl
  | some c =>
    -- the new capacity covers the slots, so that nothing is cut off
    have room := Slots.le_of_growTarget? grows
    have kept := h.slots.resize_of_le (c := max c minCapacity) (by omega)
    show ((b.values.truncate (bytesFor (b.slots.resize (max c minCapacity)).length)).reallocate
      (bytesFor (max c minCapacity))).bytes = _
    rw [GrowBuffer.bytes_reallocate (GrowBuffer.fits_truncate h.fits _),
      GrowBuffer.bytes_truncate h.fits, Array.extract_eq_self_of_le]
    rw [GrowBuffer.size_bytes h.fits, h.len, h.count, kept.length]

theorem reserve (h : b.Twins valid bits b') (n : Nat) : (b.reserve n).Twins valid bits b' where
  one := h.one.reserve n
  other := h.other
  bytes := (bytes_reserve h.one n).trans h.bytes

theorem resize (h : b.Twins valid bits b') (c : Nat) :
    (b.resize c).Twins (valid.take (max c minCapacity)) (bits.take (max c minCapacity))
      (b'.resize c) where
  one := h.one.resize c
  other := h.other.resize c
  bytes := by
    have length : (b.slots.resize (max c minCapacity)).length =
        (b'.slots.resize (max c minCapacity)).length :=
      (h.one.slots.resize _).length.trans (h.other.slots.resize _).length.symm
    rw [BoolBuilder.resize, BoolBuilder.resize]
    simp only
    rw [GrowBuffer.bytes_reallocate (GrowBuffer.fits_truncate h.one.fits _),
      GrowBuffer.bytes_reallocate (GrowBuffer.fits_truncate h.other.fits _),
      GrowBuffer.bytes_truncate h.one.fits, GrowBuffer.bytes_truncate h.other.fits, h.bytes, length]

theorem append (h : b.Twins valid bits b') (x v : Bool) :
    (b.append x v).Twins (valid ++ [v]) (bits ++ [x]) (b'.append x v) where
  one := h.one.append x v
  other := h.other.append x v
  bytes := by
    have len := (h.one.append x v).len.trans (h.other.append x v).len.symm
    refine Bytes.ext_testBit ?_ fun i => ?_
    · rw [GrowBuffer.size_bytes (h.one.append x v).fits,
        GrowBuffer.size_bytes (h.other.append x v).fits, len]
    · -- the new bit may go to a byte with stray bits, which are the same on both sides
      have kept := h.one.reserve 1
      have kept' := h.other.reserve 1
      have length : (b.reserve 1).slots.length = (b'.reserve 1).slots.length :=
        kept.slots.length.trans kept'.slots.length.symm
      have values : (b.reserve 1).values.bytes = (b'.reserve 1).values.bytes := by
        rw [bytes_reserve h.one, bytes_reserve h.other, h.bytes]
      have count : (b.reserve 1).values.len = (b'.reserve 1).values.len :=
        kept.len.trans kept'.len.symm
      have inside (k : Nat) : k < 8 * bytesFor (k + 1) := by unfold bytesFor; omega
      rw [BoolBuilder.append, BoolBuilder.append]
      simp only
      rw [GrowBuffer.testBit_bytes_putBit (GrowBuffer.fits_resize kept.fits _ _)
          (by rw [GrowBuffer.len_resize]; exact inside _),
        GrowBuffer.testBit_bytes_putBit (GrowBuffer.fits_resize kept'.fits _ _)
          (by rw [GrowBuffer.len_resize]; exact inside _),
        GrowBuffer.bytes_resize kept.fits, GrowBuffer.bytes_resize kept'.fits, length, values,
        count]

theorem appendNulls (h : b.Twins valid bits b') (n : Nat) :
    (n.repeat appendNull b).Twins (valid ++ List.replicate n false)
      (bits ++ List.replicate n false) (n.repeat appendNull b') := by
  induction n with
  | zero =>
    rw [List.replicate_zero, List.append_nil, List.append_nil]
    exact h
  | succ n ih =>
    rw [List.replicate_succ', ← List.append_assoc, ← List.append_assoc]
    exact ih.append false false

end Twins

end BoolBuilder

namespace BytesBuilder

variable {b b' : BytesBuilder} {valid : List Bool} {runs : List (List UInt8)}

/-- Both hold the same. -/
structure Twins (valid : List Bool) (runs : List (List UInt8)) (b b' : BytesBuilder) : Prop where
  one : b.Holds valid runs
  other : b'.Holds valid runs
  type : b.type = b'.type

namespace Twins

theorem stop_eq (h : b.Twins valid runs b') : b.stop = b'.stop := by
  rw [stop, stop, h.one.len_values, h.other.len_values, h.type]

theorem reserve (h : b.Twins valid runs b') (n : Nat) : (b.reserve n).Twins valid runs b' :=
  ⟨h.one.reserve n, h.other, (type_reserve b n).trans h.type⟩

theorem append (h : b.Twins valid runs b') (bytes : Bytes) (v : Bool) :
    Matches (Twins (valid ++ [v]) (runs ++ [bytes.toList])) (b.append bytes v)
      (b'.append bytes v) := by
  by_cases small : runs.flatten.length ≤ maxOffset
  · obtain ⟨b₁, first, type, held⟩ := h.one.appended bytes v small
    obtain ⟨b₁', first', type', held'⟩ := h.other.appended bytes v small
    rw [first, first']
    exact .ok ⟨held, held', type.trans (h.type.trans type'.symm)⟩
  · have stops {b : BytesBuilder} (held : b.Holds valid runs) :
        b.append bytes v = (Misuse.bytesOverflow b.type.type.kind runs.flatten.length).stop := by
      have kept := held.reserve 1
      rw [BytesBuilder.append, stop, kept.len_values, if_neg small, type_reserve]
      rfl
    rw [stops h.one, stops h.other, h.type]
    exact .error _

theorem appendNulls (h : b.Twins valid runs b') (n : Nat) :
    Matches (Twins (valid ++ List.replicate n false) (runs ++ List.replicate n []))
      (iterate appendNull b n) (iterate appendNull b' n) := by
  induction n generalizing b b' valid runs with
  | zero =>
    rw [List.replicate_zero, List.replicate_zero, List.append_nil, List.append_nil]
    exact .ok h
  | succ n ih =>
    rw [List.replicate_succ, List.replicate_succ, List.append_cons, List.append_cons runs]
    exact (h.append #[] false).bind fun _ _ => ih

end Twins

end BytesBuilder

namespace Builder

/-- What can be asked of two builders themselves is the same. -/
structure SameNode (b b' : Builder) : Prop where
  type : b.type = b'.type
  len : b.len = b'.len
  nulls : b.nulls = b'.nulls
  children : b.children.length = b'.children.length

/-- What can be asked of the builders, at every level, is the same. -/
def SameCounts (b b' : Builder) : Prop := Alongside children SameNode b b'

/-- Both are told the same: why the call was refused, or the column. -/
def SameTold : Except Refusal Column → Except Refusal Column → Prop := Matches Column.SameBytes

/-- The builders are built alike and hold the same, whatever room they have. -/
inductive Twins : Builder → Builder → Prop
  | null {b b' : NullBuilder} (len : b.len = b'.len) : Twins (.null b) (.null b')
  | bool {b b' : BoolBuilder} {valid bits : List Bool} (same : b.Twins valid bits b') :
      Twins (.bool b) (.bool b')
  | num {b b' : NumBuilder} {valid : List Bool} {words : List Nat} (one : b.Holds valid words)
      (other : b'.Holds valid words) (type : b.type = b'.type) : Twins (.num b) (.num b')
  | bytes {b b' : BytesBuilder} {valid : List Bool} {runs : List (List UInt8)}
      (same : b.Twins valid runs b') : Twins (.bytes b) (.bytes b')
  | list {spans spans' : Spans} {valid : List Bool} {starts : List Nat} {values values' : Builder}
      (one : spans.Holds valid starts) (other : spans'.Holds valid starts)
      (child : Twins values values') : Twins (.list spans values) (.list spans' values')
  | fixedList {slots slots' : Slots} {valid : List Bool} {size : Nat} {values values' : Builder}
      (one : slots.Holds valid) (other : slots'.Holds valid) (child : Twins values values') :
      Twins (.fixedList slots size values) (.fixedList slots' size values')
  | struct {slots slots' : Slots} {valid : List Bool} {fields : List Field}
      {children children' : List Builder} (one : slots.Holds valid) (other : slots'.Holds valid)
      (columns : List.Forall₂ Twins children children') :
      Twins (.struct slots fields children) (.struct slots' fields children')
  | entries {keys keys' items items' : Builder} (first : Twins keys keys')
      (second : Twins items items') : Twins (.entries keys items) (.entries keys' items')
  | map {spans spans' : Spans} {valid : List Bool} {starts : List Nat}
      {keys keys' items items' : Builder} {sorted : Bool} (one : spans.Holds valid starts)
      (other : spans'.Holds valid starts) (first : Twins keys keys')
      (second : Twins items items') :
      Twins (.map spans keys items sorted) (.map spans' keys' items' sorted)

namespace Twins

mutual

theorem refl : {b : Builder} → {x : Contents} → Holds b x → Twins b b
  | _, _, .null _ => .null rfl
  | _, _, .bool held => .bool ⟨held, held, rfl⟩
  | _, _, .num held => .num held held rfl
  | _, _, .bytes held _ => .bytes ⟨held, held, rfl⟩
  | _, _, .list held child => .list held held (refl child)
  | _, _, .fixedList held child => .fixedList held held (refl child)
  | _, _, .struct held _ columns => .struct held held (reflAll columns)
  | _, _, .entries first second => .entries (refl first) (refl second)
  | _, _, .map held first second => .map held held (refl first) (refl second)

theorem reflAll : {bs : List Builder} → {xs : List Contents} → List.Forall₂ Holds bs xs →
    List.Forall₂ Twins bs bs
  | _, _, .nil => .nil
  | _, _, .cons h rest => .cons (refl h) (reflAll rest)

end

mutual

theorem symm : {b b' : Builder} → Twins b b' → Twins b' b
  | _, _, .null len => .null len.symm
  | _, _, .bool same => .bool ⟨same.other, same.one, same.bytes.symm⟩
  | _, _, .num one other type => .num other one type.symm
  | _, _, .bytes same => .bytes ⟨same.other, same.one, same.type.symm⟩
  | _, _, .list one other child => .list other one (symm child)
  | _, _, .fixedList one other child => .fixedList other one (symm child)
  | _, _, .struct one other columns => .struct other one (symmAll columns)
  | _, _, .entries first second => .entries (symm first) (symm second)
  | _, _, .map one other first second => .map other one (symm first) (symm second)

theorem symmAll : {bs bs' : List Builder} → List.Forall₂ Twins bs bs' → List.Forall₂ Twins bs' bs
  | _, _, .nil => .nil
  | _, _, .cons h rest => .cons (symm h) (symmAll rest)

end

theorem len_eq : {b b' : Builder} → Twins b b' → b.len = b'.len
  | _, _, .null len => len
  | _, _, .bool same => same.one.slots.length.trans same.other.slots.length.symm
  | _, _, .num one other _ => one.slots.length.trans other.slots.length.symm
  | _, _, .bytes same => same.one.spans.slots.length.trans same.other.spans.slots.length.symm
  | _, _, .list one other _ => one.slots.length.trans other.slots.length.symm
  | _, _, .fixedList one other _ => one.length.trans other.length.symm
  | _, _, .struct one other _ => one.length.trans other.length.symm
  | _, _, .entries first _ => by
    have same := len_eq first
    exact same
  | _, _, .map one other _ _ => one.slots.length.trans other.slots.length.symm

theorem nulls_eq : {b b' : Builder} → Twins b b' → b.nulls = b'.nulls
  | _, _, .null len => len
  | _, _, .bool same => same.one.slots.nulls.trans same.other.slots.nulls.symm
  | _, _, .num one other _ => one.slots.nulls.trans other.slots.nulls.symm
  | _, _, .bytes same => same.one.spans.slots.nulls.trans same.other.spans.slots.nulls.symm
  | _, _, .list one other _ => one.slots.nulls.trans other.slots.nulls.symm
  | _, _, .fixedList one other _ => one.nulls.trans other.nulls.symm
  | _, _, .struct one other _ => one.nulls.trans other.nulls.symm
  | _, _, .entries _ _ => rfl
  | _, _, .map one other _ _ => one.slots.nulls.trans other.slots.nulls.symm

theorem type_eq : {b b' : Builder} → Twins b b' → b.type = b'.type
  | _, _, .null _ | _, _, .bool _ | _, _, .struct _ _ _ => rfl
  | _, _, .num _ _ type => congrArg DataType.num type
  | _, _, .bytes same => congrArg BytesType.type same.type
  | _, _, .list _ _ child => congrArg DataType.list (type_eq child)
  | _, _, .fixedList _ _ child => congrArg (DataType.fixedList _) (type_eq child)
  | _, _, .entries first second => by
    rw [Builder.type, Builder.type, type_eq first, type_eq second]
  | _, _, .map _ _ first second => by
    rw [Builder.type, Builder.type, type_eq first, type_eq second]

mutual

theorem sameCounts : {b b' : Builder} → Twins b b' → b.SameCounts b'
  | _, _, h@(.null _) | _, _, h@(.bool _) | _, _, h@(.num _ _ _) | _, _, h@(.bytes _) =>
    .of_forall₂ ⟨h.type_eq, h.len_eq, h.nulls_eq, rfl⟩ .nil
  | _, _, h@(.list _ _ child) | _, _, h@(.fixedList _ _ child) =>
    .of_forall₂ ⟨h.type_eq, h.len_eq, h.nulls_eq, rfl⟩ (.cons (sameCounts child) .nil)
  | _, _, h@(.struct _ _ columns) =>
    .of_forall₂ ⟨h.type_eq, h.len_eq, h.nulls_eq, columns.length_eq⟩ (sameCountsAll columns)
  | _, _, h@(.entries first second) | _, _, h@(.map _ _ first second) =>
    .of_forall₂ ⟨h.type_eq, h.len_eq, h.nulls_eq, rfl⟩
      (.cons (sameCounts first) (.cons (sameCounts second) .nil))

theorem sameCountsAll : {bs bs' : List Builder} → List.Forall₂ Twins bs bs' →
    List.Forall₂ SameCounts bs bs'
  | _, _, .nil => .nil
  | _, _, .cons h rest => .cons (sameCounts h) (sameCountsAll rest)

end

/-! ### Room and capacity -/

/-- Room made on one side only. -/
theorem reserve (n : Nat) : {b b' : Builder} → Twins b b' → Twins (b.reserve n) b'
  | _, _, @null b b' len => .null ((b.len_reserve n).trans len)
  | _, _, .bool same => .bool (same.reserve n)
  | _, _, @num b _ _ _ one other type => .num (one.reserve n) other ((b.type_reserve n).trans type)
  | _, _, .bytes same => .bytes (same.reserve n)
  | _, _, .list one other child => .list (one.reserve n) other child
  | _, _, .fixedList one other child => .fixedList (one.reserve n) other child
  | _, _, .struct one other columns => .struct (one.reserve n) other columns
  | _, _, .entries first second => .entries (reserve n first) (reserve n second)
  | _, _, .map one other first second =>
    .map (one.reserve n) other (reserve n first) (reserve n second)

theorem resize : (c : Nat) → {b b' : Builder} → Twins b b' → Twins (b.resize c) (b'.resize c)
  | c, _, _, @null b b' len => .null (congrArg (min · (max c minCapacity)) len)
  | c, _, _, .bool same => .bool (same.resize c)
  | c, _, _, .num one other type => .num (one.resize c) (other.resize c) type
  | c, _, _, .bytes same => .bytes ⟨same.one.resize c, same.other.resize c, same.type⟩
  | c, _, _, .list one other child => .list (one.resize c) (other.resize c) child
  | _, _, _, .fixedList one other child => .fixedList (one.resize _) (other.resize _) child
  | _, _, _, .struct one other columns => .struct (one.resize _) (other.resize _) columns
  | c, _, _, .entries first second => .entries (resize c first) (resize c second)
  | _, _, _, .map one other first second =>
    .map (one.resize _) (other.resize _) (resize _ first) (resize _ second)

/-! ### Slots -/

variable {b b' : Builder}

theorem offset (h : Twins b b') :
    Matches (fun n n' => n = n' ∧ n ≤ maxOffset) b.offset b'.offset := by
  rw [Builder.offset, Builder.offset, h.len_eq]
  split_ifs with small
  · exact .ok ⟨rfl, small⟩
  · exact .error _

mutual

theorem appendNulls : {b b' : Builder} → Twins b b' → (n : Nat) →
    Matches Twins (b.appendNulls n) (b'.appendNulls n)
  | b, b', h, 0 => by
    have same (b : Builder) : b.appendNulls 0 = .ok b := by cases b <;> rfl
    rw [same, same]
    exact .ok h
  | _, _, @null b b' len, n + 1 => by
    refine .ok (.null ?_)
    rw [b.len_appendMany, b'.len_appendMany, len]
  | _, _, .bool same, n + 1 => .ok (.bool (same.appendNulls (n + 1)))
  | _, _, @num b b' _ _ one other type, n + 1 => by
    refine .ok (.num (one.appendNulls (n + 1)) (other.appendNulls (n + 1)) ?_)
    rw [b.type_repeat, b'.type_repeat, type]
  | _, _, .bytes same, n + 1 => (same.appendNulls (n + 1)).bind fun _ _ after => .ok (.bytes after)
  | _, _, .list one other child, n + 1 => by
    refine child.offset.bind fun start start' both => ?_
    obtain ⟨rfl, small⟩ := both
    exact .ok (.list (one.appendMany false small _) (other.appendMany false small _) child)
  | _, _, .fixedList one other child, n + 1 =>
    (appendNulls child _).bind fun _ _ after =>
      .ok (.fixedList (one.openMany false _) (other.openMany false _) after)
  | _, _, .struct one other columns, n + 1 =>
    (appendNullsToAll columns (n + 1)).bind fun _ _ after =>
      .ok (.struct (one.openMany false _) (other.openMany false _) after)
  | _, _, .entries first second, n + 1 =>
    (appendNulls first (n + 1)).bind fun _ _ keys =>
      (appendNulls second (n + 1)).bind fun _ _ items => .ok (.entries keys items)
  | _, _, .map one other first second, n + 1 => by
    refine first.offset.bind fun start start' both => ?_
    obtain ⟨rfl, small⟩ := both
    exact .ok (.map (one.appendMany false small _) (other.appendMany false small _) first second)

theorem appendNullsToAll : {bs bs' : List Builder} → List.Forall₂ Twins bs bs' → (n : Nat) →
    Matches (List.Forall₂ Twins) (Builder.appendNullsToAll bs n) (Builder.appendNullsToAll bs' n)
  | _, _, .nil, _ => .ok .nil
  | _, _, .cons h rest, n =>
    (appendNulls h n).bind fun _ _ first =>
      (appendNullsToAll rest n).bind fun _ _ others => .ok (.cons first others)

end

theorem append (h : Twins b b') (v : Bool) : Matches Twins (b.append v) (b'.append v) := by
  cases h with
  | list one other child =>
    refine child.offset.bind fun start start' both => ?_
    obtain ⟨rfl, small⟩ := both
    exact .ok (.list (one.push v small) (other.push v small) child)
  | fixedList one other child =>
    cases v with
    | true => exact .ok (.fixedList (one.push true) (other.push true) child)
    | false =>
      exact (child.appendNulls _).bind fun _ _ after =>
        .ok (.fixedList (one.push false) (other.push false) after)
  | struct one other columns => exact .ok (.struct (one.push v) (other.push v) columns)
  | map one other first second =>
    rw [Builder.append, Builder.append, first.len_eq, second.len_eq]
    split_ifs with paired
    · refine first.offset.bind fun start start' both => ?_
      obtain ⟨rfl, small⟩ := both
      exact .ok (.map (one.push v small) (other.push v small) first second)
    · exact .error _
  | _ => exact .error _

theorem appendScalar (h : Twins b b') (v : Value) :
    Matches Twins (b.appendScalar v) (b'.appendScalar v) := by
  cases v with
  | null =>
    have null (b : Builder) : b.appendScalar .null = b.appendNulls 1 := by cases b <;> rfl
    rw [null, null]
    exact h.appendNulls 1
  | bool v =>
    cases h with
    | bool same => exact .ok (.bool (same.append v true))
    | _ => exact .error _
  | num t word =>
    cases h with
    | @num b b' _ _ one other type =>
      have same : (b.append word true).type = (b'.append word true).type := by
        rw [b.type_append, b'.type_append, type]
      exact .ok (.num (one.append word true) (other.append word true) same)
    | _ => exact .error _
  | text v | binary v =>
    cases h with
    | bytes same => exact (same.append v true).bind fun _ _ after => .ok (.bytes after)
    | _ => exact .error _
  | _ => cases h <;> exact .error _

/-! ### Finishing -/

/-- A column without dictionary, over children that read the same. -/
theorem sameBytes_node {t : DataType} {len nulls : Nat} {buffers buffers' : List (Option Buffer)}
    {cs cs' : List Column}
    (bytes : buffers.map (·.map Buffer.bytes) = buffers'.map (·.map Buffer.bytes))
    (children : List.Forall₂ Column.SameBytes cs cs') :
    Column.SameBytes ⟨t, len, 0, nulls, buffers, cs, none⟩
      ⟨t, len, 0, nulls, buffers', cs', none⟩ :=
  .of_forall₂ ⟨rfl, rfl, rfl, rfl, bytes, children.length_eq, rfl, rfl⟩ children

/-- The columns read the same, and what is left are twins. -/
def AfterFinish (p q : Column × Builder) : Prop := p.1.SameBytes q.1 ∧ Twins p.2 q.2

theorem checkPairs_eq {keys keys' items items' : Builder} (first : Twins keys keys')
    (second : Twins items items') : checkPairs keys items = checkPairs keys' items' := by
  rw [checkPairs, checkPairs, first.len_eq, second.len_eq]

theorem checkRows_eq {bs bs' : List Builder} (h : List.Forall₂ Twins bs bs') (len : Nat)
    (fields : List Field) : checkRows len fields bs = checkRows len fields bs' := by
  induction h generalizing fields with
  | nil => rfl
  | cons first _ ih =>
    cases fields with
    | nil => rfl
    | cons f fs => rw [checkRows, checkRows, first.len_eq, ih]

theorem sameBytes_pairs {keys keys' items items' : Builder} {k k' v v' : Column}
    (first : Twins keys keys') (second : Twins items items') (hk : k.SameBytes k')
    (hv : v.SameBytes v') : (pairs keys items k v).SameBytes (pairs keys' items' k' v') := by
  rw [pairs, pairs, first.type_eq, second.type_eq, first.len_eq]
  exact sameBytes_node rfl (.cons hk (.cons hv .nil))

theorem finish_bool {b b' : BoolBuilder} {valid bits : List Bool} (same : b.Twins valid bits b') :
    AfterFinish (b.finish.1, .bool b.finish.2) (b'.finish.1, .bool b'.finish.2) := by
  refine ⟨?_, .bool ⟨b.holds_finish, b'.holds_finish, rfl⟩⟩
  have bitmap := same.one.slots.bytes_finish same.other.slots
  have values : b.values.freeze.bytes = b'.values.freeze.bytes := same.bytes
  rw [BoolBuilder.finish, BoolBuilder.finish, same.one.slots.length, same.one.slots.nulls,
    same.other.slots.length, same.other.slots.nulls]
  exact sameBytes_node (by simp [bitmap, values]) .nil

theorem finish_num {b b' : NumBuilder} {valid : List Bool} {words : List Nat}
    (one : b.Holds valid words) (other : b'.Holds valid words) (type : b.type = b'.type) :
    AfterFinish (b.finish.1, .num b.finish.2) (b'.finish.1, .num b'.finish.2) := by
  refine ⟨?_, .num b.holds_finish b'.holds_finish type⟩
  have bitmap := one.slots.bytes_finish other.slots
  have values : b.values.freeze.bytes = b'.values.freeze.bytes := by
    rw [GrowBuffer.freeze, GrowBuffer.freeze, one.bytes, other.bytes, type]
  rw [NumBuilder.finish, NumBuilder.finish, one.slots.length, one.slots.nulls,
    other.slots.length, other.slots.nulls, type]
  exact sameBytes_node (by simp [bitmap, values]) .nil

theorem finish_bytes {b b' : BytesBuilder} {valid : List Bool} {runs : List (List UInt8)}
    (same : b.Twins valid runs b') (stop : Nat) :
    AfterFinish (b.finished stop, .bytes (b.emptied stop))
      (b'.finished stop, .bytes (b'.emptied stop)) := by
  refine ⟨?_, .bytes ⟨b.holds_emptied stop, b'.holds_emptied stop, same.type⟩⟩
  obtain ⟨bitmap, offsets⟩ := same.one.spans.bytes_finish same.other.spans stop
  have values : b.values.freeze.bytes = b'.values.freeze.bytes :=
    Array.toList_inj.1 (same.one.bytes.trans same.other.bytes.symm)
  rw [BytesBuilder.finished, BytesBuilder.finished, same.one.spans.slots.length,
    same.one.spans.slots.nulls, same.other.spans.slots.length, same.other.spans.slots.nulls,
    same.type]
  exact sameBytes_node (by simp [bitmap, offsets, values]) .nil

/-- Finishing keys and then items. -/
theorem finishPair {keys keys' items items' : Builder}
    (first : Matches AfterFinish keys.finish keys'.finish)
    (second : Matches AfterFinish items.finish items'.finish)
    {f f' : Column × Builder → Column × Builder → Except Fault (Column × Builder)}
    (next : ∀ k k' v v', AfterFinish k k' → AfterFinish v v' →
      Matches AfterFinish (f k v) (f' k' v')) :
    Matches AfterFinish (keys.finish >>= fun k => items.finish >>= f k)
      (keys'.finish >>= fun k => items'.finish >>= f' k) :=
  first.bind fun _ _ hk => second.bind fun _ _ hv => next _ _ _ _ hk hv

mutual

theorem finish : {b b' : Builder} → Twins b b' → Matches AfterFinish b.finish b'.finish
  | _, _, @null b b' len => by
    refine .ok ⟨?_, .null rfl⟩
    show (Column.ofNulls b.len).SameBytes (Column.ofNulls b'.len)
    rw [len]
    exact sameBytes_node rfl .nil
  | _, _, .bool same => .ok (finish_bool same)
  | _, _, .num one other type => .ok (finish_num one other type)
  | _, _, @bytes b b' _ _ same => by
    rw [Builder.finish, Builder.finish, BytesBuilder.finish_eq, BytesBuilder.finish_eq,
      same.stop_eq]
    cases b'.stop with
    | error f => exact .error f
    | ok stop => exact .ok (finish_bytes same stop)
  | _, _, .list one other child => by
    rw [Builder.finish, Builder.finish, child.type_eq, one.slots.length, one.slots.nulls,
      other.slots.length, other.slots.nulls]
    refine child.offset.bind fun stop stop' both => ?_
    obtain ⟨rfl, -⟩ := both
    obtain ⟨bitmap, offsets⟩ := one.bytes_finish other stop
    refine (finish child).bind fun p q after => .ok ⟨?_, ?_⟩
    · exact sameBytes_node (congrArg₂ (fun v o => [v, some o]) bitmap offsets) (.cons after.1 .nil)
    · exact .list (Spans.holds_finish _ stop) (Spans.holds_finish _ stop) after.2
  | _, _, .fixedList one other child => by
    rw [Builder.finish, Builder.finish, child.type_eq, child.len_eq, one.length, one.nulls,
      other.length, other.nulls]
    split_ifs with rows
    · exact .error _
    · refine (finish child).bind fun p q after => .ok ⟨?_, ?_⟩
      · exact sameBytes_node (congrArg ([·]) (one.bytes_finish other)) (.cons after.1 .nil)
      · exact .fixedList (Slots.holds_finish _) (Slots.holds_finish _) after.2
  | _, _, .struct one other columns => by
    rw [Builder.finish, Builder.finish, one.length, one.nulls, other.length, other.nulls,
      checkRows_eq columns]
    cases checkRows _ _ _ with
    | error f => exact .error f
    | ok =>
      refine (finishAll columns).bind fun p q after => .ok ⟨?_, ?_⟩
      · exact sameBytes_node (congrArg ([·]) (one.bytes_finish other)) after.1
      · exact .struct (Slots.holds_finish _) (Slots.holds_finish _) after.2
  | _, _, .entries first second => by
    rw [Builder.finish, Builder.finish, checkPairs_eq first second]
    cases checkPairs _ _ with
    | error f => exact .error f
    | ok =>
      refine finishPair (finish first) (finish second) fun k k' v v' hk hv => .ok ⟨?_, ?_⟩
      · exact sameBytes_pairs first second hk.1 hv.1
      · exact .entries hk.2 hv.2
  | _, _, .map one other first second => by
    rw [Builder.finish, Builder.finish, first.type_eq, second.type_eq, one.slots.length,
      one.slots.nulls, other.slots.length, other.slots.nulls]
    refine first.offset.bind fun stop stop' both => ?_
    obtain ⟨rfl, -⟩ := both
    obtain ⟨bitmap, offsets⟩ := one.bytes_finish other stop
    simp only [checkPairs_eq first second]
    cases checkPairs _ _ with
    | error f => exact .error f
    | ok =>
      refine finishPair (finish first) (finish second) fun k k' v v' hk hv => .ok ⟨?_, ?_⟩
      · exact sameBytes_node (congrArg₂ (fun v o => [v, some o]) bitmap offsets)
          (.cons (sameBytes_pairs first second hk.1 hv.1) .nil)
      · exact .map (Spans.holds_finish _ stop) (Spans.holds_finish _ stop) hk.2 hv.2

theorem finishAll : {bs bs' : List Builder} → List.Forall₂ Twins bs bs' →
    Matches (fun p q => List.Forall₂ Column.SameBytes p.1 q.1 ∧ List.Forall₂ Twins p.2 q.2)
      (Builder.finishAll bs) (Builder.finishAll bs')
  | _, _, .nil => .ok ⟨.nil, .nil⟩
  | _, _, .cons h rest =>
    (finish h).bind fun _ _ first => (finishAll rest).bind fun _ _ others =>
      .ok ⟨.cons first.1 others.1, .cons first.2 others.2⟩

end

/-! ### Calls -/

/-- What is left are twins, and both are told the same, if anything. -/
def AfterCall (p q : Builder × Option Column) : Prop :=
  Twins p.1 q.1 ∧ Option.Rel Column.SameBytes p.2 q.2

/-- An operation fares alike on twins. -/
theorem apply (h : Twins b b') (op : Op) : Matches AfterCall (op.apply b) (op.apply b') := by
  cases op with
  | appendNull => exact (h.appendNulls 1).bind fun _ _ after => .ok ⟨after, .none⟩
  | append v => exact (h.append v).bind fun _ _ after => .ok ⟨after, .none⟩
  | appendScalar v =>
    rw [Op.apply, Op.apply, h.type_eq]
    split_ifs with typed
    · exact (h.appendScalar v).bind fun _ _ after => .ok ⟨after, .none⟩
    · exact .error _
  | appendSlice words =>
    cases h with
    | @num b b' _ _ one other type =>
      have same : (b.appendSlice words).type = (b'.appendSlice words).type := by
        rw [b.type_appendSlice, b'.type_appendSlice, type]
      exact .ok ⟨.num (one.appendSlice words) (other.appendSlice words) same, .none⟩
    | _ => exact .error _
  | appendValues words valid =>
    cases h with
    | @num b b' _ _ one other type =>
      by_cases count : words.length = valid.length
      · obtain ⟨b₁, first, type₁, held⟩ := one.appendValues count
        obtain ⟨b₁', first', type₁', held'⟩ := other.appendValues count
        rw [Op.apply, Op.apply, first, first']
        exact .ok ⟨.num held held' (type₁.trans (type.trans type₁'.symm)), .none⟩
      · rw [Op.apply, Op.apply, NumBuilder.appendValues, NumBuilder.appendValues, if_neg count,
          if_neg count]
        exact .error _
    | _ => exact .error _
  | reserve n => exact .ok ⟨((h.reserve n).symm.reserve n).symm, .none⟩
  | resize c => exact .ok ⟨h.resize c, .none⟩
  | finish => exact h.finish.bind fun _ _ after => .ok ⟨after.2, .some after.1⟩

theorem child (h : Twins b b') (i : Nat) : Matches Twins (b.child i) (b'.child i) := by
  cases h with
  | list _ _ child | fixedList _ _ child =>
    rcases i with _ | i
    · exact .ok child
    · exact .error _
  | @struct _ _ _ _ children children' _ _ columns =>
    rw [Builder.child, Builder.child]
    by_cases inside : i < children.length
    · have inside' : i < children'.length := columns.length_eq ▸ inside
      rw [List.getElem?_eq_getElem inside, List.getElem?_eq_getElem inside']
      exact .ok (columns.get inside inside')
    · have outside : ¬ i < children'.length := columns.length_eq ▸ inside
      rw [List.getElem?_eq_none (Nat.le_of_not_lt inside),
        List.getElem?_eq_none (Nat.le_of_not_lt outside)]
      exact .error _
  | entries first second | map _ _ first second =>
    rcases i with _ | _ | i
    · exact .ok first
    · exact .ok second
    · exact .error _
  | _ => exact .error _

theorem setChild (h : Twins b b') {c c' : Builder} (hc : Twins c c') (i : Nat) :
    Twins (b.setChild i c) (b'.setChild i c') := by
  cases h with
  | list one other child =>
    rcases i with _ | i
    · exact .list one other hc
    · exact .list one other child
  | fixedList one other child =>
    rcases i with _ | i
    · exact .fixedList one other hc
    · exact .fixedList one other child
  | struct one other columns => exact .struct one other (Holds.forall₂_set columns hc i)
  | entries first second =>
    rcases i with _ | _ | i
    · exact .entries hc second
    · exact .entries first hc
    · exact .entries first second
  | map one other first second =>
    rcases i with _ | _ | i
    · exact .map one other hc second
    · exact .map one other first hc
    · exact .map one other first second
  | null len => exact .null len
  | bool same => exact .bool same
  | num one other type => exact .num one other type
  | bytes same => exact .bytes same

theorem modifyAt (op : Op) (path : List Nat) {b b' : Builder} (h : Twins b b') :
    Matches AfterCall (Builder.modifyAt op.apply path b) (Builder.modifyAt op.apply path b') := by
  induction path generalizing b b' with
  | nil => exact h.apply op
  | cons i path ih =>
    exact (h.child i).bind fun _ _ hc => (ih hc).bind fun _ _ after =>
      .ok ⟨h.setChild after.1 i, after.2⟩

/-- **A call fares alike on twins.** -/
theorem call (h : Twins b b') (c : Call) : Matches AfterCall (b.call c) (b'.call c) :=
  modifyAt c.op c.path h

/-- An attempt fares alike on twins. -/
theorem attempt (h : Twins b b') (c : Call) :
    Matches (fun p q => Twins p.1 q.1 ∧ Option.Rel SameTold p.2 q.2) (b.attempt c)
      (b'.attempt c) := by
  have called := h.call c
  rw [Builder.attempt, Builder.attempt]
  generalize b.call c = result at called
  generalize b'.call c = result' at called
  cases called with
  | @ok p q after =>
    obtain ⟨b₁, answer⟩ := p
    obtain ⟨b₁', answer'⟩ := q
    obtain ⟨twins, told⟩ := after
    refine .ok ⟨twins, ?_⟩
    cases told with
    | some same => exact .some (.ok same)
    | none => exact .none
  | error f =>
    cases f with
    | refusal r => exact .ok ⟨h, .some (.error r)⟩
    | _ => exact .error _

end Twins

end Builder

end Columnar
