import Columnar.Proofs.Building.Conditions
import Columnar.Proofs.Windows

/-!
# What finishing makes of the contents

`Contents.slots` are the values that contents stand for.  A column that finishing gives is described
by the contents (`Contents.Describes`): it has their type, length and null count, it is accepted by
validation exactly where they are anchored and no key is null, and where they are anchored its slots
are theirs.

`Builder.Holds.finish_outcome` says how finishing ends: with such a column, or by stopping, and it
stops only where offsets are too small for the rows or children have other numbers of rows than the
slots call for.
-/

namespace Columnar

/-- A slot of text or raw bytes. -/
def BytesType.value : BytesType → List UInt8 → Value
  | .utf8, run => .text run.toArray
  | .binary, run => .binary run.toArray

namespace Builder

/-! ### The values of contents -/

/-- The value of each slot, and null where the slot is not valid. -/
def whereValid (valid : List Bool) (value : Nat → Value) : List Value :=
  (List.range valid.length).map fun i => if valid.getD i false then value i else .null

/-- The rows from where slot `i` starts up to where the next one does. -/
def runOf {α : Type} (starts : List Nat) (rows : List α) (i : Nat) : List α :=
  let bound (i : Nat) := (starts ++ [rows.length]).getD i 0
  (rows.drop (bound i)).take (bound (i + 1) - bound i)

namespace Contents

mutual

/-- The values of the slots. -/
def slots : Contents → List Value
  | null n => List.replicate n .null
  | bool valid bits => whereValid valid fun i => .bool (bits.getD i false)
  | num t valid words => whereValid valid fun i =>
    .num t (words.getD i 0 % Bytes.wordRange t.width)
  | bytes t valid runs => whereValid valid fun i => t.value (runs.getD i [])
  | list valid starts values => whereValid valid fun i => .list (runOf starts values.slots i)
  | fixedList valid size values => whereValid valid fun i =>
    .list ((values.slots.drop (i * size)).take size)
  | struct valid _ children => whereValid valid fun i => .struct (slotOfEach children i)
  | entries keys items => (keys.slots.zip items.slots).map fun (k, v) => .struct [k, v]
  | map valid starts keys items _ => whereValid valid fun i =>
    .map (runOf starts (keys.slots.zip items.slots) i)

/-- Slot `i` of each. -/
def slotOfEach : List Contents → (i : Nat) → List Value
  | [], _ => []
  | x :: xs, i => x.slots.getD i .null :: slotOfEach xs i

end

/-! ### Columns that contents describe -/

/-- The column is one of these contents. -/
structure Describes (x : Contents) (c : Column) : Prop where
  type : c.type = x.type
  len : c.len = x.len
  nulls : c.nulls = x.nulls
  accepted : c.Everywhere Column.Accepted ↔ x.Anchored ∧ x.KeysFilled
  slots : x.Anchored → (List.range c.len).map c.slotAt = x.slots

end Contents

/-! ### Slots of a column -/

variable {c d : Column} {valid : List Bool} {x y : Contents}

theorem slots_of_valid {value : Nat → Value} (len : c.len = valid.length)
    (nulls : ∀ i, i < valid.length → c.nullAt i = !valid.getD i false)
    (values : ∀ i, i < valid.length → c.valueAt i = value i) :
    (List.range c.len).map c.slotAt = whereValid valid value := by
  rw [len, whereValid]
  refine List.map_congr_left fun i hi => ?_
  have inside := List.mem_range.1 hi
  rw [Column.slotAt, Column.orNull, nulls i inside, values i inside]
  cases valid.getD i false <;> rfl

/-- A window of the child's rows. -/
theorem firstSlots_eq {vs : List Value} (rows : (List.range d.len).map d.slotAt = vs)
    {start n : Nat} (fits : start + n ≤ d.len) :
    Column.firstSlots [d] start n = (vs.drop start).take n := by
  rw [← rows, Column.window_range d.slotAt fits]
  rfl

/-- A window of the rows of keys and items. -/
theorem firstPairs_eq {e k v : Column} {ks vs : List Value} (he : e.type.kind = .struct)
    (hc : e.children = [k, v]) (keys : (List.range k.len).map k.slotAt = ks)
    (items : (List.range v.len).map v.slotAt = vs) (even : v.len = k.len) {start n : Nat}
    (fits : start + n ≤ k.len) :
    Column.firstPairs [e] start n = ((ks.zip vs).drop start).take n := by
  rw [← keys, ← items, even, List.zip_map', Column.window_range _ fits]
  refine List.map_congr_left fun j _ => ?_
  rw [Column.valueAt_eq, hc]
  cases ht : e.type <;> rw [ht] at he <;> cases he
  rfl

theorem bound_le {starts : List Nat} {rows : Nat} (h : StartsWithin starts rows) (i : Nat) :
    (starts ++ [rows]).getD i 0 ≤ rows := by
  rcases Nat.lt_or_ge i (starts ++ [rows]).length with inside | outside
  · rw [List.getD_eq_getElem _ _ inside]
    rcases List.mem_append.1 (List.getElem_mem inside) with mem | mem
    · exact h.within _ mem
    · exact Nat.le_of_eq (List.mem_singleton.1 mem)
  · rw [List.getD_eq_default _ _ outside]
    exact Nat.zero_le _

/-! ### Scalars -/

theorem describes_null (b : NullBuilder) : (Contents.null b.len).Describes b.finish.1 where
  type := rfl
  len := rfl
  nulls := rfl
  accepted := by
    refine iff_of_true b.accepted_finish ⟨Contents.anchored_leaf rfl rfl, .node rfl nofun⟩
  slots := by
    intro _
    rw [Contents.slots, List.eq_replicate_iff]
    refine ⟨by rw [List.length_map, List.length_range]; rfl, fun v hv => ?_⟩
    obtain ⟨i, -, rfl⟩ := List.mem_map.1 hv
    rw [Column.slotAt, Column.orNull, Column.nullAt_of_null rfl]
    rfl

theorem describes_bool {b : BoolBuilder} {bits : List Bool} (h : b.Holds valid bits) :
    (Contents.bool valid bits).Describes b.finish.1 where
  type := rfl
  len := h.slots.length
  nulls := h.slots.nulls
  accepted := by
    refine iff_of_true h.accepted_finish ⟨Contents.anchored_leaf rfl rfl, .node rfl nofun⟩
  slots := by
    intro _
    refine slots_of_valid h.slots.length (fun i hi => h.nullAt_finish hi) fun i hi => ?_
    rw [Column.valueAt_eq]
    exact congrArg Value.bool (h.bitAt_finish (h.count ▸ hi))

theorem describes_num {b : NumBuilder} {words : List Nat} (h : b.Holds valid words) :
    (Contents.num b.type valid words).Describes b.finish.1 where
  type := rfl
  len := h.slots.length
  nulls := h.slots.nulls
  accepted := by
    refine iff_of_true h.accepted_finish ⟨Contents.anchored_leaf rfl rfl, .node rfl nofun⟩
  slots := by
    intro _
    refine slots_of_valid h.slots.length (fun i hi => h.nullAt_finish hi) fun i hi => ?_
    rw [Column.valueAt_eq]
    exact congrArg (Value.num b.type) (h.wordAt_finish (h.count ▸ hi))

theorem describes_bytes {b : BytesBuilder} {runs : List (List UInt8)} (h : b.Holds valid runs)
    (text : b.type = .utf8 → ∀ run ∈ runs, Utf8.WellFormed run)
    (small : runs.flatten.length ≤ maxOffset) :
    (Contents.bytes b.type valid runs).Describes (b.finished runs.flatten.length) where
  type := rfl
  len := h.spans.slots.length
  nulls := h.spans.slots.nulls
  accepted := by
    refine iff_of_true (h.accepted_finished small text)
      ⟨Contents.anchored_leaf rfl rfl, .node rfl nofun⟩
  slots := by
    intro _
    refine slots_of_valid h.spans.slots.length (fun i hi => h.nullAt_finished _ hi) fun i hi => ?_
    have inside : i < runs.length := h.count ▸ hi
    have bytes := h.bytesAt_finished small inside
    have typed : (b.finished runs.flatten.length).type = b.type.type := rfl
    rw [Column.valueAt_eq, typed, List.getD_eq_getElem _ _ inside]
    cases b.type with
    | utf8 => exact congrArg Value.text bytes
    | binary => exact congrArg Value.binary bytes

/-! ### Nested nodes -/

theorem accepted_iff_of_nested (nested : c.type.isNested = true) (none : c.dictionary = none)
    (count : c.buffers.length = c.type.layout.buffers.length) (buffers : c.BuffersFit)
    (nulls : c.nulls = c.nullSlots) :
    c.Everywhere Column.Accepted ↔ c.ChildrenFit ∧ (c.type.hasOffsets = true → c.OffsetsFit) ∧
      ∀ d ∈ c.children, d.Everywhere Column.Accepted := by
  constructor
  · intro h
    exact ⟨h.here.children, h.here.offsets, fun d hd => h.child hd⟩
  · rintro ⟨children, offsets, below⟩
    refine .node ?_ below (by rw [none]; exact nofun)
    exact
      { bufferCount := count
        buffers := buffers
        nulls := nulls
        children := children
        offsets := offsets
        text := fun text => by rw [text] at nested; cases nested
        dictionary := by
          rw [Column.DictionaryFits]
          cases ht : c.type <;> rw [ht] at nested <;> first | exact none | cases nested
        indices := by
          intro index value sorted d ht
          rw [ht] at nested
          cases nested }

/-- A column of slots that have a bitmap only. -/
def overRows (slots : Slots) (type : DataType) (columns : List Column) : Column :=
  ⟨type, slots.length, 0, slots.nulls, [slots.finish.1], columns, none⟩

/-- A column of slots that span the rows of a child. -/
def overSpans (spans : Spans) (stop : Nat) (type : DataType) (child : Column) : Column :=
  ⟨type, spans.slots.length, 0, spans.slots.nulls,
    [(spans.finish stop).1, some (spans.finish stop).2.1], [child], none⟩

section OverRows

variable {slots : Slots} {t : DataType} {columns : List Column} (h : slots.Holds valid)
include h

theorem buffersFit_overRows (layout : t.layout.buffers = [.bitmap]) :
    (overRows slots t columns).BuffersFit := by
  have length := h.length
  intro slot kind hk
  rw [overRows, layout] at hk
  rcases slot with _ | slot <;> cases hk
  exact h.bufferFits_of_finish rfl length rfl

theorem accepted_overRows (nested : t.isNested = true)
    (layout : t.layout.buffers = [.bitmap]) :
    (overRows slots t columns).Everywhere Column.Accepted ↔
      (overRows slots t columns).ChildrenFit ∧
        ∀ d ∈ columns, d.Everywhere Column.Accepted := by
  have length := h.length
  have typed : t ≠ .null := by rintro rfl; cases nested
  have spanless : t.hasOffsets = false := by
    cases t <;> simp_all [DataType.layout, DataType.hasOffsets]
  refine (accepted_iff_of_nested nested rfl (by rw [overRows, layout]; rfl)
    (buffersFit_overRows h layout) ?_).trans ?_
  · rw [h.nullSlots_of_finish (c := overRows slots t columns) typed rfl length rfl]
    exact h.nulls
  · rw [show (overRows slots t columns).type.hasOffsets = false from spanless]
    simp [overRows]

theorem nullAt_overRows (typed : t ≠ .null) {i : Nat} (hi : i < valid.length) :
    (overRows slots t columns).nullAt i = !valid.getD i false := by
  have length := h.length
  exact h.nullAt_of_finish typed rfl length rfl (Nat.lt_of_lt_of_eq hi length.symm)

end OverRows

section OverSpans

variable {spans : Spans} {starts : List Nat} {stop : Nat} {t elem : DataType}
  (h : spans.Holds valid starts) (ht : t.rowType? = some elem)
include h ht

theorem nullAt_overSpans {i : Nat} (hi : i < valid.length) :
    (overSpans spans stop t d).nullAt i = !valid.getD i false := by
  have length := h.slots.length
  have typed : t ≠ .null := by rintro rfl; cases ht
  exact h.slots.nullAt_of_finish typed rfl length rfl (Nat.lt_of_lt_of_eq hi length.symm)

theorem buffersFit_overSpans : (overSpans spans stop t d).BuffersFit := by
  have length := h.slots.length
  have layout : t.layout.buffers = [.bitmap, .fixedWidth 4] := by
    cases t <;> first | rfl | cases ht
  intro slot kind hk
  rw [overSpans, layout] at hk
  rcases slot with _ | _ | slot <;> cases hk
  · exact h.slots.bufferFits_of_finish rfl length rfl
  · exact h.bufferFits_of_finish rfl length rfl (hasOffsets_of_rowType? ht)

variable (small : stop ≤ maxOffset) (bound : d.len = stop)
include small bound

/-- Such a column is accepted exactly where the slots start within the rows. -/
theorem accepted_overSpans :
    (overSpans spans stop t d).Everywhere Column.Accepted ↔
      (overSpans spans stop t d).ChildrenFit ∧ StartsWithin starts stop ∧
        d.Everywhere Column.Accepted := by
  have length := h.slots.length
  have ho : t.hasOffsets = true := hasOffsets_of_rowType? ht
  have nested : t.isNested = true := by cases t <;> first | rfl | cases ht
  have layout : t.layout.buffers = [.bitmap, .fixedWidth 4] := by
    cases t <;> first | rfl | cases ht
  have rows : (overSpans spans stop t d).offsetBound = stop := by
    rw [← bound, Column.offsetBound]
    cases t <;> first | rfl | cases ht
  refine (accepted_iff_of_nested nested rfl (by rw [overSpans, layout]; rfl)
    (buffersFit_overSpans h ht) ?_).trans ?_
  · rw [h.slots.nullSlots_of_finish (c := overSpans spans stop t d)
      (by rintro rfl; cases ht) rfl length rfl]
    exact h.slots.nulls
  · rw [h.offsetsFit_iff (c := overSpans spans stop t d) small rfl length rfl rows,
      StartsWithin.isChain_iff, show (overSpans spans stop t d).type.hasOffsets = true from ho]
    simp [overSpans]

omit ht

/-- The rows that a slot spans are in the child, and are those from its start to the next one. -/
theorem window_overSpans (within : StartsWithin starts stop) {i : Nat} (hi : i < valid.length) :
    let c := overSpans spans stop t d
    c.firstRow i + c.rowCount i ≤ d.len ∧ ∀ {α : Type} {rows : List α}, rows.length = stop →
      (rows.drop (c.firstRow i)).take (c.rowCount i) = runOf starts rows i := by
  have length := h.slots.length
  have first (k : Nat) (hk : k ≤ valid.length) :
      (overSpans spans stop t d).firstRow k = (starts ++ [stop]).getD k 0 :=
    h.firstRow_of_finish small rfl length rfl (Nat.le_trans hk (Nat.le_of_eq length.symm))
  have start := bound_le within i
  have next := bound_le within (i + 1)
  intro c
  rw [Column.rowCount, first i (by omega), first (i + 1) (by omega)]
  refine ⟨by omega, fun count => ?_⟩
  rw [runOf, count]

end OverSpans

theorem throughout_only {α : Type} {children : α → List α} {P : α → Prop} {a d : α}
    (only : children a = [d]) : Throughout children P a ↔ P a ∧ Throughout children P d := by
  rw [throughout_iff, only, List.forall_mem_singleton]

/-- Lists are as good as their starts and their values. -/
theorem describes_list {spans : Spans} {starts : List Nat} (h : spans.Holds valid starts)
    (hd : x.Describes d) (small : x.len ≤ maxOffset) :
    (Contents.list valid starts x).Describes (overSpans spans x.len (.list x.type) d) where
  type := rfl
  len := h.slots.length
  nulls := h.slots.nulls
  accepted := by
    have fit : (overSpans spans x.len (.list x.type) d).ChildrenFit := ⟨d, rfl, hd.type⟩
    have anchored : (Contents.list valid starts x).Anchored ↔
        StartsWithin starts x.len ∧ x.Anchored := throughout_only rfl
    have filled : (Contents.list valid starts x).KeysFilled ↔ 0 = 0 ∧ x.KeysFilled :=
      throughout_only rfl
    rw [accepted_overSpans h rfl small hd.len, anchored, filled, hd.accepted]
    simp [fit, and_assoc]
  slots := by
    intro anchored
    have rows := hd.slots (anchored.child (List.mem_singleton_self _))
    refine slots_of_valid h.slots.length (fun i hi => nullAt_overSpans h rfl hi) fun i hi => ?_
    obtain ⟨fits, window⟩ := window_overSpans (t := .list x.type) h small hd.len anchored.here hi
    rw [Column.valueAt_eq]
    refine congrArg Value.list ?_
    exact (firstSlots_eq rows fits).trans (window (by rw [← rows, ← hd.len]; simp))

/-- A slot of a fixed-size list, null or not, has the rows at its place. -/
theorem valueAt_fixedList {slots : Slots} {size n i : Nat} {t : DataType} (hd : x.Describes d)
    (anchored : x.Anchored) (even : x.len = n * size) (hi : i < n) :
    (overRows slots (.fixedList size t) [d]).valueAt i =
      .list ((x.slots.drop (i * size)).take size) := by
  have fits : (0 + i) * size + size ≤ d.len := by
    rw [hd.len, even, Nat.zero_add, ← Nat.succ_mul]
    exact Nat.mul_le_mul_right size hi
  rw [Column.valueAt_eq]
  refine congrArg Value.list ((firstSlots_eq (hd.slots anchored) fits).trans ?_)
  rw [Nat.zero_add]

/-- Fixed-size lists are as good as their values, once there are as many as the slots call for. -/
theorem describes_fixedList {slots : Slots} {size : Nat} (h : slots.Holds valid)
    (hd : x.Describes d) (even : x.len = valid.length * size) :
    (Contents.fixedList valid size x).Describes (overRows slots (.fixedList size x.type) [d]) where
  type := rfl
  len := h.length
  nulls := h.nulls
  accepted := by
    have fit : (overRows slots (.fixedList size x.type) [d]).ChildrenFit := by
      refine ⟨d, rfl, hd.type, Nat.le_of_eq ?_⟩
      rw [hd.len, even, ← h.length]
      exact congrArg (· * size) (Nat.zero_add _)
    have anchored : (Contents.fixedList valid size x).Anchored ↔
        StartsWithin [] 0 ∧ x.Anchored := throughout_only rfl
    have filled : (Contents.fixedList valid size x).KeysFilled ↔ 0 = 0 ∧ x.KeysFilled :=
      throughout_only rfl
    rw [accepted_overRows h rfl rfl, anchored, filled, List.forall_mem_singleton, hd.accepted]
    simp [fit, StartsWithin.nil]
  slots := by
    intro anchored
    exact slots_of_valid h.length
      (fun i hi => nullAt_overRows (t := .fixedList size x.type) h nofun hi) fun i hi =>
        valueAt_fixedList hd (anchored.child (List.mem_singleton_self _)) even hi

/-- The columns of several contents. -/
theorem slotOfEach_eq {xs : List Contents} {cs : List Column}
    (hcs : List.Forall₂ Contents.Describes xs cs) {n i : Nat} (even : ∀ x ∈ xs, x.len = n)
    (anchored : ∀ x ∈ xs, x.Anchored) (hi : i < n) :
    Column.slotOfEach cs i = Contents.slotOfEach xs i := by
  induction hcs with
  | nil => rfl
  | @cons x d xs cs hd _ ih =>
    have rows := hd.slots (anchored x (by simp))
    have count : d.len = n := hd.len.trans (even x (by simp))
    have inside : i < ((List.range d.len).map d.slotAt).length := by simpa [count] using hi
    have first : d.slotAt i = x.slots.getD i .null := by
      rw [← rows, List.getD_eq_getElem _ _ inside, List.getElem_map, List.getElem_range]
    rw [Column.slotOfEach, Contents.slotOfEach, ← Column.slotAt, first,
      ih (fun y hy => even y (by simp [hy])) fun y hy => anchored y (by simp [hy])]

theorem types_of_describes {xs : List Contents} {cs : List Column}
    (hcs : List.Forall₂ Contents.Describes xs cs) : cs.map Column.type = xs.map Contents.type := by
  induction hcs with
  | nil => rfl
  | cons hd _ ih => rw [List.map_cons, List.map_cons, hd.type, ih]

theorem accepted_of_describes {xs : List Contents} {cs : List Column}
    (hcs : List.Forall₂ Contents.Describes xs cs) :
    (∀ d ∈ cs, d.Everywhere Column.Accepted) ↔
      (∀ x ∈ xs, x.Anchored) ∧ ∀ x ∈ xs, x.KeysFilled := by
  induction hcs with
  | nil => simp
  | cons hd _ ih =>
    simp only [List.forall_mem_cons, hd.accepted, ih]
    exact and_and_and_comm

/-- Structs are as good as their columns, once these have a row for every slot. -/
theorem describes_struct {slots : Slots} {fields : List Field} {xs : List Contents}
    {cs : List Column} (h : slots.Holds valid)
    (types : xs.map Contents.type = fields.map Field.type)
    (hcs : List.Forall₂ Contents.Describes xs cs) (even : ∀ x ∈ xs, x.len = valid.length) :
    (Contents.struct valid fields xs).Describes (overRows slots (.struct fields) cs) where
  type := rfl
  len := h.length
  nulls := h.nulls
  accepted := by
    have fit : (overRows slots (.struct fields) cs).ChildrenFit := by
      refine ⟨(types_of_describes hcs).trans types, fun d (hd : d ∈ cs) => ?_⟩
      obtain ⟨i, inside, rfl⟩ := List.getElem_of_mem hd
      have inside' : i < xs.length := hcs.length_eq ▸ inside
      have rows : cs[i].len = xs[i].len := (hcs.get inside' inside).len
      exact rows.trans ((even _ (List.getElem_mem inside')).trans h.length.symm)
    have anchored : (Contents.struct valid fields xs).Anchored ↔
        StartsWithin [] 0 ∧ ∀ x ∈ xs, x.Anchored := throughout_iff
    have filled : (Contents.struct valid fields xs).KeysFilled ↔
        0 = 0 ∧ ∀ x ∈ xs, x.KeysFilled := throughout_iff
    rw [accepted_overRows h rfl rfl, anchored, filled, accepted_of_describes hcs]
    simp [fit, StartsWithin.nil]
  slots := by
    intro anchored
    refine slots_of_valid h.length (fun i hi => nullAt_overRows (t := .struct fields) h nofun hi)
      fun i hi => ?_
    rw [Column.valueAt_eq]
    exact congrArg Value.struct (slotOfEach_eq hcs even (fun _ hy => anchored.child hy) hi)

/-- The struct of keys and items. -/
def paired (x y : Contents) (k v : Column) : Column :=
  ⟨.entries x.type y.type, x.len, 0, 0, [none], [k, v], none⟩

theorem nullAt_paired (x y : Contents) (k v : Column) (i : Nat) :
    (paired x y k v).nullAt i = false := Column.nullAt_of_none nofun rfl

/-- Entries are as good as their keys and items, once these pair up. -/
theorem describes_entries {k v : Column} (hk : x.Describes k) (hv : y.Describes v)
    (even : x.len = y.len) : (Contents.entries x y).Describes (paired x y k v) where
  type := rfl
  len := rfl
  nulls := rfl
  accepted := by
    have fit : (paired x y k v).ChildrenFit := by
      refine ⟨?_, List.forall_mem_cons.2 ⟨hk.len, List.forall_mem_singleton.2 ?_⟩⟩
      · rw [paired, List.map_cons, List.map_singleton, hk.type, hv.type]
        rfl
      · exact hv.len.trans even.symm
    have anchored : (Contents.entries x y).Anchored ↔
        StartsWithin [] 0 ∧ ∀ z ∈ [x, y], z.Anchored := throughout_iff
    have filled : (Contents.entries x y).KeysFilled ↔ 0 = 0 ∧ ∀ z ∈ [x, y], z.KeysFilled :=
      throughout_iff
    have below := accepted_of_describes (.cons hk (.cons hv .nil))
    refine (accepted_iff_of_nested rfl rfl rfl ?_ ?_).trans ?_
    · rintro (_ | slot) kind hk <;> cases hk
      exact .inl ⟨rfl, rfl⟩
    · rw [Column.nullSlots, List.countP_eq_zero.2 fun i _ => by simp [nullAt_paired]]
      rfl
    · rw [anchored, filled, show (paired x y k v).children = [k, v] from rfl, below]
      simp only [fit, StartsWithin.nil, true_and]
      exact and_iff_right fun offsets => absurd offsets Bool.false_ne_true
  slots := by
    intro anchored
    have keys := hk.slots (anchored.child (by simp [Contents.children]))
    have items := hv.slots (anchored.child (by simp [Contents.children]))
    rw [Contents.slots, ← keys, ← items, hk.len, hv.len, ← even, List.zip_map', List.map_map]
    refine List.map_congr_left fun i _ => ?_
    rw [Column.slotAt, Column.orNull, nullAt_paired, Column.valueAt_eq]
    rfl

/-- Maps are as good as their starts, their keys and their items, once no key is null. -/
theorem describes_map {spans : Spans} {starts : List Nat} {sorted : Bool} {k v : Column}
    (h : spans.Holds valid starts) (hk : x.Describes k) (hv : y.Describes v)
    (small : x.len ≤ maxOffset) (even : x.len = y.len) :
    (Contents.map valid starts x y sorted).Describes
      (overSpans spans x.len (.map x.type y.type sorted) (paired x y k v)) where
  type := rfl
  len := h.slots.length
  nulls := h.slots.nulls
  accepted := by
    have entries := describes_entries hk hv even
    have fit : (overSpans spans x.len (.map x.type y.type sorted) (paired x y k v)).ChildrenFit ↔
        x.nulls = 0 := by
      constructor
      · rintro ⟨child, hc, -, filled⟩
        obtain rfl := List.singleton_inj.1 hc
        exact hk.nulls.symm.trans (filled k rfl)
      · intro filled
        refine ⟨_, rfl, rfl, ?_⟩
        rintro _ ⟨⟩
        exact hk.nulls.trans filled
    have anchored : (Contents.map valid starts x y sorted).Anchored ↔
        StartsWithin starts x.len ∧ ∀ z ∈ [x, y], z.Anchored := throughout_iff
    have filled : (Contents.map valid starts x y sorted).KeysFilled ↔
        x.nulls = 0 ∧ ∀ z ∈ [x, y], z.KeysFilled := throughout_iff
    have anchored' : (Contents.entries x y).Anchored ↔
        StartsWithin [] 0 ∧ ∀ z ∈ [x, y], z.Anchored := throughout_iff
    have filled' : (Contents.entries x y).KeysFilled ↔ 0 = 0 ∧ ∀ z ∈ [x, y], z.KeysFilled :=
      throughout_iff
    rw [accepted_overSpans h rfl small rfl, fit, anchored, filled, entries.accepted, anchored',
      filled']
    simp only [StartsWithin.nil, true_and]
    constructor
    · rintro ⟨filled, within, below⟩
      exact ⟨⟨within, below.1⟩, filled, below.2⟩
    · rintro ⟨⟨within, anchored⟩, filled, below⟩
      exact ⟨filled, within, anchored, below⟩
  slots := by
    intro anchored
    have keys := hk.slots (anchored.child (by simp [Contents.children]))
    have items := hv.slots (anchored.child (by simp [Contents.children]))
    refine slots_of_valid h.slots.length (fun i hi => nullAt_overSpans h rfl hi) fun i hi => ?_
    obtain ⟨fits, window⟩ :=
      window_overSpans (t := .map x.type y.type sorted) (d := paired x y k v) h small rfl
        anchored.here hi
    have count : (x.slots.zip y.slots).length = x.len := by
      rw [← keys, ← items, hk.len, hv.len, ← even, List.zip_map', List.length_map,
        List.length_range]
    have pairs := firstPairs_eq (e := paired x y k v) rfl rfl keys items
      (hv.len.trans (even.symm.trans hk.len.symm)) (Nat.le_trans fits (Nat.le_of_eq hk.len.symm))
    rw [Column.valueAt_eq]
    exact congrArg Value.map (pairs.trans (window count))

/-! ### Finishing -/

/-- Finishing gives a column of the contents and an empty builder, or stops.  It stops only where
offsets are too small or children have other numbers of rows than the slots call for. -/
def FinishesAs (b : Builder) (x : Contents) : Prop :=
  (∃ c b', b.finish = .ok (c, b') ∧ x.Describes c) ∨
    ¬ (x.Small ∧ x.Even) ∧ ∃ m, b.finish = .error (.misuse m)

/-- The same of several builders. -/
def FinishAllAs (bs : List Builder) (xs : List Contents) : Prop :=
  (∃ cs bs', finishAll bs = .ok (cs, bs') ∧ List.Forall₂ Contents.Describes xs cs) ∨
    ¬ (∀ x ∈ xs, x.Small ∧ x.Even) ∧ ∃ m, finishAll bs = .error (.misuse m)

theorem checkRows_outcome {n : Nat} {fields : List Field} {bs : List Builder} {xs : List Contents}
    (h : List.Forall₂ Holds bs xs) (types : xs.map Contents.type = fields.map Field.type) :
    (checkRows n fields bs = .ok () ∧ ∀ x ∈ xs, x.len = n) ∨
      (¬ ∀ x ∈ xs, x.len = n) ∧ ∃ m, checkRows n fields bs = .error (.misuse m) := by
  induction h generalizing fields with
  | nil => cases fields <;> exact .inl ⟨rfl, nofun⟩
  | @cons b x bs xs h _ ih =>
    cases fields with
    | nil => cases types
    | cons f fs =>
      rw [checkRows, h.len_eq]
      split_ifs with rows
      · obtain ⟨passed, all⟩ | ⟨none, m, stopped⟩ := ih (List.cons.inj types).2
        · exact .inl ⟨passed, List.forall_mem_cons.2 ⟨rows, all⟩⟩
        · exact .inr ⟨fun all => none fun y hy => all y (by simp [hy]), m, stopped⟩
      · exact .inr ⟨fun all => rows (all x (by simp)), _, rfl⟩

theorem checkPairs_outcome {keys items : Builder} (first : Holds keys x) (second : Holds items y) :
    (checkPairs keys items = .ok () ∧ x.len = y.len) ∨
      x.len ≠ y.len ∧ ∃ m, checkPairs keys items = .error (.misuse m) := by
  rw [checkPairs, first.len_eq, second.len_eq]
  split_ifs with even
  · exact .inl ⟨rfl, even⟩
  · exact .inr ⟨even, _, rfl⟩

theorem offset_outcome {values : Builder} (child : Holds values x) :
    (values.offset = .ok x.len ∧ x.len ≤ maxOffset) ∨
      ¬ x.len ≤ maxOffset ∧ ∃ m, values.offset = .error (.misuse m) := by
  rw [offset, child.len_eq]
  split_ifs with small
  · exact .inl ⟨rfl, small⟩
  · exact .inr ⟨small, _, rfl⟩

theorem pairs_eq {keys items : Builder} (first : Holds keys x) (second : Holds items y)
    (k v : Column) : pairs keys items k v = paired x y k v := by
  rw [pairs, paired, first.type_eq, first.len_eq, second.type_eq]

theorem Contents.complete_pair {z : Contents} (two : z.children = [x, y]) (h : z.Small ∧ z.Even) :
    (x.Small ∧ x.Even) ∧ y.Small ∧ y.Even :=
  ⟨⟨h.1.child (by simp [two]), h.2.child (by simp [two])⟩,
    h.1.child (by simp [two]), h.2.child (by simp [two])⟩

/-- Finishing keys and then items. -/
theorem finishPair_outcome {keys items : Builder} (first : FinishesAs keys x)
    (second : FinishesAs items y) :
    (∃ k b₁ v b₂, keys.finish = .ok (k, b₁) ∧ items.finish = .ok (v, b₂) ∧
      x.Describes k ∧ y.Describes v) ∨
    ¬ ((x.Small ∧ x.Even) ∧ y.Small ∧ y.Even) ∧ ∃ m, ∀ {α : Type}
      (f : Column × Builder → Column × Builder → Except Fault α),
      (keys.finish >>= fun p => items.finish >>= f p) = .error (.misuse m) := by
  obtain ⟨k, b₁, hk, dk⟩ | ⟨no, m, stopped⟩ := first
  · obtain ⟨v, b₂, hv, dv⟩ | ⟨no, m, stopped⟩ := second
    · exact .inl ⟨k, b₁, v, b₂, hk, hv, dk, dv⟩
    · refine .inr ⟨fun both => no both.2, m, fun f => ?_⟩
      rw [hk, ok_bind, stopped]
      rfl
  · refine .inr ⟨fun both => no both.1, m, fun f => ?_⟩
    rw [stopped]
    rfl

mutual

theorem Holds.finish_outcome : {b : Builder} → {x : Contents} → Holds b x → FinishesAs b x
  | _, _, .null b => .inl ⟨_, _, rfl, describes_null b⟩
  | _, _, .bool held => .inl ⟨_, _, rfl, describes_bool held⟩
  | _, _, .num held => .inl ⟨_, _, rfl, describes_num held⟩
  | _, _, @Holds.bytes b valid runs held text => by
    by_cases small : runs.flatten.length ≤ maxOffset
    · refine .inl ⟨_, .bytes (b.emptied runs.flatten.length), ?_, describes_bytes held text small⟩
      rw [Builder.finish, BytesBuilder.finish_eq, held.stop_eq small]
      rfl
    · refine .inr ⟨fun both => small both.1.here,
        .bytesOverflow b.type.type.kind runs.flatten.length, ?_⟩
      rw [Builder.finish, BytesBuilder.finish_eq, BytesBuilder.stop, held.len_values,
        if_neg small]
      rfl
  | _, _, .list held child => by
    rw [FinishesAs, Builder.finish]
    obtain ⟨stop, small⟩ | ⟨large, m, stopped⟩ := offset_outcome child
    · rw [stop, ok_bind, child.type_eq]
      obtain ⟨c, b', hc, hd⟩ | ⟨no, m, stopped⟩ := Holds.finish_outcome child
      · exact .inl ⟨_, _, by rw [hc]; rfl, describes_list held hd small⟩
      · refine .inr ⟨fun both => no ⟨both.1.child ?_, both.2.child ?_⟩, m, by rw [stopped]; rfl⟩
        all_goals exact List.mem_singleton_self _
    · exact .inr ⟨fun both => large both.1.here, m, by rw [stopped]; rfl⟩
  | _, _, .fixedList held child => by
    rw [FinishesAs, Builder.finish, child.len_eq, held.length]
    split_ifs with rows
    · exact .inr ⟨fun both => rows both.2.here, _, rfl⟩
    · rw [child.type_eq]
      obtain ⟨c, b', hc, hd⟩ | ⟨no, m, stopped⟩ := Holds.finish_outcome child
      · exact .inl ⟨_, _, by rw [hc, ← held.length]; rfl,
          describes_fixedList held hd (not_not.1 rows)⟩
      · refine .inr ⟨fun both => no ⟨both.1.child ?_, both.2.child ?_⟩, m, by rw [stopped]; rfl⟩
        all_goals exact List.mem_singleton_self _
  | _, _, .struct held types columns => by
    rw [FinishesAs, Builder.finish]
    obtain ⟨rows, even⟩ | ⟨uneven, m, stopped⟩ :=
      checkRows_outcome (n := _) columns types
    · rw [rows, ok_bind]
      obtain ⟨cs, bs', hcs, hds⟩ | ⟨no, m, stopped⟩ := finishAll_outcome columns
      · exact .inl ⟨_, _, by rw [hcs]; rfl,
          describes_struct held types hds fun y hy => (even y hy).trans held.length⟩
      · refine .inr ⟨fun both => no fun y hy => ⟨both.1.child hy, both.2.child hy⟩, m, ?_⟩
        rw [stopped]
        rfl
    · refine .inr ⟨fun both => uneven fun y hy => ?_, m, by rw [stopped]; rfl⟩
      exact (both.2.here y hy).trans held.length.symm
  | _, _, .entries first second => by
    rw [FinishesAs, Builder.finish]
    obtain ⟨paired, even⟩ | ⟨uneven, m, stopped⟩ := checkPairs_outcome first second
    · rw [paired, ok_bind]
      obtain ⟨k, b₁, v, b₂, hk, hv, dk, dv⟩ | ⟨no, m, stopped⟩ :=
        finishPair_outcome (Holds.finish_outcome first) (Holds.finish_outcome second)
      · refine .inl ⟨_, .entries b₁ b₂, ?_, describes_entries dk dv even⟩
        rw [hk, ok_bind]
        simp only [hv, ok_bind, pairs_eq first second]
        rfl
      · exact .inr ⟨fun both => no (Contents.complete_pair rfl both), m, stopped _⟩
    · exact .inr ⟨fun both => uneven both.2.here, m, by rw [stopped]; rfl⟩
  | _, _, @Holds.map spans _ _ _ _ x _ sorted held first second => by
    rw [FinishesAs, Builder.finish]
    obtain ⟨stop, small⟩ | ⟨large, m, stopped⟩ := offset_outcome first
    · rw [stop, ok_bind, first.type_eq, second.type_eq]
      obtain ⟨paired, even⟩ | ⟨uneven, m, stopped⟩ := checkPairs_outcome first second
      · obtain ⟨k, b₁, v, b₂, hk, hv, dk, dv⟩ | ⟨no, m, stopped⟩ :=
          finishPair_outcome (Holds.finish_outcome first) (Holds.finish_outcome second)
        · refine .inl ⟨_, .map (spans.finish x.len).2.2 b₁ b₂ sorted, ?_,
          describes_map held dk dv small even⟩
          simp only [paired, ok_bind]
          rw [hk, ok_bind]
          simp only [hv, ok_bind, pairs_eq first second]
          rfl
        · refine .inr ⟨fun both => no (Contents.complete_pair rfl both), m, ?_⟩
          simp only [paired, ok_bind]
          exact stopped _
      · refine .inr ⟨fun both => uneven both.2.here, m, ?_⟩
        simp only [stopped]
        rfl
    · exact .inr ⟨fun both => large both.1.here, m, by rw [stopped]; rfl⟩

theorem finishAll_outcome : {bs : List Builder} → {xs : List Contents} →
    List.Forall₂ Holds bs xs → FinishAllAs bs xs
  | _, _, .nil => .inl ⟨_, _, rfl, .nil⟩
  | _, _, .cons h rest => by
    rw [FinishAllAs, finishAll]
    obtain ⟨c, b', hc, hd⟩ | ⟨no, m, stopped⟩ := Holds.finish_outcome h
    · obtain ⟨cs, bs', hcs, hds⟩ | ⟨no, m, stopped⟩ := finishAll_outcome rest
      · exact .inl ⟨_, _, by rw [hc, ok_bind]; simp only [hcs]; rfl, .cons hd hds⟩
      · refine .inr ⟨fun all => no fun y hy => all y (by simp [hy]), m, ?_⟩
        rw [hc, ok_bind]
        simp only [stopped]
        rfl
    · exact .inr ⟨fun all => no (all _ (by simp)), m, by rw [stopped]; rfl⟩

end

/-- What comes of anchored contents without null keys is accepted. -/
theorem Holds.accepted_of_finish {b rest : Builder} {x : Contents} {c : Column} (h : Holds b x)
    (anchored : x.Anchored) (filled : x.KeysFilled) (finished : b.finish = .ok (c, rest)) :
    c.Everywhere Column.Accepted := by
  obtain ⟨c', rest', finished', describes⟩ | ⟨-, m, stopped⟩ := h.finish_outcome
  · cases finished.symm.trans finished'
    exact describes.accepted.2 ⟨anchored, filled⟩
  · cases finished.symm.trans stopped

end Builder

end Columnar
