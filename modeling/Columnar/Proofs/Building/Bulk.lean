import Columnar.Proofs.Building.Growth
import Columnar.Proofs.Building.Reading
import Columnar.Proofs.Building.Resetting

/-!
# Numbers appended together and one by one

`NumBuilder.appendSlice` and `NumBuilder.appendValues` make room once and then write all words.
Appending the words one by one makes room again and again.  Whatever the builder has been through,
both lead to the same state (`NumBuilder.Holds.store_reserve`), and so for every builder of numbers
in a tree that is reached (`Builder.bulk_appends`).

Writing the first word and going on with the others is the same as writing all of them
(`NumBuilder.Holds.store_cons`), and room that is made for all of them can be made before or after
the first one (`NumBuilder.Holds.reserve_store`).  This depends on builders having no more room than
their capacity calls for (`NumBuilder.Tight`), which every call keeps at every depth of a tree,
however sums come out (`Builder.compact_of_call`).
-/

namespace Columnar

namespace GrowBuffer

variable {b : GrowBuffer} {n : Nat}

/-- Where there is room, appending only writes. -/
theorem append_of_room {src : Bytes} (room : b.len + src.size ≤ b.capacity) :
    b.append src =
      { b with region := b.region.overwrite b.len src.toList, len := b.len + src.size } := by
  rw [append, reserve, Sizes.fit_unbounded, if_neg (Nat.not_lt.2 room)]

theorem append_append {xs ys : Bytes} (room : b.len + (xs.size + ys.size) ≤ b.capacity) :
    b.append (xs ++ ys) = (b.append xs).append ys := by
  have first : b.append xs = _ := append_of_room (by omega)
  rw [append_of_room (by rw [Array.size_append]; exact room), first, append_of_room]
  · simp [Bytes.overwrite_append, Nat.add_assoc]
  · show b.len + xs.size + ys.size ≤ (b.region.overwrite b.len xs.toList).size
    rw [Bytes.size_overwrite, Nat.add_assoc]
    exact room

theorem append_nil (fits : b.Fits) : b.append #[] = b := by
  rw [append_of_room (show b.len + 0 ≤ b.capacity from fits)]
  rfl

/-- Bytes can be written before the region grows or after. -/
theorem reallocate_append {src : Bytes} (room : b.len + src.size ≤ b.capacity)
    (covers : b.len + src.size ≤ n) :
    (b.append src).reallocate n = (b.reallocate n).append src := by
  have wanted : max n (b.len + src.size) = max n b.len := by omega
  have inside : b.len + src.toList.length ≤ b.region.size := by
    rw [Array.length_toList]
    exact room
  have room' : (b.reallocate n).len + src.size ≤ (b.reallocate n).capacity := by
    rw [capacity_reallocate, len_reallocate, reallocated]
    have := le_roundUp (max n b.len)
    omega
  rw [append_of_room room, append_of_room room', reallocate_eq, reallocate_eq]
  simp only [reallocated, wanted, Bytes.resized_overwrite _ _ inside]

end GrowBuffer

namespace NumBuilder

variable {b : NumBuilder} {valid : List Bool} {words : List Nat} {c c' m n w : Nat} {v : Bool}

/-! ### Room -/

/-- The buffers have no more room than the capacity calls for. -/
structure Tight (b : NumBuilder) : Prop where
  bitmap : b.slots.Tight
  values : b.values.capacity = roundUp (b.slots.capacity * b.type.width)

theorem tight_fresh (b : NumBuilder) : b.fresh.Tight where
  bitmap := nofun
  values := by
    show 0 = roundUp (0 * b.type.width)
    rw [Nat.zero_mul]
    decide

theorem Holds.len_values (h : b.Holds valid words) :
    b.values.len = b.slots.length * b.type.width := by
  rw [← GrowBuffer.size_bytes h.fits, h.bytes, Bytes.size_wordBytes, h.count, h.slots.length]

theorem Holds.tight_resize (h : b.Holds valid words) (c : Nat) : (b.resize c).Tight where
  bitmap := b.slots.tight_resize _
  values := by
    have room := (h.slots.resize (max c minCapacity)).room
    have bytes := Nat.mul_le_mul_right b.type.width room
    rw [Slots.capacity_resize] at bytes
    rw [NumBuilder.resize]
    simp only [GrowBuffer.capacity_reallocate, GrowBuffer.reallocated, GrowBuffer.len_truncate,
      Slots.capacity_resize]
    rw [Nat.max_eq_left (Nat.le_trans (Nat.min_le_left _ _) bytes)]

theorem reserve_eq (b : NumBuilder) (n : Nat) :
    b.reserve n = if b.slots.capacity < b.slots.length + n then
      b.resize (growCapacity (b.slots.length + n)) else b := by
  rw [reserve, Slots.growTarget?, Sizes.fit_unbounded]
  split_ifs <;> rfl

theorem Holds.tight_reserve (h : b.Holds valid words) (tight : b.Tight) (n : Nat) :
    (b.reserve n).Tight := by
  rw [reserve_eq]
  split_ifs
  · exact h.tight_resize _
  · exact tight

/-! ### Growing -/

theorem slots_resize (least : minCapacity ≤ c) : (b.resize c).slots = b.slots.resize c := by
  rw [resize]
  simp only [Nat.max_eq_left least]

/-- A capacity that covers the slots lets the buffers grow. -/
theorem Holds.resize_eq (h : b.Holds valid words) (least : minCapacity ≤ c)
    (covers : b.slots.length ≤ c) :
    b.resize c =
      { b with slots := b.slots.resize c, values := b.values.reallocate (c * b.type.width) } := by
  have kept : b.values.truncate (b.slots.length * b.type.width) = b.values := by
    rw [GrowBuffer.truncate, if_neg (Nat.not_lt.2 (Nat.le_of_eq h.len_values))]
  rw [NumBuilder.resize]
  simp only [Nat.max_eq_left least, Slots.length_resize covers, kept]

theorem Holds.resize_resize (h : b.Holds valid words) (tight : b.Tight) (least : minCapacity ≤ c)
    (first : b.slots.capacity ≤ c) (second : c ≤ c') : (b.resize c).resize c' = b.resize c' := by
  have covers : b.slots.length ≤ c := Nat.le_trans h.slots.room first
  have grown := h.resize c
  have length : (b.resize c).slots.length = b.slots.length := by
    rw [slots_resize least, Slots.length_resize covers]
  have bytes := Nat.mul_le_mul_right b.type.width first
  have bytes' := Nat.mul_le_mul_right b.type.width second
  have used : b.values.len ≤ c * b.type.width := by
    rw [h.len_values]
    exact Nat.mul_le_mul_right _ covers
  have region : b.values.region.size ≤ roundUp (c * b.type.width) :=
    Nat.le_trans (Nat.le_of_eq tight.values) (roundUp_mono bytes)
  rw [grown.resize_eq (Nat.le_trans least second) (by rw [length]; omega),
    h.resize_eq (Nat.le_trans least second) (by omega), h.resize_eq least covers]
  simp only [h.slots.resize_resize tight.bitmap first second]
  rw [GrowBuffer.reallocate_eq, GrowBuffer.reallocate_eq, GrowBuffer.reallocate_eq]
  simp only [GrowBuffer.reallocated, Nat.max_eq_left used,
    Nat.max_eq_left (Nat.le_trans used bytes'), Bytes.resized_resized _ (.inl region)]

/-- Room for some slots can be made before room for more. -/
theorem Holds.reserve_reserve (h : b.Holds valid words) (tight : b.Tight) (more : m ≤ n) :
    (b.reserve m).reserve n = b.reserve n := by
  by_cases fits : b.slots.length + m ≤ b.slots.capacity
  · rw [reserve_eq b m, if_neg (Nat.not_lt.2 fits)]
  · have enough := le_growCapacity (b.slots.length + m)
    have least := minCapacity_le_growCapacity (b.slots.length + m)
    have grows : b.slots.capacity < b.slots.length + n := by omega
    rw [reserve_eq b m, if_pos (Nat.not_le.1 fits), reserve_eq, slots_resize least,
      Slots.length_resize (by omega), Slots.capacity_resize, reserve_eq, if_pos grows]
    by_cases all : b.slots.length + n ≤ growCapacity (b.slots.length + m)
    · -- what was made for `m` slots is enough, so that it is the same as for `n`
      rw [if_neg (Nat.not_lt.2 all), growCapacity_eq (Nat.add_le_add_left more _) all]
    · rw [if_pos (Nat.not_le.1 all)]
      refine h.resize_resize tight least (by omega) ?_
      exact Nat.le_trans (Nat.le_of_not_le all) (le_growCapacity _)

/-! ### Storing words -/

/-- Words behind the ones there are, in slots of these validities; the capacity must cover them. -/
def store (b : NumBuilder) (words : List Nat) (valid : List Bool) : NumBuilder :=
  { b with
    slots := valid.foldl Slots.append b.slots
    values := b.values.append (wordBytes b.type.width words) }

theorem append_eq (b : NumBuilder) (w : Nat) (v : Bool) :
    b.append w v = (b.reserve 1).store [w] [v] := by
  rw [append, store, Bytes.wordBytes_singleton]
  rfl

theorem appendSlice_eq (b : NumBuilder) (words : List Nat) :
    b.appendSlice words =
      (b.reserve words.length).store words (List.replicate words.length true) := by
  rw [appendSlice, store, Slots.appendMany_true]

theorem appendValues_eq (b : NumBuilder) {words : List Nat} {valid : List Bool}
    (count : words.length = valid.length) :
    b.appendValues words valid = .ok ((b.reserve words.length).store words valid) := if_pos count

variable {ws : List Nat} {vs : List Bool}

namespace Holds

theorem store (h : b.Holds valid words) (count : ws.length = vs.length)
    (fits : b.slots.length + vs.length ≤ b.slots.capacity) :
    (b.store ws vs).Holds (valid ++ vs) (words ++ ws) :=
  h.write (h.slots.appendAll vs fits) count

theorem fits_reserve (h : b.Holds valid words) (n : Nat) :
    (b.reserve n).slots.length + n ≤ (b.reserve n).slots.capacity := by
  rw [(h.reserve n).slots.length]
  exact h.room_reserve n

/-- Words fit into the region wherever their slots fit. -/
theorem room_values (h : b.Holds valid words) (tight : b.Tight)
    (fits : b.slots.length + n ≤ b.slots.capacity) :
    b.values.len + n * b.type.width ≤ b.values.capacity := by
  have bytes := Nat.mul_le_mul_right b.type.width fits
  rw [tight.values, h.len_values, ← Nat.add_mul]
  exact Nat.le_trans bytes (le_roundUp _)

theorem tight_store (h : b.Holds valid words) (tight : b.Tight)
    (fits : b.slots.length + ws.length ≤ b.slots.capacity) (vs : List Bool) :
    (b.store ws vs).Tight where
  bitmap := tight.bitmap.appendAll vs
  values := by
    have room := h.room_values tight fits
    rw [NumBuilder.store, GrowBuffer.append_of_room (by rw [Bytes.size_wordBytes]; exact room)]
    simp only [GrowBuffer.capacity, Bytes.size_overwrite, (b.slots.appendAll_counts vs).2]
    exact tight.values

theorem store_nil (h : b.Holds valid words) : b.store [] [] = b := by
  rw [NumBuilder.store, show wordBytes b.type.width [] = #[] from rfl, GrowBuffer.append_nil h.fits]
  rfl

/-- **The first word can be stored on its own.** -/
theorem store_cons (h : b.Holds valid words) (tight : b.Tight)
    (fits : b.slots.length + (ws.length + 1) ≤ b.slots.capacity) (w : Nat) (v : Bool)
    (vs : List Bool) : b.store (w :: ws) (v :: vs) = (b.store [w] [v]).store ws vs := by
  have room := h.room_values tight fits
  have parts : wordBytes b.type.width (w :: ws) =
      wordBytes b.type.width [w] ++ wordBytes b.type.width ws := Bytes.wordBytes_append _ [w] ws
  rw [NumBuilder.store, parts, GrowBuffer.append_append]
  · rfl
  · rw [Bytes.size_wordBytes, Bytes.size_wordBytes, ← Nat.add_mul, List.length_singleton,
      Nat.add_comm 1]
    exact room

/-- **Room can be made before a word is stored or after.** -/
theorem reserve_store (h : b.Holds valid words) (tight : b.Tight)
    (fits : b.slots.length < b.slots.capacity) (w : Nat) (v : Bool) (n : Nat) :
    (b.store [w] [v]).reserve n = (b.reserve (n + 1)).store [w] [v] := by
  have length : (b.store [w] [v]).slots.length = b.slots.length + 1 := b.slots.length_append v
  have capacity : (b.store [w] [v]).slots.capacity = b.slots.capacity := b.slots.capacity_append v
  rw [reserve_eq, reserve_eq, length, capacity, Nat.add_assoc, Nat.add_comm 1]
  by_cases grows : b.slots.capacity < b.slots.length + (n + 1)
  · have least := minCapacity_le_growCapacity (b.slots.length + (n + 1))
    have covers := le_growCapacity (b.slots.length + (n + 1))
    have size : (wordBytes b.type.width [w]).size = 1 * b.type.width := Bytes.size_wordBytes _ _
    have room := h.room_values tight (n := 1) fits
    have bytes : b.values.len + 1 * b.type.width ≤
        growCapacity (b.slots.length + (n + 1)) * b.type.width := by
      rw [h.len_values, ← Nat.add_mul]
      exact Nat.mul_le_mul_right _ (by omega)
    have held : (b.store [w] [v]).Holds (valid ++ [v]) (words ++ [w]) := h.store rfl fits
    rw [if_pos grows, if_pos grows, held.resize_eq least (by rw [length]; omega),
      h.resize_eq least (by omega)]
    have slots := h.slots.resize_append fits (Nat.le_trans (Nat.le_of_lt grows) covers) v
    simp only [NumBuilder.store, List.foldl_cons, List.foldl_nil, slots]
    rw [GrowBuffer.reallocate_append (by rw [size]; exact room) (by rw [size]; exact bytes)]
  · rw [if_neg grows, if_neg grows]

/-- **Room made once is as good as room made for every word.** -/
theorem store_reserve (h : b.Holds valid words) (tight : b.Tight) (count : ws.length = vs.length) :
    (b.reserve ws.length).store ws vs =
      (ws.zip vs).foldl (fun b slot => b.append slot.1 slot.2) b := by
  induction ws generalizing b valid words vs with
  | nil =>
    obtain rfl := List.length_eq_zero_iff.1 count.symm
    have room : b.slots.length + 0 ≤ b.slots.capacity := h.slots.room
    rw [List.length_nil, reserve_eq, if_neg (Nat.not_lt.2 room), h.store_nil]
    rfl
  | cons w ws ih =>
    obtain ⟨v, vs, rfl⟩ := List.exists_cons_of_length_eq_add_one count.symm
    -- room for one is made first, then for all
    have kept := h.reserve 1
    have tight₁ := h.tight_reserve tight 1
    have fits : (b.reserve 1).slots.length + [w].length ≤ _ := h.fits_reserve 1
    rw [List.length_cons, ← h.reserve_reserve tight (Nat.le_add_left 1 ws.length),
      (kept.reserve _).store_cons (kept.tight_reserve tight₁ _) (kept.fits_reserve _),
      ← kept.reserve_store tight₁ fits, ← append_eq]
    have tight₂ : (b.append w v).Tight := by
      rw [append_eq]
      exact kept.tight_store tight₁ fits [v]
    exact ih (h.append w v) tight₂ (Nat.succ.inj count)

end Holds

/-! ### Room after calls -/

/-- Words are stored, with no more room than the capacity calls for. -/
structure Compact (b : NumBuilder) : Prop where
  stores : ∃ valid words, b.Holds valid words
  tight : b.Tight

theorem compact_fresh (b : NumBuilder) : b.fresh.Compact where
  stores := ⟨[], [], Slots.holds_empty _, rfl, GrowBuffer.fits_empty _, rfl⟩
  tight := b.tight_fresh

namespace Compact

variable (h : b.Compact)
include h

theorem resize (c : Nat) : (b.resize c).Compact := by
  obtain ⟨valid, words, held⟩ := h.stores
  exact ⟨⟨_, _, held.resize c⟩, held.tight_resize c⟩

theorem reserve (n : Nat) (sizes : Sizes) : (b.reserve n sizes).Compact := by
  rw [NumBuilder.reserve]
  cases b.slots.growTarget? n sizes with
  | none => exact h
  | some c => exact h.resize c

theorem store (count : ws.length = vs.length) : ((b.reserve ws.length).store ws vs).Compact := by
  obtain ⟨valid, words, held⟩ := h.stores
  have kept := held.reserve ws.length
  have fits := held.fits_reserve ws.length
  exact ⟨⟨_, _, kept.store count (count ▸ fits)⟩,
    kept.tight_store (held.tight_reserve h.tight _) fits vs⟩

theorem append (w : Nat) (v : Bool) : (b.append w v).Compact := by
  rw [append_eq]
  exact h.store (show [w].length = [v].length from rfl)

theorem appendNulls (n : Nat) : (n.repeat appendNull b).Compact := by
  induction n with
  | zero => exact h
  | succ n ih => exact ih.append 0 false

theorem appendSlice (ws : List Nat) : (b.appendSlice ws).Compact := by
  rw [appendSlice_eq]
  exact h.store (by rw [List.length_replicate])

end Compact

theorem Compact.of_appendValues {b' : NumBuilder} (h : b.Compact)
    (hb : b.appendValues ws vs = .ok b') : b'.Compact := by
  by_cases count : ws.length = vs.length
  · cases (b.appendValues_eq count).symm.trans hb
    exact h.store count
  · rw [appendValues, if_neg count] at hb
    cases hb

end NumBuilder

/-! ### Room in a tree -/

namespace Builder

variable {b b' : Builder}

/-- The condition, where the builder itself is one of numbers. -/
def IfNum (P : NumBuilder → Prop) : Builder → Prop
  | num n => P n
  | _ => True

/-- The condition holds of every builder of numbers in the tree. -/
def EachNum (P : NumBuilder → Prop) (b : Builder) : Prop := Throughout children (IfNum P) b

/-- Everywhere in the tree words are stored, with no more room than the capacity calls for. -/
def Compact (b : Builder) : Prop := b.EachNum NumBuilder.Compact

theorem EachNum.imp {P Q : NumBuilder → Prop} (h : b.EachNum P) (imp : ∀ n, P n → Q n) :
    b.EachNum Q := by
  induction h with
  | @node b here _ ih =>
    refine .node ?_ ih
    cases b with
    | num n => exact imp n here
    | _ => trivial

theorem compact_num {n : NumBuilder} (h : n.Compact) : (num n).Compact :=
  .node h (List.forall_mem_nil _)

theorem Compact.num {n : NumBuilder} (h : (num n).Compact) : n.Compact := h.here

theorem compact_pair {keys items : Builder} (first : keys.Compact) (second : items.Compact) :
    ∀ d ∈ [keys, items], d.Compact :=
  List.forall_mem_cons.2 ⟨first, List.forall_mem_singleton.2 second⟩

theorem compact_resize : {b : Builder} → b.Compact → (c : Nat) → (b.resize c).Compact
  | null _, _, _ | bool _, _, _ | bytes _, _, _ => .node trivial (List.forall_mem_nil _)
  | num _, h, c => compact_num (h.num.resize c)
  | list _ _, h, _ | fixedList _ _ _, h, _ | struct _ _ _, h, _ =>
    .node trivial fun _ hd => h.child hd
  | entries _ _, h, c =>
    .node trivial (compact_pair (compact_resize (h.child (by simp [children])) c)
      (compact_resize (h.child (by simp [children])) c))
  | map _ _ _ _, h, c =>
    .node trivial (compact_pair (compact_resize (h.child (by simp [children])) _)
      (compact_resize (h.child (by simp [children])) _))

theorem compact_reserve (n : Nat) (sizes : Sizes) : {b : Builder} → b.Compact →
    (b.reserve n sizes).Compact
  | null _, _ | bool _, _ | bytes _, _ => .node trivial (List.forall_mem_nil _)
  | num _, h => compact_num (h.num.reserve n sizes)
  | list _ _, h | fixedList _ _ _, h | struct _ _ _, h => .node trivial fun _ hd => h.child hd
  | entries _ _, h | map _ _ _ _, h =>
    .node trivial (compact_pair (compact_reserve n sizes (h.child (by simp [children])))
      (compact_reserve n sizes (h.child (by simp [children]))))

mutual

theorem compact_of_appendNulls : {b : Builder} → b.Compact → {n : Nat} → {b' : Builder} →
    b.appendNulls n = .ok b' → b'.Compact
  | b, h, 0, b', hb => by
    have same : b.appendNulls 0 = .ok b := by cases b <;> rfl
    cases same.symm.trans hb
    exact h
  | null _, _, n + 1, b', hb | bool _, _, n + 1, b', hb => by
    cases hb
    exact .node trivial (List.forall_mem_nil _)
  | num _, h, n + 1, b', hb => by
    cases hb
    exact compact_num (h.num.appendNulls (n + 1))
  | bytes _, _, n + 1, b', hb => by
    obtain ⟨b₁, -, hb⟩ := bind_eq_ok.1 hb
    cases hb
    exact .node trivial (List.forall_mem_nil _)
  | list _ _, h, n + 1, b', hb | map _ _ _ _, h, n + 1, b', hb => by
    obtain ⟨start, -, hb⟩ := bind_eq_ok.1 hb
    cases hb
    exact .node trivial fun _ hd => h.child hd
  | fixedList _ _ values, h, n + 1, b', hb => by
    obtain ⟨values', padded, hb⟩ := bind_eq_ok.1 hb
    cases hb
    have below := compact_of_appendNulls (h.child (List.mem_singleton_self values)) padded
    exact .node trivial (List.forall_mem_singleton.2 below)
  | struct _ _ _, h, n + 1, b', hb => by
    obtain ⟨children', padded, hb⟩ := bind_eq_ok.1 hb
    cases hb
    exact .node trivial (compact_of_appendNullsToAll (fun _ hd => h.child hd) padded)
  | entries _ _, h, n + 1, b', hb => by
    obtain ⟨keys', first, hb⟩ := bind_eq_ok.1 hb
    obtain ⟨items', second, hb⟩ := bind_eq_ok.1 hb
    cases hb
    exact .node trivial (compact_pair
      (compact_of_appendNulls (h.child (by simp [children])) first)
      (compact_of_appendNulls (h.child (by simp [children])) second))

theorem compact_of_appendNullsToAll : {bs : List Builder} → (∀ b ∈ bs, b.Compact) → {n : Nat} →
    {bs' : List Builder} → appendNullsToAll bs n = .ok bs' → ∀ b ∈ bs', b.Compact
  | [], _, n, bs', hb => by
    cases hb
    exact List.forall_mem_nil _
  | b :: bs, h, n, bs', hb => by
    obtain ⟨here, others⟩ := List.forall_mem_cons.1 h
    obtain ⟨b₁, first, hb⟩ := bind_eq_ok.1 hb
    obtain ⟨bs₁, rest, hb⟩ := bind_eq_ok.1 hb
    cases hb
    exact List.forall_mem_cons.2
      ⟨compact_of_appendNulls here first, compact_of_appendNullsToAll others rest⟩

end

theorem compact_of_append (h : b.Compact) {v : Bool} (hb : b.append v = .ok b') : b'.Compact := by
  cases b with
  | list =>
    obtain ⟨start, -, hb⟩ := bind_eq_ok.1 hb
    cases hb
    exact .node trivial fun _ hd => h.child hd
  | fixedList _ _ values =>
    have below := h.child (List.mem_singleton_self values)
    cases v with
    | true =>
      cases hb
      exact .node trivial (List.forall_mem_singleton.2 below)
    | false =>
      obtain ⟨values', padded, hb⟩ := bind_eq_ok.1 hb
      cases hb
      exact .node trivial (List.forall_mem_singleton.2 (compact_of_appendNulls below padded))
  | struct =>
    cases hb
    exact .node trivial fun _ hd => h.child hd
  | map =>
    rw [append] at hb
    split_ifs at hb
    · obtain ⟨start, -, hb⟩ := bind_eq_ok.1 hb
      cases hb
      exact .node trivial fun _ hd => h.child hd
    · cases hb
  | _ => cases hb

theorem compact_of_appendScalar (h : b.Compact) {v : Value} (hb : b.appendScalar v = .ok b') :
    b'.Compact := by
  cases v with
  | null =>
    have null : b.appendScalar .null = b.appendNulls 1 := by cases b <;> rfl
    exact compact_of_appendNulls h (null ▸ hb)
  | bool =>
    cases b with
    | bool =>
      cases hb
      exact .node trivial (List.forall_mem_nil _)
    | _ => cases hb
  | num t word =>
    cases b with
    | num n =>
      cases hb
      exact compact_num (h.num.append word true)
    | _ => cases hb
  | text | binary =>
    cases b with
    | bytes =>
      obtain ⟨b₁, -, hb⟩ := bind_eq_ok.1 hb
      cases hb
      exact .node trivial (List.forall_mem_nil _)
    | _ => cases hb
  | _ => cases b <;> cases hb

mutual

theorem compact_fresh : (b : Builder) → b.fresh.Compact
  | null _ | bool _ | bytes _ => .node trivial (List.forall_mem_nil _)
  | num n => compact_num n.compact_fresh
  | list _ values | fixedList _ _ values =>
    .node trivial (List.forall_mem_singleton.2 (compact_fresh values))
  | struct _ _ bs => .node trivial (compact_freshAll bs)
  | entries keys items | map _ keys items _ =>
    .node trivial (compact_pair (compact_fresh keys) (compact_fresh items))

theorem compact_freshAll : (bs : List Builder) → ∀ b ∈ freshAll bs, b.Compact
  | [] => List.forall_mem_nil _
  | b :: bs => List.forall_mem_cons.2 ⟨compact_fresh b, compact_freshAll bs⟩

end

/-- No operation leaves more room than the capacity calls for. -/
theorem compact_of_apply (h : b.Compact) {op : Op} {sizes : Sizes} {answer : Option Column}
    (hb : op.apply b sizes = .ok (b', answer)) : b'.Compact := by
  cases op with
  | appendNull =>
    obtain ⟨b₁, first, hb⟩ := bind_eq_ok.1 hb
    cases hb
    exact compact_of_appendNulls h first
  | append v =>
    obtain ⟨b₁, first, hb⟩ := bind_eq_ok.1 hb
    cases hb
    exact compact_of_append h first
  | appendScalar v =>
    rw [Op.apply] at hb
    split_ifs at hb
    obtain ⟨b₁, first, hb⟩ := bind_eq_ok.1 hb
    cases hb
    exact compact_of_appendScalar h first
  | appendSlice words =>
    cases b with
    | num n =>
      cases hb
      exact compact_num (h.num.appendSlice words)
    | _ => cases hb
  | appendValues words valid =>
    cases b with
    | num n =>
      obtain ⟨n', first, hb⟩ := bind_eq_ok.1 hb
      cases hb
      exact compact_num (h.num.of_appendValues first)
    | _ => cases hb
  | reserve n =>
    cases hb
    exact compact_reserve n sizes h
  | resize c =>
    cases hb
    exact compact_resize h c
  | finish =>
    obtain ⟨⟨c, b₁⟩, first, hb⟩ := bind_eq_ok.1 hb
    cases hb
    rw [fresh_of_finish b first]
    exact compact_fresh b

theorem compact_setChild (h : b.Compact) {i : Nat} {c c' : Builder} (hc : b.child i = .ok c)
    (below : c'.Compact) : (b.setChild i c').Compact := by
  cases b with
  | list | fixedList =>
    rcases i with _ | i <;> cases hc
    exact .node trivial (List.forall_mem_singleton.2 below)
  | struct =>
    refine .node trivial fun d hd => ?_
    rcases List.mem_or_eq_of_mem_set hd with old | rfl
    · exact h.child old
    · exact below
  | entries | map =>
    rcases i with _ | _ | i <;> cases hc
    · exact .node trivial (compact_pair below (h.child (by simp [children])))
    · exact .node trivial (compact_pair (h.child (by simp [children])) below)
  | _ => cases hc

theorem compact_of_modifyAt {op : Op} {sizes : Sizes} : (path : List Nat) → {b b' : Builder} →
    b.Compact → {answer : Option Column} →
    modifyAt (op.apply · sizes) path b = .ok (b', answer) → b'.Compact
  | [], _, _, h, _, hb => compact_of_apply h hb
  | i :: path, b, _, h, _, hb => by
    obtain ⟨c, hc, hb⟩ := bind_eq_ok.1 hb
    obtain ⟨⟨c', a⟩, changed, hb⟩ := bind_eq_ok.1 hb
    cases hb
    have below : c.Compact := h.child (List.mem_of_getElem? (child_eq_ok.1 hc))
    exact compact_setChild h hc (compact_of_modifyAt path below changed)

/-- **No call leaves more room than capacities call for**, at whatever depth. -/
theorem compact_of_call (h : b.Compact) {c : Call} {sizes : Sizes} {answer : Option Column}
    (hb : b.call c sizes = .ok (b', answer)) : b'.Compact :=
  compact_of_modifyAt c.path h hb

theorem compact_of_reserveBytes (h : b.Compact) {bytes : Nat} {sizes : Sizes}
    (hb : b.reserveBytes bytes sizes = .ok b') : b'.Compact := by
  cases b with
  | bytes =>
    obtain ⟨values, -, hb⟩ := bind_eq_ok.1 hb
    cases hb
    exact .node trivial (List.forall_mem_nil _)
  | _ =>
    cases hb
    exact h

theorem compact_of_make {tracked : Bool} {t : DataType} (made : make tracked t = .ok b) :
    b.Compact := by
  rw [← fresh_of_make t made]
  exact compact_fresh b

/-- Whatever is reached has no more room than capacities call for. -/
theorem Reached.compact {allowed : Builder → Builder → Prop} (h : Reached allowed b) :
    b.Compact := by
  induction h with
  | make made => exact compact_of_make made
  | sized made =>
    obtain ⟨b₁, new, made⟩ := bind_eq_ok.1 made
    exact compact_of_reserveBytes (compact_resize (compact_of_make new) _) made
  | ofValues _ _ child => exact .node trivial (List.forall_mem_singleton.2 child)
  | ofFixed _ made child =>
    obtain ⟨-, rfl⟩ := ofFixed_eq_ok.1 made
    exact .node trivial (List.forall_mem_singleton.2 child)
  | ofFields _ made columns =>
    obtain ⟨rfl, -⟩ := ofFields_eq_ok.1 made
    exact .node trivial columns
  | entries _ _ first second | ofEntries _ _ _ _ first second =>
    exact .node trivial (compact_pair first second)
  | call _ called _ before => exact compact_of_call before called

end Builder

/-! ### Together and one by one -/

namespace NumBuilder

variable {b : NumBuilder} {ws : List Nat} {vs : List Bool} {i : Nat}

/-- One more slot, null unless it is valid. -/
def appendSlot (b : NumBuilder) (slot : Nat × Bool) : NumBuilder :=
  if slot.2 then b.appendValue slot.1 else b.appendNull

/-- The same slots and as much memory, and the same values to read. -/
structure Agrees (a b : NumBuilder) : Prop where
  slots : a.slots = b.slots
  capacity : a.values.capacity = b.values.capacity
  reads : ∃ vs, (Builder.num a).Reads vs ∧ (Builder.num b).Reads vs

/-- The words, with zeros behind nulls. -/
def masked (words : List Nat) (valid : List Bool) : List Nat :=
  List.zipWith (fun w v => if v then w else 0) words valid

theorem length_masked (count : ws.length = vs.length) : (masked ws vs).length = ws.length := by
  rw [masked, List.length_zipWith, ← count, Nat.min_self]

theorem getD_masked (valid : vs.getD i false = true) : (masked ws vs).getD i 0 = ws.getD i 0 := by
  rw [List.getD_eq_getElem?_getD] at valid
  rw [masked, List.getD_eq_getElem?_getD, List.getD_eq_getElem?_getD, List.getElem?_zipWith]
  cases hv : vs[i]? with
  | none =>
    rw [hv] at valid
    cases valid
  | some v =>
    obtain rfl : v = true := by rwa [hv] at valid
    cases ws[i]? <;> rfl

/-- Nulls are appended with a zero. -/
theorem foldl_appendSlot (b : NumBuilder) (ws : List Nat) (vs : List Bool) :
    (ws.zip vs).foldl appendSlot b =
      ((masked ws vs).zip vs).foldl (fun b slot => b.append slot.1 slot.2) b := by
  induction ws generalizing b vs with
  | nil => rfl
  | cons w ws ih =>
    cases vs with
    | nil => rfl
    | cons v vs =>
      have first : b.appendSlot (w, v) = b.append (if v then w else 0) v := by cases v <;> rfl
      rw [List.zip_cons_cons, List.foldl_cons, first]
      exact ih _ vs

/-- Numbers are appended as valid. -/
theorem foldl_appendValue (b : NumBuilder) (ws : List Nat) :
    ws.foldl appendValue b =
      (ws.zip (List.replicate ws.length true)).foldl (fun b slot => b.append slot.1 slot.2) b := by
  induction ws generalizing b with
  | nil => rfl
  | cons w ws ih =>
    rw [List.length_cons, List.replicate_succ, List.zip_cons_cons, List.foldl_cons, ih]
    rfl

/-- Numbers appended together leave what they leave one by one. -/
theorem Compact.appendSlice_eq_foldl (h : b.Compact) (ws : List Nat) :
    b.appendSlice ws = ws.foldl appendValue b := by
  obtain ⟨valid, words, held⟩ := h.stores
  rw [appendSlice_eq, foldl_appendValue, held.store_reserve h.tight (by rw [List.length_replicate])]

end NumBuilder

namespace Builder

variable {b : Builder}

theorem whereValid_congr {valid : List Bool} {f g : Nat → Value}
    (same : ∀ i, valid.getD i false = true → f i = g i) :
    whereValid valid f = whereValid valid g := by
  refine List.map_congr_left fun i _ => ?_
  cases v : valid.getD i false with
  | true => exact same i v
  | false => rfl

theorem Contents.complete_num (t : NumType) (valid : List Bool) (words : List Nat) :
    (num t valid words).Complete :=
  (complete_iff _).2 ⟨⟨Nat.zero_le _, trivial, .nil _, rfl⟩, nofun⟩

/-- What is stored behind nulls is not read. -/
theorem Contents.slots_masked {t : NumType} {valid : List Bool} {words ws : List Nat}
    {vs : List Bool} (count : words.length = valid.length) :
    (num t (valid ++ vs) (words ++ NumBuilder.masked ws vs)).slots =
      (num t (valid ++ vs) (words ++ ws)).slots := by
  refine whereValid_congr fun i ok => ?_
  by_cases old : i < words.length
  · rw [List.getD_append _ _ _ _ old, List.getD_append _ _ _ _ old]
  · have new := Nat.le_of_not_lt old
    rw [List.getD_append_right _ _ _ _ (count ▸ new), ← count] at ok
    rw [List.getD_append_right _ _ _ _ new, List.getD_append_right _ _ _ _ new,
      NumBuilder.getD_masked ok]

/-- Slots appended together read as they do one by one. -/
theorem agrees_appendValues {n : NumBuilder} (h : n.Compact) {ws : List Nat} {vs : List Bool}
    (count : ws.length = vs.length) :
    ∃ n', n.appendValues ws vs = .ok n' ∧
      n'.Agrees ((ws.zip vs).foldl NumBuilder.appendSlot n) := by
  obtain ⟨valid, words, held⟩ := h.stores
  have length := NumBuilder.length_masked count
  have kept := held.reserve ws.length
  have tight := held.tight_reserve h.tight ws.length
  have fits := held.fits_reserve ws.length
  have room := kept.room_values tight fits
  refine ⟨_, n.appendValues_eq count, ?_⟩
  -- both store as many words after the same growth
  rw [NumBuilder.foldl_appendSlot, ← held.store_reserve h.tight (length.trans count), length]
  have together : Holds (num _) _ := .num (kept.store count (count ▸ fits))
  have single : Holds (num _) _ := .num (kept.store (length.trans count) (count ▸ fits))
  refine ⟨rfl, ?_, _, together.reads_iff.2 ⟨Contents.complete_num _ _ _, rfl⟩,
    single.reads_iff.2 ⟨Contents.complete_num _ _ _, Contents.slots_masked held.count⟩⟩
  rw [NumBuilder.store, NumBuilder.store, GrowBuffer.append_of_room, GrowBuffer.append_of_room]
  · simp only [GrowBuffer.capacity, Bytes.size_overwrite]
  · rw [Bytes.size_wordBytes, length]
    exact room
  · rw [Bytes.size_wordBytes]
    exact room

/-- **Numbers appended together or one by one.**  Of every builder of numbers in a tree that is
reached, by whatever calls: appending words together leaves exactly what appending them one by one
leaves, with the same bytes and capacities everywhere, spare ones included.  Appending words with
validities leaves the same slots and as much memory as appending a word or a null for each of them,
and reads the same. -/
theorem bulk_appends (h : Reached (fun _ _ => True) b) :
    b.EachNum fun n =>
      (∀ words, n.appendSlice words = words.foldl NumBuilder.appendValue n) ∧
      ∀ words valid, words.length = valid.length →
        ∃ n', n.appendValues words valid = .ok n' ∧
          n'.Agrees ((words.zip valid).foldl NumBuilder.appendSlot n) := by
  refine h.compact.imp fun n compact => ?_
  exact ⟨compact.appendSlice_eq_foldl, fun _ _ count => agrees_appendValues compact count⟩

/-- The numbers of lists, in a builder with room for 40 of them that is outgrown. -/
theorem bulk_appends_outgrown :
    ∃ (spans : Spans) (n n' : NumBuilder),
      (make true (.list (.num (.int .int32))) >>= (·.run [⟨[0], .resize 40⟩, ⟨[0], .appendNull⟩])) =
        .ok (.list spans (.num n)) ∧
      n.slots.capacity = 40 ∧
      n.appendSlice (List.range 40) = (List.range 40).foldl NumBuilder.appendValue n ∧
      (n.appendSlice (List.range 40)).slots.capacity = 64 ∧
      n.appendValues [7, 8, 9] [true, false, true] = .ok n' ∧
      n'.Agrees (((n.appendValue 7).appendNull).appendValue 9) := by
  have made : make true (.list (.num (.int .int32))) = .ok _ := rfl
  have ran : (ofValues true (.num (.empty (.int .int32) true))).run
      [⟨[0], .resize 40⟩, ⟨[0], .appendNull⟩] = .ok _ := rfl
  have below := (bulk_appends ((Reached.make made).run ran)).child (List.mem_singleton_self _)
  obtain ⟨slices, values⟩ := below.here
  obtain ⟨n', appended, agrees⟩ := values [7, 8, 9] [true, false, true] rfl
  exact ⟨_, _, n', ran, rfl, slices _, rfl, appended, agrees⟩

end Builder

end Columnar
