import Columnar.Proofs.Values

/-!
# Views of accepted columns

An accepted column can be viewed (`View.ofColumn_ok`), and its view gives for every slot the value
that the buffers tell (`View.value_eq`), however deeply the column is nested.  The rows behind a
list slot are reached through a slice of the child, so this rests on slices being windows.

`View.Shows` tells how the view of a column of each type is put together.
-/

namespace Columnar

namespace View

variable {c d s : Column} {v u w : View} {i n : Nat}

/-! ### The shape of a view -/

theorem ofColumn_eq (c : Column) :
    ofColumn c =
      match c.type with
      | .null => .ok (.null c)
      | .bool =>
        match c.buffer? 1 with
        | some b => do return .bool c (← Mask.make b.bytes c.offset c.len)
        | none => Misuse.valueBitmapAbsent.stop
      | .num t => ofNumbers t c
      | .utf8 => .ok (.utf8 c)
      | .binary => .ok (.binary c)
      | .list _ => do return .list c (← ofOnly .listChild c.children)
      | .fixedList size _ => do return .fixedList c size (← ofOnly .fixedListChild c.children)
      | .struct _ => do return .struct c (← ofEach c.children)
      | .map key value _ => do
        match ← ofOnly .listChild c.children with
        | .struct entries [keys, items] =>
          return .map c (.list (.entries key value)) entries keys items
        | _ => Misuse.mapChild.stop
      | .dictionary index _ _ => do
        let dictionary ← ofDictionary c.dictionary
        return .dictionary c (← ofNumbers (.int index) (indexColumn c index)) dictionary := by
  obtain ⟨type, len, offset, nulls, buffers, children, dictionary⟩ := c
  cases type <;> rfl

theorem ofOnly_eq_ok {m : Misuse} {cs : List Column} (h : ofOnly m cs = .ok v) :
    ∃ d, cs = [d] ∧ ofColumn d = .ok v := by
  rcases cs with - | ⟨d, - | ⟨e, es⟩⟩
  · cases h
  · exact ⟨d, rfl, h⟩
  · cases h

theorem ofEach_eq_ok {cs : List Column} {vs : List View} (h : ofEach cs = .ok vs) :
    List.Forall₂ (fun d u => ofColumn d = .ok u) cs vs := by
  induction cs generalizing vs with
  | nil =>
    cases h
    exact .nil
  | cons c cs ih =>
    rw [ofEach, bind_eq_ok] at h
    obtain ⟨u, first, h⟩ := h
    rw [bind_eq_ok] at h
    obtain ⟨us, rest, h⟩ := h
    cases h
    exact .cons first (ih rest)

theorem ofNumbers_eq_ok {t : NumType} (h : ofNumbers t c = .ok v) : v = .num t c := by
  rw [ofNumbers] at h
  split_ifs at h
  · cases h
    rfl
  · cases h

/-- How the view of a column is put together. -/
inductive Shows (c : Column) : View → Prop where
  | null (ht : c.type = .null) : Shows c (.null c)
  | bool {b : Buffer} {m : Mask} (ht : c.type = .bool) (hb : c.buffer? 1 = some b)
      (hm : Mask.make b.bytes c.offset c.len = .ok m) : Shows c (.bool c m)
  | num {t : NumType} (ht : c.type = .num t) : Shows c (.num t c)
  | utf8 (ht : c.type = .utf8) : Shows c (.utf8 c)
  | binary (ht : c.type = .binary) : Shows c (.binary c)
  | list {elem : DataType} {d : Column} {u : View} (ht : c.type = .list elem)
      (hc : c.children = [d]) (hu : ofColumn d = .ok u) : Shows c (.list c u)
  | fixedList {size : Nat} {elem : DataType} {d : Column} {u : View}
      (ht : c.type = .fixedList size elem) (hc : c.children = [d]) (hu : ofColumn d = .ok u) :
      Shows c (.fixedList c size u)
  | struct {fields : List Field} {us : List View} (ht : c.type = .struct fields)
      (hus : List.Forall₂ (fun d u => ofColumn d = .ok u) c.children us) : Shows c (.struct c us)
  | map {key value : DataType} {sorted : Bool} {d entries : Column} {keys items : View}
      (ht : c.type = .map key value sorted) (hc : c.children = [d])
      (hu : ofColumn d = .ok (.struct entries [keys, items])) :
      Shows c (.map c (.list (.entries key value)) entries keys items)
  | dictionary {index : IntType} {value : DataType} {sorted : Bool} {d : Column} {u : View}
      (ht : c.type = .dictionary index value sorted) (hd : c.dictionary = some d)
      (hu : ofColumn d = .ok u) :
      Shows c (.dictionary c (.num (.int index) (indexColumn c index)) u)

theorem shows_of_ofColumn (h : ofColumn c = .ok v) : Shows c v := by
  rw [ofColumn_eq] at h
  cases ht : c.type <;> simp only [ht] at h
  case null => cases h; exact .null ht
  case utf8 => cases h; exact .utf8 ht
  case binary => cases h; exact .binary ht
  case num => rw [ofNumbers_eq_ok h]; exact .num ht
  case bool =>
    cases hb : c.buffer? 1 <;> simp only [hb] at h
    · cases h
    · obtain ⟨m, hm, h⟩ := bind_eq_ok.1 h
      cases h
      exact .bool ht hb hm
  case list =>
    obtain ⟨u, hu, h⟩ := bind_eq_ok.1 h
    obtain ⟨d, hc, hu⟩ := ofOnly_eq_ok hu
    cases h
    exact .list ht hc hu
  case fixedList =>
    obtain ⟨u, hu, h⟩ := bind_eq_ok.1 h
    obtain ⟨d, hc, hu⟩ := ofOnly_eq_ok hu
    cases h
    exact .fixedList ht hc hu
  case struct =>
    obtain ⟨us, hus, h⟩ := bind_eq_ok.1 h
    cases h
    exact .struct ht (ofEach_eq_ok hus)
  case map =>
    obtain ⟨u, hu, h⟩ := bind_eq_ok.1 h
    obtain ⟨d, hc, hu⟩ := ofOnly_eq_ok hu
    -- only a struct of two columns is taken for the entries
    split at h
    · cases h
      exact .map ht hc hu
    · cases h
  case dictionary =>
    obtain ⟨u, hu, h⟩ := bind_eq_ok.1 h
    obtain ⟨k, hk, h⟩ := bind_eq_ok.1 h
    cases hd : c.dictionary <;> rw [hd] at hu
    · cases hu
    · cases h
      rw [ofNumbers_eq_ok hk]
      exact .dictionary ht hd hu

/-- A view shows the column that it was made of. -/
theorem data_eq (h : ofColumn c = .ok v) : v.data = c := by
  cases shows_of_ofColumn h <;> rfl

theorem struct_eq {us : List View} (h : ofColumn c = .ok (.struct d us)) : d = c := data_eq h

/-! ### Accepted columns have views -/

/-- The columns of the entries of a map. -/
theorem entries_children {key value : DataType} (h : d.Coherent)
    (ht : d.type = .entries key value) :
    ∃ k x, d.children = [k, x] ∧ k.len = d.len ∧ x.len = d.len := by
  have fit := h.children
  simp only [Column.ChildrenFit, ht, DataType.entries] at fit
  obtain ⟨types, lengths⟩ := fit
  obtain ⟨k, x, hc⟩ : ∃ k x, d.children = [k, x] :=
    List.length_eq_two.1 (by simpa using congrArg List.length types)
  exact ⟨k, x, hc, lengths k (by simp [hc]), lengths x (by simp [hc])⟩

/-- The entries of a map are viewed as their two columns. -/
theorem entries_view {key value : DataType} (h : d.Coherent) (ht : d.type = .entries key value)
    (hu : ofColumn d = .ok u) :
    ∃ k x keys items, d.children = [k, x] ∧ (k.len = d.len ∧ x.len = d.len) ∧
      ofColumn k = .ok keys ∧ ofColumn x = .ok items ∧ u = .struct d [keys, items] := by
  obtain ⟨k, x, hc, lengths⟩ := entries_children h ht
  rw [ofColumn_eq, ht, hc] at hu
  obtain ⟨us, hus, made⟩ := bind_eq_ok.1 hu
  cases made
  cases ofEach_eq_ok hus with
  | cons hk rest =>
    cases rest with
    | cons hx none =>
      cases none
      exact ⟨k, x, _, _, hc, lengths, hk, hx, rfl⟩

theorem ofNumbers_ok {t : NumType} {b : Buffer} (hb : c.buffer? 1 = some b) :
    ofNumbers t c = .ok (.num t c) := by
  rw [ofNumbers, hb]
  rfl

mutual

/-- **An accepted column has a view.** -/
theorem ofColumn_ok : (c : Column) → c.Everywhere Column.Accepted → ∃ v, ofColumn c = .ok v
  | ⟨type, len, offset, nulls, buffers, children, values⟩, h => by
    have node := h.here
    have fit := node.children
    have below : ∀ d ∈ children, d.Everywhere Column.Accepted := fun d hd => h.child hd
    rw [ofColumn_eq]
    cases type with
    | null | utf8 | binary => exact ⟨_, rfl⟩
    | bool =>
      obtain ⟨b, hb, covers⟩ := node.buffers.bits rfl
      have made := Column.mask_eq covers
      exact ⟨_, by simp only [hb, made]; rfl⟩
    | num t =>
      obtain ⟨b, hb, -⟩ := node.buffers.numbers rfl
      exact ⟨_, ofNumbers_ok hb⟩
    | list elem =>
      obtain ⟨d, hc, -⟩ := fit
      obtain ⟨u, hu⟩ := ofOnly_ok .listChild children ⟨d, hc⟩ below
      exact ⟨_, by simp only [hu]; rfl⟩
    | fixedList size elem =>
      obtain ⟨d, hc, -⟩ := fit
      obtain ⟨u, hu⟩ := ofOnly_ok .fixedListChild children ⟨d, hc⟩ below
      exact ⟨_, by simp only [hu]; rfl⟩
    | struct fields =>
      obtain ⟨us, hus⟩ := ofEach_ok children below
      exact ⟨_, by simp only [hus]; rfl⟩
    | map key value sorted =>
      obtain ⟨d, hc, typed, -⟩ := fit
      obtain ⟨u, hu⟩ := ofOnly_ok .listChild children ⟨d, hc⟩ below
      obtain ⟨d', hc', hd⟩ := ofOnly_eq_ok hu
      cases hc.symm.trans hc'
      obtain ⟨-, -, keys, items, -, -, -, -, rfl⟩ :=
        entries_view (below d (by simp [hc'])).here.toCoherent typed hd
      exact ⟨_, by simp only [hu]; rfl⟩
    | dictionary index value sorted =>
      obtain ⟨-, d, hd, -⟩ := node.dictionary
      obtain ⟨u, hu⟩ := ofDictionary_ok values ⟨d, hd⟩ fun d hd => h.entry hd
      obtain ⟨b, hb, -⟩ := node.buffers.indices rfl
      have numbers : ofNumbers (.int index) (indexColumn ⟨.dictionary index value sorted, len,
          offset, nulls, buffers, children, values⟩ index) = .ok (.num (.int index) _) :=
        ofNumbers_ok hb
      exact ⟨_, by simp only [hu, ok_bind, numbers]; rfl⟩

theorem ofOnly_ok (m : Misuse) : (cs : List Column) → (∃ d, cs = [d]) →
    (∀ d ∈ cs, d.Everywhere Column.Accepted) → ∃ v, ofOnly m cs = .ok v
  | [d], _, h => ofColumn_ok d (h d (by simp))
  | [], only, _ => by simp at only
  | _ :: _ :: _, only, _ => by simp at only

theorem ofEach_ok : (cs : List Column) → (∀ d ∈ cs, d.Everywhere Column.Accepted) →
    ∃ vs, ofEach cs = .ok vs
  | [], _ => ⟨[], rfl⟩
  | c :: cs, h => by
    obtain ⟨v, hv⟩ := ofColumn_ok c (h c (by simp))
    obtain ⟨vs, hvs⟩ := ofEach_ok cs fun d hd => h d (by simp [hd])
    exact ⟨v :: vs, by rw [ofEach, hv, ok_bind, hvs]; rfl⟩

theorem ofDictionary_ok : (dictionary : Option Column) → (∃ d, dictionary = some d) →
    (∀ d, dictionary = some d → d.Everywhere Column.Accepted) → ∃ v, ofDictionary dictionary = .ok v
  | some d, _, h => ofColumn_ok d (h d rfl)
  | none, present, _ => by simp at present

end

/-! ### Collecting slots -/

theorem collect_eq {α : Type} {f : Nat → Except Fault α} {g : Nat → α} (n : Nat) {i : Nat}
    {out : Array α} (h : ∀ k, i ≤ k → k < i + n → f k = .ok (g k)) :
    collect f i out n = .ok (out.toList ++ (List.range' i n).map g) := by
  induction n generalizing i out with
  | zero => rw [collect, List.range'_zero, List.map_nil, List.append_nil]
  | succ n ih =>
    rw [collect, h i (Nat.le_refl i) (by omega), ok_bind,
      ih fun k h1 h2 => h k (by omega) (by omega)]
    simp [List.range'_succ]

theorem collect_range {α : Type} {f : Nat → Except Fault α} {g : Nat → α}
    (h : ∀ k, k < n → f k = .ok (g k)) : collect f 0 #[] n = .ok ((List.range n).map g) := by
  rw [collect_eq n fun k _ hk => h k (by omega), List.range_eq_range']
  rfl

theorem isNull_eq (h : c.BuffersFit) (hv : ofColumn c = .ok v) (hi : i < c.len) :
    v.isNull i = .ok (c.nullAt i) := by
  rw [isNull, data_eq hv, Column.isNull_eq h hi]

theorem unlessNull_eq (h : c.BuffersFit) (hv : ofColumn c = .ok v) (hi : i < c.len)
    {value : Unit → Except Fault Value} {x : Value} (hx : value () = .ok x) :
    v.unlessNull i value = .ok (c.orNull i x) := by
  rw [unlessNull, isNull_eq h hv hi, ok_bind, Column.orNull]
  cases c.nullAt i
  · exact hx
  · rfl

theorem checkRun_eq (h : c.BuffersFit) (hv : ofColumn c = .ok v) : v.checkRun = .ok () := by
  cases shows_of_ofColumn hv with
  | num ht =>
    rename_i t
    obtain ⟨b, hb, covers⟩ := h.numbers ht
    rw [checkRun, Column.values_eq t.width_pos hb covers]
    rfl
  | _ => rfl

theorem collectSlots_eq (h : c.BuffersFit) (hv : ofColumn c = .ok v)
    {slot : Nat → Except Fault Value} {g : Nat → Value} (hs : ∀ k, k < c.len → slot k = .ok (g k)) :
    v.collectSlots slot = .ok ((List.range c.len).map g) := by
  rw [collectSlots, checkRun_eq h hv, ok_bind, len, data_eq hv]
  exact collect_range hs

theorem mapM_slots {f : View → Except Fault Value} {ds : List Column} {us : List View}
    (hus : List.Forall₂ (fun d u => ofColumn d = .ok u) ds us)
    (hf : ∀ d ∈ ds, ∀ u, ofColumn d = .ok u → f u = .ok (d.slotAt i)) :
    us.mapM f = .ok (Column.slotOfEach ds i) := by
  induction hus with
  | nil => rfl
  | cons hu _ ih =>
    rw [List.mapM_cons, hf _ (by simp) _ hu, ok_bind, ih fun d hd => hf d (by simp [hd])]
    rfl

/-! ### Windows of rows -/

/-- A window of an accepted column can be viewed. -/
theorem slice_ok (h : d.Everywhere Column.Accepted) {start : Nat} (fits : start + n ≤ d.len) :
    ∃ s w, d.slice start n = .ok s ∧ ofColumn s = .ok w ∧ s.Everywhere Column.Accepted := by
  obtain ⟨s, hs, valid⟩ := Column.slice_accepted d h fits
  obtain ⟨w, hw⟩ := ofColumn_ok s valid
  exact ⟨s, w, hs, hw, valid⟩

/-- The rows of a slot of a list or a map can be sliced out of the child and viewed. -/
theorem listRows_ok (h : c.Everywhere Column.Accepted) {elem : DataType}
    (ht : c.type.rowType? = some elem) (hc : c.children = [d]) (hi : i < c.len) :
    ∃ s w, d.slice (c.firstRow i) (c.rowCount i) = .ok s ∧ ofColumn s = .ok w ∧
      s.Everywhere Column.Accepted := by
  obtain ⟨d', hc', -, room⟩ := h.here.toCoherent.listChild ht
  obtain rfl := List.singleton_inj.1 (hc.symm.trans hc')
  exact slice_ok (h.only hc) (room i hi)

/-- The same for a fixed-size list. -/
theorem fixedRows_ok (h : c.Everywhere Column.Accepted) {size : Nat} {elem : DataType}
    (ht : c.type = .fixedList size elem) (hc : c.children = [d]) (hi : i < c.len) :
    ∃ s w, d.slice ((c.offset + i) * size) size = .ok s ∧ ofColumn s = .ok w ∧
      s.Everywhere Column.Accepted := by
  obtain ⟨d', hc', -, room⟩ := h.here.toCoherent.fixedChild ht
  obtain rfl := List.singleton_inj.1 (hc.symm.trans hc')
  exact slice_ok (h.only hc) (room i hi)

theorem window_list (h : c.Coherent) (ho : c.type.hasOffsets = true) (hu : ofColumn d = .ok u)
    (hi : i < c.len) (hs : d.slice (c.firstRow i) (c.rowCount i) = .ok s) :
    (View.list c u).window i = ofColumn s := by
  rw [window, h.rowsOf_eq ho hi, ok_bind]
  simp only
  rw [View.slice, data_eq hu, hs, ok_bind]

theorem window_map (h : c.Coherent) (ho : c.type.hasOffsets = true) {t : DataType}
    {keys items : View} (hi : i < c.len)
    (hs : d.slice (c.firstRow i) (c.rowCount i) = .ok s) :
    (View.map c t d keys items).window i = ofColumn s := by
  rw [window, h.rowsOf_eq ho hi, ok_bind]
  simp only
  rw [hs, ok_bind]

theorem window_fixedList {size : Nat} (hu : ofColumn d = .ok u) (hi : i < c.len)
    (hs : d.slice ((c.offset + i) * size) size = .ok s) :
    (View.fixedList c size u).window i = ofColumn s := by
  rw [window, Column.checkSlot, if_pos hi, ok_bind, View.slice, data_eq hu, hs, ok_bind]

/-- The value bit in a slot. -/
theorem mask_get (h : c.BuffersFit) (ht : c.type = .bool) {b : Buffer} {m : Mask}
    (hb : c.buffer? 1 = some b) (hm : Mask.make b.bytes c.offset c.len = .ok m) (hi : i < c.len) :
    m.get i = .ok (c.bitAt i) := by
  obtain ⟨b', hb', covers⟩ := h.bits ht
  obtain rfl := Option.some.inj (hb.symm.trans hb')
  obtain rfl := Except.ok.inj ((Column.mask_eq covers).symm.trans hm)
  have inside : c.offset + i < 8 * b.bytes.size := Nat.lt_of_lt_of_le (by omega) covers
  rw [Mask.get, if_pos hi, Sizes.fit_unbounded, Bytes.bit_eq inside, Column.bitAt, hb]

/-- The dictionary position in a slot. -/
theorem key_eq (h : c.Coherent) {index : IntType} {value : DataType} {sorted : Bool}
    (ht : c.type = .dictionary index value sorted) (hd : c.dictionary = some d)
    (hv : ofColumn c = .ok v) (hi : i < c.len) :
    v.key i = .ok (if c.nullAt i then none else some (c.indexAt index i).toNat) := by
  rw [key, isNull_eq h.buffers hv hi, ok_bind, data_eq hv]
  cases valid : c.nullAt i with
  | true => rfl
  | false =>
    obtain ⟨at_key, -⟩ := h.keyAt_eq ht hd hi valid
    rw [at_key]
    rfl

/-! ### Values -/

/-- Reading through so many levels finds what the buffers tell. -/
def ReadsWithin (depth : Nat) : Prop :=
  ∀ {c : Column} {v : View}, c.Everywhere Column.Accepted → c.height ≤ depth → ofColumn c = .ok v →
    ∀ i, i < c.len → valueWithin depth v i = .ok (c.valueAt i)

namespace ReadsWithin

variable {depth : Nat} (ih : ReadsWithin depth)
include ih

theorem slot (h : d.Everywhere Column.Accepted) (low : d.height ≤ depth) (hu : ofColumn d = .ok u)
    (k : Nat) (hk : k < d.len) :
    (u.unlessNull k fun _ => valueWithin depth u k) = .ok (d.slotAt k) :=
  unlessNull_eq h.here.buffers hu hk (ih h low hu k hk)

/-- The rows behind a slot are those of a slice, which is as high as the child. -/
theorem rows {start : Nat} (low : d.height ≤ depth) (hs : d.slice start n = .ok s)
    (hw : ofColumn s = .ok w) (h : s.Everywhere Column.Accepted) :
    w.collectSlots (fun k => w.unlessNull k fun _ => valueWithin depth w k) =
      .ok ((List.range n).map fun k => d.slotAt (start + k)) := by
  have count : s.len = n := (Column.isWindow_of_slice hs).len
  have slots : s.slotAt = fun k => d.slotAt (start + k) := by
    funext k
    exact Column.slotAt_slice hs
  rw [collectSlots_eq h.here.buffers hw (ih.slot h (Column.height_slice d hs ▸ low) hw), count,
    slots]

/-- The entries behind a slot of a map, as pairs. -/
theorem pairs {start : Nat} {key value : DataType} (low : d.height ≤ depth)
    (ht : d.type = .entries key value) (hs : d.slice start n = .ok s) (hw : ofColumn s = .ok w)
    (h : s.Everywhere Column.Accepted) :
    ∃ keys items, w.columns = [keys, items] ∧
      collect (fun j => do
        return (← keys.unlessNull j fun _ => valueWithin depth keys j,
          ← items.unlessNull j fun _ => valueWithin depth items j)) 0 #[] w.len =
        .ok ((List.range n).map fun k => (d.valueAt (start + k)).pair) := by
  -- the slice of the entries is a struct again, of slices of the keys and the items
  have window := Column.isWindow_of_slice hs
  obtain ⟨k, x, keys, items, hc, lengths, hk, hx, rfl⟩ :=
    entries_view h.here.toCoherent (window.type.trans ht) hw
  have lower : ∀ e ∈ s.children, e.height ≤ depth := fun e he => by
    have below := Column.height_child he
    rw [Column.height_slice d hs] at below
    omega
  have first := ih.slot (h.child (by simp [hc])) (lower k (by simp [hc])) hk
  have second := ih.slot (h.child (by simp [hc])) (lower x (by simp [hc])) hx
  have pair : (fun j => (k.slotAt j, x.slotAt j)) = fun j => (d.valueAt (start + j)).pair := by
    funext j
    rw [← Column.valueAt_slice d hs, Column.valueAt_eq s, window.type, ht, hc]
    rfl
  have count : (View.struct s [keys, items]).len = n := window.len
  refine ⟨keys, items, rfl, ?_⟩
  rw [count, ← pair]
  apply collect_range
  intro j hj
  rw [first j (by rw [lengths.1, window.len]; exact hj), ok_bind,
    second j (by rw [lengths.2, window.len]; exact hj), ok_bind]
  rfl

/-- One level more. -/
theorem succ : ReadsWithin (depth + 1) := by
  intro c v h low hv i hi
  have node := h.here.toCoherent
  rw [Column.valueAt_eq]
  cases shows_of_ofColumn hv with
  | null ht => rw [valueWithin, ht]
  | bool ht hb hm =>
    rw [valueWithin, ht, mask_get node.buffers ht hb hm hi]
    rfl
  | num ht =>
    rename_i t
    obtain ⟨b, hb, covers⟩ := node.buffers.numbers ht
    rw [valueWithin, ht, Column.wordOf_eq hb covers hi]
    rfl
  | utf8 ht =>
    rw [valueWithin, ht, node.bytesOf_eq (.inl ht) hi]
    rfl
  | binary ht =>
    rw [valueWithin, ht, node.bytesOf_eq (.inr ht) hi]
    rfl
  | list ht hc hu =>
    have below := Column.height_only hc
    obtain ⟨s, w, hs, hw, valid⟩ := listRows_ok h (by rw [ht]; rfl) hc hi
    rw [valueWithin, window_list node (by rw [ht]; rfl) hu hi hs, hw, ok_bind,
      ih.rows (by omega) hs hw valid, ht, hc]
    rfl
  | fixedList ht hc hu =>
    have below := Column.height_only hc
    obtain ⟨s, w, hs, hw, valid⟩ := fixedRows_ok h ht hc hi
    rw [valueWithin, window_fixedList hu hi hs, hw, ok_bind,
      ih.rows (by omega) hs hw valid, ht, hc]
    rfl
  | struct ht hus =>
    have columns := mapM_slots (i := i) hus fun d hd u hu => by
      have below := Column.height_child hd
      -- the columns have a row for every slot
      have row : i < d.len := by rwa [node.columns_len (by rw [ht]; rfl) hd]
      exact ih.slot (h.child hd) (by omega) hu i row
    rw [valueWithin, ht, columns]
    rfl
  | map ht hc hu =>
    obtain rfl := struct_eq hu
    have below := Column.height_only hc
    have typed := node.mapChild ht hc
    obtain ⟨s, w, hs, hw, valid⟩ := listRows_ok h (by rw [ht]; rfl) hc hi
    obtain ⟨keys, items, columns, collected⟩ := ih.pairs (by omega) typed hs hw valid
    rw [valueWithin, window_map node (by rw [ht]; rfl) hi hs, hw, ok_bind, columns]
    simp only
    rw [collected, ht, hc]
    rfl
  | dictionary ht hd hu =>
    rw [valueWithin, key_eq node ht hd hv hi, ok_bind, ht, hd]
    by_cases valid : c.nullAt i = true
    · -- a null slot has no position to look up
      simp only [Column.orNull, valid, if_true]
      rfl
    · have inside := (node.keyAt_eq ht hd hi (Bool.eq_false_iff.2 valid)).2
      have below := Column.height_entry hd
      have entry := ih.slot (h.entry hd) (by omega) hu _ inside
      simp only [Column.orNull, if_neg valid]
      rw [entry]
      rfl

end ReadsWithin

theorem readsWithin (depth : Nat) : ReadsWithin depth := by
  induction depth with
  | zero =>
    -- no column is that low
    intro c v _ low
    rw [Column.height_eq] at low
    omega
  | succ depth ih => exact ih.succ

/-- **A view reads in every slot what the buffers tell**, and reading does not fail. -/
theorem value_eq (h : c.Everywhere Column.Accepted) (hv : ofColumn c = .ok v) (hi : i < c.len) :
    v.value i = .ok (c.valueAt i) := by
  rw [value, data_eq hv]
  exact readsWithin c.height h (Nat.le_refl _) hv i hi

theorem slot_eq (h : c.Everywhere Column.Accepted) (hv : ofColumn c = .ok v) (hi : i < c.len) :
    v.slot i = .ok (c.slotAt i) :=
  unlessNull_eq h.here.buffers hv hi (value_eq h hv hi)

theorem slots_eq (h : c.Everywhere Column.Accepted) (hv : ofColumn c = .ok v) :
    v.slots = .ok ((List.range c.len).map c.slotAt) :=
  collectSlots_eq h.here.buffers hv fun _ hk => slot_eq h hv hk

example : (do (← ofColumn Column.specimen).slots) =
    .ok [.list [.entry 1 (.text #[195, 169]), .null], .null] := rfl

end View

end Columnar
