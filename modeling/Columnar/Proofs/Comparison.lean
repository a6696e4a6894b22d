import Columnar.Proofs.Sound
import Columnar.Proofs.Rows
import Columnar.Workspace.Held

/-!
# Equality of columns decides equality of rows

`Column.rangeEqual` compares two accepted columns of one type slot by slot, or as one run of bytes
where neither has nulls.  Either way it gives an answer, and the answer is yes exactly where the
rows are the same.

`Column.rangeEqual_step` takes the comparison of children and dictionaries for granted and treats
each type on its own; `Column.rangeEqual_answers` puts this together by recursion over the left
column.
-/

namespace Columnar

namespace Column

variable {c l r : Column} {i j n : Nat}

/-! ### Slot by slot -/

/-- The comparison of the `n` slots of `l` from `i` on with those of `r` from `j` on. -/
def eachSlot (l r : Column) (i j n : Nat) (valuesEqual : Nat → Nat → Except Fault Bool) :
    Except Fault Bool :=
  allFrom (fun k => slotsEqual l r (i + k) (j + k) fun _ => valuesEqual (i + k) (j + k)) 0 n

theorem rangeEqual_eq (l r : Column) (i j n : Nat) :
    rangeEqual l r i j n =
      if n = 0 then .ok true
      else match l.type with
      | .null => .ok true
      | .bool => eachSlot l r i j n fun i j => do
        return (← l.valueBit i) == (← r.valueBit j)
      | .num t =>
        if l.nulls = 0 ∧ r.nulls = 0 then do
          return (← l.valueRun i n t.width) == (← r.valueRun j n t.width)
        else eachSlot l r i j n fun i j => do
          return (← l.valueRun i 1 t.width) == (← r.valueRun j 1 t.width)
      | .utf8 | .binary => eachSlot l r i j n fun i j => do
        return (← l.slotBytes i) == (← r.slotBytes j)
      | .list _ | .map _ _ _ => eachSlot l r i j n fun i j => do
        let (start, stop) ← l.span i
        let (start', stop') ← r.span j
        if stop - start = stop' - start' then
          firstEqual l.children r.children start start' (stop - start)
        else return false
      | .fixedList size _ => eachSlot l r i j n fun i j =>
        firstEqual l.children r.children ((l.offset + i) * size) ((r.offset + j) * size) size
      | .struct _ => eachSlot l r i j n fun i j => rowEqual l.children r.children i j
      | .dictionary _ _ _ => eachSlot l r i j n fun i j => entryEqual l r l.dictionary i j := by
  obtain ⟨type, len, offset, nulls, buffers, children, dictionary⟩ := l
  cases type <;> rfl

theorem slotsEqual_answers (hl : l.BuffersFit) (hr : r.BuffersFit) (hi : i < l.len) (hj : j < r.len)
    {valuesEqual : Unit → Except Fault Bool}
    (hv : l.nullAt i = false → r.nullAt j = false →
      Answers (valuesEqual ()) (l.content i = r.content j)) :
    Answers (slotsEqual l r i j valuesEqual) (l.row i = r.row j) := by
  rw [slotsEqual, isNull_eq hl hi, ok_bind, isNull_eq hr hj, ok_bind, row_eq_iff]
  cases left : l.nullAt i <;> cases right : r.nullAt j
  · exact (hv left right).congr (by simp)
  · exact .no (by simp)
  · exact .no (by simp)
  · exact .yes (by simp)

theorem eachSlot_answers (hl : l.BuffersFit) (hr : r.BuffersFit) (hi : i + n ≤ l.len)
    (hj : j + n ≤ r.len) {valuesEqual : Nat → Nat → Except Fault Bool}
    (hv : ∀ a b, a < l.len → b < r.len → l.nullAt a = false → r.nullAt b = false →
      Answers (valuesEqual a b) (l.content a = r.content b)) :
    Answers (eachSlot l r i j n valuesEqual) (∀ k, k < n → l.row (i + k) = r.row (j + k)) := by
  refine (allFrom_answers n (P := fun k => l.row (i + k) = r.row (j + k)) ?_).congr ?_
  · intro k _ hk
    exact slotsEqual_answers hl hr (by omega) (by omega)
      (hv (i + k) (j + k) (by omega) (by omega))
  · exact ⟨fun all k hk => all k (Nat.zero_le k) (by omega), fun all k _ hk => all k (by omega)⟩

/-! ### Runs of words -/

theorem valueRun_eq {b : Buffer} {width : Nat} (hb : c.buffer? 1 = some b)
    (covers : (c.offset + i + n) * width ≤ b.size) :
    c.valueRun i n width =
      .ok (b.bytes.extract ((c.offset + i) * width) ((c.offset + i + n) * width)) := by
  have ordered : (c.offset + i) * width ≤ (c.offset + i + n) * width :=
    Nat.mul_le_mul_right width (by omega)
  rw [valueRun, hb]
  simp only
  rw [← Nat.add_mul]
  exact Bytes.window_eq ordered covers

/-- Runs of words are compared at once. -/
theorem valueRun_answers {t : NumType} (hl : l.BuffersFit) (hr : r.BuffersFit)
    (htl : l.type = .num t) (htr : r.type = .num t) (hi : i + n ≤ l.len) (hj : j + n ≤ r.len) :
    Answers (do return (← l.valueRun i n t.width) == (← r.valueRun j n t.width))
      (∀ k, k < n → l.content (i + k) = r.content (j + k)) := by
  obtain ⟨b, hb, covers⟩ := hl.numbers htl
  obtain ⟨b', hb', covers'⟩ := hr.numbers htr
  have inside : (l.offset + i + n) * t.width ≤ b.bytes.size :=
    Nat.le_trans (Nat.mul_le_mul_right _ (by omega)) covers
  have inside' : (r.offset + j + n) * t.width ≤ b'.bytes.size :=
    Nat.le_trans (Nat.mul_le_mul_right _ (by omega)) covers'
  refine (Answers.eq (valueRun_eq hb inside) (valueRun_eq hb' inside')).congr ?_
  rw [Bytes.extract_eq_iff inside inside']
  refine forall₂_congr ?_
  intro k _
  rw [content_eq l, content_eq r, htl, htr]
  simp only [Row.word.injEq]
  rw [wordAt_of_some hb, wordAt_of_some hb', Nat.add_assoc, Nat.add_assoc]

/-! ### One type at a time -/

/-- Children of two columns compare as their rows do. -/
def ChildrenAnswer (ls rs : List Column) : Prop :=
  (∀ {d e : Column}, ls = [d] → rs = [e] → d.type = e.type → ∀ {i j n : Nat}, i + n ≤ d.len →
    j + n ≤ e.len → Answers (firstEqual ls rs i j n) (firstRows ls i n = firstRows rs j n)) ∧
  (ls.map Column.type = rs.map Column.type → ∀ {i j : Nat}, (∀ d ∈ ls, i < d.len) →
    (∀ e ∈ rs, j < e.len) → Answers (rowEqual ls rs i j) (rowOfEach ls i = rowOfEach rs j))

/-- Dictionary entries of two columns compare as their rows do. -/
def EntriesAnswer (l r : Column) (dictionary : Option Column) : Prop :=
  ∀ {d e : Column}, dictionary = some d → r.dictionary = some e → d.type = e.type →
    ∀ {i j a b : Nat}, l.keyAt (l.offset + i) = .ok a → r.keyAt (r.offset + j) = .ok b →
      a < d.len → b < e.len →
      Answers (entryEqual l r dictionary i j) (entryRow dictionary a = entryRow r.dictionary b)

theorem spans_answer (hl : l.Coherent) (hr : r.Coherent) (ht : l.type = r.type)
    {elem : DataType} (rows : l.type.rowType? = some elem)
    (below : ChildrenAnswer l.children r.children) {a b : Nat} (ha : a < l.len) (hb : b < r.len) :
    Answers (do
      let (start, stop) ← l.span a
      let (start', stop') ← r.span b
      if stop - start = stop' - start' then
        firstEqual l.children r.children start start' (stop - start)
      else return false)
      (firstRows l.children (l.firstRow a) (l.rowCount a) =
        firstRows r.children (r.firstRow b) (r.rowCount b)) := by
  have ho := hasOffsets_of_rowType? rows
  obtain ⟨d, hd, typed, room⟩ := hl.listChild rows
  obtain ⟨e, he, typed', room'⟩ := hr.listChild (ht ▸ rows)
  have inside := room a ha
  have inside' := room' b hb
  rw [hl.span_eq ho ha, ok_bind]
  simp only
  rw [hr.span_eq (ht ▸ ho) hb, ok_bind]
  simp only
  split_ifs with same
  · have count : l.rowCount a = r.rowCount b := same
    rw [← count] at inside' ⊢
    exact below.1 hd he (typed.trans typed'.symm) inside inside'
  · -- lists of different lengths
    refine .no fun rows => same ?_
    rw [hd, he, firstRows_eq_iff] at rows
    exact rows.1

theorem rangeEqual_step (hl : l.Coherent) (hr : r.Coherent) (ht : l.type = r.type)
    (below : ChildrenAnswer l.children r.children) (entries : EntriesAnswer l r l.dictionary)
    (hi : i + n ≤ l.len) (hj : j + n ≤ r.len) :
    Answers (rangeEqual l r i j n) (∀ k, k < n → l.row (i + k) = r.row (j + k)) := by
  rw [rangeEqual_eq]
  by_cases empty : n = 0
  · -- nothing is compared, not even the types
    rw [if_pos empty]
    exact .yes fun k hk => by omega
  rw [if_neg empty]
  have each {valuesEqual : Nat → Nat → Except Fault Bool} :=
    @eachSlot_answers l r i j n hl.buffers hr.buffers hi hj valuesEqual
  have fit := hl.children
  have fit' := hr.children
  cases htl : l.type with
  | null =>
    refine .yes ?_
    intro k _
    rw [row_eq_null_iff.2 (nullAt_of_null htl), row_eq_null_iff.2 (nullAt_of_null (ht ▸ htl))]
  | bool =>
    apply each
    intro a b ha hb _ _
    obtain ⟨v, hv, covers⟩ := hl.buffers.bits htl
    obtain ⟨v', hv', covers'⟩ := hr.buffers.bits (ht ▸ htl)
    refine (Answers.eq (valueBit_eq hv covers ha) (valueBit_eq hv' covers' hb)).congr ?_
    rw [content_eq l, content_eq r, ← ht, htl, Row.bool.injEq]
  | num t =>
    have words := fun {i j n : Nat} => valueRun_answers (t := t) (i := i) (j := j) (n := n)
      hl.buffers hr.buffers htl (ht ▸ htl)
    simp only
    split_ifs with noNulls
    · -- without nulls, a row is its word
      refine (words hi hj).congr (forall₂_congr ?_)
      intro k hk
      have valid := nullAt_of_nulls hl.nulls noNulls.1 (i := i + k) (by omega)
      have valid' := nullAt_of_nulls hr.nulls noNulls.2 (i := j + k) (by omega)
      simp [row_eq_iff, valid, valid']
    · apply each
      intro a b ha hb _ _
      refine (words (n := 1) ha hb).congr ?_
      constructor
      · intro all
        exact all 0 (by omega)
      · intro same k hk
        rw [Nat.lt_one_iff.1 hk]
        exact same
  | utf8 | binary =>
    have text : l.type = .utf8 ∨ l.type = .binary := by simp [htl]
    apply each
    intro a b ha hb _ _
    refine (Answers.eq (hl.slotBytes_eq text ha) (hr.slotBytes_eq (ht ▸ text) hb)).congr ?_
    rw [content_eq l, content_eq r, ← ht, htl, Row.bytes.injEq]
  | list | map =>
    apply each
    intro a b ha hb _ _
    refine (spans_answer hl hr ht (by rw [htl]; rfl) below ha hb).congr ?_
    rw [content_eq l, content_eq r, ← ht, htl, Row.list.injEq]
  | fixedList size elem =>
    obtain ⟨d, hd, typed, room⟩ := hl.fixedChild htl
    obtain ⟨e, he, typed', room'⟩ := hr.fixedChild (ht ▸ htl)
    apply each
    intro a b ha hb _ _
    refine (below.1 hd he (typed.trans typed'.symm) (room a ha) (room' b hb)).congr ?_
    rw [content_eq l, content_eq r, ← ht, htl, Row.list.injEq]
  | struct fields =>
    simp only [ChildrenFit, htl] at fit
    simp only [ChildrenFit, ← ht, htl] at fit'
    apply each
    intro a b ha hb _ _
    refine (below.2 (fit.1.trans fit'.1.symm) (fun d hd => by rwa [fit.2 d hd])
      (fun e he => by rwa [fit'.2 e he])).congr ?_
    rw [content_eq l, content_eq r, ← ht, htl, Row.struct.injEq]
  | dictionary index value sorted =>
    have named := hl.dictionary
    have named' := hr.dictionary
    simp only [DictionaryFits, htl] at named
    simp only [DictionaryFits, ← ht, htl] at named'
    obtain ⟨-, d, hd, typed, -⟩ := named
    obtain ⟨-, e, he, typed', -⟩ := named'
    apply each
    intro a b ha hb valid valid'
    -- both slots name an entry, which may itself be null
    obtain ⟨key, inside⟩ := hl.keyAt_eq htl hd ha valid
    obtain ⟨key', inside'⟩ := hr.keyAt_eq (ht ▸ htl) he hb valid'
    refine (entries hd he (typed.trans typed'.symm) key key' inside inside').congr ?_
    rw [content_eq l, content_eq r, ← ht, htl, Row.entry.injEq]

/-! ### Whole columns -/

mutual

/-- **Comparing two accepted columns of one type answers whether the rows are the same.** -/
theorem rangeEqual_answers : (l : Column) → l.Everywhere Accepted → {r : Column} →
    r.Everywhere Accepted → l.type = r.type → {i j n : Nat} → i + n ≤ l.len → j + n ≤ r.len →
    Answers (rangeEqual l r i j n) (∀ k, k < n → l.row (i + k) = r.row (j + k))
  | ⟨_, _, _, _, _, children, dictionary⟩, hl, _, hr, ht, _, _, _, hi, hj =>
    rangeEqual_step hl.here.toCoherent hr.here.toCoherent ht
      (childrenAnswer children (fun _ hd => hl.child hd) fun _ he => hr.child he)
      (entriesAnswer _ _ dictionary (fun _ hd => hl.entry hd) fun _ he => hr.entry he) hi hj

theorem childrenAnswer : (ls : List Column) → (∀ d ∈ ls, d.Everywhere Accepted) →
    {rs : List Column} → (∀ e ∈ rs, e.Everywhere Accepted) → ChildrenAnswer ls rs
  | [], _, rs, _ => by
    constructor
    · intro d e none
      cases none
    · intro types i j _ _
      rw [List.map_eq_nil_iff.1 types.symm]
      exact .yes rfl
  | d :: ds, hl, rs, hr => by
    constructor
    · rintro _ e ⟨⟩ rfl typed i j n hi hj
      refine (rangeEqual_answers d (hl d (by simp)) (hr e (by simp)) typed hi hj).congr ?_
      rw [firstRows_eq_iff]
      simp
    · intro types i j hi hj
      cases rs with
      | nil => cases types
      | cons e es =>
        obtain ⟨typed, rest⟩ := List.cons.inj types
        have first := rangeEqual_answers d (hl d (by simp)) (hr e (by simp)) typed (n := 1)
          (hi d (by simp)) (hj e (by simp))
        have others := (childrenAnswer ds (fun d hd => hl d (by simp [hd]))
          fun e he => hr e (by simp [he])).2 rest (fun d hd => hi d (by simp [hd]))
          fun e he => hj e (by simp [he])
        refine (first.andThen fun _ => others).congr ?_
        rw [rowOfEach, rowOfEach, List.cons.injEq, ← row, ← row]
        simp

theorem entriesAnswer (l r : Column) : (dictionary : Option Column) →
    (∀ d, dictionary = some d → d.Everywhere Accepted) →
    (∀ e, r.dictionary = some e → e.Everywhere Accepted) → EntriesAnswer l r dictionary
  | none, _, _ => fun none => nomatch none
  | some d, hl, hr => by
    intro hd he typed i j a b key key' inside inside'
    obtain rfl := Option.some.inj hd
    have answer := rangeEqual_answers d (hl d rfl) (hr _ he) typed (n := 1) inside inside'
    rw [entryEqual, he]
    simp only
    rw [key, ok_bind, key', ok_bind]
    refine answer.congr ?_
    rw [entryRow, entryRow, ← row, ← row]
    simp

end

theorem nullSlots_eq_of_rows (rows : l.rows = r.rows) : l.nullSlots = r.nullSlots := by
  obtain ⟨count, same⟩ := map_range_eq_iff.1 rows
  rw [nullSlots, nullSlots, count]
  apply List.countP_congr
  intro k hk
  rw [← row_eq_null_iff, ← row_eq_null_iff, same k (List.mem_range.1 hk)]

/-- **Equality of accepted columns is equality of types and rows.** -/
theorem equal_answers (hl : l.Everywhere Accepted) (hr : r.Everywhere Accepted) :
    Answers (l.equal r) (l.type = r.type ∧ l.rows = r.rows) := by
  rw [equal]
  split_ifs with alike
  · obtain ⟨types, lengths, -⟩ := alike
    refine (rangeEqual_answers l hl hr types (i := 0) (j := 0) (n := l.len) (by omega)
      (by omega)).congr ?_
    rw [rows, rows, map_range_eq_iff, lengths]
    simp [types]
  · -- columns with the same rows have as many slots and nulls
    refine .no fun ⟨types, rows⟩ => alike ?_
    have lengths : l.len = r.len := (map_range_eq_iff.1 rows).1
    have nulls := nullSlots_eq_of_rows rows
    rw [← hl.here.nulls, ← hr.here.nulls] at nulls
    exact ⟨types, lengths, nulls⟩

end Column

end Columnar
