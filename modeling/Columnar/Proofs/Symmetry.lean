import Columnar.Proofs.Building.Reached
import Columnar.Proofs.Building.RoundTrip
import Columnar.Proofs.Comparison
import Columnar.Proofs.Encoding

/-!
# Equality of columns that can be made

The type that a dictionary column declares for its entries need not be the one that they have, since
`Column.dictionaryOf` does not compare them.  `Column.asStored` declares what is stored.  Comparing
never looks at the declared types of entries (`Column.rangeEqual_asStored`), and everything that can
be made without a size that loses digits (`Column.Built`) is valid as stored.

So equality gives an answer, the same in both orders, for columns that are stored alike wherever
they are declared alike (`Column.equal_symmetric`).  Entries that are stored in different ways are
read as those of the left column, which can fail in one order only (`Column.equal_asymmetric`).
-/

namespace Columnar

/-- The type of a column with this dictionary: a dictionary type declares the entries that are
there. -/
def DataType.over (t : DataType) (dictionary : Option Column) : DataType :=
  match t, dictionary with
  | .dictionary index _ ordered, some d => .dictionary index d.type ordered
  | t, _ => t

namespace Column

mutual

/-- The column under the type of what is stored, and its dictionary likewise. -/
def asStored : Column → Column
  | ⟨type, len, offset, nulls, buffers, children, dictionary⟩ =>
    let dictionary := entriesAsStored dictionary
    ⟨type.over dictionary, len, offset, nulls, buffers, children, dictionary⟩
termination_by structural c => c

/-- The dictionary under the type of what is stored. -/
def entriesAsStored : Option Column → Option Column
  | none => none
  | some d => some (asStored d)
termination_by structural dictionary => dictionary

end

variable {c l r s indices values : Column} {index : IntType} {value : DataType} {ordered : Bool}

/-! ### What is stored -/

mutual

/-- An accepted column declares what is stored. -/
theorem asStored_eq : (c : Column) → c.Everywhere Accepted → c.asStored = c
  | ⟨type, len, offset, nulls, buffers, children, dictionary⟩, h => by
    rw [asStored, entriesAsStored_eq dictionary fun d hd => h.entry hd]
    have fits := h.here.dictionary
    cases type with
    | dictionary index value ordered =>
      obtain ⟨-, d, hd, rfl, -⟩ := fits
      cases hd
      rfl
    | _ => rfl

theorem entriesAsStored_eq : (dictionary : Option Column) →
    (∀ d, dictionary = some d → d.Everywhere Accepted) → entriesAsStored dictionary = dictionary
  | none, _ => rfl
  | some d, h => congrArg some (asStored_eq d (h d rfl))

end

theorem accepted_asStored (h : c.Everywhere Accepted) : c.asStored.Everywhere Accepted :=
  (asStored_eq c h).symm ▸ h

@[simp] theorem len_asStored (c : Column) : c.asStored.len = c.len := by cases c; rfl

@[simp] theorem offset_asStored (c : Column) : c.asStored.offset = c.offset := by cases c; rfl

@[simp] theorem nulls_asStored (c : Column) : c.asStored.nulls = c.nulls := by cases c; rfl

theorem dictionary_asStored (c : Column) :
    c.asStored.dictionary = entriesAsStored c.dictionary := by cases c; rfl

theorem isNull_asStored (c : Column) (i : Nat) : c.asStored.isNull i = c.isNull i := by
  obtain ⟨type, len, offset, nulls, buffers, children, dictionary⟩ := c
  rw [asStored, isNull, isNull, buffer?, buffer?]
  cases type with
  | dictionary => cases entriesAsStored dictionary <;> cases buffers[0]?.join <;> rfl
  | _ => rfl

theorem keyAt_asStored (c : Column) (pos : Nat) : c.asStored.keyAt pos = c.keyAt pos := by
  obtain ⟨type, len, offset, nulls, buffers, children, dictionary⟩ := c
  rw [asStored, keyAt, keyAt, buffer?, buffer?]
  cases type with
  | dictionary => cases entriesAsStored dictionary <;> cases buffers[1]?.join <;> rfl
  | _ => rfl

theorem eachSlot_asStored (l r : Column) (i j n : Nat)
    (valuesEqual : Nat → Nat → Except Fault Bool) :
    eachSlot l.asStored r.asStored i j n valuesEqual = eachSlot l r i j n valuesEqual := by
  simp only [eachSlot, slotsEqual, isNull_asStored]

mutual

/-- Comparing slots does not look at the types that are declared for entries. -/
theorem rangeEqual_asStored : (l r : Column) → (i j n : Nat) →
    rangeEqual l.asStored r.asStored i j n = rangeEqual l r i j n
  | ⟨type, len, offset, nulls, buffers, children, dictionary⟩, r, i, j, n => by
    have slots :=
      eachSlot_asStored ⟨type, len, offset, nulls, buffers, children, dictionary⟩ r i j n
    cases type with
    | dictionary index value ordered =>
      have entries := entryEqual_asStored
        ⟨.dictionary index value ordered, len, offset, nulls, buffers, children, dictionary⟩ r
        dictionary
      obtain ⟨value', typed⟩ : ∃ value', (asStored ⟨.dictionary index value ordered, len, offset,
          nulls, buffers, children, dictionary⟩).type = .dictionary index value' ordered := by
        cases dictionary <;> exact ⟨_, rfl⟩
      rw [rangeEqual_eq, rangeEqual_eq, typed]
      simp only [slots, dictionary_asStored, entries]
    | _ =>
      rw [rangeEqual_eq, rangeEqual_eq]
      simp only [slots]
      cases r
      rfl

theorem entryEqual_asStored (l r : Column) : (dictionary : Option Column) → (i j : Nat) →
    entryEqual l.asStored r.asStored (entriesAsStored dictionary) i j =
      entryEqual l r dictionary i j
  | none, _, _ => rfl
  | some d, i, j => by
    rw [entriesAsStored, entryEqual, entryEqual, dictionary_asStored, offset_asStored,
      offset_asStored, keyAt_asStored, keyAt_asStored]
    cases r.dictionary with
    | none => rfl
    | some e => simp only [entriesAsStored, rangeEqual_asStored d e]

end

theorem slice_asStored {o n : Nat} (h : c.slice o n = .ok s) :
    c.asStored.slice o n = .ok s.asStored := by
  obtain ⟨type, len, offset, nulls, buffers, children, dictionary⟩ := c
  have rows : (type.over (entriesAsStored dictionary)).hasRowChildren = type.hasRowChildren := by
    cases type <;> cases dictionary <;> rfl
  have counts (start : Nat) :
      countNulls (type.over (entriesAsStored dictionary)) n start buffers =
        countNulls type n start buffers := by
    cases type with
    | dictionary => cases entriesAsStored dictionary <;> rcases buffers with _ | ⟨_ | _, _⟩ <;> rfl
    | _ => rfl
  rw [slice_eq] at h
  by_cases fits : o + n ≤ len
  · rw [if_pos fits] at h
    obtain ⟨below, sliced, h⟩ := bind_eq_ok.1 h
    obtain ⟨count, counted, h⟩ := bind_eq_ok.1 h
    cases h
    rw [asStored, slice_eq, if_pos fits, rows, sliced, ok_bind, counts, counted]
    rfl
  · rw [if_neg fits] at h
    cases h

/-! ### What can be made -/

/-- The columns that can be made: from parts, by builders, from scalars, from columns, and as slices
of those.  Where sizes are computed from given ones, they are to be words. -/
inductive Built : Column → Prop
  | make {type : DataType} {len offset : Nat} {nulls? : Option Nat}
      {buffers : List (Option Buffer)} {children : List Column} {dictionary : Option Column}
      {c : Column} (range : c.Everywhere InRange)
      (made : make type len offset nulls? buffers children dictionary .wrapping = .ok c) : Built c
  /-- Values that offsets are large enough for are appended to a new builder of their type, which is
  then finished. -/
  | ofValues {tracked : Bool} {t : DataType} {vs : List Value} {sizes : Sizes}
      {b b' rest : Builder} {c : Column}
      (typed : ∀ v ∈ vs, v.isOf t = true) (small : (Builder.Contents.ofValues t vs).Small)
      (made : Builder.make tracked t = .ok b) (ran : b.run (vs.flatMap Value.calls) sizes = .ok b')
      (finished : b'.finish = .ok (c, rest)) : Built c
  /-- Any builder is finished that lost no rows below slots that were left, and has no null keys. -/
  | finish {b rest : Builder} {c : Column} (reached : b.Reached Builder.KeepsRows)
      (filled : b.KeysFilled) (finished : b.finish = .ok (c, rest)) : Built c
  | ofScalars {type : DataType} {dense : Bool} {values : List Value} {c : Column}
      (scalar : type.isNested = false) (typed : ∀ v ∈ values, v.isOf type = true)
      (made : ofScalars type dense values = .ok c) : Built c
  | ofNulls (len : Nat) : Built (ofNulls len)
  | structOf {fields : List Field} {columns : List Column} {validity : Option Buffer} {c : Column}
      (range : c.Everywhere InRange) (made : structOf fields columns validity .wrapping = .ok c) :
      Built c
  /-- The values can be of any type. -/
  | dictionaryOf {index : IntType} {value : DataType} {ordered : Bool} {indices values c : Column}
      (first : Built indices) (second : Built values)
      (made : dictionaryOf index value ordered indices values = .ok c) : Built c
  | slice {o n : Nat} {c s : Column} (of : Built c) (ends : c.Everywhere EndsInRange)
      (fits : o + n ≤ c.len) (made : c.slice o n .wrapping = .ok s) : Built s

theorem accepted_of_make {type : DataType} {len offset : Nat} {nulls? : Option Nat}
    {buffers : List (Option Buffer)} {children : List Column} {dictionary : Option Column}
    {sizes : Sizes} (range : c.Everywhere InRange)
    (made : make type len offset nulls? buffers children dictionary sizes = .ok c) :
    c.Everywhere Accepted := by
  rw [make] at made
  split_ifs at made with count
  · cases made
  · obtain ⟨-, -, made⟩ := bind_eq_ok.1 made
    obtain ⟨d, -, made⟩ := bind_eq_ok.1 made
    obtain ⟨_, valid, made⟩ := bind_eq_ok.1 made
    cases made
    exact (sound_of_validateFull range valid).accepted

/-- A column of scalars is accepted. -/
theorem accepted_of_ofScalars {type : DataType} {dense : Bool} {values : List Value}
    (scalar : type.isNested = false) (typed : ∀ v ∈ values, v.isOf type = true)
    (made : ofScalars type dense values = .ok c) : c.Everywhere Accepted := by
  obtain ⟨b, fresh, made⟩ := bind_eq_ok.1 made
  have same : b.type = type := by
    rw [(Builder.holds_sized fresh).type_eq]
    cases type with
    | dictionary => cases fresh
    | null | bool | num | utf8 | binary => rfl
    | _ => cases scalar
  rw [← same] at typed scalar
  have start : b.Reached Builder.KeepsRows := .sized fresh
  obtain ⟨b', rest, ⟨reached, same'⟩, finished⟩ : ∃ b' rest : Builder,
      (b'.Reached Builder.KeepsRows ∧ b'.type = b.type) ∧ b'.finish = .ok (c, rest) := by
    cases dense with
    | true | false =>
      obtain ⟨b', appended, made⟩ := bind_eq_ok.1 made
      obtain ⟨⟨c', rest⟩, finished, made⟩ := bind_eq_ok.1 made
      cases made
      first
        | exact ⟨b', rest, start.appendDense typed appended, finished⟩
        | exact ⟨b', rest, start.appendScalars typed appended, finished⟩
  exact reached.accepted (Builder.keysFilled_of_scalar (same' ▸ scalar)) finished

/-- Columns of the fields' types make an accepted struct. -/
theorem accepted_of_structOf {fields : List Field} {columns : List Column}
    {validity : Option Buffer} {sizes : Sizes} (range : c.Everywhere InRange)
    (made : structOf fields columns validity sizes = .ok c) : c.Everywhere Accepted := by
  rw [structOf] at made
  split_ifs at made
  · cases made
  · obtain ⟨type, -, made⟩ := bind_eq_ok.1 made
    exact accepted_of_make range made

/-- A dictionary column over entries that are valid as stored is, too. -/
theorem accepted_of_dictionaryOf (hi : indices.asStored.Everywhere Accepted)
    (hv : values.asStored.Everywhere Accepted)
    (made : dictionaryOf index value ordered indices values = .ok c) :
    c.asStored.Everywhere Accepted := by
  by_cases kind : indices.type.kind = .num (.int index)
  · have ht := type_of_kind kind
    -- numbers have no dictionary, so the indices are stored as declared
    have same : indices.asStored = indices := by
      obtain ⟨type, len, offset, nulls, buffers, children, dictionary⟩ := indices
      obtain rfl : type = .num (.int index) := ht
      cases dictionary with
      | none => rfl
      | some d => cases hi.here.dictionary
    rw [same] at hi
    obtain ⟨b, hb, covers⟩ := hi.here.buffers.numbers ht
    rw [dictionaryOf_eq kind] at made
    obtain ⟨_, checked, made⟩ := bind_eq_ok.1 made
    cases made
    obtain ⟨signed, below⟩ := (checkIndicesOf_decides values.len hi.here.buffers hi.here.nulls
      (by simp [ht]) hb covers).ok_iff.1 checked
    rw [← len_asStored] at below
    exact encoded_everywhere hi.here hv ht signed below
  · rw [dictionaryOf] at made
    simp only [ne_eq, kind, not_false_eq_true, if_true] at made
    cases made

/-- **Whatever can be made is valid as stored.** -/
theorem Built.accepted (h : Built c) : c.asStored.Everywhere Accepted := by
  induction h with
  | make range made => exact accepted_asStored (accepted_of_make range made)
  | ofValues typed small made ran finished =>
    obtain ⟨b', ran', held⟩ := Builder.appendsAll _ (Builder.holds_make _ made) typed small
    rw [Builder.run_calls_sizes] at ran
    cases ran.symm.trans ran'
    exact accepted_asStored (held.accepted_of_finish (Builder.Contents.anchored_ofValues typed)
      (Builder.Contents.keysFilled_ofValues typed) finished)
  | finish reached filled finished => exact accepted_asStored (reached.accepted filled finished)
  | ofScalars scalar typed made =>
    exact accepted_asStored (accepted_of_ofScalars scalar typed made)
  | ofNulls len => exact accepted_asStored (NullBuilder.accepted_finish ⟨len, 0⟩)
  | structOf range made => exact accepted_asStored (accepted_of_structOf range made)
  | dictionaryOf _ _ made hi hv => exact accepted_of_dictionaryOf hi hv made
  | @slice o n c s _ ends fits made valid =>
    have stop : c.offset + c.len < Bytes.wordRange 8 := ends.here
    rw [slice_sizes c ends (by omega)] at made
    obtain ⟨s', sliced, accepted⟩ := slice_accepted c.asStored valid (len_asStored c ▸ fits)
    cases sliced.symm.trans (slice_asStored made)
    exact accepted

/-! ### Both orders -/

/-- Columns that are declared alike are compared as they are stored. -/
theorem equal_answers_asStored (hl : l.asStored.Everywhere Accepted)
    (hr : r.asStored.Everywhere Accepted)
    (alike : l.type = r.type → l.asStored.type = r.asStored.type) :
    Answers (l.equal r) (l.type = r.type ∧ l.asStored.rows = r.asStored.rows) := by
  by_cases types : l.type = r.type
  · have same : l.asStored.equal r.asStored = l.equal r := by
      rw [equal, equal, rangeEqual_asStored]
      simp [types, alike types]
    rw [← same]
    exact (equal_answers hl hr).congr (by simp [types, alike types])
  · rw [equal, if_neg fun all => types all.1]
    exact .no fun both => types both.1

/-- **Equality gives an answer, the same in both orders**, for columns that are made without a size
that loses digits, where those that are declared alike are stored alike.  Columns that are one node
are not looked at, to the same effect. -/
theorem equal_symmetric (hl : Built l) (hr : Built r)
    (alike : l.type = r.type → l.asStored.type = r.asStored.type) :
    ∃ b, l.equal r = .ok b ∧ r.equal l = .ok b ∧
      (b = true ↔ l.type = r.type ∧ l.asStored.rows = r.asStored.rows) ∧
      ∀ p q : Placement, (p.node = q.node → l = r) →
        Held.equal ⟨l, p⟩ ⟨r, q⟩ = .ok b ∧ Held.equal ⟨r, q⟩ ⟨l, p⟩ = .ok b := by
  obtain ⟨b, answered, yes⟩ := equal_answers_asStored hl.accepted hr.accepted alike
  obtain ⟨b', answered', yes'⟩ :=
    equal_answers_asStored hr.accepted hl.accepted fun types => (alike types.symm).symm
  obtain rfl : b = b' := by
    rw [Bool.eq_iff_iff, yes, yes', eq_comm, eq_comm (a := l.asStored.rows)]
  refine ⟨b, answered, answered', yes, fun p q same => ?_⟩
  rw [Held.equal, Held.equal]
  by_cases node : p.node = q.node
  · -- what is one node is equal to itself
    have one := same node
    rw [if_pos node, if_pos node.symm,
      yes.2 ⟨congrArg Column.type one, congrArg (·.asStored.rows) one⟩]
    exact ⟨rfl, rfl⟩
  · rw [if_neg node, if_neg fun node' => node node'.symm]
    exact ⟨answered, answered'⟩

/-- One index, which is zero. -/
def zeroIndex : Column :=
  ⟨.num (.int .int8), 1, 0, 0, [none, some (.ofBytes #[0] false)], [], none⟩

/-- One number, behind so many others. -/
def oneNumber (spare : Nat) : Column :=
  ⟨.num (.int .int32), 1, spare, 0,
    [none, some (.ofBytes (.replicate (4 * spare) 0 ++ #[5, 0, 0, 0]) false)], [], none⟩

/-- One text, of no bytes. -/
def emptyText : Column :=
  ⟨.utf8, 1, 0, 0, [none, some (.ofBytes (.replicate 8 0) false), some (.ofBytes #[] false)], [],
    none⟩

/-- A dictionary column of texts by its type, over these entries. -/
def asTexts (entries : Column) : Column := encoded .int8 .utf8 false zeroIndex entries

theorem built_zeroIndex : Built zeroIndex :=
  have made : make zeroIndex.type 1 0 none zeroIndex.buffers [] none .wrapping = .ok zeroIndex :=
    rfl
  .make (by decide) made

theorem built_oneNumber {spare : Nat} (range : (oneNumber spare).Everywhere InRange)
    (made : make (oneNumber spare).type 1 spare none (oneNumber spare).buffers [] none .wrapping =
      .ok (oneNumber spare)) : Built (oneNumber spare) :=
  .make range made

theorem built_emptyText : Built emptyText :=
  have made : make emptyText.type 1 0 none emptyText.buffers [] none .wrapping = .ok emptyText :=
    rfl
  .make (by decide) made

theorem built_asTexts {entries : Column} (h : Built entries)
    (made : dictionaryOf .int8 .utf8 false zeroIndex entries = .ok (asTexts entries)) :
    Built (asTexts entries) := .dictionaryOf built_zeroIndex h made

/-- Numbers behind a type of texts are compared as numbers. -/
theorem equal_symmetric_asTexts :
    Built (asTexts (oneNumber 0)) ∧ Built (asTexts (oneNumber 1)) ∧
      ((asTexts (oneNumber 0)).type = (asTexts (oneNumber 1)).type →
        (asTexts (oneNumber 0)).asStored.type = (asTexts (oneNumber 1)).asStored.type) ∧
      ∃ b, (asTexts (oneNumber 0)).equal (asTexts (oneNumber 1)) = .ok b ∧
        (asTexts (oneNumber 1)).equal (asTexts (oneNumber 0)) = .ok b ∧ b = true := by
  have first : Built (asTexts (oneNumber 0)) := built_asTexts (built_oneNumber (by decide) rfl) rfl
  have second : Built (asTexts (oneNumber 1)) := built_asTexts (built_oneNumber (by decide) rfl) rfl
  have alike : (asTexts (oneNumber 0)).asStored.type = (asTexts (oneNumber 1)).asStored.type := rfl
  obtain ⟨b, answered, answered', -⟩ := equal_symmetric first second fun _ => alike
  have positive : (asTexts (oneNumber 0)).equal (asTexts (oneNumber 1)) = .ok true := rfl
  exact ⟨first, second, fun _ => alike, b, answered, answered',
    Except.ok.inj (answered.symm.trans positive)⟩

/-- Entries that are numbers are read as numbers, but as texts where the other column comes
first. -/
theorem equal_asymmetric :
    Built (asTexts (oneNumber 0)) ∧ Built (asTexts emptyText) ∧
      (asTexts (oneNumber 0)).type = (asTexts emptyText).type ∧
      (asTexts (oneNumber 0)).equal (asTexts emptyText) = .ok false ∧
      (asTexts emptyText).equal (asTexts (oneNumber 0)) = .error .outOfRange :=
  ⟨built_asTexts (built_oneNumber (by decide) rfl) rfl, built_asTexts built_emptyText rfl, rfl,
    rfl, rfl⟩

end Column

end Columnar
