import Columnar.Proofs.InRange
import Columnar.Proofs.Readings

/-!
# Validation decides well-formedness

Every check of `Column.validate` decides one field of `Column.Coherent`, provided that the checks
before it went through: each reads buffers on the strength of an earlier one.  Put together they
decide coherence of a node (`Column.validate_decides`), and with the recursion over children and
dictionaries that of a whole column (`Column.validateFull_decides`).  In particular validation
never fails otherwise than by refusing.

Indices are compared with the length of the dictionary as a signed number of 64 bits, so validation
accepts a little less than well-formed columns where a dictionary has `2 ^ 63` entries or more:
`Column.Accepted` adds this to coherence.
-/

namespace Columnar

namespace Column

variable {c : Column} {i : Nat}

/-! ### Buffers and null counts -/

theorem checkBuffer_decides (slot : Nat) (kind : BufferKind) :
    Decides (c.checkBuffer slot kind) (c.BufferFits slot kind) := by
  cases kind with
  | alwaysNull => exact .accept trivial
  | bitmap =>
    rw [checkBuffer.eq_def, BufferFits]
    cases c.buffer? slot with
    | none => exact Decides.test.congr (by simp)
    | some b => exact Decides.testNot.congr (by simp [Buffer.size, bytesFor_le_iff])
  | fixedWidth width =>
    rw [checkBuffer.eq_def, BufferFits]
    cases c.buffer? slot with
    | none => exact .defect (by simp)
    | some b =>
      refine Decides.testNot.congr ?_
      simp only [Option.some.injEq, exists_eq_left', fixedNeed, Sizes.fit_unbounded]
      split_ifs <;> omega
  | variableWidth =>
    rw [checkBuffer.eq_def, BufferFits]
    cases c.buffer? slot with
    | none => exact .defect (by simp)
    | some b => exact .accept ⟨b, rfl⟩

theorem checkBuffers_decides (slot : Nat) (kinds : List BufferKind) :
    Decides (c.checkBuffers slot kinds)
      (∀ k kind, kinds[k]? = some kind → c.BufferFits (slot + k) kind) := by
  induction kinds generalizing slot with
  | nil => exact .accept (by simp)
  | cons kind kinds ih =>
    refine ((checkBuffer_decides slot kind).andThen fun _ => ih (slot + 1)).congr ?_
    constructor
    · rintro ⟨first, rest⟩ k kind' hk
      cases k with
      | zero => cases hk; exact first
      | succ k => rw [← Nat.add_assoc, Nat.add_right_comm]; exact rest k kind' hk
    · intro all
      refine ⟨all 0 kind rfl, ?_⟩
      intro k kind' hk
      rw [Nat.add_right_comm, Nat.add_assoc]
      exact all (k + 1) kind' hk

theorem checkNulls_decides (h : c.BuffersFit) : Decides c.checkNulls (c.nulls = c.nullSlots) := by
  have counted := countNulls_eq h
  rw [checkNulls]
  by_cases ht : c.type = .null
  · have all : c.nullSlots = c.len := by
      rw [ht] at counted
      exact (Except.ok.inj counted).symm
    rw [if_pos ht, all]
    exact .test
  · rw [if_neg ht, counted, ok_bind]
    exact Decides.test.congr eq_comm

/-! ### Children -/

theorem checkChildType_decides (i : Nat) (child : Column) (expected : DataType) :
    Decides (c.checkChildType i child expected) (child.type = expected) := .test

theorem checkFields_decides (i : Nat) {fields : List Field} {children : List Column}
    (hl : children.length = fields.length) :
    Decides (c.checkFields i fields children)
      (children.map Column.type = fields.map Field.type ∧
        ∀ child ∈ children, child.len = c.len) := by
  induction fields generalizing i children with
  | nil =>
    rw [List.length_eq_zero_iff.1 hl]
    exact .accept (by simp)
  | cons f fs ih =>
    cases children with
    | nil => cases hl
    | cons child rest =>
      have count : rest.length = fs.length := by simpa using hl
      have tail := ih (i + 1) count
      -- the type of this child, then its length, then the other children
      refine ((checkChildType_decides i child f.type).andThen fun _ =>
        Decides.orElse fun _ => tail).congr ?_
      simp only [List.map_cons, List.cons.injEq, List.mem_cons, forall_eq_or_imp]
      tauto

/-- A check of children that are first counted. -/
theorem counted_decides {children : List Column} {n : Nat} {check : Except Fault Unit} {P : Prop}
    {d : Defect} (hc : children.length = n → Decides check P) (hn : P → children.length = n) :
    Decides (if children.length ≠ n then d.refuse else check) P := by
  refine (Decides.otherwise fun h => hc (not_not.1 h)).congr ?_
  simpa using hn

theorem checkChildren_decides : Decides c.checkChildren c.ChildrenFit := by
  obtain ⟨type, len, offset, nulls, buffers, children, dictionary⟩ := c
  cases type with
  | list elem =>
    refine counted_decides ?_ fun h => h.elim fun _ h => congrArg List.length h.1
    intro hl
    obtain ⟨child, rfl⟩ := List.length_eq_one_iff.1 hl
    exact (checkChildType_decides 0 child elem).congr (by simp [ChildrenFit])
  | fixedList size elem =>
    refine counted_decides ?_ fun h => h.elim fun _ h => congrArg List.length h.1
    intro hl
    obtain ⟨child, rfl⟩ := List.length_eq_one_iff.1 hl
    exact ((checkChildType_decides 0 child elem).andThen fun _ => .testNot).congr
      (by simp [ChildrenFit])
  | struct fields =>
    refine counted_decides ?_ ?_
    · intro hl
      exact checkFields_decides 0 hl
    · intro h
      simpa [DataType.childCount] using congrArg List.length h.1
  | map key value sorted =>
    refine counted_decides ?_ fun h => h.elim fun _ h => congrArg List.length h.1
    intro hl
    obtain ⟨child, rfl⟩ := List.length_eq_one_iff.1 hl
    refine ((checkChildType_decides 0 child _).andThen fun _ => .testNot).congr ?_
    -- entries without columns have no keys that could be null
    cases hk : child.children <;> simp [ChildrenFit, hk]
  | _ =>
    exact counted_decides (fun hl => .accept (List.length_eq_zero_iff.1 hl))
      (fun h => congrArg List.length h)

/-! ### Offsets -/

/-- The order of the `n + 1` values that a run gives from position `i` on. -/
theorem checkOrder_decides {run : WordRun} {f : Nat → Int} (n i : Nat)
    (h : ∀ k, i < k → k ≤ i + n → ∃ w, run.get k = .ok w ∧ offsetValue w = f k) :
    Decides (checkOrder run (f i) (i + 1) n) (∀ k, i ≤ k → k < i + n → f k ≤ f (k + 1)) := by
  induction n generalizing i with
  | zero => exact .accept fun k h1 h2 => absurd h2 (by omega)
  | succ n ih =>
    obtain ⟨w, hw, hf⟩ := h (i + 1) (by omega) (by omega)
    have rest := ih (i + 1) fun k h1 h2 => h k (by omega) (by omega)
    rw [checkOrder, hw, ok_bind, hf]
    refine (Decides.otherwise fun _ => rest).congr ?_
    rw [forall_window_succ, Int.not_lt]

theorem checkOffsets_decides (h : c.BuffersFit) (ho : c.type.hasOffsets = true) :
    Decides c.checkOffsets c.OffsetsFit := by
  obtain ⟨run, hrun, count, get⟩ := offsets_eq h ho
  rw [checkOffsets, hrun, ok_bind]
  rcases count with count | ⟨count, hlen, zero⟩
  · obtain ⟨w, hw, first⟩ := get 0 (by omega)
    obtain ⟨w', hw', last⟩ := get c.len (by omega)
    have order : Decides (checkOrder run (c.offsetAt 0) 1 c.len)
        (∀ k, 0 ≤ k → k < 0 + c.len → c.offsetAt k ≤ c.offsetAt (k + 1)) :=
      checkOrder_decides c.len 0 fun k _ hk => get k (by omega)
    -- the last offset is compared without its sign, which the order has settled by then
    have bound (start : 0 ≤ c.offsetAt 0)
        (ordered : ∀ k, 0 ≤ k → k < 0 + c.len → c.offsetAt k ≤ c.offsetAt (k + 1)) :
        Decides (if c.offsetBound < unsigned64 (c.offsetAt c.len) then
          (Defect.offsetPastEnd (unsigned64 (c.offsetAt c.len)) c.offsetBound).refuse else .ok ())
          (c.offsetAt c.len ≤ c.offsetBound) := by
      have nonneg : 0 ≤ c.offsetAt c.len :=
        Int.le_trans start (offsetAt_mono (fun k hk => ordered k (Nat.zero_le k) (by omega))
          (Nat.zero_le _) (Nat.le_refl _))
      refine Decides.testNot.congr ?_
      rw [unsigned64_of_nonneg nonneg offsetAt_lt]
      omega
    rw [if_neg (by omega), hw, ok_bind, first, count, Nat.add_sub_cancel, hw', ok_bind, last]
    refine (Decides.otherwise fun start =>
      order.andThen fun ordered => bound (Int.not_lt.1 start) ordered).congr ?_
    constructor
    · rintro ⟨start, ordered, stop⟩
      exact ⟨Int.not_lt.1 start, fun i hi => ordered i (Nat.zero_le i) (by omega), stop⟩
    · rintro ⟨start, ordered, stop⟩
      exact ⟨Int.not_lt.2 start, fun i _ hi => ordered i (by omega), stop⟩
  · rw [if_pos count]
    have stop : c.offsetAt c.len ≤ c.offsetBound :=
      Int.le_trans (Int.le_of_eq (zero c.len)) (Int.natCast_nonneg _)
    exact .accept ⟨Int.le_of_eq (zero 0).symm, fun i hi => by omega, stop⟩

/-! ### Text -/

/-- The text between consecutive values of a run, from position `i` on. -/
theorem checkTextFrom_decides {run : WordRun} {values : Bytes} {f : Nat → Int} {slot : Nat → Bytes}
    (n i : Nat) (get : ∀ k, i ≤ k → k ≤ i + n → ∃ w, run.get k = .ok w ∧ offsetValue w = f k)
    (window : ∀ k, i ≤ k → k < i + n →
      values.window (unsigned64 (f k)) (unsigned64 (f (k + 1))) = .ok (slot k)) :
    Decides (checkTextFrom run values i n)
      (∀ k, i ≤ k → k < i + n → Utf8.WellFormed (slot k).toList) := by
  induction n generalizing i with
  | zero => exact .accept fun k h1 h2 => absurd h2 (by omega)
  | succ n ih =>
    obtain ⟨w, hw, start⟩ := get i (Nat.le_refl i) (by omega)
    obtain ⟨w', hw', stop⟩ := get (i + 1) (by omega) (by omega)
    have rest := ih (i + 1) (fun k h1 h2 => get k (by omega) (by omega))
      fun k h1 h2 => window k (by omega) (by omega)
    rw [checkTextFrom, hw, ok_bind, hw', ok_bind, start, stop]
    simp only
    rw [window i (Nat.le_refl i) (by omega), ok_bind]
    cases fault : Utf8.fault? (slot i).toList with
    | some e =>
      refine .defect ?_
      intro all
      rw [Utf8.fault?_eq_none_iff.2 (all i (Nat.le_refl i) (by omega))] at fault
      cases fault
    | none =>
      have first := Utf8.fault?_eq_none_iff.1 fault
      refine rest.congr ?_
      rw [forall_window_succ, and_iff_right first]

theorem checkText_decides (h : c.BuffersFit) (ht : c.type = .utf8) (fits : c.OffsetsFit) :
    Decides c.checkText (∀ i, i < c.len → Utf8.WellFormed (c.bytesAt i).toList) := by
  obtain ⟨run, hrun, count, get⟩ := offsets_eq h (by rw [ht]; rfl)
  obtain ⟨b, hb⟩ := h.bytes (by rw [ht]; rfl)
  rw [checkText, hrun, ok_bind, hb]
  rcases count with count | ⟨count, hlen, -⟩
  · have text : Decides (checkTextFrom run b.bytes 0 c.len)
        (∀ k, 0 ≤ k → k < 0 + c.len → Utf8.WellFormed (c.bytesAt k).toList) :=
      checkTextFrom_decides c.len 0 (fun k _ hk => get k (by omega))
        fun k _ hk => fits.window_eq hb (offsetBound_of_bytes (.inl ht) hb) (by omega)
    rw [count, Nat.add_sub_cancel]
    refine text.congr ⟨?_, ?_⟩
    · intro all i hi
      exact all i (Nat.zero_le i) (by omega)
    · intro all i _ hi
      exact all i (by omega)
  · rw [count]
    exact .accept fun i hi => by omega

/-! ### Dictionaries -/

/-- What the search for a bad index finds among the `n` slots from slot `i` on. -/
theorem findBadIndex_eq {key : IntType} {keys : WordRun} {validity : Option Bytes} {offset : Nat}
    (upper : Int) {null : Nat → Bool} {value : Nat → Int} (n i : Nat)
    (valid : ∀ k, i ≤ k → k < i + n → (match validity with
      | some bits => bits.bit (offset + k)
      | none => .ok true) = .ok (!null k))
    (get : ∀ k, i ≤ k → k < i + n → ∃ w, keys.get k = .ok w ∧ key.toInt w = value k) :
    findBadIndex key keys validity offset upper i n =
      .ok (((List.range' i n).find? fun k =>
        !null k && decide (value k < 0 ∨ upper ≤ value k)).map fun k => (k, value k)) := by
  induction n generalizing i with
  | zero => rfl
  | succ n ih =>
    obtain ⟨w, hw, hv⟩ := get i (Nat.le_refl i) (by omega)
    have rest := ih (i + 1) (fun k h1 h2 => valid k (by omega) (by omega))
      fun k h1 h2 => get k (by omega) (by omega)
    have step : findBadIndex key keys validity offset upper i (n + 1) =
        if (!null i) = true ∧ (value i < 0 ∨ upper ≤ value i) then .ok (some (i, value i))
        else findBadIndex key keys validity offset upper (i + 1) n := by
      have here := valid i (Nat.le_refl i) (by omega)
      cases validity <;> (simp only at here; rw [findBadIndex, here, ok_bind, hw, ok_bind, hv]; rfl)
    rw [step, rest, List.range'_succ, List.find?_cons]
    split_ifs with bad
    · rw [decide_eq_true bad.2, bad.1]
      rfl
    · have good : (!null i && decide (value i < 0 ∨ upper ≤ value i)) = false := by
        rw [Bool.eq_false_iff, ne_eq, Bool.and_eq_true, decide_eq_true_eq]
        exact bad
      rw [good]

/-- The validity that `checkIndices` looks at tells the null slots. -/
theorem validity_of_indices (h : c.BuffersFit) (hn : c.nulls = c.nullSlots) (ht : c.type ≠ .null)
    (hi : i < c.len) :
    (match if 0 < c.nulls then (c.buffer? 0).map Buffer.bytes else none with
      | some bits => bits.bit (c.offset + i)
      | none => .ok true) = .ok (!c.nullAt i) := by
  by_cases some : 0 < c.nulls
  · rw [if_pos some]
    cases hb : c.buffer? 0 with
    | none => rw [nullAt_of_none ht hb]; rfl
    | some b =>
      have covers : c.offset + i < 8 * b.bytes.size :=
        Nat.lt_of_lt_of_le (by omega) (h.validity ht hb)
      rw [nullAt_of_some ht hb, Bool.not_not]
      exact Bytes.bit_eq covers
  · rw [if_neg some, nullAt_of_nulls hn (Nat.eq_zero_of_not_pos some) hi]
    rfl

/-- The check of indices refuses the first slot that is not null and whose index is negative or not
below the number of entries as it is compared. -/
theorem checkIndices_eq {index : IntType} (entries : Nat) (h : c.BuffersFit)
    (hn : c.nulls = c.nullSlots) (ht : c.type ≠ .null) {b : Buffer} (hb : c.buffer? 1 = some b)
    (covers : (c.offset + c.len) * index.width ≤ b.size) :
    c.checkIndices index entries =
      match (List.range c.len).find? fun k => !c.nullAt k && decide (c.indexAt index k < 0 ∨
        Int.bmod entries (Bytes.wordRange 8) ≤ c.indexAt index k) with
      | none => .ok ()
      | some k => (Refusal.indexOutOfBounds k (c.indexAt index k) entries).refuse := by
  have keys : ∀ k, 0 ≤ k → k < 0 + c.len →
      ∃ w, (WordRun.mk b.bytes index.width c.offset c.len).get k = .ok w ∧
        index.toInt w = c.indexAt index k :=
    fun k _ hk => ⟨_, WordRun.get_eq (by simpa using hk), by rw [indexAt, wordAt_of_some hb]⟩
  have search := findBadIndex_eq (Int.bmod entries (Bytes.wordRange 8)) c.len 0
    (fun k _ hk => validity_of_indices h hn ht (by omega)) keys
  rw [checkIndices, hb]
  simp only
  rw [Bytes.wordWindow_eq index.width_pos covers, ok_bind, search, ok_bind, List.range_eq_range']
  cases (List.range' 0 c.len).find? fun k => !c.nullAt k && decide (c.indexAt index k < 0 ∨
      Int.bmod entries (Bytes.wordRange 8) ≤ c.indexAt index k) <;> rfl

theorem checkIndices_decides {index : IntType} (entries : Nat) (h : c.BuffersFit)
    (hn : c.nulls = c.nullSlots) (ht : c.type ≠ .null) {b : Buffer} (hb : c.buffer? 1 = some b)
    (covers : (c.offset + c.len) * index.width ≤ b.size) :
    Decides (c.checkIndices index entries)
      (c.IndicesBelow index (Int.bmod entries (Bytes.wordRange 8))) := by
  rw [checkIndices_eq entries h hn ht hb covers]
  cases found : (List.range c.len).find? fun k =>
      !c.nullAt k && decide (c.indexAt index k < 0 ∨
        Int.bmod entries (Bytes.wordRange 8) ≤ c.indexAt index k) with
  | none =>
    refine .accept ?_
    intro i hi valid
    have := List.find?_eq_none.1 found i (List.mem_range.2 hi)
    simp only [valid, Bool.not_false, Bool.true_and, decide_eq_true_eq, not_or, Int.not_lt,
      Int.not_le] at this
    exact this
  | some k =>
    have bad := List.find?_some found
    have mem := List.mem_of_find?_eq_some found
    simp only [Bool.and_eq_true, Bool.not_eq_true', decide_eq_true_eq] at bad
    refine .inr ⟨?_, _, rfl⟩
    intro all
    have := all k (List.mem_range.1 mem) bad.1
    omega

theorem checkIndicesOf_decides {index : IntType} (entries : Nat) (h : c.BuffersFit)
    (hn : c.nulls = c.nullSlots) (ht : c.type ≠ .null) {b : Buffer} (hb : c.buffer? 1 = some b)
    (covers : (c.offset + c.len) * index.width ≤ b.size) :
    Decides (c.checkIndicesOf index entries)
      (index.signed = true ∧ c.IndicesBelow index (Int.bmod entries (Bytes.wordRange 8))) := by
  rw [checkIndicesOf]
  by_cases signed : index.signed = true
  · rw [if_pos signed]
    exact (checkIndices_decides entries h hn ht hb covers).congr (by simp [signed])
  · rw [if_neg signed]
    exact .refuse fun both => signed both.1

/-- Every index is below the length of the dictionary as a signed number of 64 bits. -/
def IndicesFit (c : Column) : Prop :=
  ∀ index value sorted d, c.type = .dictionary index value sorted → c.dictionary = some d →
    c.IndicesBelow index (Int.bmod d.len (Bytes.wordRange 8))

theorem checkDictionary_decides (h : c.BuffersFit) (hn : c.nulls = c.nullSlots) :
    Decides c.checkDictionary (c.DictionaryFits ∧ c.IndicesFit) := by
  cases ht : c.type with
  | dictionary index value sorted =>
    obtain ⟨b, hb, covers⟩ := h.indices ht
    rw [checkDictionary, DictionaryFits, IndicesFit, ht]
    cases hd : c.dictionary with
    | none => exact .defect (by simp)
    | some d =>
      have indices := checkIndicesOf_decides d.len h hn (by simp [ht]) hb covers
      refine (Decides.orElse fun _ => indices).congr ?_
      constructor
      · rintro ⟨typed, signed, below⟩
        refine ⟨⟨signed, d, rfl, typed, ?_⟩, ?_⟩
        · -- what is below the signed length is below the length
          intro i hi valid
          have bound := bmod_le d.len
          have := below i hi valid
          omega
        · rintro _ _ _ _ ⟨⟩ ⟨⟩
          exact below
      · rintro ⟨⟨signed, _, ⟨⟩, typed, -⟩, below⟩
        exact ⟨typed, signed, below index value sorted d rfl rfl⟩
  | _ =>
    rw [checkDictionary, DictionaryFits, IndicesFit, ht]
    cases c.dictionary with
    | none => exact .accept (by simp)
    | some d => exact .defect (by simp)

/-! ### Whole columns -/

/-- What validation accepts: a coherent node whose indices are below the length of the dictionary
as it is compared. -/
structure Accepted (c : Column) : Prop extends Coherent c where
  indices : c.IndicesFit

theorem validate_decides : Decides c.validate c.Accepted := by
  rw [validate]
  have offsets (h : c.BuffersFit) :
      Decides (if c.type.hasOffsets then c.checkOffsets else .ok ())
        (c.type.hasOffsets = true → c.OffsetsFit) :=
    .when fun ho => checkOffsets_decides h ho
  have text (h : c.BuffersFit) (fits : c.type.hasOffsets = true → c.OffsetsFit) :
      Decides (if c.type = .utf8 then c.checkText else .ok ())
        (c.type = .utf8 → ∀ i, i < c.len → Utf8.WellFormed (c.bytesAt i).toList) :=
    .when fun ht => checkText_decides h ht (fits (by rw [ht]; rfl))
  have buffers : Decides (c.checkBuffers 0 c.type.layout.buffers) c.BuffersFit :=
    (checkBuffers_decides 0 _).congr (by simp only [Nat.zero_add]; exact Iff.rfl)
  -- the later checks read buffers on the strength of the earlier ones
  refine (Decides.otherwise fun _ => .otherwise fun _ => buffers.andThen fun h =>
    (checkNulls_decides h).andThen fun hn => checkChildren_decides.andThen fun _ =>
    (offsets h).andThen fun fits => (text h fits).andThen fun _ =>
    checkDictionary_decides h hn).congr ?_
  constructor
  · rintro ⟨count, -, buffers, nulls, children, offsets, text, dictionary, indices⟩
    exact ⟨⟨not_not.1 count, buffers, nulls, children, offsets, text, dictionary⟩, indices⟩
  · rintro ⟨⟨count, buffers, nulls, children, offsets, text, dictionary⟩, indices⟩
    -- the count of nulls cannot be too large where it is right
    have few : c.nulls ≤ c.len := nulls ▸ nullSlots_le
    exact ⟨not_not.2 count, Nat.not_lt.2 few, buffers, nulls, children, offsets, text,
      dictionary, indices⟩

theorem everywhere_mk {P : Column → Prop} {type : DataType} {len offset nulls : Nat}
    {buffers : List (Option Buffer)} {children : List Column} {dictionary : Option Column} :
    Everywhere P ⟨type, len, offset, nulls, buffers, children, dictionary⟩ ↔
      P ⟨type, len, offset, nulls, buffers, children, dictionary⟩ ∧
        (∀ d ∈ children, d.Everywhere P) ∧ ∀ d, dictionary = some d → d.Everywhere P :=
  ⟨fun h => ⟨h.here, fun _ hd => h.child hd, fun _ hd => h.entry hd⟩,
    fun ⟨here, children, dictionary⟩ => .node here children dictionary⟩

mutual

/-- **Full validation decides acceptance at every depth**, and fails only by refusing. -/
theorem validateFull_decides : (c : Column) → Decides c.validateFull (c.Everywhere Accepted)
  | ⟨type, len, offset, nulls, buffers, children, dictionary⟩ => by
    rw [validateFull]
    exact (validate_decides.andThen fun _ => (validateAll_decides children).andThen fun _ =>
      validateDictionary_decides dictionary).congr everywhere_mk.symm

theorem validateAll_decides : (cs : List Column) →
    Decides (validateAll cs) (∀ c ∈ cs, c.Everywhere Accepted)
  | [] => .accept (by simp)
  | c :: cs => by
    rw [validateAll]
    exact ((validateFull_decides c).andThen fun _ => validateAll_decides cs).congr (by simp)

theorem validateDictionary_decides : (dictionary : Option Column) →
    Decides (validateDictionary dictionary) (∀ d, dictionary = some d → d.Everywhere Accepted)
  | none => .accept (by simp)
  | some d => (validateFull_decides d).congr (by simp)

end

theorem accepted_of_validateFull (h : c.validateFull = .ok ()) : c.Everywhere Accepted :=
  (validateFull_decides c).ok_iff.1 h

theorem validateFull_of_accepted (h : c.Everywhere Accepted) : c.validateFull = .ok () :=
  (validateFull_decides c).ok_iff.2 h

/-! ### Well-formed columns -/

/-- Every dictionary, at every depth, has fewer than `2 ^ 63` entries. -/
def SmallDictionaries (c : Column) : Prop :=
  c.Everywhere fun d => ∀ e, d.dictionary = some e → e.len < 2 ^ 63

/-- With small dictionaries, nothing is lost in the comparison of indices. -/
theorem accepted_iff_wellFormed (small : c.SmallDictionaries) :
    c.Everywhere Accepted ↔ c.WellFormed := by
  constructor
  · intro h
    apply h.mono
    intro d hd
    exact hd.toCoherent
  · intro h
    refine (h.and small).mono ?_
    rintro d ⟨coherent, few⟩
    refine ⟨coherent, ?_⟩
    intro index value sorted e ht he
    have fit := coherent.dictionary
    simp only [DictionaryFits, ht] at fit
    obtain ⟨-, e', he', -, below⟩ := fit
    cases he.symm.trans he'
    rw [bmod_eq_of_lt (few e he)]
    exact below

/-- **Full validation accepts exactly the well-formed columns**, and refuses all others.  The
program does the same wherever no size loses a digit. -/
theorem validateFull_iff_wellFormed (small : c.SmallDictionaries) :
    (c.validateFull = .ok () ↔ c.WellFormed) ∧
      (¬ c.WellFormed → ∃ r, c.validateFull = .error (.refusal r)) ∧
      (c.Everywhere InRange → c.validateFull .wrapping = c.validateFull) := by
  have decides := (validateFull_decides c).congr (accepted_iff_wellFormed small)
  exact ⟨decides.ok_iff, decides.refuses, validateFull_sizes c⟩

/-- A list column whose window begins behind its first slot.  The lists are of dictionary indices
into text; one list and one index are null, the latter over an index without an entry. -/
def specimen : Column :=
  let buffer (bytes : List UInt8) : Option Buffer := some (.ofBytes bytes.toArray false)
  let words : Column :=
    ⟨.utf8, 2, 0, 0, [none, buffer [0, 0, 0, 0, 2, 0, 0, 0, 4, 0, 0, 0],
      buffer [104, 105, 195, 169]], [], none⟩
  let indices : Column :=
    ⟨.dictionary .int8 .utf8 false, 3, 0, 1, [buffer [5], buffer [1, 9, 0]], [], some words⟩
  ⟨.list indices.type, 2, 1, 1,
    [buffer [2], buffer [0, 0, 0, 0, 0, 0, 0, 0, 2, 0, 0, 0, 3, 0, 0, 0]], [indices], none⟩

theorem smallDictionaries_specimen : specimen.SmallDictionaries := by
  refine .node nofun ?_ nofun
  intro d hd
  obtain rfl := List.mem_singleton.1 hd
  refine .node ?_ nofun ?_
  · rintro _ ⟨⟩
    decide
  · rintro _ ⟨⟩
    exact .node nofun nofun nofun

theorem wellFormed_specimen : specimen.SmallDictionaries ∧ specimen.WellFormed ∧
    specimen.Everywhere InRange ∧ specimen.validateFull .wrapping = specimen.validateFull := by
  have range : specimen.Everywhere InRange := by decide
  obtain ⟨decides, -, program⟩ := validateFull_iff_wellFormed smallDictionaries_specimen
  exact ⟨smallDictionaries_specimen, decides.1 rfl, range, program range⟩

end Column

end Columnar
