import Columnar.Column.Assemble
import Columnar.Proofs.Safety

/-!
# Struct columns from columns

`Column.structOf` puts a struct column together from a column for each field and a bitmap.
`Column.Assembly` lists what can come of it, in the order in which the parts are checked: columns
that are not as many as the fields, a field that repeats a name, a part that does not fit, of which
the first one is reported, and else a column that shows the columns row by row.
`Column.structOf_exact` says that nothing else comes of valid columns.

The rows of a column may begin anywhere in its buffers, those of the struct begin at bit 0 of the
bitmap.
-/

namespace Columnar

/-! ### Fields that repeat a name -/

/-- The repeating field that is found is the first one. -/
theorem Field.duplicate?_eq_some {seen : List String} {fields : List Field} {f : Field}
    (found : duplicate? seen fields = some f) :
    ∃ before after, fields = before ++ f :: after ∧ (before.map Field.name).Nodup ∧
      (∀ g ∈ before, g.name ∉ seen) ∧ (f.name ∈ seen ∨ f.name ∈ before.map Field.name) := by
  induction fields generalizing seen with
  | nil => cases found
  | cons g gs ih =>
    rw [duplicate?] at found
    split at found
    · next repeated =>
      cases found
      exact ⟨[], gs, rfl, List.nodup_nil, List.forall_mem_nil _, .inl repeated⟩
    · next new =>
      obtain ⟨before, after, rfl, distinct, fresh, repeated⟩ := ih found
      refine ⟨g :: before, after, rfl, ?_, ?_, ?_⟩
      · refine List.nodup_cons.2 ⟨?_, distinct⟩
        rintro mem
        obtain ⟨h, hh, same⟩ := List.mem_map.1 mem
        exact fresh h hh (by simp [same])
      · intro h hh
        rcases List.mem_cons.1 hh with rfl | hh
        · exact new
        · exact fun old => fresh h hh (.tail _ old)
      · rcases repeated with old | own
        · rcases List.mem_cons.1 old with same | old
          · exact .inr (by simp [same])
          · exact .inl old
        · exact .inr (.tail _ own)

theorem Field.not_nodup_of_repeats {before after : List Field} {f : Field}
    (repeats : f.name ∈ before.map Field.name) :
    ¬ ((before ++ f :: after).map Field.name).Nodup := by
  rw [List.map_append, List.map_cons, List.nodup_append]
  exact fun ⟨_, _, apart⟩ => apart _ repeats _ (.head _) rfl

/-- Among fields with distinct names, the field at a position is found by its name. -/
theorem Field.index?_eq_some_iff {fields : List Field} (distinct : (fields.map Field.name).Nodup)
    {name : String} {j : Nat} :
    Field.index? name fields = some j ↔ fields[j]?.map Field.name = some name := by
  rw [index?, List.findIdx?_eq_some_iff_getElem]
  constructor
  · rintro ⟨inside, found, -⟩
    rw [List.getElem?_eq_getElem inside, Option.map_some, of_decide_eq_true found]
  · intro named
    obtain ⟨f, at_j, same⟩ := Option.map_eq_some_iff.1 named
    obtain ⟨inside, rfl⟩ := List.getElem?_eq_some_iff.1 at_j
    refine ⟨inside, decide_eq_true same, ?_⟩
    intro k before found
    have names : (fields.map Field.name)[k]? = (fields.map Field.name)[j]? := by
      rw [List.getElem?_map, List.getElem?_map, at_j, List.getElem?_eq_getElem (by omega),
        Option.map_some, Option.map_some, of_decide_eq_true found, same]
    have := (List.getElem?_inj (by simpa using Nat.lt_trans before inside) distinct).1 names
    omega

namespace Column

variable {fields : List Field} {columns : List Column} {validity : Option Buffer} {c : Column}

/-! ### Columns that fit -/

/-- The number of rows of a struct of these columns. -/
def rowsIn (columns : List Column) : Nat := (columns.head?.map len).getD 0

/-- The column has the type of the field, and so many rows. -/
def Suits (rows : Nat) (f : Field) (c : Column) : Prop := c.type = f.type ∧ c.len = rows

/-- The bitmap, if there is one, has a bit for every row. -/
def Covers (validity : Option Buffer) (rows : Nat) : Prop :=
  ∀ b, validity = some b → bytesFor rows ≤ b.size

/-- What is wrong with columns that are as many as the fields; of several defects, the one that is
reported. -/
inductive Misfit (fields : List Field) (columns : List Column) (validity : Option Buffer) :
    Defect → Prop where
  | bitmap {b : Buffer} (given : validity = some b) (short : b.size < bytesFor (rowsIn columns)) :
      Misfit fields columns validity
        (.validityTooShort b.size (rowsIn columns) 0 (bytesFor (rowsIn columns)))
  /-- The first column that does not suit its field is of another type. -/
  | type {fs gs : List Field} {f : Field} {cs ds : List Column} {c : Column}
      (covers : Covers validity (rowsIn columns)) (fields_eq : fields = fs ++ f :: gs)
      (columns_eq : columns = cs ++ c :: ds)
      (before : List.Forall₂ (Suits (rowsIn columns)) fs cs) (other : c.type ≠ f.type) :
      Misfit fields columns validity (.childType fs.length (.struct fields) c.type f.type)
  /-- The first column that does not suit its field has another number of rows. -/
  | rows {fs gs : List Field} {f : Field} {cs ds : List Column} {c : Column}
      (covers : Covers validity (rowsIn columns)) (fields_eq : fields = fs ++ f :: gs)
      (columns_eq : columns = cs ++ c :: ds)
      (before : List.Forall₂ (Suits (rowsIn columns)) fs cs) (same : c.type = f.type)
      (other : c.len ≠ rowsIn columns) :
      Misfit fields columns validity (.fieldLength f.name c.len (rowsIn columns))

/-- What all pairs do, the pair at one position does. -/
theorem forall₂_at {α β : Type} {R : α → β → Prop} {as as' : List α} {a : α} {bs bs' : List β}
    {b : β} (all : List.Forall₂ R (as ++ a :: as') (bs ++ b :: bs'))
    (aligned : as.length = bs.length) : R a b := by
  refine List.forall₂_zip all ?_
  rw [List.zip_append aligned]
  simp

/-- Where something is wrong, not everything suits. -/
theorem Misfit.not_suits {d : Defect} (m : Misfit fields columns validity d)
    (covers : Covers validity (rowsIn columns)) :
    ¬ List.Forall₂ (Suits (rowsIn columns)) fields columns := by
  intro suits
  cases m with
  | bitmap given short => exact Nat.not_le.2 short (covers _ given)
  | type _ fields_eq columns_eq before other =>
    generalize rowsIn columns = rows at *
    subst fields_eq columns_eq
    exact other (forall₂_at suits before.length_eq).1
  | rows _ fields_eq columns_eq before _ other =>
    generalize rowsIn columns = rows at *
    subst fields_eq columns_eq
    exact other (forall₂_at suits before.length_eq).2

/-- What a check of the columns finds. -/
theorem checkFields_outcome (c : Column) (i : Nat) (count : fields.length = columns.length) :
    (List.Forall₂ (Suits c.len) fields columns ∧ c.checkFields i fields columns = .ok ()) ∨
      ∃ fs f gs cs d ds, fields = fs ++ f :: gs ∧ columns = cs ++ d :: ds ∧
        List.Forall₂ (Suits c.len) fs cs ∧
        ((d.type ≠ f.type ∧ c.checkFields i fields columns =
            (Defect.childType (i + fs.length) c.type d.type f.type).refuse) ∨
          (d.type = f.type ∧ d.len ≠ c.len ∧ c.checkFields i fields columns =
            (Defect.fieldLength f.name d.len c.len).refuse)) := by
  induction fields generalizing i columns with
  | nil =>
    obtain rfl := List.length_eq_zero_iff.1 count.symm
    exact .inl ⟨.nil, rfl⟩
  | cons f fields ih =>
    cases columns with
    | nil => cases count
    | cons d columns =>
      rw [checkFields, checkChildType]
      by_cases type : d.type = f.type
      · by_cases len : d.len = c.len
        · rw [if_pos type, if_pos len, ok_bind]
          -- the first column suits, so the outcome is that of the others
          rcases ih (i + 1) (by simpa using count) with ⟨suits, ok⟩ | ⟨fs, f', gs, cs, d', ds, rest⟩
          · exact .inl ⟨.cons ⟨type, len⟩ suits, ok⟩
          · obtain ⟨rfl, rfl, before, found⟩ := rest
            refine .inr ⟨f :: fs, f', gs, d :: cs, d', ds, rfl, rfl, .cons ⟨type, len⟩ before, ?_⟩
            rw [List.length_cons, Nat.add_comm fs.length, ← Nat.add_assoc]
            exact found
        · rw [if_pos type, if_neg len]
          exact .inr ⟨[], f, fields, [], d, columns, rfl, rfl, .nil, .inr ⟨type, len, rfl⟩⟩
      · rw [if_neg type]
        exact .inr ⟨[], f, fields, [], d, columns, rfl, rfl, .nil, .inl ⟨type, rfl⟩⟩

/-! ### The column that is made -/

/-- The struct of the columns, with the null slots that the bitmap tells. -/
def assembled (fields : List Field) (columns : List Column) (validity : Option Buffer) : Column :=
  let c : Column := ⟨.struct fields, rowsIn columns, 0, 0, [validity], columns, none⟩
  { c with nulls := c.nullSlots }

/-- The row is null by the bitmap. -/
def nullIn (validity : Option Buffer) (i : Nat) : Bool :=
  match validity with
  | some b => !b.bytes.testBit i
  | none => false

theorem nullAt_assembled (i : Nat) :
    (assembled fields columns validity).nullAt i = nullIn validity i := by
  cases validity with
  | none => rfl
  | some b =>
    have struct : (assembled fields columns (some b)).type ≠ .null := DataType.noConfusion
    rw [nullAt_of_some struct rfl, nullIn]
    exact congrArg (fun k => !b.bytes.testBit k) (Nat.zero_add i)

theorem buffersFit_assembled (covers : Covers validity (rowsIn columns)) :
    (assembled fields columns validity).BuffersFit := by
  intro slot kind listed
  cases slot with
  | zero =>
    cases listed
    cases validity with
    | none => exact .inl ⟨rfl, rfl⟩
    | some b =>
      refine .inr ⟨b, rfl, ?_⟩
      show 0 + rowsIn columns ≤ 8 * b.size
      rw [Nat.zero_add, ← bytesFor_le_iff]
      exact covers b rfl
  | succ slot => cases listed

theorem validate_assembled (count : fields.length = columns.length)
    (covers : Covers validity (rowsIn columns)) :
    (assembled fields columns validity).validate =
      (assembled fields columns validity).checkFields 0 fields columns := by
  have fit : (assembled fields columns validity).BuffersFit := buffersFit_assembled covers
  have bufferCount : (assembled fields columns validity).buffers.length =
      (assembled fields columns validity).type.layout.buffers.length := rfl
  have few :
      ¬ (assembled fields columns validity).len < (assembled fields columns validity).nulls :=
    Nat.not_lt.2 nullSlots_le
  have buffers : (assembled fields columns validity).checkBuffers 0
      (assembled fields columns validity).type.layout.buffers = .ok () := by
    refine (checkBuffers_decides 0 _).ok_iff.2 ?_
    intro slot kind listed
    rw [Nat.zero_add]
    exact fit slot kind listed
  have nulls : (assembled fields columns validity).checkNulls = .ok () :=
    (checkNulls_decides fit).ok_iff.2 rfl
  have children : (assembled fields columns validity).checkChildren =
      (assembled fields columns validity).checkFields 0 fields columns := by
    rw [checkChildren]
    exact if_neg (not_not.2 count.symm)
  have text : (assembled fields columns validity).type ≠ .utf8 := DataType.noConfusion
  rw [validate, if_neg (not_not.2 bufferCount), if_neg few, buffers, nulls, children, if_neg text]
  cases (assembled fields columns validity).checkFields 0 fields columns <;> rfl

theorem validateFull_eq (c : Column) :
    c.validateFull = (c.validate >>= fun _ => validateAll c.children >>= fun _ =>
      validateDictionary c.dictionary) := by
  cases c
  rfl

/-- Where the bitmap is long enough and the columns are valid, all that is left is to check them
against the fields. -/
theorem validateFull_assembled (count : fields.length = columns.length)
    (covers : Covers validity (rowsIn columns)) (below : ∀ d ∈ columns, d.Everywhere Accepted) :
    (assembled fields columns validity).validateFull =
      (assembled fields columns validity).checkFields 0 fields columns := by
  have each : validateAll (assembled fields columns validity).children = .ok () :=
    (validateAll_decides columns).ok_iff.2 below
  rw [validateFull_eq, validate_assembled count covers, each]
  cases (assembled fields columns validity).checkFields 0 fields columns <;> rfl

theorem make_eq (covers : Covers validity (rowsIn columns)) :
    make (.struct fields) (rowsIn columns) 0 none [validity] columns none =
      ((assembled fields columns validity).validateFull >>= fun _ =>
        .ok (assembled fields columns validity)) := by
  have bufferCount : [validity].length = (DataType.struct fields).layout.buffers.length := rfl
  have bitmap : checkValidity (rowsIn columns) 0 [validity].head?.join = .ok () := by
    cases validity with
    | none => rfl
    | some b =>
      show (if b.size < bytesFor (0 + rowsIn columns) then _ else _) = _
      rw [Nat.zero_add]
      exact if_neg (Nat.not_lt.2 (covers b rfl))
  have fit : (assembled fields columns validity).BuffersFit := buffersFit_assembled covers
  have counted : countNulls (.struct fields) (rowsIn columns) 0 [validity] =
      .ok (assembled fields columns validity).nullSlots := countNulls_eq fit
  rw [make, if_neg (not_not.2 bufferCount), bitmap, ofParts, counted]
  rfl

theorem make_short {b : Buffer} (short : b.size < bytesFor (rowsIn columns)) :
    make (.struct fields) (rowsIn columns) 0 none [some b] columns none =
      (Defect.validityTooShort b.size (rowsIn columns) 0 (bytesFor (rowsIn columns))).refuse := by
  have bufferCount : [some b].length = (DataType.struct fields).layout.buffers.length := rfl
  have refused : checkValidity (rowsIn columns) 0 [some b].head?.join =
      (Defect.validityTooShort b.size (rowsIn columns) 0 (bytesFor (rowsIn columns))).refuse := by
    show (if b.size < bytesFor (0 + rowsIn columns) then _ else _) = _
    rw [Nat.zero_add]
    exact if_pos short
  rw [make, if_neg (not_not.2 bufferCount), refused]
  rfl

/-! ### What the struct shows -/

/-- The struct column `c` shows the columns, row by row and by the names of their fields. -/
structure Shows (fields : List Field) (columns : List Column) (c : Column) (us : List View) :
    Prop where
  view : View.ofColumn c = .ok (.struct c us)
  /-- Each column is seen as it is on its own, at whatever offset its rows begin. -/
  columns : List.Forall₂ (fun d u => View.ofColumn d = .ok u) columns us
  /-- A row that is not null has a value from every column. -/
  row : ∀ i, i < c.len → c.nullAt i = false →
    ∃ values, (View.struct c us).slot i = .ok (.struct values) ∧
      List.Forall₂ (fun u value => View.slot u i = .ok value) us values
  null_row : ∀ i, i < c.len → c.nullAt i = true → (View.struct c us).slot i = .ok .null
  /-- A column has the name of its field, and no column has another name. -/
  index : ∀ {name : String} {j : Nat}, (View.struct c us).columnIndex? name = .ok (some j) ↔
    fields[j]?.map Field.name = some name
  named : ∀ {name : String} {j : Nat}, fields[j]?.map Field.name = some name →
    (View.struct c us).column? name = .ok us[j]?
  unnamed : ∀ {name : String}, name ∉ fields.map Field.name →
    (View.struct c us).column? name = .ok none

/-- `c` is a struct of the columns. -/
structure Assembles (fields : List Field) (columns : List Column) (validity : Option Buffer)
    (c : Column) : Prop where
  type : c.type = .struct fields
  len : c.len = rowsIn columns
  offset : c.offset = 0
  children : c.children = columns
  valid : c.validateFull = .ok ()
  isNull : ∀ i, i < c.len → c.isNull i = .ok (nullIn validity i)
  shows : ∃ us, Shows fields columns c us

/-- Columns that are viewed one by one have a value each. -/
theorem slots_each {us : List View} {i : Nat}
    (viewed : List.Forall₂ (fun d u => View.ofColumn d = .ok u) columns us)
    (accepted : ∀ d ∈ columns, d.Everywhere Accepted) (inside : ∀ d ∈ columns, i < d.len) :
    List.Forall₂ (fun u value => View.slot u i = .ok value) us (slotOfEach columns i) := by
  induction viewed with
  | nil => exact .nil
  | @cons d u ds us first _ ih =>
    refine .cons (View.slot_eq (accepted d (.head _)) first (inside d (.head _))) (ih ?_ ?_)
    · exact fun e he => accepted e (.tail _ he)
    · exact fun e he => inside e (.tail _ he)

theorem columnIndex?_eq {us : List View} (type : c.type = .struct fields) (name : String) :
    (View.struct c us).columnIndex? name =
      match Field.index? name fields with
      | some j => if j < us.length then .ok (some j) else .error .outOfRange
      | none => .ok none := by
  rw [View.columnIndex?]
  simp only [View.data, type, View.columns]
  rfl

theorem shows_assembled (distinct : (fields.map Field.name).Nodup)
    (accepted : (assembled fields columns validity).Everywhere Accepted) :
    ∃ us, Shows fields columns (assembled fields columns validity) us := by
  have below : ∀ d ∈ columns, d.Everywhere Accepted := fun d hd => accepted.child hd
  obtain ⟨us, each⟩ := View.ofEach_ok columns below
  have viewed := View.ofEach_eq_ok each
  have view : View.ofColumn (assembled fields columns validity) =
      .ok (.struct (assembled fields columns validity) us) := by
    rw [View.ofColumn_eq]
    show (View.ofEach columns >>= _) = _
    rw [each]
    rfl
  obtain ⟨types, rows⟩ : columns.map Column.type = fields.map Field.type ∧
      ∀ d ∈ columns, d.len = rowsIn columns := accepted.here.children
  have length : us.length = fields.length := by
    rw [← viewed.length_eq]
    simpa using congrArg List.length types
  have index (name : String) : (View.struct (assembled fields columns validity) us).columnIndex?
      name = .ok (Field.index? name fields) := by
    rw [columnIndex?_eq rfl]
    cases found : Field.index? name fields with
    | none => rfl
    | some j =>
      have known : j < fields.length := (List.findIdx?_eq_some_iff_getElem.1 found).1
      exact if_pos (length ▸ known)
  refine ⟨us, view, viewed, ?_, ?_, ?_, ?_, ?_⟩
  · intro i hi valid
    refine ⟨slotOfEach columns i, ?_, slots_each viewed below fun d hd => (rows d hd).symm ▸ hi⟩
    rw [View.slot_eq accepted view hi, slotAt, orNull, valid]
    rfl
  · intro i hi null
    rw [View.slot_eq accepted view hi, slotAt, orNull, null]
    rfl
  · intro name j
    rw [index, Except.ok.injEq, Field.index?_eq_some_iff distinct]
  · intro name j named
    rw [View.column?, index, (Field.index?_eq_some_iff distinct).2 named]
    rfl
  · intro name other
    have missing : Field.index? name fields = none := by
      refine List.findIdx?_eq_none_iff.2 fun f hf => decide_eq_false ?_
      rintro rfl
      exact other (List.mem_map_of_mem hf)
    rw [View.column?, index, missing]
    rfl

theorem assembles_assembled (distinct : (fields.map Field.name).Nodup)
    (covers : Covers validity (rowsIn columns))
    (valid : (assembled fields columns validity).validateFull = .ok ()) :
    Assembles fields columns validity (assembled fields columns validity) where
  type := rfl
  len := rfl
  offset := rfl
  children := rfl
  valid := valid
  isNull i hi := by rw [isNull_eq (buffersFit_assembled covers) hi, nullAt_assembled]
  shows := shows_assembled distinct (accepted_of_validateFull valid)

/-! ### What comes of the parts -/

/-- What comes of putting columns together. -/
inductive Assembly (fields : List Field) (columns : List Column) (validity : Option Buffer) :
    Except Fault Column → Prop where
  | columnCount (differ : fields.length ≠ columns.length) :
      Assembly fields columns validity (Refusal.columnCount fields.length columns.length).refuse
  /-- The first field that has the name of an earlier one. -/
  | duplicateField {before after : List Field} {f : Field} (count : fields.length = columns.length)
      (fields_eq : fields = before ++ f :: after) (distinct : (before.map Field.name).Nodup)
      (repeats : f.name ∈ before.map Field.name) :
      Assembly fields columns validity (Refusal.duplicateField f.name).refuse
  | misfit {d : Defect} (count : fields.length = columns.length)
      (distinct : (fields.map Field.name).Nodup) (found : Misfit fields columns validity d) :
      Assembly fields columns validity d.refuse
  | made {c : Column} (distinct : (fields.map Field.name).Nodup)
      (covers : Covers validity (rowsIn columns))
      (suits : List.Forall₂ (Suits (rowsIn columns)) fields columns)
      (assembles : Assembles fields columns validity c) :
      Assembly fields columns validity (.ok c)

theorem structOf_eq (count : fields.length = columns.length)
    (distinct : (fields.map Field.name).Nodup) :
    structOf fields columns validity =
      make (.struct fields) (rowsIn columns) 0 none [validity] columns none := by
  have none : Field.duplicate? [] fields = none :=
    Field.duplicate?_eq_none_iff.2 ⟨distinct, fun _ _ => List.not_mem_nil⟩
  rw [structOf, if_neg (not_not.2 count), DataType.tryStructOf, none]
  rfl

theorem structOf_assembly (valid : ∀ c ∈ columns, c.validateFull = .ok ()) :
    Assembly fields columns validity (structOf fields columns validity) := by
  have below : ∀ c ∈ columns, c.Everywhere Accepted :=
    fun c hc => accepted_of_validateFull (valid c hc)
  by_cases count : fields.length = columns.length
  swap
  · rw [structOf, if_pos count]
    exact .columnCount count
  cases repeated : Field.duplicate? [] fields with
  | some f =>
    obtain ⟨before, after, fields_eq, distinct, -, old | repeats⟩ :=
      Field.duplicate?_eq_some repeated
    · cases old
    rw [structOf, if_neg (not_not.2 count), DataType.tryStructOf, repeated]
    exact .duplicateField count fields_eq distinct repeats
  | none =>
    have distinct := (Field.duplicate?_eq_none_iff.1 repeated).1
    rw [structOf_eq count distinct]
    by_cases covers : Covers validity (rowsIn columns)
    · rw [make_eq covers, validateFull_assembled count covers below]
      rcases (assembled fields columns validity).checkFields_outcome 0 count with
        ⟨suits, ok⟩ | ⟨fs, f, gs, cs, d, ds, fields_eq, columns_eq, before, found⟩
      · rw [ok]
        exact .made distinct covers suits (assembles_assembled distinct covers
          ((validateFull_assembled count covers below).trans ok))
      · rcases found with ⟨other, refused⟩ | ⟨same, other, refused⟩
        · rw [refused, Nat.zero_add]
          exact .misfit count distinct (.type covers fields_eq columns_eq before other)
        · rw [refused]
          exact .misfit count distinct (.rows covers fields_eq columns_eq before same other)
    · obtain ⟨b, rfl, short⟩ : ∃ b, validity = some b ∧ b.size < bytesFor (rowsIn columns) := by
        simpa [Covers] using covers
      rw [make_short short]
      exact .misfit count distinct (.bitmap rfl short)

namespace Assembly

variable {outcome : Except Fault Column}

theorem count_iff (assembly : Assembly fields columns validity outcome) :
    outcome = (Refusal.columnCount fields.length columns.length).refuse ↔
      fields.length ≠ columns.length := by
  cases assembly with
  | columnCount differ => exact iff_of_true rfl differ
  | duplicateField count => exact iff_of_false (by simp [Refusal.refuse]) (not_not.2 count)
  | misfit count =>
    exact iff_of_false (by simp [Refusal.refuse, Defect.refuse]) (not_not.2 count)
  | made _ _ suits =>
    exact iff_of_false (by simp [Refusal.refuse]) (not_not.2 suits.length_eq)

theorem name_iff (assembly : Assembly fields columns validity outcome) :
    (∃ name, outcome = (Refusal.duplicateField name).refuse) ↔
      fields.length = columns.length ∧ ¬ (fields.map Field.name).Nodup := by
  cases assembly with
  | columnCount differ =>
    exact iff_of_false (by simp [Refusal.refuse]) fun ⟨count, _⟩ => differ count
  | @duplicateField before after f count fields_eq _ repeats =>
    exact iff_of_true ⟨f.name, rfl⟩ ⟨count, fields_eq ▸ Field.not_nodup_of_repeats repeats⟩
  | misfit _ distinct =>
    exact iff_of_false (by simp [Refusal.refuse, Defect.refuse]) fun ⟨_, twice⟩ => twice distinct
  | made distinct =>
    exact iff_of_false (by simp [Refusal.refuse]) fun ⟨_, twice⟩ => twice distinct

theorem defect_iff (assembly : Assembly fields columns validity outcome) :
    (∃ d : Defect, outcome = d.refuse) ↔
      fields.length = columns.length ∧ (fields.map Field.name).Nodup ∧
        ¬ (Covers validity (rowsIn columns) ∧
          List.Forall₂ (Suits (rowsIn columns)) fields columns) := by
  cases assembly with
  | columnCount differ =>
    exact iff_of_false (by simp [Refusal.refuse, Defect.refuse]) fun ⟨count, _⟩ => differ count
  | duplicateField _ fields_eq _ repeats =>
    refine iff_of_false (by simp [Refusal.refuse, Defect.refuse]) fun ⟨_, distinct, _⟩ => ?_
    exact Field.not_nodup_of_repeats repeats (fields_eq ▸ distinct)
  | @misfit d count distinct found =>
    refine iff_of_true ⟨d, rfl⟩ ⟨count, distinct, ?_⟩
    exact fun ⟨covers, suits⟩ => found.not_suits covers suits
  | made _ covers suits =>
    exact iff_of_false (by simp [Defect.refuse]) fun ⟨_, _, wrong⟩ => wrong ⟨covers, suits⟩

theorem ok_iff (assembly : Assembly fields columns validity outcome) :
    (∃ c, outcome = .ok c) ↔ (fields.map Field.name).Nodup ∧ Covers validity (rowsIn columns) ∧
      List.Forall₂ (Suits (rowsIn columns)) fields columns := by
  constructor
  · rintro ⟨c, rfl⟩
    cases assembly with
    | made distinct covers suits _ => exact ⟨distinct, covers, suits⟩
  · rintro ⟨distinct, covers, suits⟩
    cases assembly with
    | columnCount differ => exact absurd suits.length_eq differ
    | duplicateField _ fields_eq _ repeats =>
      exact absurd (fields_eq ▸ distinct) (Field.not_nodup_of_repeats repeats)
    | misfit _ _ found => exact absurd suits (found.not_suits covers)
    | made => exact ⟨_, rfl⟩

end Assembly

/-- **What comes of valid columns**, whatever the fields and the bitmap: one of the outcomes, and
each of them exactly where the checks before it pass and its own one does not.  The program comes to
the same wherever no size loses a digit. -/
theorem structOf_exact (valid : ∀ c ∈ columns, c.validateFull = .ok ()) :
    Assembly fields columns validity (structOf fields columns validity) ∧
      (structOf fields columns validity =
          (Refusal.columnCount fields.length columns.length).refuse ↔
        fields.length ≠ columns.length) ∧
      ((∃ name, structOf fields columns validity = (Refusal.duplicateField name).refuse) ↔
        fields.length = columns.length ∧ ¬ (fields.map Field.name).Nodup) ∧
      ((∃ d : Defect, structOf fields columns validity = d.refuse) ↔
        fields.length = columns.length ∧ (fields.map Field.name).Nodup ∧
          ¬ (Covers validity (rowsIn columns) ∧
            List.Forall₂ (Suits (rowsIn columns)) fields columns)) ∧
      ((∃ c, structOf fields columns validity = .ok c) ↔
        (fields.map Field.name).Nodup ∧ Covers validity (rowsIn columns) ∧
          List.Forall₂ (Suits (rowsIn columns)) fields columns) ∧
      ((∀ c ∈ columns, c.Everywhere InRange) →
        structOf fields columns validity .wrapping = structOf fields columns validity) := by
  have assembly : Assembly fields columns validity (structOf fields columns validity) :=
    structOf_assembly valid
  exact ⟨assembly, assembly.count_iff, assembly.name_iff, assembly.defect_iff, assembly.ok_iff,
    structOf_sizes⟩

/-- Two columns of two rows, of which the numbers begin behind the first value of their buffer. -/
def specimenColumns : List Column :=
  let buffer (bytes : List UInt8) : Option Buffer := some (.ofBytes bytes.toArray false)
  [⟨.num (.int .int8), 2, 1, 0, [none, buffer [5, 6, 7]], [], none⟩,
    ⟨.bool, 2, 0, 1, [buffer [1], buffer [3]], [], none⟩]

def specimenFields : List Field :=
  [⟨"count", .num (.int .int8), false, []⟩, ⟨"seen", .bool, true, []⟩]

/-- The second row is null. -/
def specimenBitmap : Option Buffer := some (.ofBytes #[1] false)

theorem structOf_exact_specimen :
    (∀ c ∈ specimenColumns, c.validateFull = .ok ()) ∧
      Assembly specimenFields specimenColumns specimenBitmap
        (structOf specimenFields specimenColumns specimenBitmap) ∧
      (∀ c ∈ specimenColumns, c.Everywhere InRange) ∧
      ∃ c, structOf specimenFields specimenColumns specimenBitmap .wrapping = .ok c := by
  have valid : ∀ c ∈ specimenColumns, c.validateFull = .ok () := by decide
  have range : ∀ c ∈ specimenColumns, c.Everywhere InRange := by decide
  refine ⟨valid, (structOf_exact valid).1, range, ?_⟩
  rw [(structOf_exact valid).2.2.2.2.2 range]
  refine (structOf_exact valid).2.2.2.2.1.2 ⟨by decide, ?_, ?_⟩
  · rintro b ⟨⟩
    decide
  · exact .cons ⟨rfl, rfl⟩ (.cons ⟨rfl, rfl⟩ .nil)

example : (do (← View.ofColumn (← structOf specimenFields specimenColumns specimenBitmap)).slots) =
    .ok [.struct [.num (.int .int8) 6, .bool true], .null] := rfl

end Column

end Columnar
