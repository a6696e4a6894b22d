import Columnar.Proofs.Building.Finishing

/-!
# The contents that values leave

`Contents.ofValues t vs` is what a builder of type `t` holds once the values `vs` have been
appended to it and nothing else: the children of lists and maps hold the rows of all slots end to
end, those of fixed-size lists and structs have padding behind null slots.  For values of the type
it meets every condition of finishing but the one on size, and its slots are the values again
(`Contents.slots_ofValues`).
-/

namespace Columnar

/-! ### What is stored for a value -/

namespace Value

/-- The value bit of a slot, which is clear behind a null. -/
def bit : Value → Bool
  | .bool b => b
  | _ => false

/-- The word of a slot, which is zero behind a null. -/
def word : Value → Nat
  | .num _ word => word
  | _ => 0

/-- The bytes of a slot, of which a null has none. -/
def run : Value → List UInt8
  | .text bytes | .binary bytes => bytes.toList
  | _ => []

/-- The rows of a list, of which a null has none. -/
def items : Value → List Value
  | .list items => items
  | _ => []

/-- The rows of a list of `size` rows, which are null behind a null. -/
def itemsOr (size : Nat) : Value → List Value
  | .list items => items
  | _ => List.replicate size .null

/-- The columns of a struct. -/
def columns : Value → List Value
  | .struct columns => columns
  | _ => []

/-- The entries of a map, of which a null has none. -/
def entries : Value → List (Value × Value)
  | .map entries => entries
  | _ => []

/-- The values that are not null. -/
def validities (vs : List Value) : List Bool := vs.map fun v => !v.isNull

end Value

/-! ### Values of a type -/

namespace Value

variable {v : Value} {vs : List Value} {t key item : DataType} {fields : List Field}

theorem areOf_iff : areOf vs t = true ↔ ∀ v ∈ vs, v.isOf t = true := by
  induction vs with
  | nil => simp [areOf]
  | cons v vs ih => simp [areOf, ih]

theorem areEntriesOf_iff {es : List (Value × Value)} :
    areEntriesOf es key item = true ↔
      ∀ e ∈ es, e.1.isNull = false ∧ e.1.isOf key = true ∧ e.2.isOf item = true := by
  induction es with
  | nil => simp [areEntriesOf]
  | cons e es ih =>
    obtain ⟨k, v⟩ := e
    rw [List.forall_mem_cons, ← ih]
    cases k <;> simp [areEntriesOf, isNull, and_assoc]

theorem isOf_null (h : v.isOf .null = true) : v = .null := by
  cases v <;> first | rfl | cases h

/-- A dictionary type has no values but null. -/
theorem isOf_dictionary {index : IntType} {ordered : Bool}
    (h : v.isOf (.dictionary index t ordered) = true) : v = .null := by
  cases v <;> first | rfl | cases h

theorem items_isOf (h : v.isOf (.list t) = true) : ∀ w ∈ v.items, w.isOf t = true := by
  cases v <;> first | exact areOf_iff.1 h | simp [items]

theorem itemsOr_isOf {size : Nat} (h : v.isOf (.fixedList size t) = true) :
    (v.itemsOr size).length = size ∧ ∀ w ∈ v.itemsOr size, w.isOf t = true := by
  cases v with
  | list items =>
    simp only [isOf, Bool.and_eq_true, decide_eq_true_eq] at h
    exact ⟨h.1, areOf_iff.1 h.2⟩
  | null =>
    refine ⟨List.length_replicate, fun w hw => ?_⟩
    rw [(List.mem_replicate.1 hw).2]
    rfl
  | _ => cases h

theorem entries_isOf {sorted : Bool} (h : v.isOf (.map key item sorted) = true) :
    ∀ e ∈ v.entries, e.1.isNull = false ∧ e.1.isOf key = true ∧ e.2.isOf item = true := by
  cases v <;> first | exact areEntriesOf_iff.1 h | simp [entries]

theorem columns_isOf (h : v.isOf (.struct fields) = true) :
    v.columns = [] ∨ areOfEach v.columns fields = true := by
  cases v <;> first | exact .inl rfl | exact .inr h

theorem areOfEach_cons {f : Field} {row : List Value} (h : areOfEach row (f :: fields) = true) :
    (row.headD .null).isOf f.type = true ∧ areOfEach row.tail fields = true ∧
      row.headD .null :: row.tail = row := by
  cases row with
  | nil => cases h
  | cons v row =>
    rw [areOfEach, Bool.and_eq_true] at h
    exact ⟨h.1, h.2, rfl⟩

/-- Rows of a struct, as the values of its first field and the rows of the others. -/
theorem rows_cons {f : Field} {rows : List (List Value)}
    (h : ∀ row ∈ rows, row = [] ∨ areOfEach row (f :: fields) = true) :
    (∀ v ∈ rows.map (·.headD .null), v.isOf f.type = true) ∧
      ∀ row ∈ rows.map List.tail, row = [] ∨ areOfEach row fields = true := by
  constructor
  · refine List.forall_mem_map.2 fun row hrow => ?_
    rcases h row hrow with rfl | typed
    · rfl
    · exact (areOfEach_cons typed).1
  · refine List.forall_mem_map.2 fun row hrow => ?_
    rcases h row hrow with rfl | typed
    · exact .inl rfl
    · exact .inr (areOfEach_cons typed).2.1

/-- The value is put together again from what a type stores for it. -/
def IsStored (v : Value) : DataType → Prop
  | .bool => .bool v.bit = v
  | .num t => .num t (v.word % Bytes.wordRange t.width) = v
  | .utf8 => .text v.run.toArray = v
  | .binary => .binary v.run.toArray = v
  | .list _ => .list v.items = v
  | .fixedList size _ => .list (v.itemsOr size) = v
  | .struct fields => .struct v.columns = v ∧ areOfEach v.columns fields = true
  | .map _ _ _ => .map v.entries = v
  | _ => False

/-- Values are stored, apart from nulls. -/
theorem isStored (h : v.isOf t = true) (valid : v.isNull = false) : v.IsStored t := by
  cases v with
  | null => cases valid
  | num t' word =>
    cases t with
    | num t =>
      simp only [isOf, Bool.and_eq_true, decide_eq_true_eq] at h
      obtain ⟨rfl, small⟩ := h
      exact congrArg (num t') (Nat.mod_eq_of_lt small)
    | _ => cases h
  | _ =>
    cases t with
    | struct => first | exact ⟨rfl, h⟩ | cases h
    | _ => first | rfl | cases h

theorem eq_null (null : v.isNull = true) : v = .null := by
  cases v <;> first | rfl | cases null

end Value

namespace Builder

namespace Contents

open Value (validities)

mutual

/-- What the values leave in a builder of the type. -/
def ofValues : DataType → List Value → Contents
  | .null, vs => .null vs.length
  | .bool, vs => .bool (validities vs) (vs.map Value.bit)
  | .num t, vs => .num t (validities vs) (vs.map Value.word)
  | .utf8, vs => .bytes .utf8 (validities vs) (vs.map Value.run)
  | .binary, vs => .bytes .binary (validities vs) (vs.map Value.run)
  | .list elem, vs =>
    .list (validities vs) (startsOf (vs.map Value.items)) (ofValues elem (vs.flatMap Value.items))
  | .fixedList size elem, vs =>
    .fixedList (validities vs) size (ofValues elem (vs.flatMap (Value.itemsOr size)))
  | .struct fields, vs => .struct (validities vs) fields (ofRows fields (vs.map Value.columns))
  | .map key item sorted, vs =>
    .map (validities vs) (startsOf (vs.map Value.entries))
      (ofValues key ((vs.flatMap Value.entries).map Prod.fst))
      (ofValues item ((vs.flatMap Value.entries).map Prod.snd)) sorted
  | .dictionary _ _ _, vs => .null vs.length

/-- What the values leave in the builder of a field. -/
def ofColumn : Field → List Value → Contents
  | ⟨_, type, _, _⟩, vs => ofValues type vs

/-- What the rows leave in the builders of fields.  A row that is too short is null past its end. -/
def ofRows : List Field → List (List Value) → List Contents
  | [], _ => []
  | f :: fs, rows => ofColumn f (rows.map (·.headD .null)) :: ofRows fs (rows.map List.tail)

end

theorem ofColumn_eq (f : Field) (vs : List Value) : ofColumn f vs = ofValues f.type vs := by
  cases f
  rfl

/-! ### Lengths -/

@[simp] theorem len_ofValues (t : DataType) (vs : List Value) :
    (ofValues t vs).len = vs.length := by
  cases t <;> simp [ofValues, len, validities]

theorem len_ofRows (fields : List Field) (rows : List (List Value)) :
    ∀ x ∈ ofRows fields rows, x.len = rows.length := by
  induction fields generalizing rows with
  | nil => exact nofun
  | cons f fs ih =>
    rw [ofRows, ofColumn_eq]
    refine List.forall_mem_cons.2 ⟨by simp, fun x hx => ?_⟩
    rw [ih _ x hx, List.length_map]

/-! ### Types -/

/-- The type of what values leave does not depend on the values. -/
theorem type_ofValues : (t : DataType) → (vs ws : List Value) →
    (ofValues t vs).type = (ofValues t ws).type
  | .null, _, _ | .bool, _, _ | .num _, _, _ | .utf8, _, _ | .binary, _, _ | .struct _, _, _
  | .dictionary _ _ _, _, _ => rfl
  | .list elem, _, _ => congrArg DataType.list (type_ofValues elem _ _)
  | .fixedList size elem, _, _ => congrArg (DataType.fixedList size) (type_ofValues elem _ _)
  | .map key item sorted, vs, ws => by
    have keys := type_ofValues key ((vs.flatMap Value.entries).map Prod.fst)
      ((ws.flatMap Value.entries).map Prod.fst)
    have items := type_ofValues item ((vs.flatMap Value.entries).map Prod.snd)
      ((ws.flatMap Value.entries).map Prod.snd)
    rw [ofValues, type, keys, items]
    rfl

theorem types_ofRows (fields : List Field) (rows rows' : List (List Value)) :
    (ofRows fields rows).map type = (ofRows fields rows').map type := by
  induction fields generalizing rows rows' with
  | nil => rfl
  | cons f fs ih =>
    rw [ofRows, ofRows, ofColumn_eq, ofColumn_eq, List.map_cons, List.map_cons, ih _ (rows'.map _),
      type_ofValues]

theorem count_validities (vs : List Value) :
    (validities vs).count false = vs.countP Value.isNull := by
  rw [validities, List.count_eq_countP, List.countP_map]
  refine List.countP_congr fun v _ => ?_
  rw [Function.comp_apply]
  cases v.isNull <;> decide

/-! ### One value more -/

theorem starts_append {α : Type} (f : Value → List α) (vs : List Value) (v : Value) :
    startsOf ((vs ++ [v]).map f) = startsOf (vs.map f) ++ [(vs.flatMap f).length] := by
  rw [List.map_append, List.map_singleton, startsOf_append, List.flatMap_def]

theorem starts_append_nulls {α : Type} {f : Value → List α} (none : f .null = []) (vs : List Value)
    (n : Nat) :
    startsOf ((vs ++ List.replicate n Value.null).map f) =
      startsOf (vs.map f) ++ List.replicate n (vs.flatMap f).length := by
  induction n generalizing vs with
  | zero => simp
  | succ n ih =>
    rw [List.replicate_succ, List.append_cons, ih, starts_append, List.append_cons,
      List.replicate_succ, List.append_cons, List.flatMap_append]
    simp [none]

theorem flatMap_nulls {α : Type} {f : Value → List α} (none : f .null = []) (vs : List Value)
    (n : Nat) : (vs ++ List.replicate n Value.null).flatMap f = vs.flatMap f := by
  rw [List.flatMap_append, List.flatMap_replicate, none]
  simp

mutual

/-- Null slots more are null values more. -/
theorem appendNulls_ofValues : (t : DataType) → (vs : List Value) → (n : Nat) →
    (ofValues t vs).appendNulls n = ofValues t (vs ++ List.replicate n Value.null)
  | .null, vs, n | .dictionary _ _ _, vs, n => by simp [ofValues, appendNulls]
  | .bool, vs, n | .num _, vs, n | .utf8, vs, n | .binary, vs, n => by
    simp [ofValues, appendNulls, validities, Value.isNull, Value.bit, Value.word, Value.run]
  | .list elem, vs, n => by
    rw [ofValues, appendNulls, ofValues, starts_append_nulls rfl, flatMap_nulls rfl, len_ofValues]
    simp [validities, Value.isNull]
  | .fixedList size elem, vs, n => by
    have rows : (vs ++ List.replicate n Value.null).flatMap (Value.itemsOr size) =
        vs.flatMap (Value.itemsOr size) ++ List.replicate (n * size) Value.null := by
      have none : Value.itemsOr size .null = List.replicate size .null := rfl
      rw [List.flatMap_append, List.flatMap_replicate, none, List.flatten_replicate_replicate]
    rw [ofValues, appendNulls, ofValues, appendNulls_ofValues elem, rows]
    simp [validities, Value.isNull]
  | .struct fields, vs, n => by
    rw [ofValues, appendNulls, ofValues, appendNulls_ofRows fields]
    simp [validities, Value.isNull, Value.columns]
  | .map key item sorted, vs, n => by
    rw [ofValues, appendNulls, ofValues, starts_append_nulls rfl, flatMap_nulls rfl, len_ofValues]
    simp [validities, Value.isNull]

theorem appendNulls_ofColumn : (f : Field) → (vs : List Value) → (n : Nat) →
    (ofColumn f vs).appendNulls n = ofColumn f (vs ++ List.replicate n Value.null)
  | ⟨_, type, _, _⟩, vs, n => appendNulls_ofValues type vs n

theorem appendNulls_ofRows : (fields : List Field) → (rows : List (List Value)) → (n : Nat) →
    appendNullsToAll (ofRows fields rows) n = ofRows fields (rows ++ List.replicate n [])
  | [], _, _ => rfl
  | f :: fs, rows, n => by
    rw [ofRows, appendNullsToAll, ofRows, appendNulls_ofColumn f, appendNulls_ofRows fs]
    simp

end

/-! ### The slots are the values -/

theorem whereValid_eq {vs : List Value} {value : Nat → Value}
    (same : ∀ i (hi : i < vs.length), vs[i].isNull = false → value i = vs[i]) :
    whereValid (validities vs) value = vs := by
  apply List.ext_getElem
  · simp [whereValid, validities]
  · intro i hi hi'
    have valid : (validities vs).getD i false = !vs[i].isNull := by
      rw [List.getD_eq_getElem _ _ (by simpa [validities] using hi')]
      simp [validities]
    simp only [whereValid, List.getElem_map, List.getElem_range, valid]
    cases null : vs[i].isNull with
    | true => exact (Value.eq_null null).symm
    | false => exact same i hi' null

theorem getD_map {α : Type} (f : Value → α) (d : α) {vs : List Value} {i : Nat}
    (hi : i < vs.length) : (vs.map f).getD i d = f vs[i] := by
  rw [List.getD_eq_getElem _ _ (by simpa using hi), List.getElem_map]

/-- The rows of a slot are found again between the starts. -/
theorem runOf_starts {α : Type} (f : Value → List α) {vs : List Value} {i : Nat}
    (hi : i < vs.length) : runOf (startsOf (vs.map f)) (vs.flatMap f) i = f vs[i] := by
  have inside : i < (vs.map f).length := by simpa using hi
  rw [List.flatMap_def, runOf]
  simp only
  rw [bound_eq _ (Nat.le_of_lt inside), bound_eq _ inside, flatten_take_succ inside,
    List.length_append, Nat.add_sub_cancel_left, window_flatten inside, List.getElem_map]

/-- Rows of a fixed number each are found again at their place. -/
theorem window_flatMap {f : Value → List Value} {size : Nat} {vs : List Value}
    (even : ∀ v ∈ vs, (f v).length = size) {i : Nat} (hi : i < vs.length) :
    ((vs.flatMap f).drop (i * size)).take size = f vs[i] := by
  have inside : i < (vs.map f).length := by simpa using hi
  have before : ((vs.map f).take i).flatten.length = i * size := by
    rw [← List.map_take, ← List.flatMap_def, List.length_flatMap]
    rw [List.map_congr_left fun v hv => even v (List.mem_of_mem_take hv)]
    simp [Nat.min_eq_left (Nat.le_of_lt hi)]
  have window := window_flatten inside
  rwa [before, List.getElem_map, even _ (List.getElem_mem hi), ← List.flatMap_def] at window

mutual

/-- **The slots of what values leave are the values.** -/
theorem slots_ofValues : (t : DataType) → (vs : List Value) → (∀ v ∈ vs, v.isOf t = true) →
    (ofValues t vs).slots = vs
  | .null, vs, typed => by
    rw [ofValues, slots, eq_comm, List.eq_replicate_iff]
    exact ⟨rfl, fun v hv => Value.isOf_null (typed v hv)⟩
  | .dictionary _ _ _, vs, typed => by
    rw [ofValues, slots, eq_comm, List.eq_replicate_iff]
    exact ⟨rfl, fun v hv => Value.isOf_dictionary (typed v hv)⟩
  | .bool, vs, typed | .num _, vs, typed | .utf8, vs, typed | .binary, vs, typed => by
    refine whereValid_eq fun i hi valid => ?_
    rw [getD_map _ _ hi]
    exact Value.isStored (typed _ (List.getElem_mem hi)) valid
  | .list elem, vs, typed => by
    have rows := slots_ofValues elem (vs.flatMap Value.items) (List.forall_mem_flatMap.2
      fun v hv => Value.items_isOf (typed v hv))
    refine whereValid_eq fun i hi valid => ?_
    rw [rows, runOf_starts _ hi]
    exact Value.isStored (typed _ (List.getElem_mem hi)) valid
  | .fixedList size elem, vs, typed => by
    have rows := slots_ofValues elem (vs.flatMap (Value.itemsOr size)) (List.forall_mem_flatMap.2
      fun v hv => (Value.itemsOr_isOf (typed v hv)).2)
    refine whereValid_eq fun i hi valid => ?_
    rw [rows, window_flatMap (fun v hv => (Value.itemsOr_isOf (typed v hv)).1) hi]
    exact Value.isStored (typed _ (List.getElem_mem hi)) valid
  | .struct fields, vs, typed => by
    have rows := slots_ofRows fields (vs.map Value.columns)
      (List.forall_mem_map.2 fun v hv => Value.columns_isOf (typed v hv))
    refine whereValid_eq fun i hi valid => ?_
    obtain ⟨same, row⟩ := Value.isStored (typed _ (List.getElem_mem hi)) valid
    rw [rows i (by simpa using hi) (by rwa [List.getElem_map]), List.getElem_map]
    exact same
  | .map key item sorted, vs, typed => by
    have entries : ∀ e ∈ vs.flatMap Value.entries,
        e.1.isNull = false ∧ e.1.isOf key = true ∧ e.2.isOf item = true :=
      List.forall_mem_flatMap.2 fun v hv => Value.entries_isOf (typed v hv)
    have keys := slots_ofValues key ((vs.flatMap Value.entries).map Prod.fst)
      (List.forall_mem_map.2 fun e he => (entries e he).2.1)
    have items := slots_ofValues item ((vs.flatMap Value.entries).map Prod.snd)
      (List.forall_mem_map.2 fun e he => (entries e he).2.2)
    refine whereValid_eq fun i hi valid => ?_
    rw [keys, items, List.zip_map', List.map_id'' (fun _ => rfl), runOf_starts _ hi]
    exact Value.isStored (typed _ (List.getElem_mem hi)) valid

theorem slots_ofColumn : (f : Field) → (vs : List Value) → (∀ v ∈ vs, v.isOf f.type = true) →
    (ofColumn f vs).slots = vs
  | ⟨_, type, _, _⟩, vs, typed => slots_ofValues type vs typed

theorem slots_ofRows : (fields : List Field) → (rows : List (List Value)) →
    (∀ row ∈ rows, row = [] ∨ Value.areOfEach row fields = true) → ∀ i (hi : i < rows.length),
    Value.areOfEach rows[i] fields = true → slotOfEach (ofRows fields rows) i = rows[i]
  | [], rows, _, i, hi, row => by
    cases h : rows[i] with
    | nil => rfl
    | cons => rw [h] at row; cases row
  | f :: fs, rows, typed, i, hi, row => by
    obtain ⟨heads, tails⟩ := Value.rows_cons typed
    obtain ⟨-, rest, split⟩ := Value.areOfEach_cons row
    have first := slots_ofColumn f _ heads
    have others := slots_ofRows fs _ tails i (by simpa using hi) (by rwa [List.getElem_map])
    rw [ofRows, slotOfEach, first, others, List.getElem_map,
      List.getD_eq_getElem _ _ (by simpa using hi), List.getElem_map]
    exact split

end

/-! ### Conditions of finishing -/

/-- `P` holds of the contents that values of their type leave. -/
def OnValues (P : Contents → Prop) : Prop :=
  ∀ t vs, (∀ v ∈ vs, v.isOf t = true) → P (ofValues t vs)

mutual

/-- What holds of all contents that values of their type leave, holds of them at every depth. -/
theorem throughout_ofValues {P : Contents → Prop} (here : OnValues P) :
    (t : DataType) → (vs : List Value) → (∀ v ∈ vs, v.isOf t = true) →
    Throughout children P (ofValues t vs)
  | .null, vs, typed | .bool, vs, typed | .num _, vs, typed | .utf8, vs, typed
  | .binary, vs, typed | .dictionary _ _ _, vs, typed => .node (here _ vs typed) nofun
  | .list elem, vs, typed => by
    refine .node (here _ vs typed) (List.forall_mem_singleton.2 ?_)
    exact throughout_ofValues here elem _ (List.forall_mem_flatMap.2
      fun v hv => Value.items_isOf (typed v hv))
  | .fixedList size elem, vs, typed => by
    refine .node (here _ vs typed) (List.forall_mem_singleton.2 ?_)
    exact throughout_ofValues here elem _ (List.forall_mem_flatMap.2
      fun v hv => (Value.itemsOr_isOf (typed v hv)).2)
  | .struct fields, vs, typed => by
    refine .node (here _ vs typed) ?_
    exact throughout_ofRows here fields _ (List.forall_mem_map.2
      fun v hv => Value.columns_isOf (typed v hv))
  | .map key item sorted, vs, typed => by
    have entries : ∀ e ∈ vs.flatMap Value.entries,
        e.1.isNull = false ∧ e.1.isOf key = true ∧ e.2.isOf item = true :=
      List.forall_mem_flatMap.2 fun v hv => Value.entries_isOf (typed v hv)
    refine .node (here _ vs typed) (List.forall_mem_cons.2 ⟨?_, List.forall_mem_singleton.2 ?_⟩)
    · exact throughout_ofValues here key _ (List.forall_mem_map.2 fun e he => (entries e he).2.1)
    · exact throughout_ofValues here item _ (List.forall_mem_map.2 fun e he => (entries e he).2.2)

theorem throughout_ofColumn {P : Contents → Prop} (here : OnValues P) :
    (f : Field) → (vs : List Value) → (∀ v ∈ vs, v.isOf f.type = true) →
    Throughout children P (ofColumn f vs)
  | ⟨_, type, _, _⟩, vs, typed => throughout_ofValues here type vs typed

theorem throughout_ofRows {P : Contents → Prop} (here : OnValues P) :
    (fields : List Field) → (rows : List (List Value)) →
    (∀ row ∈ rows, row = [] ∨ Value.areOfEach row fields = true) →
    ∀ x ∈ ofRows fields rows, Throughout children P x
  | [], _, _ => nofun
  | f :: fs, rows, typed => by
    obtain ⟨heads, tails⟩ := Value.rows_cons typed
    exact List.forall_mem_cons.2 ⟨throughout_ofColumn here f _ heads,
      throughout_ofRows here fs _ tails⟩

end

variable {t : DataType} {vs ws : List Value} (typed : ∀ v ∈ vs, v.isOf t = true)

include typed in
theorem nulls_ofValues : (ofValues t vs).nulls = vs.countP Value.isNull := by
  cases t with
  | null | dictionary =>
    refine (List.countP_eq_length.2 fun v hv => ?_).symm
    have null := typed v hv
    cases v <;> first | rfl | cases null
  | _ => exact count_validities vs

include typed in
theorem even_ofValues : (ofValues t vs).Even := by
  refine throughout_ofValues (fun t vs typed => ?_) t vs typed
  cases t with
  | fixedList size elem =>
    have even : ∀ v ∈ vs, (v.itemsOr size).length = size :=
      fun v hv => (Value.itemsOr_isOf (typed v hv)).1
    rw [ofValues, EvenHere, len_ofValues, List.length_flatMap, List.map_congr_left even]
    simp [validities]
  | struct fields =>
    intro x hx
    rw [len_ofRows _ _ x hx]
    simp [validities]
  | map =>
    rw [ofValues, EvenHere, len_ofValues, len_ofValues, List.length_map, List.length_map]
  | _ => trivial

include typed in
theorem anchored_ofValues : (ofValues t vs).Anchored := by
  refine throughout_ofValues (fun t vs _ => ?_) t vs typed
  cases t with
  | list elem =>
    have within := StartsWithin.startsOf (vs.map Value.items)
    rwa [← List.flatMap_def, ← len_ofValues elem (vs.flatMap Value.items)] at within
  | map key item sorted =>
    have within := StartsWithin.startsOf (vs.map Value.entries)
    rwa [← List.flatMap_def, ← List.length_map Prod.fst, ← len_ofValues key] at within
  | _ => exact .nil _

include typed in
theorem keysFilled_ofValues : (ofValues t vs).KeysFilled := by
  refine throughout_ofValues (fun t vs typed => ?_) t vs typed
  cases t with
  | map key item sorted =>
    have entries : ∀ e ∈ vs.flatMap Value.entries,
        e.1.isNull = false ∧ e.1.isOf key = true ∧ e.2.isOf item = true :=
      List.forall_mem_flatMap.2 fun v hv => Value.entries_isOf (typed v hv)
    have keys := nulls_ofValues (t := key) (List.forall_mem_map.2 fun e he => (entries e he).2.1)
    refine keys.trans (List.countP_eq_zero.2 (List.forall_mem_map.2 fun e he => ?_))
    rw [(entries e he).1]
    exact Bool.false_ne_true
  | _ => rfl

/-! ### Size -/

mutual

/-- Fewer values take no more room. -/
theorem small_of_append : (t : DataType) → (vs ws : List Value) →
    (ofValues t (vs ++ ws)).Small → (ofValues t vs).Small
  | .null, vs, ws, small | .bool, vs, ws, small | .num _, vs, ws, small
  | .dictionary _ _ _, vs, ws, small => .node (Nat.zero_le _) nofun
  | .utf8, vs, ws, small | .binary, vs, ws, small => by
    have total := small.here
    refine .node (Nat.le_trans ?_ total) nofun
    rw [ofValues, ofValues, extent, extent, List.map_append, List.flatten_append,
      List.length_append]
    exact Nat.le_add_right _ _
  | .list elem, vs, ws, small => by
    have total : (ofValues elem ((vs ++ ws).flatMap Value.items)).len ≤ maxOffset := small.here
    have below := small.child (List.mem_singleton_self _)
    rw [len_ofValues, List.flatMap_append, List.length_append] at total
    rw [List.flatMap_append] at below
    have here : (ofValues elem (vs.flatMap Value.items)).len ≤ maxOffset := by
      rw [len_ofValues]
      omega
    exact .node here (List.forall_mem_singleton.2 (small_of_append elem _ _ below))
  | .fixedList size elem, vs, ws, small => by
    have below := small.child (List.mem_singleton_self _)
    rw [List.flatMap_append] at below
    exact .node (Nat.zero_le _) (List.forall_mem_singleton.2 (small_of_append elem _ _ below))
  | .struct fields, vs, ws, small => by
    refine .node (Nat.zero_le _) (small_of_appendRows fields _ (ws.map Value.columns) ?_)
    rw [← List.map_append]
    exact fun x hx => small.child hx
  | .map key item sorted, vs, ws, small => by
    have total : (ofValues key (((vs ++ ws).flatMap Value.entries).map Prod.fst)).len ≤ maxOffset :=
      small.here
    have keys := small.child (List.mem_cons_self ..)
    have items := small.child (List.mem_cons_of_mem _ (List.mem_singleton_self _))
    rw [len_ofValues, List.length_map, List.flatMap_append, List.length_append] at total
    rw [List.flatMap_append, List.map_append] at keys items
    have here : (ofValues key ((vs.flatMap Value.entries).map Prod.fst)).len ≤ maxOffset := by
      rw [len_ofValues, List.length_map]
      omega
    exact .node here (List.forall_mem_cons.2 ⟨small_of_append key _ _ keys,
      List.forall_mem_singleton.2 (small_of_append item _ _ items)⟩)

theorem small_of_appendColumn : (f : Field) → (vs ws : List Value) →
    (ofColumn f (vs ++ ws)).Small → (ofColumn f vs).Small
  | ⟨_, type, _, _⟩, vs, ws, small => small_of_append type vs ws small

theorem small_of_appendRows : (fields : List Field) → (rows more : List (List Value)) →
    (∀ x ∈ ofRows fields (rows ++ more), x.Small) → ∀ x ∈ ofRows fields rows, x.Small
  | [], _, _, _ => nofun
  | f :: fs, rows, more, small => by
    rw [ofRows, List.map_append, List.map_append] at small
    obtain ⟨first, others⟩ := List.forall_mem_cons.1 small
    exact List.forall_mem_cons.2
      ⟨small_of_appendColumn f _ _ first, small_of_appendRows fs _ _ others⟩

end

end Contents

/-! ### Empty builders -/

theorem checkFields_eq_ok {fields : List Field} {bs : List Builder}
    (count : fields.length = bs.length) :
    checkFields fields bs = .ok () ↔ bs.map type = fields.map Field.type := by
  induction fields generalizing bs with
  | nil =>
    rw [List.length_eq_zero_iff.1 count.symm]
    exact iff_of_true rfl rfl
  | cons f fs ih =>
    cases bs with
    | nil => cases count
    | cons b bs =>
      rw [checkFields, List.map_cons, List.map_cons, List.cons.injEq, eq_comm (a := b.type)]
      split_ifs with same
      · rw [ih (Nat.succ.inj count), and_iff_right same]
      · exact iff_of_false nofun fun both => same both.1

/-- A builder of structs is made exactly where the fields fit their builders and have distinct
names. -/
theorem ofFields_eq_ok {tracked : Bool} {fields : List Field} {bs : List Builder} {b : Builder} :
    ofFields tracked fields bs = .ok b ↔
      b = .struct (.empty tracked) fields bs ∧ bs.map type = fields.map Field.type ∧
        Field.duplicate? [] fields = none := by
  rw [ofFields]
  split_ifs with count
  · refine iff_of_false nofun fun all => count ?_
    have := congrArg List.length all.2.1
    simpa using this.symm
  · rw [bind_eq_ok]
    simp only [checkFields_eq_ok (not_not.1 count)]
    constructor
    · rintro ⟨-, types, made⟩
      obtain ⟨t, distinct, made⟩ := bind_eq_ok.1 made
      cases made
      refine ⟨rfl, types, ?_⟩
      rw [DataType.structOf] at distinct
      cases h : Field.duplicate? [] fields with
      | none => rfl
      | some f => rw [h] at distinct; cases distinct
    · rintro ⟨rfl, types, distinct⟩
      refine ⟨(), types, ?_⟩
      rw [DataType.structOf, distinct]
      rfl

theorem types_eq {bs : List Builder} {xs : List Contents} (h : List.Forall₂ Holds bs xs) :
    bs.map type = xs.map Contents.type := by
  induction h with
  | nil => rfl
  | cons first _ ih => rw [List.map_cons, List.map_cons, first.type_eq, ih]

theorem holds_ofFields {tracked : Bool} {fields : List Field} {bs : List Builder} {b : Builder}
    {xs : List Contents} (h : List.Forall₂ Holds bs xs)
    (made : ofFields tracked fields bs = .ok b) : Holds b (.struct [] fields xs) := by
  obtain ⟨rfl, types, -⟩ := ofFields_eq_ok.1 made
  exact .struct (Slots.holds_empty tracked) ((types_eq h).symm.trans types) h

mutual

/-- An empty builder holds what no values leave. -/
theorem holds_make {tracked : Bool} : (t : DataType) → {b : Builder} → make tracked t = .ok b →
    Holds b (Contents.ofValues t [])
  | .null, _, made => by
    cases made
    exact .null _
  | .bool, _, made => by
    cases made
    exact .bool (BoolBuilder.holds_empty tracked)
  | .num t, _, made => by
    cases made
    exact .num (NumBuilder.holds_empty t tracked)
  | .utf8, _, made | .binary, _, made => by
    cases made
    exact .bytes (BytesBuilder.holds_empty _ tracked) nofun
  | .list elem, _, made => by
    obtain ⟨values, hvalues, made⟩ := bind_eq_ok.1 made
    cases made
    exact .list (Spans.holds_empty tracked) (holds_make elem hvalues)
  | .fixedList size elem, _, made => by
    obtain ⟨values, hvalues, made⟩ := bind_eq_ok.1 made
    cases made
    exact .fixedList (Slots.holds_empty tracked) (holds_make elem hvalues)
  | .struct fields, _, made => by
    obtain ⟨children, hchildren, made⟩ := bind_eq_ok.1 made
    exact holds_ofFields (holds_makeAll fields hchildren) made
  | .map key item sorted, _, made => by
    obtain ⟨keys, hkeys, made⟩ := bind_eq_ok.1 made
    obtain ⟨items, hitems, made⟩ := bind_eq_ok.1 made
    cases made
    exact .map (Spans.holds_empty tracked) (holds_make key hkeys) (holds_make item hitems)
  | .dictionary _ _ _, _, made => nomatch made

theorem holds_makeField {tracked : Bool} : (f : Field) → {b : Builder} →
    makeField tracked f = .ok b → Holds b (Contents.ofColumn f [])
  | ⟨_, type, _, _⟩, _, made => holds_make type made

theorem holds_makeAll {tracked : Bool} : (fields : List Field) → {bs : List Builder} →
    makeAll tracked fields = .ok bs → List.Forall₂ Holds bs (Contents.ofRows fields [])
  | [], _, made => by
    cases made
    exact .nil
  | f :: fs, _, made => by
    obtain ⟨b, first, made⟩ := bind_eq_ok.1 made
    obtain ⟨bs, others, made⟩ := bind_eq_ok.1 made
    cases made
    exact .cons (holds_makeField f first) (holds_makeAll fs others)

end

end Builder

end Columnar
