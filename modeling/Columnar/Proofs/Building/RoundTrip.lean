import Columnar.Proofs.Building.OfValues
import Columnar.Proofs.Building.Room

/-!
# Values that are appended are read back

Appending a value by its calls (`Value.calls`) adds it to the values that a builder holds, and does
not fail while offsets are large enough (`Builder.appends`).  So a builder that is made for a type,
has values of the type appended and is finished gives a column with these values
(`Builder.build_and_read`).
-/

namespace Columnar

mutual

/-- There is a builder for the type: it has no dictionary and no struct with two fields of one name,
at any depth. -/
def DataType.isBuildable : DataType → Bool
  | .list elem | .fixedList _ elem => elem.isBuildable
  | .struct fields => (Field.duplicate? [] fields).isNone && Field.areBuildable fields
  | .map key item _ => key.isBuildable && item.isBuildable
  | .dictionary _ _ _ => false
  | _ => true

/-- There is a builder for the type of the field. -/
def Field.isBuildable : Field → Bool
  | ⟨_, type, _, _⟩ => type.isBuildable

/-- There is a builder for every field. -/
def Field.areBuildable : List Field → Bool
  | [] => true
  | f :: fs => f.isBuildable && Field.areBuildable fs

end

namespace Builder

open Value (validities)

/-! ### Runs of calls -/

theorem run_append (b : Builder) (cs ds : List Call) {sizes : Sizes} :
    b.run (cs ++ ds) sizes = (b.run cs sizes >>= fun b => b.run ds sizes) := by
  induction cs generalizing b with
  | nil => rfl
  | cons c cs ih =>
    rw [List.cons_append, run, run]
    cases b.call c sizes with
    | error e => rfl
    | ok p => exact ih p.1

/-- A call on the builder itself comes first. -/
theorem run_here (b : Builder) (op : Op) (cs : List Call) :
    b.run (⟨[], op⟩ :: cs) = (op.apply b >>= fun p => p.1.run cs) := rfl

variable {b c d : Builder} {i : Nat}

theorem child_setChild (h : b.child i = .ok c) (d : Builder) :
    (b.setChild i d).child i = .ok d := by
  cases b with
  | list | fixedList => rcases i with _ | i <;> first | rfl | cases h
  | entries | map => rcases i with _ | _ | i <;> first | rfl | cases h
  | struct slots fields children =>
    have inside : i < children.length := by
      by_contra outside
      rw [child, List.getElem?_eq_none (Nat.le_of_not_lt outside)] at h
      cases h
    rw [setChild, child, List.getElem?_set_self inside]
    rfl
  | _ => cases h

theorem setChild_self (h : b.child i = .ok c) : b.setChild i c = b := by
  cases b with
  | list | fixedList =>
    rcases i with _ | i <;> cases h
    rfl
  | entries | map =>
    rcases i with _ | _ | i <;> cases h
    all_goals rfl
  | struct slots fields children =>
    rw [child] at h
    cases found : children[i]? with
    | none => rw [found] at h; cases h
    | some e =>
      rw [found] at h
      cases h
      obtain ⟨inside, rfl⟩ := List.getElem?_eq_some_iff.1 found
      rw [setChild, List.set_getElem_self]
  | _ => cases h

theorem setChild_setChild (b c d : Builder) (i : Nat) :
    (b.setChild i c).setChild i d = b.setChild i d := by
  cases b <;> rcases i with _ | _ | i <;> simp [setChild]

/-- Calls on a child change that child. -/
theorem run_below {cs : List Call} (h : b.child i = .ok c) (ran : c.run cs = .ok d) :
    b.run (cs.map (.below i)) = .ok (b.setChild i d) := by
  induction cs generalizing b c with
  | nil =>
    cases ran
    rw [setChild_self h]
    rfl
  | cons first rest ih =>
    obtain ⟨⟨c', a⟩, called, ran⟩ := bind_eq_ok.1 ran
    have step : b.call (first.below i) = .ok (b.setChild i c', a) := by
      rw [call, Call.below, modifyAt, h, ok_bind]
      exact bind_eq_ok.2 ⟨(c', a), called, rfl⟩
    rw [List.map_cons, run, step, ok_bind]
    exact (ih (child_setChild h c') ran).trans (by rw [setChild_setChild])

/-! ### Null slots -/

mutual

/-- There is room for null slots where offsets are large enough. -/
theorem Holds.exists_appendNulls : {b : Builder} → {x : Contents} → Holds b x → x.Small →
    (n : Nat) → ∃ b', b.appendNulls n = .ok b'
  | b, _, _, _, 0 => ⟨b, by cases b <;> rfl⟩
  | _, _, .null _, _, _ + 1 | _, _, .bool _, _, _ + 1 | _, _, .num _, _, _ + 1 => ⟨_, rfl⟩
  | _, _, .bytes held _, small, n + 1 => by
    obtain ⟨b', appended⟩ := held.appendedNulls small.here (n + 1)
    exact ⟨_, bind_eq_ok.2 ⟨_, appended, rfl⟩⟩
  | _, _, .list _ child, small, n + 1 =>
    ⟨_, bind_eq_ok.2 ⟨_, child.offset_eq_ok.2 ⟨rfl, small.here⟩, rfl⟩⟩
  | _, _, @Holds.fixedList _ _ size _ _ _ child, small, n + 1 => by
    obtain ⟨values, appended⟩ := Holds.exists_appendNulls child
      (small.child (List.mem_singleton_self _)) ((n + 1) * size)
    exact ⟨_, bind_eq_ok.2 ⟨_, appended, rfl⟩⟩
  | _, _, .struct _ _ columns, small, n + 1 => by
    obtain ⟨children, appended⟩ :=
      exists_appendNullsToAll columns (fun _ hx => small.child hx) (n + 1)
    exact ⟨_, bind_eq_ok.2 ⟨_, appended, rfl⟩⟩
  | _, _, .entries first second, small, n + 1 => by
    obtain ⟨keys, appended⟩ := Holds.exists_appendNulls first
      (small.child (by simp [Contents.children])) (n + 1)
    obtain ⟨items, appended'⟩ := Holds.exists_appendNulls second
      (small.child (by simp [Contents.children])) (n + 1)
    exact ⟨_, bind_eq_ok.2 ⟨_, appended, bind_eq_ok.2 ⟨_, appended', rfl⟩⟩⟩
  | _, _, .map _ first _, small, n + 1 =>
    ⟨_, bind_eq_ok.2 ⟨_, first.offset_eq_ok.2 ⟨rfl, small.here⟩, rfl⟩⟩

theorem exists_appendNullsToAll : {bs : List Builder} → {xs : List Contents} →
    List.Forall₂ Holds bs xs → (∀ x ∈ xs, x.Small) → (n : Nat) →
    ∃ bs', appendNullsToAll bs n = .ok bs'
  | _, _, .nil, _, _ => ⟨_, rfl⟩
  | _, _, .cons h rest, small, n => by
    obtain ⟨b', first⟩ := Holds.exists_appendNulls h (small _ (by simp)) n
    obtain ⟨bs', others⟩ := exists_appendNullsToAll rest (fun x hx => small x (by simp [hx])) n
    exact ⟨_, bind_eq_ok.2 ⟨_, first, bind_eq_ok.2 ⟨_, others, rfl⟩⟩⟩

end

/-! ### One value -/

open Contents (len_ofValues)

/-- Appending the value by its calls adds it to the values that a builder holds. -/
def Appends (v : Value) : Prop :=
  ∀ {t : DataType} {b : Builder} {vs : List Value}, Holds b (.ofValues t vs) →
    v.isOf t = true → (Contents.ofValues t (vs ++ [v])).Small →
      ∃ b', b.run v.calls = .ok b' ∧ Holds b' (.ofValues t (vs ++ [v]))

/-- Appending the values one after the other adds them to those that a builder holds. -/
def AppendsAll (vs : List Value) : Prop :=
  ∀ {t : DataType} {b : Builder} {before : List Value}, Holds b (.ofValues t before) →
    (∀ v ∈ vs, v.isOf t = true) → (Contents.ofValues t (before ++ vs)).Small →
      ∃ b', b.run (vs.flatMap Value.calls) = .ok b' ∧ Holds b' (.ofValues t (before ++ vs))

theorem appends_null : Appends .null := by
  intro t b vs held _ small
  obtain ⟨b', appended⟩ := held.exists_appendNulls (Contents.small_of_append t vs _ small) 1
  refine ⟨b', ?_, ?_⟩
  · rw [Value.calls, run_here, Op.apply, appendNull, appended]
    rfl
  · have held' := held.appendNulls appended
    rwa [Contents.appendNulls_ofValues] at held'

/-- Scalars are appended by one call. -/
theorem appends_scalar {v : Value} (calls : v.calls = [⟨[], .appendScalar v⟩])
    (adds : ∀ {t : DataType} {vs : List Value}, v.isOf t = true →
      (Contents.ofValues t vs).type = t ∧
        (Contents.ofValues t vs).appendScalar v = .ofValues t (vs ++ [v]))
    (fits : ∀ {t : DataType} {b : Builder} {vs : List Value}, Holds b (.ofValues t vs) →
      v.isOf t = true → (Contents.ofValues t vs).Small → ∃ b', b.appendScalar v = .ok b') :
    Appends v := by
  intro t b vs held typed small
  obtain ⟨sameType, added⟩ := @adds t vs typed
  obtain ⟨b', appended⟩ := fits held typed (Contents.small_of_append t vs _ small)
  have typed' : v.isOf b.type = true := by rwa [held.type_eq, sameType]
  refine ⟨b', ?_, added ▸ held.appendScalar typed' appended⟩
  rw [calls, run_here, Op.apply, if_pos typed', appended]
  rfl

theorem appends_bool (x : Bool) : Appends (.bool x) := by
  refine appends_scalar rfl (fun {t vs} typed => ?_) fun {t b vs} held typed _ => ?_
  · cases t with
    | bool =>
      simp [Contents.ofValues, validities, Contents.type, Contents.appendScalar, Value.isNull,
        Value.bit]
    | _ => cases typed
  · cases t with
    | bool =>
      cases held
      exact ⟨_, rfl⟩
    | _ => cases typed

theorem appends_num (t' : NumType) (word : Nat) : Appends (.num t' word) := by
  refine appends_scalar rfl (fun {t vs} typed => ?_) fun {t b vs} held typed _ => ?_
  · cases t with
    | num t =>
      simp [Contents.ofValues, validities, Contents.type, Contents.appendScalar, Value.isNull,
        Value.word]
    | _ => cases typed
  · cases t with
    | num t =>
      rw [Contents.ofValues] at held
      cases held
      exact ⟨_, rfl⟩
    | _ => cases typed

theorem Holds.bytes_eq {t : BytesType} {valid : List Bool} {runs : List (List UInt8)}
    (h : Holds b (.bytes t valid runs)) : ∃ b', b = .bytes b' ∧ b'.Holds valid runs := by
  cases h with
  | bytes held _ => exact ⟨_, rfl, held⟩

theorem appends_text (bytes : Bytes) : Appends (.text bytes) := by
  refine appends_scalar rfl (fun {t vs} typed => ?_) fun {t b vs} held typed small => ?_
  · cases t with
    | utf8 =>
      simp [Contents.ofValues, validities, Contents.type, Contents.appendScalar, Value.isNull,
        Value.run, BytesType.type]
    | _ => cases typed
  · cases t with
    | utf8 =>
      obtain ⟨b, rfl, inner⟩ := held.bytes_eq
      obtain ⟨b', appended, -⟩ := inner.appended bytes true small.here
      exact ⟨_, bind_eq_ok.2 ⟨b', appended, rfl⟩⟩
    | _ => cases typed

theorem appends_binary (bytes : Bytes) : Appends (.binary bytes) := by
  refine appends_scalar rfl (fun {t vs} typed => ?_) fun {t b vs} held typed small => ?_
  · cases t with
    | binary =>
      simp [Contents.ofValues, validities, Contents.type, Contents.appendScalar, Value.isNull,
        Value.run, BytesType.type]
    | _ => cases typed
  · cases t with
    | binary =>
      obtain ⟨b, rfl, inner⟩ := held.bytes_eq
      obtain ⟨b', appended, -⟩ := inner.appended bytes true small.here
      exact ⟨_, bind_eq_ok.2 ⟨b', appended, rfl⟩⟩
    | _ => cases typed

/-- No type has dictionary entries that can be appended. -/
theorem appends_entry (key : Nat) (value : Value) : Appends (.entry key value) := by
  intro t b vs _ typed
  cases t <;> cases typed

/-! ### Nested values -/

theorem callsOfAll_eq (vs : List Value) :
    Value.callsOfAll vs = (vs.flatMap Value.calls).map (.below 0) := by
  induction vs with
  | nil => rfl
  | cons v vs ih => rw [Value.callsOfAll, List.flatMap_cons, List.map_append, ih]

theorem appends_list {items : List Value} (each : AppendsAll items) : Appends (.list items) := by
  intro t b vs held typed small
  rw [Value.calls, callsOfAll_eq, run_here]
  cases t with
  | list elem =>
    have added : Contents.ofValues (.list elem) (vs ++ [.list items]) =
        .list (validities vs ++ [true]) (startsOf (vs.map Value.items) ++
          [(Contents.ofValues elem (vs.flatMap Value.items)).len])
          (.ofValues elem (vs.flatMap Value.items ++ items)) := by
      rw [Contents.ofValues, Contents.starts_append, len_ofValues, List.flatMap_append]
      simp [validities, Value.isNull, Value.items]
    rw [added] at small ⊢
    cases held with
    | list held child =>
      rename_i spans values
      have below := small.child (List.mem_singleton_self _)
      have few : (Contents.ofValues elem (vs.flatMap Value.items)).len ≤ maxOffset := by
        have total : (Contents.ofValues elem (vs.flatMap Value.items ++ items)).len ≤ maxOffset :=
          small.here
        rw [len_ofValues, List.length_append] at total
        rw [len_ofValues]
        omega
      obtain ⟨values', ran, child'⟩ := each child (Value.areOf_iff.1 typed) below
      have opened : (Builder.list spans values).append true = .ok (.list ((spans.reserve 1).append
          (Contents.ofValues elem (vs.flatMap Value.items)).len true) values) :=
        bind_eq_ok.2 ⟨_, child.offset_eq_ok.2 ⟨rfl, few⟩, rfl⟩
      refine ⟨_, bind_eq_ok.2 ⟨_, bind_eq_ok.2 ⟨_, opened, rfl⟩, run_below rfl ran⟩, ?_⟩
      exact .list (held.push true few) child'
  | fixedList size elem =>
    obtain ⟨count, rows⟩ : items.length = size ∧ ∀ v ∈ items, v.isOf elem = true := by
      rw [Value.isOf, Bool.and_eq_true, decide_eq_true_eq] at typed
      exact ⟨typed.1, Value.areOf_iff.1 typed.2⟩
    have added : Contents.ofValues (.fixedList size elem) (vs ++ [.list items]) =
        .fixedList (validities vs ++ [true]) size
          (.ofValues elem (vs.flatMap (Value.itemsOr size) ++ items)) := by
      rw [Contents.ofValues, List.flatMap_append]
      simp [validities, Value.isNull, Value.itemsOr]
    rw [added] at small ⊢
    cases held with
    | fixedList held child =>
      obtain ⟨values', ran, child'⟩ :=
        each child rows (small.child (List.mem_singleton_self _))
      refine ⟨_, bind_eq_ok.2 ⟨_, bind_eq_ok.2 ⟨_, rfl, rfl⟩, run_below rfl ran⟩, ?_⟩
      exact .fixedList (held.push true) child'
  | _ => cases typed

/-- Appending a value to each of several builders adds a row to what they hold.  They are the last
ones of those below a builder of structs. -/
def AppendsEach (row : List Value) : Prop :=
  ∀ {fs fields : List Field} {slots : Slots} {before bs : List Builder} {rows : List (List Value)},
    List.Forall₂ Holds bs (Contents.ofRows fs rows) → Value.areOfEach row fs = true →
    (∀ x ∈ Contents.ofRows fs (rows ++ [row]), x.Small) →
      ∃ bs', (Builder.struct slots fields (before ++ bs)).run
          (Value.callsOfEach before.length row) = .ok (.struct slots fields (before ++ bs')) ∧
        List.Forall₂ Holds bs' (Contents.ofRows fs (rows ++ [row]))

theorem appendsEach_nil : AppendsEach [] := by
  intro fs fields slots before bs rows held typed _
  cases fs with
  | nil => exact ⟨bs, rfl, held⟩
  | cons => cases typed

theorem appendsEach_cons {v : Value} {row : List Value} (first : Appends v)
    (others : AppendsEach row) : AppendsEach (v :: row) := by
  intro fs fields slots before bs rows held typed small
  cases fs with
  | nil => cases typed
  | cons f fs =>
    obtain ⟨typed, typed', -⟩ := Value.areOfEach_cons typed
    have added : Contents.ofRows (f :: fs) (rows ++ [v :: row]) =
        .ofValues f.type (rows.map (·.headD .null) ++ [v]) ::
          Contents.ofRows fs (rows.map List.tail ++ [row]) := by
      rw [Contents.ofRows, Contents.ofColumn_eq]
      simp
    rw [added] at small ⊢
    obtain ⟨small, small'⟩ := List.forall_mem_cons.1 small
    rw [Contents.ofRows, Contents.ofColumn_eq] at held
    cases held with
    | @cons b _ bs _ child rest =>
      obtain ⟨b', ran, child'⟩ := first child typed small
      have found :
          (Builder.struct slots fields (before ++ b :: bs)).child before.length = .ok b := by
        rw [Builder.child]
        simp
        rfl
      have step := run_below found ran
      rw [setChild] at step
      obtain ⟨bs', ran', rest'⟩ :=
        @others fs fields slots (before ++ [b']) bs _ rest typed' small'
      refine ⟨b' :: bs', ?_, .cons child' rest'⟩
      rw [Value.callsOfEach, run_append, step, ok_bind]
      simpa using ran'

theorem appends_struct {row : List Value} (each : AppendsEach row) : Appends (.struct row) := by
  intro t b vs held typed small
  rw [Value.calls, run_here]
  cases t with
  | struct fields =>
    have added : Contents.ofValues (.struct fields) (vs ++ [.struct row]) =
        .struct (validities vs ++ [true]) fields
          (Contents.ofRows fields (vs.map Value.columns ++ [row])) := by
      rw [Contents.ofValues]
      simp [validities, Value.isNull, Value.columns]
    rw [added] at small ⊢
    rw [Contents.ofValues] at held
    cases held with
    | struct held types columns =>
      obtain ⟨bs', ran, columns'⟩ :=
        @each fields fields _ [] _ _ columns typed fun x hx => small.child hx
      refine ⟨_, bind_eq_ok.2 ⟨_, bind_eq_ok.2 ⟨_, rfl, rfl⟩, ran⟩, ?_⟩
      exact .struct (held.push true) ((Contents.types_ofRows fields _ _).trans types) columns'
  | _ => cases typed

/-- Appending entries in turn to the keys and items of a builder of maps. -/
def AppendsEntries (es : List (Value × Value)) : Prop :=
  ∀ {key item : DataType} {spans : Spans} {sorted : Bool} {keys items : Builder}
    {ks vs : List Value}, Holds keys (.ofValues key ks) → Holds items (.ofValues item vs) →
    (∀ e ∈ es, e.1.isOf key = true ∧ e.2.isOf item = true) →
    (Contents.ofValues key (ks ++ es.map Prod.fst)).Small →
    (Contents.ofValues item (vs ++ es.map Prod.snd)).Small →
      ∃ keys' items', (Builder.map spans keys items sorted).run (Value.callsOfEntries es) =
          .ok (.map spans keys' items' sorted) ∧
        Holds keys' (.ofValues key (ks ++ es.map Prod.fst)) ∧
        Holds items' (.ofValues item (vs ++ es.map Prod.snd))

theorem appendsEntries_nil : AppendsEntries [] := by
  intro key item spans sorted keys items ks vs first second _ _ _
  rw [List.map_nil, List.map_nil, List.append_nil, List.append_nil]
  exact ⟨keys, items, rfl, first, second⟩

theorem appendsEntries_cons {k v : Value} {es : List (Value × Value)} (hk : Appends k)
    (hv : Appends v) (others : AppendsEntries es) : AppendsEntries ((k, v) :: es) := by
  intro key item spans sorted keys items ks vs first second typed small small'
  obtain ⟨⟨typedKey, typedItem⟩, typed⟩ := List.forall_mem_cons.1 typed
  rw [List.map_cons, List.append_cons] at small small'
  obtain ⟨keys₁, ran₁, first₁⟩ := hk first typedKey (Contents.small_of_append key _ _ small)
  obtain ⟨items₁, ran₂, second₁⟩ := hv second typedItem (Contents.small_of_append item _ _ small')
  have step₁ : (Builder.map spans keys items sorted).run (k.calls.map (.below 0)) =
      .ok (.map spans keys₁ items sorted) := run_below rfl ran₁
  have step₂ : (Builder.map spans keys₁ items sorted).run (v.calls.map (.below 1)) =
      .ok (.map spans keys₁ items₁ sorted) := run_below rfl ran₂
  obtain ⟨keys', items', ran, first', second'⟩ :=
    @others key item spans sorted _ _ _ _ first₁ second₁ typed small small'
  refine ⟨keys', items', ?_, ?_, ?_⟩
  · rw [Value.callsOfEntries, run_append, run_append, step₁, ok_bind, step₂, ok_bind, ran]
  · rw [List.map_cons, List.append_cons]
    exact first'
  · rw [List.map_cons, List.append_cons]
    exact second'

theorem appends_map {es : List (Value × Value)} (each : AppendsEntries es) :
    Appends (.map es) := by
  intro t b vs held typed small
  rw [Value.calls, run_here]
  cases t with
  | map key item sorted =>
    have added : Contents.ofValues (.map key item sorted) (vs ++ [.map es]) =
        .map (validities vs ++ [true]) (startsOf (vs.map Value.entries) ++
          [(Contents.ofValues key ((vs.flatMap Value.entries).map Prod.fst)).len])
          (.ofValues key ((vs.flatMap Value.entries).map Prod.fst ++ es.map Prod.fst))
          (.ofValues item ((vs.flatMap Value.entries).map Prod.snd ++ es.map Prod.snd)) sorted := by
      rw [Contents.ofValues, Contents.starts_append, len_ofValues, List.length_map,
        List.flatMap_append, List.map_append, List.map_append]
      simp [validities, Value.isNull, Value.entries]
    rw [added] at small ⊢
    cases held with
    | map held first second =>
      rename_i spans keys items
      have below := small.child (List.mem_cons_self ..)
      have below' := small.child (List.mem_cons_of_mem _ (List.mem_singleton_self _))
      have few : (Contents.ofValues key ((vs.flatMap Value.entries).map Prod.fst)).len ≤
          maxOffset := by
        have total : (Contents.ofValues key ((vs.flatMap Value.entries).map Prod.fst ++
            es.map Prod.fst)).len ≤ maxOffset := small.here
        rw [len_ofValues, List.length_append] at total
        rw [len_ofValues]
        omega
      have paired : keys.len = items.len := by
        rw [first.len_eq, second.len_eq, len_ofValues, len_ofValues, List.length_map,
          List.length_map]
      have opened : (Builder.map spans keys items sorted).append true =
          .ok (.map ((spans.reserve 1).append
            (Contents.ofValues key ((vs.flatMap Value.entries).map Prod.fst)).len true)
            keys items sorted) := by
        rw [append, if_pos paired]
        exact bind_eq_ok.2 ⟨_, first.offset_eq_ok.2 ⟨rfl, few⟩, rfl⟩
      obtain ⟨keys', items', ran, first', second'⟩ := each first second
        (fun e he => (Value.areEntriesOf_iff.1 typed e he).2) below below'
      refine ⟨_, bind_eq_ok.2 ⟨_, bind_eq_ok.2 ⟨_, opened, rfl⟩, ran⟩, ?_⟩
      exact .map (held.push true few) first' second'
  | _ => cases typed

/-! ### All values -/

theorem appendsAll_nil : AppendsAll [] := by
  intro t b before held _ _
  rw [List.append_nil]
  exact ⟨b, rfl, held⟩

theorem appendsAll_cons {v : Value} {vs : List Value} (first : Appends v) (others : AppendsAll vs) :
    AppendsAll (v :: vs) := by
  intro t b before held typed small
  obtain ⟨typed, typed'⟩ := List.forall_mem_cons.1 typed
  rw [List.append_cons] at small ⊢
  obtain ⟨b₁, ran₁, held₁⟩ := first held typed (Contents.small_of_append t _ _ small)
  obtain ⟨b', ran, held'⟩ := others held₁ typed' small
  exact ⟨b', by rw [List.flatMap_cons, run_append, ran₁, ok_bind, ran], held'⟩

mutual

/-- **Every value is appended by its calls.** -/
theorem appends : (v : Value) → Appends v
  | .null => appends_null
  | .bool x => appends_bool x
  | .num t word => appends_num t word
  | .text x => appends_text x
  | .binary x => appends_binary x
  | .list items => appends_list (appendsAll items)
  | .struct row => appends_struct (appendsEach row)
  | .map es => appends_map (appendsEntries es)
  | .entry key value => appends_entry key value

theorem appendsAll : (vs : List Value) → AppendsAll vs
  | [] => appendsAll_nil
  | v :: vs => appendsAll_cons (appends v) (appendsAll vs)

theorem appendsEach : (row : List Value) → AppendsEach row
  | [] => appendsEach_nil
  | v :: row => appendsEach_cons (appends v) (appendsEach row)

theorem appendsEntries : (es : List (Value × Value)) → AppendsEntries es
  | [] => appendsEntries_nil
  | (k, v) :: es => appendsEntries_cons (appends k) (appends v) (appendsEntries es)

end

/-! ### Appending asks for no room -/

/-- Calls that make no room make none one level further down. -/
theorem reserves_below {cs : List Call} (h : ∀ c ∈ cs, c.reserves = false) (i : Nat) :
    ∀ c ∈ cs.map (Call.below i), c.reserves = false :=
  List.forall_mem_map.2 h

mutual

/-- The calls that append a value leave it to the builders to make room. -/
theorem reserves_calls : (v : Value) → ∀ c ∈ v.calls, c.reserves = false
  | .null | .bool _ | .num _ _ | .text _ | .binary _ | .entry _ _ => List.forall_mem_singleton.2 rfl
  | .list items => List.forall_mem_cons.2 ⟨rfl, reserves_callsOfAll items⟩
  | .struct columns => List.forall_mem_cons.2 ⟨rfl, reserves_callsOfEach 0 columns⟩
  | .map es => List.forall_mem_cons.2 ⟨rfl, reserves_callsOfEntries es⟩

theorem reserves_callsOfAll : (vs : List Value) → ∀ c ∈ Value.callsOfAll vs, c.reserves = false
  | [] => List.forall_mem_nil _
  | v :: vs => List.forall_mem_append.2
      ⟨reserves_below (reserves_calls v) 0, reserves_callsOfAll vs⟩

theorem reserves_callsOfEach : (i : Nat) → (vs : List Value) →
    ∀ c ∈ Value.callsOfEach i vs, c.reserves = false
  | _, [] => List.forall_mem_nil _
  | i, v :: vs => List.forall_mem_append.2
      ⟨reserves_below (reserves_calls v) i, reserves_callsOfEach (i + 1) vs⟩

theorem reserves_callsOfEntries : (es : List (Value × Value)) →
    ∀ c ∈ Value.callsOfEntries es, c.reserves = false
  | [] => List.forall_mem_nil _
  | (k, v) :: es => List.forall_mem_append.2
      ⟨List.forall_mem_append.2
        ⟨reserves_below (reserves_calls k) 0, reserves_below (reserves_calls v) 1⟩,
      reserves_callsOfEntries es⟩

end

/-- So values are appended alike, however sums come out. -/
theorem run_calls_sizes (b : Builder) (vs : List Value) (sizes : Sizes) :
    b.run (vs.flatMap Value.calls) sizes = b.run (vs.flatMap Value.calls) := by
  refine run_sizes (runInRange_of_not_reserves (fun c mem => ?_) b)
  obtain ⟨v, -, called⟩ := List.mem_flatMap.1 mem
  exact reserves_calls v c called

/-! ### Building and reading -/

mutual

theorem exists_make (tracked : Bool) : (t : DataType) → t.isBuildable = true →
    ∃ b, make tracked t = .ok b ∧ b.type = t
  | .null, _ | .bool, _ | .num _, _ | .utf8, _ | .binary, _ => ⟨_, rfl, rfl⟩
  | .list elem, buildable => by
    obtain ⟨values, made, typed⟩ := exists_make tracked elem buildable
    exact ⟨_, bind_eq_ok.2 ⟨_, made, rfl⟩, congrArg DataType.list typed⟩
  | .fixedList size elem, buildable => by
    obtain ⟨values, made, typed⟩ := exists_make tracked elem buildable
    exact ⟨_, bind_eq_ok.2 ⟨_, made, rfl⟩, congrArg (DataType.fixedList size) typed⟩
  | .struct fields, buildable => by
    rw [DataType.isBuildable, Bool.and_eq_true, Option.isNone_iff_eq_none] at buildable
    obtain ⟨children, made, types⟩ := exists_makeAll tracked fields buildable.2
    exact ⟨_, bind_eq_ok.2 ⟨_, made, ofFields_eq_ok.2 ⟨rfl, types, buildable.1⟩⟩, rfl⟩
  | .map key item sorted, buildable => by
    rw [DataType.isBuildable, Bool.and_eq_true] at buildable
    obtain ⟨keys, made, typed⟩ := exists_make tracked key buildable.1
    obtain ⟨items, made', typed'⟩ := exists_make tracked item buildable.2
    refine ⟨_, bind_eq_ok.2 ⟨_, made, bind_eq_ok.2 ⟨_, made', rfl⟩⟩, ?_⟩
    rw [ofEntries, type, typed, typed']

theorem exists_makeField (tracked : Bool) : (f : Field) → f.isBuildable = true →
    ∃ b, makeField tracked f = .ok b ∧ b.type = f.type
  | ⟨_, type, _, _⟩, buildable => exists_make tracked type buildable

theorem exists_makeAll (tracked : Bool) : (fields : List Field) →
    Field.areBuildable fields = true →
    ∃ bs, makeAll tracked fields = .ok bs ∧ bs.map type = fields.map Field.type
  | [], _ => ⟨[], rfl, rfl⟩
  | f :: fs, buildable => by
    rw [Field.areBuildable, Bool.and_eq_true] at buildable
    obtain ⟨b, made, typed⟩ := exists_makeField tracked f buildable.1
    obtain ⟨bs, made', types⟩ := exists_makeAll tracked fs buildable.2
    refine ⟨b :: bs, bind_eq_ok.2 ⟨_, made, bind_eq_ok.2 ⟨_, made', rfl⟩⟩, ?_⟩
    rw [List.map_cons, List.map_cons, typed, types]

end

/-- **What is built is read back.**  A builder is made for the type, the values are appended by
their calls, and the builder is finished: none of this fails, however sums come out, and the column
is one of the type that validation accepts, with these values in its slots. -/
theorem build_and_read (tracked : Bool) {t : DataType} {vs : List Value}
    (buildable : t.isBuildable = true) (typed : ∀ v ∈ vs, v.isOf t = true)
    (small : (Contents.ofValues t vs).Small) :
    ∃ b b' c rest v, make tracked t = .ok b ∧
      (∀ sizes, b.run (vs.flatMap Value.calls) sizes = .ok b') ∧
      b'.finish = .ok (c, rest) ∧ b'.finishView = .ok (v, rest) ∧
      c.type = t ∧ c.len = vs.length ∧ c.nulls = vs.countP Value.isNull ∧
      c.validateFull = .ok () ∧ View.ofColumn c = .ok v ∧ v.slots = .ok vs := by
  obtain ⟨b, made, sameType⟩ := exists_make tracked t buildable
  have empty := holds_make t made
  obtain ⟨b', ran, held⟩ := appendsAll vs empty typed small
  rw [List.nil_append] at held
  obtain ⟨c, rest, finished, describes⟩ | ⟨stops, -⟩ := held.finish_outcome
  · have anchored := Contents.anchored_ofValues typed
    have accepted := describes.accepted.2 ⟨anchored, Contents.keysFilled_ofValues typed⟩
    obtain ⟨v, hv⟩ := View.ofColumn_ok c accepted
    refine ⟨b, b', c, rest, v, made, fun sizes => (run_calls_sizes b vs sizes).trans ran, finished,
      ?_, ?_, ?_, ?_, ?_, hv, ?_⟩
    · rw [finishView, finished, ok_bind]
      simp only [hv]
      rfl
    · rw [describes.type, Contents.type_ofValues t vs [], ← empty.type_eq, sameType]
    · rw [describes.len, len_ofValues]
    · rw [describes.nulls]
      exact Contents.nulls_ofValues typed
    · exact Column.validateFull_of_accepted accepted
    · rw [View.slots_eq accepted hv, describes.slots anchored]
      exact congrArg Except.ok (Contents.slots_ofValues t vs typed)
  · exact absurd ⟨small, Contents.even_ofValues typed⟩ stops

/-- Structs of a list of text and a map from text to pairs of numbers. -/
def nestedType : DataType :=
  .struct [⟨"words", .list .utf8, true, []⟩,
    ⟨"pairs", .map .utf8 (.fixedList 2 (.num (.int .int16))) false, true, []⟩]

/-- A struct with nulls inside, a null struct, and a struct of a null and an empty map. -/
def nestedValues : List Value :=
  [.struct [.list [.text #[104, 105], .null],
      .map [(.text #[195, 169], .list [.num (.int .int16) 7, .null]), (.text #[], .null)]],
    .null, .struct [.null, .map []]]

theorem small_nestedValues : (Contents.ofValues nestedType nestedValues).Small := by
  have leaf {x : Contents} (none : x.children = []) (few : x.extent ≤ maxOffset) : x.Small :=
    .node few (by rw [none]; exact nofun)
  refine .node (by decide) (List.forall_mem_cons.2 ⟨?_, List.forall_mem_singleton.2 ?_⟩)
  · exact .node (by decide) (List.forall_mem_singleton.2 (leaf rfl (by decide)))
  · refine .node (by decide) (List.forall_mem_cons.2
      ⟨leaf rfl (by decide), List.forall_mem_singleton.2 ?_⟩)
    exact .node (by decide) (List.forall_mem_singleton.2 (leaf rfl (by decide)))

theorem build_and_read_nested :
    nestedType.isBuildable = true ∧ (∀ v ∈ nestedValues, v.isOf nestedType = true) ∧
      (Contents.ofValues nestedType nestedValues).Small ∧
      ∃ b b' c rest v, make true nestedType = .ok b ∧
        (∀ sizes, b.run (nestedValues.flatMap Value.calls) sizes = .ok b') ∧
        b'.finish = .ok (c, rest) ∧ b'.finishView = .ok (v, rest) ∧
        c.type = nestedType ∧ c.len = nestedValues.length ∧
        c.nulls = nestedValues.countP Value.isNull ∧
        c.validateFull = .ok () ∧ View.ofColumn c = .ok v ∧ v.slots = .ok nestedValues :=
  have typed : ∀ v ∈ nestedValues, v.isOf nestedType = true := Value.areOf_iff.1 (by decide)
  ⟨by decide, typed, small_nestedValues,
    build_and_read true (by decide) typed small_nestedValues⟩

end Builder

end Columnar
