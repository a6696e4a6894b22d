import Columnar.Proofs.Building.RoundTrip
import Columnar.Proofs.Building.Sessions
import Columnar.Proofs.TypeParts

/-!
# Types of builders and of what they make

The type of a builder is not stored.  It is put together from the types of the builders below it,
save that a builder of structs keeps its fields and is refused builders of other types.

`Builder.make` has a builder of the type wherever no dictionary occurs inside
(`DataType.isBuildable_iff`), and otherwise stops at one (`Builder.make_stops`): these are
inductions over the type.  No call changes the type of a builder, and what is finished is a column
of that type whose children are, at every depth, of the types that their parent declares
(`Builder.Holds.declared_of_finish`): this is an induction over the builder.  Both together are
`Builder.make_faithful`.
-/

namespace Columnar

namespace DataType

variable {t p : DataType}

/-! ### Types with a dictionary inside -/

/-- A dictionary type occurs in the type. -/
def HasDictionary (t : DataType) : Prop := ∃ d, Occurs d t ∧ d.kind = .dictionary

/-- The fields of a struct type have distinct names. -/
def NamesApart (t : DataType) : Prop := ∀ fields, t = .struct fields → (fields.map Field.name).Nodup

/-- No struct inside has two fields of one name.  Types of structs are only made of such fields
(`tryStructOf`, `structOf`). -/
def Distinct (t : DataType) : Prop := ∀ d, Occurs d t → d.NamesApart

theorem Distinct.part (h : t.Distinct) (hp : p ∈ t.parts) : p.Distinct :=
  (forall_occurs_iff.1 h).2 p hp

theorem hasDictionary_iff :
    t.HasDictionary ↔ t.kind = .dictionary ∨ ∃ p ∈ t.parts, p.HasDictionary := by
  constructor
  · rintro ⟨d, here | ⟨part, below⟩, kind⟩
    · exact .inl kind
    · exact .inr ⟨_, part, d, below, kind⟩
  · rintro (kind | ⟨p, part, d, below, kind⟩)
    · exact ⟨t, .here, kind⟩
    · exact ⟨d, .inside part below, kind⟩

theorem HasDictionary.of_only (h : t.HasDictionary) (only : t.parts = [p])
    (kind : t.kind ≠ .dictionary) : p.HasDictionary := by
  obtain dictionary | ⟨q, part, below⟩ := hasDictionary_iff.1 h
  · exact absurd dictionary kind
  · rw [only, List.mem_singleton] at part
    exact part ▸ below

mutual

/-- The types that have a builder are those without dictionaries and repeated names. -/
theorem isBuildable_iff : (t : DataType) →
    (t.isBuildable = true ↔ ∀ d, Occurs d t → d.kind ≠ .dictionary ∧ d.NamesApart)
  | .null | .bool | .num _ | .utf8 | .binary => by
    rw [forall_occurs_iff]
    simp [isBuildable, parts, kind, NamesApart]
  | .list elem | .fixedList _ elem => by
    rw [forall_occurs_iff, isBuildable, isBuildable_iff elem]
    simp [parts, kind, NamesApart]
  | .struct fields => by
    rw [forall_occurs_iff, isBuildable, Bool.and_eq_true, Option.isNone_iff_eq_none,
      Field.duplicate?_eq_none_iff, areBuildable_iff fields]
    simp [parts, kind, NamesApart]
  | .map key item _ => by
    rw [forall_occurs_iff, isBuildable, Bool.and_eq_true, isBuildable_iff key, isBuildable_iff item]
    simp [parts, kind, NamesApart]
  | .dictionary index value ordered => by
    refine iff_of_false nofun fun all => ?_
    exact (all _ .here).1 rfl

theorem isBuildable_field_iff : (f : Field) →
    (f.isBuildable = true ↔ ∀ d, Occurs d f.type → d.kind ≠ .dictionary ∧ d.NamesApart)
  | ⟨_, type, _, _⟩ => isBuildable_iff type

theorem areBuildable_iff : (fields : List Field) →
    (Field.areBuildable fields = true ↔
      ∀ f ∈ fields, ∀ d, Occurs d f.type → d.kind ≠ .dictionary ∧ d.NamesApart)
  | [] => iff_of_true rfl (List.forall_mem_nil _)
  | f :: fs => by
    rw [Field.areBuildable, Bool.and_eq_true, isBuildable_field_iff f, areBuildable_iff fs,
      List.forall_mem_cons]

end

/-- Where no dictionary occurs, there is a builder. -/
theorem Distinct.isBuildable (h : t.Distinct) (free : ¬ t.HasDictionary) : t.isBuildable = true :=
  (isBuildable_iff t).2 fun d below => ⟨fun kind => free ⟨d, below, kind⟩, h d below⟩

theorem distinct_of_isBuildable (h : t.isBuildable = true) : t.Distinct :=
  fun d below => ((isBuildable_iff t).1 h d below).2

theorem not_hasDictionary_of_isBuildable (h : t.isBuildable = true) : ¬ t.HasDictionary :=
  fun ⟨d, below, kind⟩ => ((isBuildable_iff t).1 h d below).1 kind

/-- The types of the children of a column of the type.  The rows of a map are structs. -/
def childTypes : DataType → List DataType
  | list elem | fixedList _ elem => [elem]
  | struct fields => fields.map Field.type
  | map key item _ => [.entries key item]
  | _ => []

end DataType

/-- The children are of the types that the column's own type declares, and there is no
dictionary. -/
def Column.Declared (c : Column) : Prop :=
  c.children.map Column.type = c.type.childTypes ∧ c.dictionary = none

namespace Builder

variable {tracked : Bool} {b b' rest : Builder} {x : Contents} {c : Column} {t : DataType}

/-! ### Types without a builder -/

/-- What was to be made stops at a dictionary type inside `t`. -/
def StopsIn (t : DataType) {α : Type} (made : Except Fault α) : Prop :=
  ∃ d, DataType.Occurs d t ∧ d.kind = .dictionary ∧ made = (Misuse.noBuilder d).stop

/-- What stops in a part also stops in the type, whatever was to be made of it. -/
theorem StopsIn.of_part {α β : Type} {p : DataType} {made : Except Fault α} (h : StopsIn p made)
    (part : p ∈ t.parts) (f : α → Except Fault β) : StopsIn t (made >>= f) := by
  obtain ⟨d, below, kind, rfl⟩ := h
  exact ⟨d, .inside part below, kind, rfl⟩

mutual

/-- **There is no builder of a type with a dictionary inside.** -/
theorem make_stops (tracked : Bool) : (t : DataType) → t.Distinct → t.HasDictionary →
    StopsIn t (make tracked t)
  | .null, _, inside | .bool, _, inside | .num _, _, inside | .utf8, _, inside
  | .binary, _, inside => absurd inside (DataType.not_hasDictionary_of_isBuildable rfl)
  | .list elem, names, inside => by
    have part : elem ∈ (DataType.list elem).parts := List.mem_singleton_self elem
    exact (make_stops tracked elem (names.part part) (inside.of_only rfl nofun)).of_part part _
  | .fixedList size elem, names, inside => by
    have part : elem ∈ (DataType.fixedList size elem).parts := List.mem_singleton_self elem
    exact (make_stops tracked elem (names.part part) (inside.of_only rfl nofun)).of_part part _
  | .struct fields, names, inside => by
    obtain none | ⟨p, field, below⟩ := DataType.hasDictionary_iff.1 inside
    · cases none
    · obtain ⟨f, hf, rfl⟩ := List.mem_map.1 field
      obtain ⟨g, hg, stops⟩ := makeAll_stops tracked fields
        (fun g hg => names.part (List.mem_map_of_mem hg)) ⟨f, hf, below⟩
      exact stops.of_part (List.mem_map_of_mem hg) _
  | .map key item sorted, names, inside => by
    have first : key ∈ (DataType.map key item sorted).parts := List.mem_cons_self
    have second : item ∈ (DataType.map key item sorted).parts :=
      List.mem_cons_of_mem _ (List.mem_singleton_self _)
    by_cases below : key.HasDictionary
    · exact (make_stops tracked key (names.part first) below).of_part first _
    · -- the keys have a builder, so the dictionary is among the items
      obtain ⟨keys, made, -⟩ := exists_make tracked key ((names.part first).isBuildable below)
      have below' : item.HasDictionary := by
        simpa [DataType.hasDictionary_iff (t := .map key item sorted), DataType.parts,
          DataType.kind, below] using inside
      rw [make, made, ok_bind]
      exact (make_stops tracked item (names.part second) below').of_part second _
  | .dictionary index value ordered, _, _ => ⟨_, .here, rfl, rfl⟩

theorem makeField_stops (tracked : Bool) : (f : Field) → f.type.Distinct → f.type.HasDictionary →
    StopsIn f.type (makeField tracked f)
  | ⟨_, type, _, _⟩, names, inside => make_stops tracked type names inside

theorem makeAll_stops (tracked : Bool) : (fields : List Field) →
    (∀ f ∈ fields, f.type.Distinct) → (∃ f ∈ fields, f.type.HasDictionary) →
    ∃ f ∈ fields, StopsIn f.type (makeAll tracked fields)
  | [], _, inside => by
    obtain ⟨f, hf, -⟩ := inside
    cases hf
  | f :: fs, names, inside => by
    obtain ⟨here, others⟩ := List.forall_mem_cons.1 names
    by_cases below : f.type.HasDictionary
    · obtain ⟨d, occurs, kind, stopped⟩ := makeField_stops tracked f here below
      refine ⟨f, List.mem_cons_self, d, occurs, kind, ?_⟩
      rw [makeAll, stopped]
      rfl
    · obtain ⟨b, made, -⟩ := exists_makeField tracked f
        ((DataType.isBuildable_field_iff f).2
          ((DataType.isBuildable_iff _).1 (here.isBuildable below)))
      obtain ⟨g, hg, inside⟩ := inside
      obtain rfl | hg := List.mem_cons.1 hg
      · exact absurd inside below
      · obtain ⟨g, hg, d, occurs, kind, stopped⟩ := makeAll_stops tracked fs others ⟨g, hg, inside⟩
        refine ⟨g, List.mem_cons_of_mem f hg, d, occurs, kind, ?_⟩
        rw [makeAll, made, stopped]
        rfl

end

/-! ### From builders to columns -/

theorem declared_leaf (none : c.children = []) (types : c.type.childTypes = [])
    (values : c.dictionary = Option.none) : c.Everywhere Column.Declared := by
  refine .node ⟨?_, values⟩ (by rw [none]; exact nofun) (by rw [values]; exact nofun)
  rw [none, types]
  rfl

theorem declared_node (types : c.children.map Column.type = c.type.childTypes)
    (values : c.dictionary = none) (below : ∀ d ∈ c.children, d.Everywhere Column.Declared) :
    c.Everywhere Column.Declared :=
  .node ⟨types, values⟩ below (by rw [values]; exact nofun)

/-- The struct of keys and items declares their types. -/
theorem declared_pairs {keys items : Builder} {k v : Column} (first : k.type = keys.type)
    (second : v.type = items.type) (hk : k.Everywhere Column.Declared)
    (hv : v.Everywhere Column.Declared) : (pairs keys items k v).Everywhere Column.Declared := by
  refine declared_node ?_ rfl (List.forall_mem_cons.2 ⟨hk, List.forall_mem_singleton.2 hv⟩)
  rw [pairs, List.map_cons, List.map_singleton, first, second]
  rfl

mutual

/-- **What is finished is of the type of the builder, and declares its children.** -/
theorem Holds.declared_of_finish : {b : Builder} → {x : Contents} → Holds b x → {c : Column} →
    {rest : Builder} → b.finish = .ok (c, rest) → c.type = b.type ∧ c.Everywhere Column.Declared
  | _, _, .null _, _, _, hb | _, _, .bool _, _, _, hb | _, _, .num _, _, _, hb => by
    cases hb
    exact ⟨rfl, declared_leaf rfl rfl rfl⟩
  | _, _, @Holds.bytes b _ _ _ _, _, _, hb => by
    obtain ⟨⟨c, b'⟩, finished, hb⟩ := bind_eq_ok.1 hb
    cases hb
    rw [BytesBuilder.finish_eq] at finished
    obtain ⟨stop, -, finished⟩ := bind_eq_ok.1 finished
    cases finished
    refine ⟨rfl, declared_leaf rfl ?_ rfl⟩
    show b.type.type.childTypes = []
    cases b.type <;> rfl
  | _, _, .list _ child, _, _, hb => by
    obtain ⟨stop, -, hb⟩ := bind_eq_ok.1 hb
    obtain ⟨⟨d, values'⟩, finished, hb⟩ := bind_eq_ok.1 hb
    cases hb
    obtain ⟨typed, below⟩ := Holds.declared_of_finish child finished
    exact ⟨rfl,
      declared_node (congrArg (fun t => [t]) typed) rfl (List.forall_mem_singleton.2 below)⟩
  | _, _, .fixedList _ child, _, _, hb => by
    rw [finish] at hb
    split_ifs at hb with rows
    · cases hb
    · obtain ⟨⟨d, values'⟩, finished, hb⟩ := bind_eq_ok.1 hb
      cases hb
      obtain ⟨typed, below⟩ := Holds.declared_of_finish child finished
      exact ⟨rfl,
        declared_node (congrArg (fun t => [t]) typed) rfl (List.forall_mem_singleton.2 below)⟩
  | _, _, .struct _ types columns, _, _, hb => by
    obtain ⟨-, -, hb⟩ := bind_eq_ok.1 hb
    obtain ⟨⟨cs, children'⟩, finished, hb⟩ := bind_eq_ok.1 hb
    cases hb
    obtain ⟨typed, below⟩ := declared_of_finishAll columns finished
    exact ⟨rfl, declared_node (typed.trans ((types_eq columns).trans types)) rfl below⟩
  | _, _, .entries first second, _, _, hb => by
    obtain ⟨-, -, hb⟩ := bind_eq_ok.1 hb
    obtain ⟨⟨k, keys'⟩, finished, hb⟩ := bind_eq_ok.1 hb
    obtain ⟨⟨v, items'⟩, finished', hb⟩ := bind_eq_ok.1 hb
    cases hb
    obtain ⟨typed, below⟩ := Holds.declared_of_finish first finished
    obtain ⟨typed', below'⟩ := Holds.declared_of_finish second finished'
    exact ⟨rfl, declared_pairs typed typed' below below'⟩
  | _, _, .map _ first second, _, _, hb => by
    obtain ⟨stop, -, hb⟩ := bind_eq_ok.1 hb
    obtain ⟨-, -, hb⟩ := bind_eq_ok.1 hb
    obtain ⟨⟨k, keys'⟩, finished, hb⟩ := bind_eq_ok.1 hb
    obtain ⟨⟨v, items'⟩, finished', hb⟩ := bind_eq_ok.1 hb
    cases hb
    obtain ⟨typed, below⟩ := Holds.declared_of_finish first finished
    obtain ⟨typed', below'⟩ := Holds.declared_of_finish second finished'
    exact ⟨rfl, declared_node rfl rfl
      (List.forall_mem_singleton.2 (declared_pairs typed typed' below below'))⟩

theorem declared_of_finishAll : {bs : List Builder} → {xs : List Contents} →
    List.Forall₂ Holds bs xs → {cs : List Column} → {rest : List Builder} →
    finishAll bs = .ok (cs, rest) →
    cs.map Column.type = bs.map type ∧ ∀ c ∈ cs, c.Everywhere Column.Declared
  | _, _, .nil, _, _, hb => by
    cases hb
    exact ⟨rfl, List.forall_mem_nil _⟩
  | _, _, .cons h others, _, _, hb => by
    obtain ⟨⟨c, b'⟩, finished, hb⟩ := bind_eq_ok.1 hb
    obtain ⟨⟨cs, bs'⟩, finished', hb⟩ := bind_eq_ok.1 hb
    cases hb
    obtain ⟨typed, below⟩ := Holds.declared_of_finish h finished
    obtain ⟨types, belowAll⟩ := declared_of_finishAll others finished'
    exact ⟨by rw [List.map_cons, List.map_cons, typed, types],
      List.forall_mem_cons.2 ⟨below, belowAll⟩⟩

end

/-! ### Calls -/

/-- An attempt leaves a builder of the type. -/
theorem Holds.type_attempt (h : Holds b x) {call : Call} {sizes : Sizes}
    {told : Option (Except Refusal Column)}
    (attempted : b.attempt call sizes = .ok (b', told)) : b'.type = b.type ∧ ∃ y, Holds b' y := by
  obtain ⟨answer, called, -⟩ | ⟨r, -, rfl, -⟩ := attempt_eq_ok.1 attempted
  · obtain ⟨y, held, follows⟩ := h.exists_call called
    exact ⟨by rw [held.type_eq, follows.type, h.type_eq], y, held⟩
  · exact ⟨rfl, x, h⟩

/-- So do any number of them. -/
theorem Holds.type_attemptAll (h : Holds b x) {calls : List Call} {sizes : Sizes}
    {told : List (Except Refusal Column)} (attempted : b.attemptAll calls sizes = .ok (b', told)) :
    b'.type = b.type ∧ ∃ y, Holds b' y := by
  induction calls generalizing b x told with
  | nil =>
    cases attempted
    exact ⟨rfl, x, h⟩
  | cons call calls ih =>
    obtain ⟨⟨b₁, first⟩, attempted₁, attempted⟩ := bind_eq_ok.1 attempted
    obtain ⟨⟨b₂, more⟩, attempted₂, attempted⟩ := bind_eq_ok.1 attempted
    cases attempted
    obtain ⟨typed, y, held⟩ := h.type_attempt attempted₁
    obtain ⟨typed', held'⟩ := ih held attempted₂
    exact ⟨typed'.trans typed, held'⟩

/-- **The builder of a type is faithful to it.**  Making one stops exactly where a dictionary type
occurs inside, and names it.  Otherwise the builder is of the type, stays so whatever calls are made
on it and below it, however sums come out, and what is finished then is of the type and declares its
children at every depth, as is the builder that remains. -/
theorem make_faithful (tracked : Bool) (t : DataType) (names : t.Distinct) :
    (t.HasDictionary → ∃ d, DataType.Occurs d t ∧ d.kind = .dictionary ∧
      make tracked t = (Misuse.noBuilder d).stop) ∧
    (¬ t.HasDictionary → ∃ b, make tracked t = .ok b ∧ b.type = t ∧
      ∀ calls sizes b' told, b.attemptAll calls sizes = .ok (b', told) → b'.type = t ∧
        ∀ c rest, b'.finish = .ok (c, rest) →
          c.type = t ∧ c.Everywhere Column.Declared ∧ rest.type = t) := by
  refine ⟨make_stops tracked t names, fun free => ?_⟩
  obtain ⟨b, made, typed⟩ := exists_make tracked t (names.isBuildable free)
  refine ⟨b, made, typed, ?_⟩
  intro calls sizes b' told attempted
  obtain ⟨same, x, held⟩ := (holds_make t made).type_attemptAll attempted
  have typed' := same.trans typed
  refine ⟨typed', fun c rest finished => ?_⟩
  obtain ⟨column, declared⟩ := held.declared_of_finish finished
  refine ⟨column.trans typed', declared, ?_⟩
  rw [(held.finish finished).type_eq, Contents.type_emptied, ← held.type_eq, typed']

example : make true (.map .utf8 (.list (.dictionary .int8 .utf8 false)) true) =
    (Misuse.noBuilder (.dictionary .int8 .utf8 false)).stop := rfl

theorem make_faithful_nested :
    nestedType.Distinct ∧ ¬ nestedType.HasDictionary ∧
      ∃ b, make true nestedType = .ok b ∧ b.type = nestedType ∧
        ∀ calls sizes b' told, b.attemptAll calls sizes = .ok (b', told) → b'.type = nestedType ∧
          ∀ c rest, b'.finish = .ok (c, rest) →
            c.type = nestedType ∧ c.Everywhere Column.Declared ∧ rest.type = nestedType := by
  have buildable : nestedType.isBuildable = true := by decide
  have names := DataType.distinct_of_isBuildable buildable
  have free := DataType.not_hasDictionary_of_isBuildable buildable
  exact ⟨names, free, (make_faithful true nestedType names).2 free⟩

end Builder

end Columnar
