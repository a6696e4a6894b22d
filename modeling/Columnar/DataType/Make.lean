import Columnar.Fault

/-!
# Making types and fields

Types whose parameters can be wrong are made here: a fixed-size list has no negative size, the
fields of a struct have distinct names, and a dictionary is indexed by integers.
-/

namespace Columnar

/-- The first field that repeats the name of an earlier one.  `seen` are the names before. -/
def Field.duplicate? (seen : List String) : List Field → Option Field
  | [] => none
  | f :: fs => if f.name ∈ seen then some f else duplicate? (f.name :: seen) fs

/-- Metadata with one more entry, in increasing order of the keys; a repeated key takes the new
value. -/
def Field.insertMetadata (key value : String) : List (String × String) → List (String × String)
  | [] => [(key, value)]
  | (k, v) :: rest =>
    if key < k then (key, value) :: (k, v) :: rest
    else if key = k then (key, value) :: rest
    else (k, v) :: insertMetadata key value rest

/-- A field with the metadata of `entries`, of which the last one of a key counts. -/
def Field.make (name : String) (type : DataType) (nullable : Bool)
    (entries : List (String × String)) : Field :=
  ⟨name, type, nullable, entries.foldl (fun m (k, v) => Field.insertMetadata k v m) []⟩

namespace DataType

/-- Lists of exactly `n` values. -/
def fixedListOf (n : Int) (elem : DataType) : Except Fault DataType :=
  if n < 0 then (Misuse.negativeListSize n).stop else .ok (.fixedList n.toNat elem)

/-- Structs over `fields`, refused when two of them share a name. -/
def tryStructOf (fields : List Field) : Except Fault DataType :=
  match Field.duplicate? [] fields with
  | some f => (Refusal.duplicateField f.name).refuse
  | none => .ok (.struct fields)

/-- Structs over fields that the caller knows to have distinct names. -/
def structOf (fields : List Field) : Except Fault DataType :=
  match Field.duplicate? [] fields with
  | some f => (Misuse.duplicateField f.name).stop
  | none => .ok (.struct fields)

/-- Indices of type `index` into values of type `value`. -/
def dictionaryOf (index value : DataType) (ordered : Bool) : Except Fault DataType :=
  match index with
  | .num (.int i) => .ok (.dictionary i value ordered)
  | other => (Misuse.indexNotInteger other).stop

end DataType

/-! ### Fields by name -/

/-- Position of the field of that name. -/
def Field.index? (name : String) (fields : List Field) : Option Nat :=
  fields.findIdx? (·.name = name)

/-- No two fields share a name exactly when none repeats one. -/
theorem Field.duplicate?_eq_none_iff {seen : List String} {fields : List Field} :
    duplicate? seen fields = none ↔
      (fields.map Field.name).Nodup ∧ ∀ f ∈ fields, f.name ∉ seen := by
  induction fields generalizing seen with
  | nil => simp [duplicate?]
  | cons f fs ih =>
    by_cases h : f.name ∈ seen
    · simp [duplicate?, h]
    · simp only [duplicate?, h, if_false, ih, List.map_cons, List.nodup_cons, List.mem_map,
        List.mem_cons, not_or, forall_eq_or_imp, not_false_eq_true, true_and]
      constructor
      · rintro ⟨hn, hs⟩
        exact ⟨⟨fun ⟨g, hg, e⟩ => (hs g hg).1 e, hn⟩, fun g hg => (hs g hg).2⟩
      · rintro ⟨⟨hf, hn⟩, hs⟩
        exact ⟨hn, fun g hg => ⟨fun e => hf ⟨g, hg, e⟩, hs g hg⟩⟩

end Columnar
