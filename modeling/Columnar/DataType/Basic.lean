/-!
# Logical types of columns

A column holds values of one `DataType`: numbers of a fixed width, truth values, text, raw bytes,
or a nesting of these in lists, structs and maps.  A dictionary type stores small integer indices
into a separate column of values.

Equality of types is structural (`DataType.eq_of_same`, `DataType.same_self`) and decidable.  A map
and the list of its entries are different types although they are stored alike.
-/

namespace Columnar

/-- The fixed-width integers. -/
inductive IntType where
  | int8 | int16 | int32 | int64 | uint8 | uint16 | uint32 | uint64
  deriving DecidableEq, Repr

/-- The fixed-width numbers. -/
inductive NumType where
  | int (type : IntType)
  | float32
  | float64
  deriving DecidableEq, Repr

namespace IntType

/-- Bytes of one value. -/
def width : IntType → Nat
  | int8 | uint8 => 1
  | int16 | uint16 => 2
  | int32 | uint32 => 4
  | int64 | uint64 => 8

def signed : IntType → Bool
  | int8 | int16 | int32 | int64 => true
  | uint8 | uint16 | uint32 | uint64 => false

end IntType

/-- Bytes of one value. -/
def NumType.width : NumType → Nat
  | int t => t.width
  | float32 => 4
  | float64 => 8

theorem NumType.width_pos (t : NumType) : 0 < t.width := by
  rcases t with t | _ | _
  · cases t <;> decide
  all_goals decide

mutual

/-- The logical type of a column. -/
inductive DataType where
  /-- Every slot is null. -/
  | null
  | bool
  | num (type : NumType)
  | utf8
  | binary
  /-- Any number of values of `elem` in each slot. -/
  | list (elem : DataType)
  /-- Exactly `size` values of `elem` in each slot. -/
  | fixedList (size : Nat) (elem : DataType)
  /-- One value of every field in each slot. -/
  | struct (fields : List Field)
  /-- Pairs of a key and a value; `sorted` promises that the keys of a slot are in order. -/
  | map (key value : DataType) (sorted : Bool)
  /-- Indices into a column of `value`. -/
  | dictionary (index : IntType) (value : DataType) (ordered : Bool)

/-- A named member of a struct.  The metadata is a list of pairs in increasing order of the keys. -/
structure Field where
  name : String
  type : DataType
  nullable : Bool
  metadata : List (String × String)

end

instance : Inhabited DataType := ⟨.null⟩

instance : Inhabited Field := ⟨⟨"", .null, true, []⟩⟩

/-! ### Equality -/

mutual

/-- The two types are built alike. -/
def DataType.same : DataType → DataType → Bool
  | .null, .null => true
  | .bool, .bool => true
  | .num s, .num t => decide (s = t)
  | .utf8, .utf8 => true
  | .binary, .binary => true
  | .list a, .list b => a.same b
  | .fixedList m a, .fixedList n b => decide (m = n) && a.same b
  | .struct fs, .struct gs => Field.sameAll fs gs
  | .map k v s, .map k' v' s' => k.same k' && v.same v' && decide (s = s')
  | .dictionary i v o, .dictionary i' v' o' => decide (i = i') && v.same v' && decide (o = o')
  | _, _ => false

/-- The two fields agree in name, type, nullability and metadata. -/
def Field.same : Field → Field → Bool
  | ⟨n, t, u, m⟩, ⟨n', t', u', m'⟩ =>
    decide (n = n') && t.same t' && decide (u = u') && decide (m = m')

/-- The two field lists agree field by field. -/
def Field.sameAll : List Field → List Field → Bool
  | [], [] => true
  | f :: fs, g :: gs => f.same g && Field.sameAll fs gs
  | _, _ => false

end

mutual

theorem DataType.eq_of_same : ∀ {s t : DataType}, s.same t = true → s = t
  | .null, t, h | .bool, t, h | .utf8, t, h | .binary, t, h | .num _, t, h => by
    cases t <;> simp_all [DataType.same]
  | .list a, t, h => by
    cases t <;> simp_all [DataType.same]
    exact DataType.eq_of_same h
  | .fixedList m a, t, h => by
    cases t <;> simp_all [DataType.same]
    exact DataType.eq_of_same h.2
  | .struct fs, t, h => by
    cases t <;> simp_all [DataType.same]
    exact Field.eq_of_sameAll h
  | .map k v s, t, h => by
    cases t <;> simp_all [DataType.same]
    exact ⟨DataType.eq_of_same h.1.1, DataType.eq_of_same h.1.2⟩
  | .dictionary i v o, t, h => by
    cases t <;> simp_all [DataType.same]
    exact DataType.eq_of_same h.1.2

theorem Field.eq_of_same : ∀ {f g : Field}, f.same g = true → f = g
  | ⟨n, t, u, m⟩, ⟨n', t', u', m'⟩, h => by
    simp only [Field.same, Bool.and_eq_true, decide_eq_true_eq] at h
    rw [h.1.1.1, DataType.eq_of_same h.1.1.2, h.1.2, h.2]

theorem Field.eq_of_sameAll : ∀ {fs gs : List Field}, Field.sameAll fs gs = true → fs = gs
  | [], [], _ => rfl
  | f :: fs, g :: gs, h => by
    simp only [Field.sameAll, Bool.and_eq_true] at h
    rw [Field.eq_of_same h.1, Field.eq_of_sameAll h.2]
  | [], _ :: _, h | _ :: _, [], h => by simp [Field.sameAll] at h

end

mutual

theorem DataType.same_self : ∀ t : DataType, t.same t = true
  | .null | .bool | .utf8 | .binary => rfl
  | .num t => by simp [DataType.same]
  | .list a => by simp [DataType.same, DataType.same_self a]
  | .fixedList n a => by simp [DataType.same, DataType.same_self a]
  | .struct fs => by simp [DataType.same, Field.sameAll_self fs]
  | .map k v s => by simp [DataType.same, DataType.same_self k, DataType.same_self v]
  | .dictionary i v o => by simp [DataType.same, DataType.same_self v]

theorem Field.same_self : ∀ f : Field, f.same f = true
  | ⟨n, t, u, m⟩ => by simp [Field.same, DataType.same_self t]

theorem Field.sameAll_self : ∀ fs : List Field, Field.sameAll fs fs = true
  | [] => rfl
  | f :: fs => by simp [Field.sameAll, Field.same_self f, Field.sameAll_self fs]

end

instance : DecidableEq DataType := fun s t =>
  decidable_of_iff (s.same t = true) ⟨DataType.eq_of_same, fun h => h ▸ DataType.same_self s⟩

instance : DecidableEq Field := fun f g =>
  decidable_of_iff (f.same g = true) ⟨Field.eq_of_same, fun h => h ▸ Field.same_self f⟩

/-! ### Kinds -/

/-- A type without its parameters, except that every number type is a kind of its own. -/
inductive Kind where
  | null | bool
  | num (type : NumType)
  | utf8 | binary | list | fixedList | struct | map | dictionary
  deriving DecidableEq, Repr

/-- The kind of a type. -/
def DataType.kind : DataType → Kind
  | null => .null
  | bool => .bool
  | num t => .num t
  | utf8 => .utf8
  | binary => .binary
  | list _ => .list
  | fixedList _ _ => .fixedList
  | struct _ => .struct
  | map _ _ _ => .map
  | dictionary _ _ _ => .dictionary

namespace DataType

/-- The struct of one key and one value of a map: the key is never null, the value may be. -/
def entries (key value : DataType) : DataType :=
  .struct [⟨"key", key, false, []⟩, ⟨"value", value, true, []⟩]

/-- The types whose columns own child columns. -/
def isNested : DataType → Bool
  | list _ | fixedList _ _ | struct _ | map _ _ _ => true
  | _ => false

/-- The types whose children have one row for each slot. -/
def hasRowChildren : DataType → Bool
  | struct _ => true
  | _ => false

def isInteger : DataType → Bool
  | num (.int _) => true
  | _ => false

/-- Number of child columns. -/
def childCount : DataType → Nat
  | list _ | fixedList _ _ | map _ _ _ => 1
  | struct fields => fields.length
  | _ => 0

end DataType

end Columnar
