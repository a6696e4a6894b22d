import Columnar.DataType.Basic

/-!
# Canonical text of types

Every type has one text, such as `list<item: int32>` or `map<utf8, int64, keys_sorted>`.  The text
of a struct gives the names and types of its fields, not their nullability or metadata.
-/

namespace Columnar

/-- Name of an integer type, such as `uint16`. -/
def IntType.name : IntType → String
  | int8 => "int8"
  | int16 => "int16"
  | int32 => "int32"
  | int64 => "int64"
  | uint8 => "uint8"
  | uint16 => "uint16"
  | uint32 => "uint32"
  | uint64 => "uint64"

/-- Name of a number type. -/
def NumType.name : NumType → String
  | int t => t.name
  | float32 => "float32"
  | float64 => "float64"

/-- Name of a kind of type. -/
def Kind.name : Kind → String
  | null => "null"
  | bool => "bool"
  | num t => t.name
  | utf8 => "utf8"
  | binary => "binary"
  | list => "list"
  | fixedList => "fixed_size_list"
  | struct => "struct"
  | map => "map"
  | dictionary => "dictionary"

mutual

/-- The canonical text of a type. -/
def DataType.text : DataType → String
  | .null => "null"
  | .bool => "bool"
  | .num t => t.name
  | .utf8 => "utf8"
  | .binary => "binary"
  | .list elem => "list<item: " ++ elem.text ++ ">"
  | .fixedList size elem =>
    "fixed_size_list<size=" ++ toString size ++ ", item: " ++ elem.text ++ ">"
  | .struct fields => "struct<" ++ Field.memberTexts fields ++ ">"
  | .map key value sorted =>
    "map<" ++ key.text ++ ", " ++ value.text ++ (if sorted then ", keys_sorted" else "") ++ ">"
  | .dictionary index value ordered =>
    "dictionary<values=" ++ value.text ++ ", indices=" ++ index.name ++ ", ordered="
      ++ (if ordered then "true" else "false") ++ ">"

/-- Name and type of one struct member. -/
def Field.memberText : Field → String
  | ⟨name, type, _, _⟩ => name ++ ": " ++ type.text

/-- The members of a struct, separated by commas. -/
def Field.memberTexts : List Field → String
  | [] => ""
  | [f] => f.memberText
  | f :: fs => f.memberText ++ ", " ++ Field.memberTexts fs

end

section Equations

variable (size : Nat) (elem key value : DataType) (fields : List Field) (index : IntType)
variable (flag : Bool)

theorem DataType.text_list : (list elem).text = "list<item: " ++ elem.text ++ ">" := rfl

theorem DataType.text_fixedList :
    (fixedList size elem).text =
      "fixed_size_list<size=" ++ toString size ++ ", item: " ++ elem.text ++ ">" := rfl

theorem DataType.text_struct :
    (struct fields).text = "struct<" ++ Field.memberTexts fields ++ ">" := rfl

theorem DataType.text_map :
    (map key value flag).text =
      "map<" ++ key.text ++ ", " ++ value.text ++ (if flag then ", keys_sorted" else "") ++ ">" := rfl

theorem DataType.text_dictionary :
    (dictionary index value flag).text =
      "dictionary<values=" ++ value.text ++ ", indices=" ++ index.name ++ ", ordered="
        ++ (if flag then "true" else "false") ++ ">" := rfl

theorem Field.memberText_eq (f : Field) : f.memberText = f.name ++ ": " ++ f.type.text := by
  cases f
  rfl

end Equations

instance : ToString DataType := ⟨DataType.text⟩

/-- Name, type, nullability and metadata of a field. -/
def Field.text (f : Field) : String :=
  "Field \"" ++ f.name ++ "\": " ++ f.type.text ++ (if f.nullable then " (nullable)" else "")
    ++ (if f.metadata.isEmpty then "" else
      " [metadata: " ++ ", ".intercalate (f.metadata.map fun (k, v) => k ++ "=\"" ++ v ++ "\"")
        ++ "]")

end Columnar
