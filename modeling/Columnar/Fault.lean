import Columnar.DataType.Text
import Columnar.Utf8

/-!
# Faults

An operation can fail in several ways.  A `Refusal` answers data that breaks a rule; the caller can
go on with other data.  A `Misuse` answers a call that a correct caller never makes.  Besides these
there are plain accesses outside a byte region or a list, and names that stand for nothing.

Each cause is a constructor; its words are in `message`.
-/

namespace Columnar

/-- How the parts of a column can contradict its type, length and offset. -/
inductive Defect where
  | bufferCount (type : DataType) (expected found : Nat)
  | validityTooShort (bytes len offset need : Nat)
  | nullCountTooLarge (nulls len : Nat)
  | bitmapTooShort (slot bytes bits : Nat)
  | bufferTooShort (slot bytes : Nat) (type : DataType) (need : Nat)
  | bufferAbsent (slot : Nat) (type : DataType)
  | notAllNull (len nulls : Nat)
  | wrongNullCount (nulls counted : Nat)
  | childCount (type : DataType) (expected found : Nat)
  | childType (child : Nat) (type found expected : DataType)
  | nullKeys (count : Nat)
  | fixedListTooShort (rows need : Nat)
  | fieldLength (name : String) (rows len : Nat)
  | negativeOffset (offset : Int)
  | decreasingOffset (next previous : Int) (position : Nat)
  | offsetPastEnd (last bound : Nat)
  | text (slot : Nat) (fault : Utf8.Fault)
  | dictionaryType (found expected : DataType)
  | dictionaryMissing
  | dictionaryUnexpected (type : DataType)
  | indicesAbsent
  deriving DecidableEq

/-- Why data is refused. -/
inductive Refusal where
  /-- Indices are not of the kind that the dictionary type declares. -/
  | indexKind (declared found : Kind)
  /-- Unsigned integers are not usable as indices. -/
  | unsignedIndex (type : IntType)
  /-- The first index that names no dictionary entry. -/
  | indexOutOfBounds (position : Nat) (value : Int) (entries : Nat)
  | defect (d : Defect)
  | duplicateField (name : String)
  | columnCount (fields columns : Nat)
  | unpairedEntry (keys values : Nat)
  deriving DecidableEq

/-- Calls that no correct caller makes. -/
inductive Misuse where
  | negativeListSize (n : Int)
  | duplicateField (name : String)
  | indexNotInteger (type : DataType)
  | maskTooShort (bytes bits offset : Nat)
  | maskIndex (i len : Nat)
  | maskSlice
  | unaddressable (size : Nat)
  | totalDiffers (expected found : Int)
  | tooManyReleases
  | index (i len : Nat)
  | slice (start stop len : Nat)
  | viewOf (view : Kind) (type : DataType)
  | valueBitmapAbsent
  | valuesAbsent
  | listChild
  | fixedListChild
  | mapChild
  | dictionaryAbsent
  | keysAbsent
  | notIndices (type : DataType)
  | bytesOverflow (kind : Kind) (bytes : Nat)
  | listOverflow
  | unequalLengths
  | fixedListRows (rows slots size : Nat)
  | fieldBuilderCount
  | fieldBuilderType (name : String)
  | fieldRows (name : String) (rows len : Nat)
  | unpairedEntries (keys values : Nat)
  | noBuilder (type : DataType)
  deriving DecidableEq

/-- How an operation fails. -/
inductive Fault where
  | refusal (r : Refusal)
  | misuse (m : Misuse)
  /-- An access outside a byte region or a list. -/
  | outOfRange
  /-- A name or number that stands for nothing. -/
  | unknown
  deriving DecidableEq

/-! ### Wording -/

/-- The defect in words. -/
def Defect.message : Defect → String
  | bufferCount type expected found => s!"{type} requires {expected} buffers, got {found}"
  | validityTooShort bytes len offset need =>
    s!"validity bitmap of {bytes} bytes is too short for {len} elements at offset {offset}, " ++
      s!"need {need}"
  | nullCountTooLarge nulls len => s!"null_count {nulls} exceeds length {len}"
  | bitmapTooShort slot bytes bits =>
    s!"bitmap buffer {slot} of {bytes} bytes is too short for {bits} bits"
  | bufferTooShort slot bytes type need =>
    s!"buffer {slot} of {bytes} bytes is too short, {type} needs {need}"
  | bufferAbsent slot type => s!"buffer {slot} of {type} must not be absent"
  | notAllNull len nulls => s!"null array of length {len} must have null_count {len}, got {nulls}"
  | wrongNullCount nulls counted =>
    s!"null_count {nulls} does not match the validity bitmap, which has {counted} nulls"
  | childCount type expected found => s!"{type} requires {expected} children, got {found}"
  | childType child type found expected =>
    s!"child {child} of {type} has type {found}, expected {expected}"
  | nullKeys count => s!"map keys must not be null, found {count} null keys"
  | fixedListTooShort rows need => s!"fixed_size_list child has {rows} values, needs {need}"
  | fieldLength name rows len => s!"struct field \"{name}\" has {rows} rows, parent has {len}"
  | negativeOffset offset => s!"first offset {offset} is negative"
  | decreasingOffset next previous position =>
    s!"offsets must be non-decreasing, {next} follows {previous} at position {position}"
  | offsetPastEnd last bound => s!"last offset {last} exceeds the {bound} available values"
  | text slot fault =>
    let words := fault.message
    s!"invalid UTF-8 in slot {slot}: {words}"
  | dictionaryType found expected => s!"dictionary values have type {found}, expected {expected}"
  | dictionaryMissing => "dictionary-encoded data requires a dictionary"
  | dictionaryUnexpected type => s!"{type} data must not carry a dictionary"
  | indicesAbsent => "index data is missing its values buffer"

/-- The refusal in words. -/
def Refusal.message : Refusal → String
  | indexKind declared found =>
    let declared := declared.name
    let found := found.name
    s!"Type mismatch: dictionary declares index type '{declared}', indices are '{found}'."
  | unsignedIndex type =>
    let found := type.name
    s!"Unsupported dictionary index type '{found}': expected int8, int16, int32 or int64."
  | indexOutOfBounds position value entries =>
    s!"Dictionary index out of bounds at position {position}: {value} is not in [0, {entries})."
  | defect d =>
    let words := d.message
    s!"Invalid array data: {words}"
  | duplicateField name => s!"Invalid schema: duplicate field name \"{name}\" in struct type"
  | columnCount fields columns =>
    s!"Invalid argument: struct has {fields} fields but {columns} columns were supplied"
  | unpairedEntry keys values =>
    s!"Invalid argument: map entry has {keys} keys but {values} values"

/-- The machine name of a number type, such as `u16`. -/
def NumType.machineName : NumType → String
  | .int .int8 => "i8"
  | .int .int16 => "i16"
  | .int .int32 => "i32"
  | .int .int64 => "i64"
  | .int .uint8 => "u8"
  | .int .uint16 => "u16"
  | .int .uint32 => "u32"
  | .int .uint64 => "u64"
  | .float32 => "f32"
  | .float64 => "f64"

/-- The name of the view of a kind of data, and the data that it asks for. -/
def Kind.viewName : Kind → String × String
  | null => ("NullArray", "null")
  | bool => ("BooleanArray", "boolean")
  | num t => ("PrimitiveArray<" ++ t.machineName ++ ">", t.name)
  | utf8 => ("utf8 array", "utf8")
  | binary => ("binary array", "binary")
  | list => ("ListArray", "list")
  | fixedList => ("FixedSizeListArray", "fixed_size_list")
  | struct => ("StructArray", "struct")
  | map => ("MapArray", "map")
  | dictionary => ("DictionaryArray", "dictionary")

/-- The misuse in words. -/
def Misuse.message : Misuse → String
  | negativeListSize n => s!"fixed_size_list length must not be negative, got {n}"
  | duplicateField name => (Refusal.duplicateField name).message
  | indexNotInteger type => s!"dictionary index type must be an integer type, got {type}"
  | maskTooShort bytes bits offset =>
    s!"bitmask buffer of {bytes} bytes cannot hold {bits} bits at offset {offset}"
  | maskIndex i len => s!"bitmask index {i} out of range for length {len}"
  | maskSlice => "bitmask slice out of range"
  | unaddressable size => s!"allocation of {size} bytes exceeds the addressable size"
  | totalDiffers expected found =>
    s!"invalid memory size: expected {expected} outstanding bytes, got {found}"
  | tooManyReleases => "too many releases"
  | index i len => s!"index {i} out of range for length {len}"
  | slice start stop len => s!"slice [{start}, {stop}) out of range for length {len}"
  | viewOf view type =>
    let (name, wanted) := view.viewName
    s!"{name} requires {wanted} data, got {type}"
  | valueBitmapAbsent => "BooleanArray data is missing its value bitmap"
  | valuesAbsent => "PrimitiveArray data is missing its values buffer"
  | listChild => "list data must carry exactly one child"
  | fixedListChild => "fixed_size_list data must carry exactly one child"
  | mapChild => "map child must be a struct of key and value"
  | dictionaryAbsent => "dictionary data is missing its dictionary"
  | keysAbsent => "dictionary data is missing its index buffer"
  | notIndices type => s!"{type} is not a dictionary index type"
  | bytesOverflow kind bytes =>
    let name := kind.name
    s!"{name} builder exceeded the i32 offset range with {bytes} value bytes"
  | listOverflow => "list child exceeded the i32 offset range"
  | unequalLengths => "values and validity must have equal length"
  | fixedListRows rows slots size =>
    s!"fixed_size_list builder holds {rows} child values for {slots} slots of {size}"
  | fieldBuilderCount => "struct builder needs one child builder per field"
  | fieldBuilderType name => s!"child builder for field \"{name}\" produces the wrong type"
  | fieldRows name rows len => s!"struct field \"{name}\" has {rows} rows but the struct has {len}"
  | unpairedEntries keys values => s!"map builder holds {keys} keys but {values} values"
  | noBuilder type => s!"no builder for {type}; build the indices and values separately"

/-! ### Raising a fault -/

/-- Refuses data for a defect. -/
def Defect.refuse {α : Type} (d : Defect) : Except Fault α := .error (.refusal (.defect d))

def Refusal.refuse {α : Type} (r : Refusal) : Except Fault α := .error (.refusal r)

def Misuse.stop {α : Type} (m : Misuse) : Except Fault α := .error (.misuse m)

/-- The value, or the fault in its absence. -/
def Fault.orElse {α : Type} (f : Fault) : Option α → Except Fault α
  | some a => .ok a
  | none => .error f

end Columnar
