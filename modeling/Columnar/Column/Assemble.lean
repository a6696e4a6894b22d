import Columnar.Column.Validate
import Columnar.DataType.Make

/-!
# Columns from columns

A struct column is put together from a column for each field, and a dictionary column from a column
of indices and a column of values.  Both are refused unless the parts fit.  The parts are shared,
not copied.
-/

namespace Columnar

namespace Column

/-- The struct column of these fields, with a validity bitmap from bit 0 on.  Its length is that of
the first column. -/
def structOf (fields : List Field) (columns : List Column) (validity : Option Buffer)
    (sizes : Sizes := .unbounded) : Except Fault Column := do
  if fields.length ≠ columns.length then
    (Refusal.columnCount fields.length columns.length).refuse
  else
    let type ← DataType.tryStructOf fields
    make type ((columns.head?.map len).getD 0) 0 none [validity] columns none sizes

/-- The dictionary column of these indices into `values`, both columns left untouched.  The type of
the values is not compared with `value`, the one declared. -/
def dictionaryOf (index : IntType) (value : DataType) (ordered : Bool)
    (indices values : Column) : Except Fault Column := do
  let declared := Kind.num (.int index)
  if indices.type.kind ≠ declared then
    (Refusal.indexKind declared indices.type.kind).refuse
  else
    indices.checkIndicesOf index values.len
    return { indices with
      type := .dictionary index value ordered
      children := []
      dictionary := some values }

end Column

end Columnar
