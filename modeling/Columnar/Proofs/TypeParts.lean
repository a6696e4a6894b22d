import Columnar.DataType.Basic

/-!
# Types inside a type

The parts of a type are the types that it is put together from.  What occurs in a type is the type
itself and what occurs in its parts; a property of all of them is proved by going down the parts
(`DataType.forall_occurs_iff`).
-/

namespace Columnar

namespace DataType

variable {t : DataType}

/-- The types that a type is put together from. -/
def parts : DataType → List DataType
  | list elem | fixedList _ elem => [elem]
  | struct fields => fields.map Field.type
  | map key item _ => [key, item]
  | dictionary _ value _ => [value]
  | _ => []

/-- `t` is the type itself or occurs inside it. -/
inductive Occurs (t : DataType) : DataType → Prop where
  | here : Occurs t t
  | inside {u p : DataType} (part : p ∈ u.parts) (below : Occurs t p) : Occurs t u

/-- What occurs in a type is the type and what occurs in its parts. -/
theorem forall_occurs_iff {P : DataType → Prop} :
    (∀ d, Occurs d t → P d) ↔ P t ∧ ∀ p ∈ t.parts, ∀ d, Occurs d p → P d := by
  constructor
  · intro all
    exact ⟨all t .here, fun p part d below => all d (.inside part below)⟩
  · rintro ⟨here, inside⟩ d (_ | ⟨part, below⟩)
    · exact here
    · exact inside _ part d below

end DataType

end Columnar
