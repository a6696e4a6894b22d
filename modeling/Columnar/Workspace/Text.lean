import Columnar.Workspace.Basic

/-!
# Columns in words

A column is written out with its type, window and null count, its buffers with the number of their
handles, and below that its children and its dictionary.
-/

namespace Columnar

namespace Held

/-- A buffer, or its absence; `handles` counts the handles on a region. -/
def bufferText (handles : Nat → Nat) (b : Option Buffer) (region : Option Nat) : String :=
  match b with
  | some b => "Some(" ++ b.text ((region.map handles).getD 0) ++ ")"
  | none => "None"

mutual

/-- A column in words. -/
def textWith (handles : Nat → Nat) : Column → Placement → String
  | ⟨type, len, offset, nulls, buffers, children, dictionary⟩, p =>
    let buffers := ", ".intercalate (List.zipWith (bufferText handles) buffers p.regions)
    let below :=
      if children.isEmpty then ""
      else ", child_data: [" ++ ", ".intercalate (textsWith handles children p.children) ++ "]"
    "ArrayData \x7b data_type: " ++ type.text ++ ", len: " ++ toString len ++
      ", offset: " ++ toString offset ++ ", null_count: " ++ toString nulls ++
      ", buffers: [" ++ buffers ++ "]" ++ below ++
      dictionaryText handles dictionary p.dictionary ++ " \x7d"

/-- Several columns in words. -/
def textsWith (handles : Nat → Nat) : List Column → List Placement → List String
  | c :: cs, p :: ps => textWith handles c p :: textsWith handles cs ps
  | _, _ => []

/-- A dictionary in words, where there is one. -/
def dictionaryText (handles : Nat → Nat) : Option Column → Option Placement → String
  | some d, some p => ", dictionary: " ++ textWith handles d p
  | _, _ => ""

end

end Held

/-- A column of the workspace in words. -/
def Workspace.text (w : Workspace) (h : Held) : String :=
  Held.textWith w.handles h.column h.place

end Columnar
