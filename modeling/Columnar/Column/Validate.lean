import Columnar.Column.Indices

/-!
# Validation

`Column.validate` checks one node against its type: the number and sizes of its buffers, its null
count, its children, its offsets, its text and its indices, in this order.  `Column.validateFull`
also checks the children and the dictionary.  The first defect found is reported.

What a buffer or a child must hold is a sum or a product of sizes.  With `Sizes.wrapping` one that
does not fit into a word comes out too small, and is compared as such.
-/

namespace Columnar

namespace Column

/-- The bytes that a fixed-width buffer needs.  Offsets have one entry more than there are slots,
but may be missing altogether where there are no slots. -/
def fixedNeed (c : Column) (slot width : Nat) (b : Buffer) (sizes : Sizes := .unbounded) : Nat :=
  if c.type.hasOffsets ∧ slot = 1 then
    if c.len = 0 ∧ b.size = 0 then 0 else sizes.fit ((c.offset + c.len + 1) * width)
  else sizes.fit ((c.offset + c.len) * width)

/-- Checks the buffer at one layout slot. -/
def checkBuffer (c : Column) (slot : Nat) (kind : BufferKind) (sizes : Sizes := .unbounded) :
    Except Fault Unit :=
  match kind, c.buffer? slot with
  | .alwaysNull, _ => .ok ()
  | .bitmap, some b =>
    let stop := sizes.fit (c.offset + c.len)
    if b.size < bytesFor stop then (Defect.bitmapTooShort slot b.size stop).refuse else .ok ()
  | .fixedWidth width, some b =>
    let need := c.fixedNeed slot width b sizes
    if b.size < need then (Defect.bufferTooShort slot b.size c.type need).refuse else .ok ()
  | .variableWidth, some _ => .ok ()
  | .bitmap, none => if slot = 0 then .ok () else (Defect.bufferAbsent slot c.type).refuse
  | _, none => (Defect.bufferAbsent slot c.type).refuse

/-- Checks the buffers from one layout slot on. -/
def checkBuffers (c : Column) (slot : Nat) :
    List BufferKind → (sizes : Sizes := .unbounded) → Except Fault Unit
  | [], _ => .ok ()
  | kind :: kinds, sizes => do
    c.checkBuffer slot kind sizes
    c.checkBuffers (slot + 1) kinds sizes

/-- Checks the null count against the validity bitmap. -/
def checkNulls (c : Column) (sizes : Sizes := .unbounded) : Except Fault Unit := do
  if c.type = .null then
    if c.nulls = c.len then return () else (Defect.notAllNull c.len c.nulls).refuse
  else
    let counted ← countNulls c.type c.len c.offset c.buffers sizes
    if counted = c.nulls then return () else (Defect.wrongNullCount c.nulls counted).refuse

/-! ### Children -/

/-- Checks the type of child number `i`. -/
def checkChildType (c : Column) (i : Nat) (child : Column) (expected : DataType) :
    Except Fault Unit :=
  if child.type = expected then .ok ()
  else (Defect.childType i c.type child.type expected).refuse

/-- Checks the columns of a struct from field number `i` on. -/
def checkFields (c : Column) (i : Nat) : List Field → List Column → Except Fault Unit
  | f :: fs, child :: rest => do
    c.checkChildType i child f.type
    if child.len = c.len then
      c.checkFields (i + 1) fs rest
    else
      (Defect.fieldLength f.name child.len c.len).refuse
  | _, _ => .ok ()

/-- Checks number, types and lengths of the children. -/
def checkChildren (c : Column) (sizes : Sizes := .unbounded) : Except Fault Unit := do
  if c.children.length ≠ c.type.childCount then
    (Defect.childCount c.type c.type.childCount c.children.length).refuse
  else
    match c.type, c.children with
    | .list elem, child :: _ => c.checkChildType 0 child elem
    | .map key value _, child :: _ =>
      c.checkChildType 0 child (.entries key value)
      let nullKeys := (child.children.head?.map nulls).getD 0
      if 0 < nullKeys then (Defect.nullKeys nullKeys).refuse else return ()
    | .fixedList size elem, child :: _ =>
      c.checkChildType 0 child elem
      let need := sizes.fit ((c.offset + c.len) * size)
      if child.len < need then (Defect.fixedListTooShort child.len need).refuse else return ()
    | .struct fields, children => c.checkFields 0 fields children
    | _, _ => return ()

/-! ### Offsets and text -/

/-- Checks that none of the next `n` offsets, from position `i` on, is below the one before. -/
def checkOrder (run : WordRun) (previous : Int) (i : Nat) : (n : Nat) → Except Fault Unit
  | 0 => .ok ()
  | n + 1 => do
    let next := offsetValue (← run.get i)
    if next < previous then
      (Defect.decreasingOffset next previous i).refuse
    else
      checkOrder run next (i + 1) n

/-- The number of values that offsets may address. -/
def offsetBound (c : Column) : Nat :=
  match c.type with
  | .utf8 | .binary => ((c.buffer? 2).map Buffer.size).getD 0
  | _ => (c.children.head?.map len).getD 0

/-- Checks that the offsets start at zero or later, do not decrease and end within the values. -/
def checkOffsets (c : Column) (sizes : Sizes := .unbounded) : Except Fault Unit := do
  let run ← c.offsets sizes
  if run.count = 0 then return ()
  else
    let first := offsetValue (← run.get 0)
    if first < 0 then (Defect.negativeOffset first).refuse
    else
      checkOrder run first 1 (run.count - 1)
      let last := unsigned64 (offsetValue (← run.get (run.count - 1)))
      if c.offsetBound < last then (Defect.offsetPastEnd last c.offsetBound).refuse
      else return ()

/-- Checks the text in the next `n` slots, from slot `i` on. -/
def checkTextFrom (run : WordRun) (values : Bytes) (i : Nat) : (n : Nat) → Except Fault Unit
  | 0 => .ok ()
  | n + 1 => do
    let start := unsigned64 (offsetValue (← run.get i))
    let stop := unsigned64 (offsetValue (← run.get (i + 1)))
    let slot ← values.window start stop
    match Utf8.fault? slot.toList with
    | some fault => (Defect.text i fault).refuse
    | none => checkTextFrom run values (i + 1) n

/-- Checks that every slot, null or not, holds well-formed text. -/
def checkText (c : Column) (sizes : Sizes := .unbounded) : Except Fault Unit := do
  let run ← c.offsets sizes
  match c.buffer? 2 with
  | some values => checkTextFrom run values.bytes 0 (run.count - 1)
  | none => return ()

/-! ### Dictionaries -/

/-- Checks that a dictionary is there exactly for dictionary types, has the declared type, and has
an entry for every index. -/
def checkDictionary (c : Column) : Except Fault Unit :=
  match c.type, c.dictionary with
  | .dictionary index value _, some d =>
    if d.type = value then c.checkIndicesOf index d.len
    else (Defect.dictionaryType d.type value).refuse
  | .dictionary _ _ _, none => Defect.dictionaryMissing.refuse
  | type, some _ => (Defect.dictionaryUnexpected type).refuse
  | _, none => .ok ()

/-! ### Whole columns -/

/-- Checks this node against its type. -/
def validate (c : Column) (sizes : Sizes := .unbounded) : Except Fault Unit := do
  let kinds := c.type.layout.buffers
  if c.buffers.length ≠ kinds.length then
    (Defect.bufferCount c.type kinds.length c.buffers.length).refuse
  else if c.len < c.nulls then
    (Defect.nullCountTooLarge c.nulls c.len).refuse
  else
    c.checkBuffers 0 kinds sizes
    c.checkNulls sizes
    c.checkChildren sizes
    (if c.type.hasOffsets then c.checkOffsets sizes else .ok ())
    (if c.type = .utf8 then c.checkText sizes else .ok ())
    c.checkDictionary

mutual

/-- Checks this node, its children and its dictionary, at every depth. -/
def validateFull : Column → (sizes : Sizes := .unbounded) → Except Fault Unit
  | ⟨type, len, offset, nulls, buffers, children, dictionary⟩, sizes => do
    validate ⟨type, len, offset, nulls, buffers, children, dictionary⟩ sizes
    validateAll children sizes
    validateDictionary dictionary sizes

/-- Checks columns in order. -/
def validateAll : List Column → (sizes : Sizes := .unbounded) → Except Fault Unit
  | [], _ => .ok ()
  | c :: cs, sizes => do
    validateFull c sizes
    validateAll cs sizes

/-- Checks a dictionary, if there is one. -/
def validateDictionary : Option Column → (sizes : Sizes := .unbounded) → Except Fault Unit
  | none, _ => .ok ()
  | some d, sizes => validateFull d sizes

end

/-- Checks that a validity bitmap covers the slots, whatever the type. -/
def checkValidity (len offset : Nat) (bits : Option Buffer) (sizes : Sizes := .unbounded) :
    Except Fault Unit :=
  match bits with
  | none => .ok ()
  | some b =>
    let need := bytesFor (sizes.fit (offset + len))
    if b.size < need then (Defect.validityTooShort b.size len offset need).refuse else .ok ()

/-- A column of these parts, refused unless it is valid at every depth. -/
def make (type : DataType) (len offset : Nat) (nulls? : Option Nat)
    (buffers : List (Option Buffer)) (children : List Column) (dictionary : Option Column)
    (sizes : Sizes := .unbounded) : Except Fault Column := do
  let expected := type.layout.buffers.length
  if buffers.length ≠ expected then
    (Defect.bufferCount type expected buffers.length).refuse
  else
    checkValidity len offset buffers.head?.join sizes
    let c ← ofParts type len offset nulls? buffers children dictionary sizes
    c.validateFull sizes
    return c

end Column

end Columnar
