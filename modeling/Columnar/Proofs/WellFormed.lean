import Columnar.Column.Validate
import Columnar.Proofs.Utf8

/-!
# Well-formed columns

What the buffers of a column say about its slots is read here without checks: the reading past the
end of a buffer gives zeros, and without a buffer gives the same.  `Column.Coherent` says of one
node that its parts agree with its type, in terms of these readings; `Column.WellFormed` says it of
a node, its children and its dictionary at every depth.

Nothing here mentions a check.  That validation accepts exactly the well-formed columns is shown in
`Columnar.Proofs.Validation`.
-/

namespace Columnar

namespace Column

/-! ### What the buffers say -/

variable (c : Column)

/-- Slot `i` is null: by its type, or by a clear validity bit. -/
def nullAt (i : Nat) : Bool :=
  match c.type, c.buffer? 0 with
  | .null, _ => true
  | _, some b => !b.bytes.testBit (c.offset + i)
  | _, none => false

/-- The number of null slots. -/
def nullSlots : Nat := (List.range c.len).countP c.nullAt

/-- The value bit of slot `i`. -/
def bitAt (i : Nat) : Bool :=
  match c.buffer? 1 with
  | some b => b.bytes.testBit (c.offset + i)
  | none => false

/-- The word of slot `i` in the fixed-width buffer. -/
def wordAt (width i : Nat) : Nat :=
  match c.buffer? 1 with
  | some b => b.bytes.wordAt width (c.offset + i)
  | none => 0

/-- The offset where slot `i` begins; that of the next slot is where it ends. -/
def offsetAt (i : Nat) : Int := offsetValue (c.wordAt 4 i)

/-- The first row or byte of slot `i`; that of the next slot is the first one after it. -/
def firstRow (i : Nat) : Nat := (c.offsetAt i).toNat

/-- The number of rows or bytes of slot `i`. -/
def rowCount (i : Nat) : Nat := c.firstRow (i + 1) - c.firstRow i

/-- The dictionary index in slot `i`. -/
def indexAt (index : IntType) (i : Nat) : Int := index.toInt (c.wordAt index.width i)

/-- The bytes between the offsets of slot `i`. -/
def bytesAt (i : Nat) : Bytes :=
  match c.buffer? 2 with
  | some b => b.bytes.extract (c.firstRow i) (c.firstRow (i + 1))
  | none => #[]

/-! ### One node -/

/-- The buffer at one layout slot is there, where it must be, and covers the slots.  An offsets
buffer has one entry more than there are slots, but may be empty where there are none. -/
def BufferFits (slot : Nat) : BufferKind → Prop
  | .alwaysNull => True
  | .bitmap =>
    (slot = 0 ∧ c.buffer? slot = none) ∨
      ∃ b, c.buffer? slot = some b ∧ c.offset + c.len ≤ 8 * b.size
  | .fixedWidth width => ∃ b, c.buffer? slot = some b ∧
      if c.type.hasOffsets ∧ slot = 1 then
        (c.len = 0 ∧ b.size = 0) ∨ (c.offset + c.len + 1) * width ≤ b.size
      else (c.offset + c.len) * width ≤ b.size
  | .variableWidth => ∃ b, c.buffer? slot = some b

/-- The buffers that the layout of the type lists fit. -/
def BuffersFit : Prop :=
  ∀ slot kind, c.type.layout.buffers[slot]? = some kind → c.BufferFits slot kind

/-- The children are as many as the type calls for, of the types it calls for, and long enough. -/
def ChildrenFit : Prop :=
  match c.type with
  | .list elem => ∃ child, c.children = [child] ∧ child.type = elem
  | .map key value _ => ∃ child, c.children = [child] ∧ child.type = .entries key value ∧
      ∀ keys, child.children.head? = some keys → keys.nulls = 0
  | .fixedList size elem => ∃ child, c.children = [child] ∧ child.type = elem ∧
      (c.offset + c.len) * size ≤ child.len
  | .struct fields => c.children.map Column.type = fields.map Field.type ∧
      ∀ child ∈ c.children, child.len = c.len
  | _ => c.children = []

/-- The offsets of the slots begin at zero or later, never decrease, and end within the child rows
or the value bytes. -/
structure OffsetsFit : Prop where
  start : 0 ≤ c.offsetAt 0
  ordered : ∀ i, i < c.len → c.offsetAt i ≤ c.offsetAt (i + 1)
  stop : c.offsetAt c.len ≤ c.offsetBound

/-- Every index in a slot that is not null lies from zero up to `bound`. -/
def IndicesBelow (index : IntType) (bound : Int) : Prop :=
  ∀ i, i < c.len → c.nullAt i = false → 0 ≤ c.indexAt index i ∧ c.indexAt index i < bound

/-- Dictionary columns have signed indices into a dictionary of the declared type, and no other
column has a dictionary. -/
def DictionaryFits : Prop :=
  match c.type with
  | .dictionary index value _ => index.signed = true ∧
      ∃ d, c.dictionary = some d ∧ d.type = value ∧ c.IndicesBelow index d.len
  | _ => c.dictionary = none

/-- The parts of one node agree with its type. -/
structure Coherent : Prop where
  bufferCount : c.buffers.length = c.type.layout.buffers.length
  buffers : c.BuffersFit
  nulls : c.nulls = c.nullSlots
  children : c.ChildrenFit
  offsets : c.type.hasOffsets = true → c.OffsetsFit
  /-- Text is well formed in every slot, null or not. -/
  text : c.type = .utf8 → ∀ i, i < c.len → Utf8.WellFormed (c.bytesAt i).toList
  dictionary : c.DictionaryFits

/-! ### Whole columns -/

/-- `P` holds of a node, its children and its dictionary, at every depth. -/
inductive Everywhere (P : Column → Prop) : Column → Prop where
  | node {c : Column} (here : P c) (children : ∀ d ∈ c.children, Everywhere P d)
      (dictionary : ∀ d, c.dictionary = some d → Everywhere P d) : Everywhere P c

/-- Every node is coherent. -/
def WellFormed : Prop := c.Everywhere Coherent

variable {c}

namespace Everywhere

variable {P Q : Column → Prop}

theorem here (h : c.Everywhere P) : P c := by
  cases h with
  | node here _ _ => exact here

theorem child (h : c.Everywhere P) {d : Column} (hd : d ∈ c.children) : d.Everywhere P := by
  cases h with
  | node _ children _ => exact children d hd

/-- The only child. -/
theorem only (h : c.Everywhere P) {d : Column} (hc : c.children = [d]) : d.Everywhere P :=
  h.child (hc ▸ List.mem_singleton_self d)

theorem entry (h : c.Everywhere P) {d : Column} (hd : c.dictionary = some d) : d.Everywhere P := by
  cases h with
  | node _ _ dictionary => exact dictionary d hd

theorem mono (h : c.Everywhere P) (hpq : ∀ d, P d → Q d) : c.Everywhere Q := by
  induction h with
  | node here _ _ children dictionary => exact .node (hpq _ here) children dictionary

theorem and (hp : c.Everywhere P) (hq : c.Everywhere Q) : c.Everywhere fun d => P d ∧ Q d := by
  induction hp with
  | node here _ _ children dictionary =>
    exact .node ⟨here, hq.here⟩ (fun d hd => children d hd (hq.child hd))
      fun d hd => dictionary d hd (hq.entry hd)

theorem iff : c.Everywhere P ↔ P c ∧ (∀ d ∈ c.children, d.Everywhere P) ∧
    ∀ d, c.dictionary = some d → d.Everywhere P :=
  ⟨fun h => ⟨h.here, fun _ hd => h.child hd, fun _ hd => h.entry hd⟩,
    fun ⟨here, children, dictionary⟩ => .node here children dictionary⟩

end Everywhere

/-! ### Deciding node by node -/

section Decidable

variable {P : Column → Prop} [DecidablePred P]

mutual

def decideEverywhere : (c : Column) → Decidable (c.Everywhere P)
  | ⟨type, len, offset, nulls, buffers, children, dictionary⟩ =>
    haveI := decideAll children
    haveI := decideEntry dictionary
    decidable_of_iff (P ⟨type, len, offset, nulls, buffers, children, dictionary⟩ ∧
      (∀ d ∈ children, d.Everywhere P) ∧ ∀ d, dictionary = some d → d.Everywhere P)
      Everywhere.iff.symm

def decideAll : (cs : List Column) → Decidable (∀ c ∈ cs, c.Everywhere P)
  | [] => isTrue (by simp)
  | c :: cs =>
    haveI := decideEverywhere c
    haveI := decideAll cs
    decidable_of_iff (c.Everywhere P ∧ ∀ d ∈ cs, d.Everywhere P) (by simp)

def decideEntry : (dictionary : Option Column) →
    Decidable (∀ d, dictionary = some d → d.Everywhere P)
  | none => isTrue (by simp)
  | some d =>
    haveI := decideEverywhere d
    decidable_of_iff (d.Everywhere P) (by simp)

end

instance (c : Column) : Decidable (c.Everywhere P) := decideEverywhere c

end Decidable

end Column

end Columnar
