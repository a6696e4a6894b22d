import Columnar.Proofs.Slicing

/-!
# Rows: what slots hold, apart from how they are stored

A `Row` is what a slot holds once offsets, padding, spare rows and the bytes behind null slots are
left out.  `Column.row` reads it from the buffers.  Dictionary positions are left out as well: a
slot that is not null holds the row of the entry that it names.

An entry can itself be null.  A slot that names a null entry is not the same as a null slot, so
the row of a named entry is marked (`Row.entry`); `Row.resolved` takes the marks away, and with
them the difference.
-/

namespace Columnar

/-- What a slot holds, apart from how it is stored. -/
inductive Row where
  | null
  | bool (b : Bool)
  /-- A number as the word that represents it. -/
  | word (w : Nat)
  | bytes (b : Bytes)
  /-- The rows of a list, a fixed-size list or a map. -/
  | list (rows : List Row)
  | struct (columns : List Row)
  /-- The dictionary entry that the slot names. -/
  | entry (row : Row)

mutual

/-- The row with every named entry put in the place of its name. -/
def Row.resolved : Row → Row
  | .list rows => .list (resolvedAll rows)
  | .struct columns => .struct (resolvedAll columns)
  | .entry row => row.resolved
  | row => row

def Row.resolvedAll : List Row → List Row
  | [] => []
  | row :: rows => row.resolved :: resolvedAll rows

end

namespace Column

/-- The row given, unless slot `i` is null. -/
def rowOr (c : Column) (i : Nat) (content : Row) : Row := if c.nullAt i then .null else content

mutual

/-- What slot `i` holds if it is not null. -/
def content : Column → (i : Nat) → Row
  | ⟨type, len, offset, nulls, buffers, children, dictionary⟩, i =>
    let c : Column := ⟨type, len, offset, nulls, buffers, children, dictionary⟩
    match type with
    | .null => .null
    | .bool => .bool (c.bitAt i)
    | .num t => .word (c.wordAt t.width i)
    | .utf8 | .binary => .bytes (c.bytesAt i)
    | .list _ | .map _ _ _ => .list (firstRows children (c.firstRow i) (c.rowCount i))
    | .fixedList size _ => .list (firstRows children ((offset + i) * size) size)
    | .struct _ => .struct (rowOfEach children i)
    | .dictionary index _ _ => .entry (entryRow dictionary (c.indexAt index i).toNat)
termination_by structural c => c

/-- The `n` rows of the first column from row `start` on. -/
def firstRows : List Column → (start n : Nat) → List Row
  | c :: _, start, n => (List.range n).map fun k => c.rowOr (start + k) (content c (start + k))
  | [], _, _ => []
termination_by structural cs => cs

/-- Row `i` of every column. -/
def rowOfEach : List Column → (i : Nat) → List Row
  | [], _ => []
  | c :: cs, i => c.rowOr i (content c i) :: rowOfEach cs i
termination_by structural cs => cs

/-- Row `k` of a dictionary. -/
def entryRow : Option Column → (k : Nat) → Row
  | some d, k => d.rowOr k (content d k)
  | none, _ => .null
termination_by structural d => d

end

/-- What slot `i` holds. -/
def row (c : Column) (i : Nat) : Row := c.rowOr i (c.content i)

/-- What the slots hold, in order. -/
def rows (c : Column) : List Row := (List.range c.len).map c.row

variable {c l r : Column} {o i j n : Nat}

theorem content_eq (c : Column) (i : Nat) :
    c.content i =
      match c.type with
      | .null => .null
      | .bool => .bool (c.bitAt i)
      | .num t => .word (c.wordAt t.width i)
      | .utf8 | .binary => .bytes (c.bytesAt i)
      | .list _ | .map _ _ _ => .list (firstRows c.children (c.firstRow i) (c.rowCount i))
      | .fixedList size _ => .list (firstRows c.children ((c.offset + i) * size) size)
      | .struct _ => .struct (rowOfEach c.children i)
      | .dictionary index _ _ => .entry (entryRow c.dictionary (c.indexAt index i).toNat) := by
  obtain ⟨type, len, offset, nulls, buffers, children, dictionary⟩ := c
  cases type <;> rfl

/-- A slot that is not null holds no null of its own. -/
theorem content_ne_null (valid : c.nullAt i = false) : c.content i ≠ .null := by
  rw [content_eq]
  cases ht : c.type with
  | null =>
    rw [nullAt_of_null ht] at valid
    cases valid
  | _ => exact Row.noConfusion

theorem row_eq_null_iff : c.row i = .null ↔ c.nullAt i = true := by
  rw [row, rowOr]
  cases valid : c.nullAt i with
  | true => simp
  | false => simp [content_ne_null valid]

/-- Rows agree when both are null, or neither is and the slots hold the same. -/
theorem row_eq_iff :
    l.row i = r.row j ↔
      l.nullAt i = r.nullAt j ∧ (l.nullAt i = false → r.nullAt j = false →
        l.content i = r.content j) := by
  rw [row, row, rowOr, rowOr]
  cases hl : l.nullAt i <;> cases hr : r.nullAt j
  · simp
  · simp [content_ne_null hl]
  · simp [(content_ne_null hr).symm]
  · simp

/-! ### Comparing rows -/

theorem map_range_eq_iff {α : Type} {f g : Nat → α} {m : Nat} :
    (List.range m).map f = (List.range n).map g ↔ m = n ∧ ∀ k, k < n → f k = g k := by
  constructor
  · intro e
    have count : m = n := by simpa using congrArg List.length e
    subst count
    exact ⟨rfl, fun k hk => List.map_inj_left.1 e k (List.mem_range.2 hk)⟩
  · rintro ⟨rfl, same⟩
    exact List.map_inj_left.2 fun k hk => same k (List.mem_range.1 hk)

theorem firstRows_eq_iff {d e : Column} {ds es : List Column} {m : Nat} :
    firstRows (d :: ds) i m = firstRows (e :: es) j n ↔
      m = n ∧ ∀ k, k < n → d.row (i + k) = e.row (j + k) :=
  map_range_eq_iff

/-! ### Slices -/

theorem IsWindow.rowOr {s : Column} (w : c.IsWindow o n s) (content : Row) :
    s.rowOr i content = c.rowOr (o + i) content := by
  rw [Column.rowOr, Column.rowOr, w.nullAt]

mutual

theorem content_slice : (c : Column) → {s : Column} → c.slice o n = .ok s →
    s.content i = c.content (o + i)
  | ⟨type, len, offset, nulls, buffers, children, dictionary⟩, s, h => by
    have w := isWindow_of_slice h
    rw [content_eq s, w.type, content_eq ⟨type, len, offset, nulls, buffers, children, dictionary⟩]
    cases type with
    -- the columns of a struct are sliced along, and all other children are addressed anew
    | struct fields => exact congrArg Row.struct (rowOfEach_slice children (w.slices_children rfl))
    | bool => exact congrArg Row.bool w.bitAt
    | num t => exact congrArg Row.word (w.wordAt t.width)
    | utf8 | binary => exact congrArg Row.bytes w.bytesAt
    | list | map => simp only [w.keeps_children rfl, w.firstRow, w.rowCount]
    | fixedList => simp only [w.keeps_children rfl, w.offset, Nat.add_assoc]
    | dictionary => simp only [w.dictionary, w.indexAt]
    | null => rfl

theorem rowOfEach_slice : (cs : List Column) → {ss : List Column} →
    List.Forall₂ (fun d e => d.slice o n = .ok e) cs ss → rowOfEach ss i = rowOfEach cs (o + i)
  | [], _, .nil => rfl
  | c :: cs, _ :: _, .cons first rest => by
    have content := content_slice c first
    rw [rowOfEach, rowOfEach, (isWindow_of_slice first).rowOr, content, rowOfEach_slice cs rest]

end

end Column

end Columnar
