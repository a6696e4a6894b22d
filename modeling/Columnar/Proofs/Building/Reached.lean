import Columnar.Proofs.Building.Following
import Columnar.Proofs.Building.OfValues

/-!
# Finishing after any calls

`Builder.Reached allowed b` says that `b` comes from new builders by wrapping builders and by
calls, on the builder or on those below it, in any order, each of them `allowed`, however sums come
out.  Whatever is reached holds some contents, so finishing it stops or gives a column of its type,
length and null count, and validation accepts that column exactly where the builder is anchored and
no map has a null key (`Builder.Reached.finish_sound`).  It is anchored as long as no call drops
rows below slots that are left, so after any calls that only add where sums are not cut
(`Builder.Reached.run_of_adds`).

Nothing stops a child from being emptied once its parent has noted where slots start.  The parent
still finishes then, with offsets that decrease (`Builder.finish_after_child`).
-/

namespace Columnar

namespace Builder

/-- What new builders lead to by wrapping and by calls, when every call is `allowed` to make of one
builder the other. -/
inductive Reached (allowed : Builder → Builder → Prop) : Builder → Prop
  | make {tracked : Bool} {t : DataType} {b : Builder} (made : make tracked t = .ok b) :
      Reached allowed b
  | sized {t : DataType} {capacity data : Nat} {sizes : Sizes} {b : Builder}
      (made : sized t capacity data sizes = .ok b) : Reached allowed b
  | ofValues {values : Builder} (tracked : Bool) (child : Reached allowed values) :
      Reached allowed (ofValues tracked values)
  | ofFixed {tracked : Bool} {n : Int} {values b : Builder} (child : Reached allowed values)
      (made : ofFixed tracked n values = .ok b) : Reached allowed b
  | ofFields {tracked : Bool} {fields : List Field} {children : List Builder} {b : Builder}
      (columns : ∀ c ∈ children, Reached allowed c)
      (made : ofFields tracked fields children = .ok b) : Reached allowed b
  | entries {keys items : Builder} (first : Reached allowed keys) (second : Reached allowed items) :
      Reached allowed (.entries keys items)
  | ofEntries {keys items : Builder} (tracked sorted : Bool) (first : Reached allowed keys)
      (second : Reached allowed items) : Reached allowed (ofEntries tracked keys items sorted)
  | call {b b' : Builder} {c : Call} {sizes : Sizes} {answer : Option Column}
      (before : Reached allowed b) (called : b.call c sizes = .ok (b', answer))
      (ok : allowed b b') : Reached allowed b'

variable {allowed : Builder → Builder → Prop} {b : Builder} {x : Contents}

/-! ### New builders -/

namespace Contents

/-- No slot is dropped where there is none. -/
theorem resize_nothing : (t : DataType) → (capacity : Nat) →
    (ofValues t []).resize capacity = ofValues t []
  | .null, _ | .dictionary _ _ _, _ => congrArg null (Nat.min_eq_left (Nat.zero_le _))
  | .bool, _ | .num _, _ | .utf8, _ | .binary, _ | .list _, _ | .fixedList _ _, _
  | .struct _, _ => by
    simp [ofValues, resize, Value.validities, startsOf]
  | .map key item _, _ => by
    simp [ofValues, resize, Value.validities, startsOf, resize_nothing key, resize_nothing item]

end Contents

/-- Room for value bytes changes nothing that a builder without slots holds, however it is
counted. -/
theorem Holds.reserveBytes (h : Holds b x) (none : x.len = 0) {bytes : Nat} {sizes : Sizes}
    {b' : Builder} (made : b.reserveBytes bytes sizes = .ok b') : Holds b' x := by
  cases h with
  | @bytes b valid runs held text =>
    obtain ⟨values, room, made⟩ := bind_eq_ok.1 made
    cases made
    rw [GrowBuffer.reserveAddressable] at room
    split_ifs at room with addressable
    · cases room
      have noRuns : runs = [] := List.eq_nil_of_length_eq_zero (held.count.trans none)
      have noBytes : b.values.len = 0 := by
        rw [← GrowBuffer.size_bytes held.fits, ← Array.length_toList, held.bytes, noRuns]
        rfl
      have same : (b.values.reserve bytes sizes).len = 0 := by
        rw [GrowBuffer.len_reserve _ _ sizes, noBytes]
      refine .bytes ⟨held.spans, GrowBuffer.fits_of_len_zero same, ?_⟩ text
      rw [GrowBuffer.bytes_of_len_zero same, noRuns]
      rfl
    · cases room
  | _ => cases made; constructor <;> assumption

theorem holds_sized {t : DataType} {capacity data : Nat} {sizes : Sizes}
    (made : sized t capacity data sizes = .ok b) : Holds b (Contents.ofValues t []) := by
  obtain ⟨b₁, fresh, made⟩ := bind_eq_ok.1 made
  have held := (holds_make t fresh).resize capacity
  rw [Contents.resize_nothing] at held
  exact held.reserveBytes (Contents.len_ofValues t []) made

/-- Contents of no values are anchored. -/
theorem anchored_nothing (t : DataType) : (Contents.ofValues t []).Anchored :=
  Contents.anchored_ofValues nofun

/-- A builder of fixed-size lists is made exactly where the size is not negative. -/
theorem ofFixed_eq_ok {tracked : Bool} {n : Int} {values : Builder} :
    ofFixed tracked n values = .ok b ↔ 0 ≤ n ∧ b = .fixedList (.empty tracked) n.toNat values := by
  rw [ofFixed]
  split_ifs with negative
  · exact iff_of_false nofun fun both => absurd negative (Int.not_lt.2 both.1)
  · rw [Except.ok.injEq, eq_comm, and_iff_right (Int.not_lt.1 negative)]

/-! ### What is reached -/

namespace Reached

/-- Builders that all hold some contents hold them in order. -/
theorem exists_columns {children : List Builder} (held : ∀ c ∈ children, ∃ x, Holds c x) :
    ∃ xs, List.Forall₂ Holds children xs := by
  induction children with
  | nil => exact ⟨[], .nil⟩
  | cons c cs ih =>
    obtain ⟨first, others⟩ := List.forall_mem_cons.1 held
    obtain ⟨x, hx⟩ := first
    obtain ⟨xs, hxs⟩ := ih others
    exact ⟨x :: xs, .cons hx hxs⟩

/-- Whatever is reached holds some contents. -/
theorem holds (h : Reached allowed b) : ∃ x, Holds b x := by
  induction h with
  | make made => exact ⟨_, holds_make _ made⟩
  | sized made => exact ⟨_, holds_sized made⟩
  | ofValues tracked _ child =>
    obtain ⟨x, held⟩ := child
    exact ⟨_, .list (Spans.holds_empty tracked) held⟩
  | ofFixed _ made child =>
    obtain ⟨x, held⟩ := child
    obtain ⟨-, rfl⟩ := ofFixed_eq_ok.1 made
    exact ⟨_, .fixedList (Slots.holds_empty _) held⟩
  | ofFields _ made columns =>
    obtain ⟨xs, held⟩ := exists_columns columns
    exact ⟨_, holds_ofFields held made⟩
  | entries _ _ first second =>
    obtain ⟨x, hx⟩ := first
    obtain ⟨y, hy⟩ := second
    exact ⟨_, .entries hx hy⟩
  | ofEntries tracked sorted _ _ first second =>
    obtain ⟨x, hx⟩ := first
    obtain ⟨y, hy⟩ := second
    exact ⟨_, .map (Spans.holds_empty tracked) hx hy⟩
  | call _ called _ before =>
    obtain ⟨x, held⟩ := before
    obtain ⟨y, held', -⟩ := held.exists_call called
    exact ⟨y, held'⟩

/-- Calls that keep the rows of lists and maps lead to anchored builders only. -/
theorem anchored (keeps : ∀ p q, allowed p q → p.KeepsRows q) (h : Reached allowed b) :
    b.Anchored := by
  induction h with
  | make made => exact (holds_make _ made).anchored_iff.2 (anchored_nothing _)
  | sized made => exact (holds_sized made).anchored_iff.2 (anchored_nothing _)
  | ofValues _ _ child => exact .node (.nil _) (List.forall_mem_singleton.2 child)
  | ofFixed _ made child =>
    obtain ⟨-, rfl⟩ := ofFixed_eq_ok.1 made
    exact .node (.nil _) (List.forall_mem_singleton.2 child)
  | ofFields _ made columns =>
    obtain ⟨rfl, -⟩ := ofFields_eq_ok.1 made
    exact .node (.nil _) columns
  | entries _ _ first second | ofEntries _ _ _ _ first second =>
    exact .node (.nil _) (List.forall_mem_cons.2 ⟨first, List.forall_mem_singleton.2 second⟩)
  | call before called ok ih =>
    obtain ⟨x, held⟩ := before.holds
    obtain ⟨y, held', follows⟩ := held.exists_call called
    have kept := (held.keepsRows_iff held').1 (keeps _ _ ok)
    exact held'.anchored_iff.2 (follows.anchored (held.anchored_iff.1 ih) kept)

/-- Calls that only add, one after the other, keep rows all along. -/
theorem run_of_adds {calls : List Call} {b' : Builder} (h : Reached KeepsRows b)
    (adds : ∀ c ∈ calls, c.op.adds = true) (ran : b.run calls = .ok b') : Reached KeepsRows b' := by
  induction calls generalizing b with
  | nil =>
    cases ran
    exact h
  | cons c cs ih =>
    obtain ⟨⟨b₁, answer⟩, called, ran⟩ := bind_eq_ok.1 ran
    obtain ⟨x, held⟩ := h.holds
    obtain ⟨here, rest⟩ := List.forall_mem_cons.1 adds
    exact ih (h.call called (.of_adds held called here)) rest ran

/-- Calls one after the other lead from what is reached to what is reached. -/
theorem run {calls : List Call} {sizes : Sizes} {b' : Builder} (h : Reached (fun _ _ => True) b)
    (ran : b.run calls sizes = .ok b') : Reached (fun _ _ => True) b' := by
  induction calls generalizing b with
  | nil =>
    cases ran
    exact h
  | cons c cs ih =>
    obtain ⟨⟨b₁, answer⟩, called, ran⟩ := bind_eq_ok.1 ran
    exact ih (h.call called trivial) ran

/-- What comes of a builder that kept its rows and has no null keys is accepted. -/
theorem accepted (h : Reached KeepsRows b) (filled : b.KeysFilled) {c : Column} {rest : Builder}
    (finished : b.finish = .ok (c, rest)) : c.Everywhere Column.Accepted := by
  obtain ⟨x, held⟩ := h.holds
  exact held.accepted_of_finish (held.anchored_iff.1 (h.anchored fun _ _ keeps => keeps))
    (held.keysFilled_iff.1 filled) finished

/-- **Finishing what any calls lead to.**  It stops, or it gives a column of the type, length and
null count of the builder.  Validation accepts the column exactly where the builder is anchored and
no map has a null key, and so wherever no call dropped rows below slots that were left. -/
theorem finish_sound (h : Reached allowed b) :
    (∃ m, b.finish = .error (.misuse m)) ∨
      ∃ c rest, b.finish = .ok (c, rest) ∧ c.type = b.type ∧ c.len = b.len ∧ c.nulls = b.nulls ∧
        (c.validateFull = .ok () ↔ b.Anchored ∧ b.KeysFilled) ∧
        ((∀ p q, allowed p q → p.KeepsRows q) → b.KeysFilled → c.validateFull = .ok ()) := by
  obtain ⟨x, held⟩ := h.holds
  obtain ⟨c, rest, finished, describes⟩ | ⟨-, m, stopped⟩ := held.finish_outcome
  · have accepts : c.validateFull = .ok () ↔ b.Anchored ∧ b.KeysFilled := by
      rw [(Column.validateFull_decides c).ok_iff, describes.accepted, held.anchored_iff,
        held.keysFilled_iff]
    refine .inr ⟨c, rest, finished, ?_, ?_, ?_, accepts, fun keeps filled => ?_⟩
    · rw [describes.type, held.type_eq]
    · rw [describes.len, held.len_eq]
    · rw [describes.nulls, held.nulls_eq]
    · exact accepts.2 ⟨h.anchored keeps, filled⟩
  · exact .inl ⟨m, stopped⟩

/-! ### Appending scalars -/

variable {b' : Builder} {values : List Value}

/-- A call that adds, on the builder itself, keeps the type. -/
theorem of_apply (h : Reached KeepsRows b) {op : Op} (adds : op.adds = true)
    (applied : op.apply b = .ok (b', none)) : Reached KeepsRows b' ∧ b'.type = b.type := by
  obtain ⟨x, held⟩ := h.holds
  have called : b.call ⟨[], op⟩ = .ok (b', none) := applied
  refine ⟨h.call called (.of_adds held called adds), ?_⟩
  rw [(held.call called).type_eq, Contents.type_call, held.type_eq]

theorem appendScalars (h : Reached KeepsRows b) (typed : ∀ v ∈ values, v.isOf b.type = true)
    (appended : values.foldlM Builder.appendScalar b = .ok b') :
    Reached KeepsRows b' ∧ b'.type = b.type := by
  induction values generalizing b with
  | nil =>
    cases appended
    exact ⟨h, rfl⟩
  | cons v vs ih =>
    obtain ⟨here, rest⟩ := List.forall_mem_cons.1 typed
    rw [List.foldlM_cons] at appended
    obtain ⟨b₁, first, appended⟩ := bind_eq_ok.1 appended
    have applied : (Op.appendScalar v).apply b = .ok (b₁, none) := by
      rw [Op.apply, if_pos here, first]
      rfl
    obtain ⟨h₁, same⟩ := h.of_apply rfl applied
    rw [← same] at rest ⊢
    exact ih h₁ rest appended

theorem appendDense (h : Reached KeepsRows b) (typed : ∀ v ∈ values, v.isOf b.type = true)
    (appended : b.appendDense values = .ok b') : Reached KeepsRows b' ∧ b'.type = b.type := by
  cases b with
  | num b =>
    obtain ⟨words, rfl⟩ : ∃ words, b' = .num (b.appendSlice words) := by
      cases appended
      exact ⟨_, rfl⟩
    have applied : (Op.appendSlice words).apply (.num b) = .ok (.num (b.appendSlice words), none) :=
      rfl
    exact h.of_apply rfl applied
  | _ => exact h.appendScalars typed appended

end Reached

/-- A builder of scalars has no keys. -/
theorem keysFilled_of_scalar (scalar : b.type.isNested = false) : b.KeysFilled := by
  cases b with
  | null | bool | num | bytes => exact .node rfl nofun
  | _ => cases scalar

/-- Opens a slot of a list of numbers and appends its row to the child. -/
def openFirst : List Call := [⟨[], .append true⟩, ⟨[0], .appendScalar (.num (.int .int32) 7)⟩]

theorem finish_sound_opened :
    ∃ b, Reached KeepsRows b ∧ b.len = 1 ∧ b.KeysFilled ∧
      ((∃ m, b.finish = .error (.misuse m)) ∨
        ∃ c rest, b.finish = .ok (c, rest) ∧ c.type = b.type ∧ c.len = b.len ∧ c.nulls = b.nulls ∧
          (c.validateFull = .ok () ↔ b.Anchored ∧ b.KeysFilled) ∧
          ((∀ p q : Builder, p.KeepsRows q → p.KeepsRows q) → b.KeysFilled →
            c.validateFull = .ok ())) := by
  have made : make true (.list (.num (.int .int32))) = .ok _ := rfl
  have adds : ∀ c ∈ openFirst, c.op.adds = true := by decide
  have reached : Reached KeepsRows _ := (Reached.make made).run_of_adds adds rfl
  refine ⟨_, reached, rfl, .node rfl (List.forall_mem_singleton.2 (.node rfl nofun)), ?_⟩
  exact reached.finish_sound

/-! ### A child finished too early -/

/-- Opens a slot of a list, appends its row to the child, opens another slot and finishes the
child. -/
def childFirst : List Call :=
  [⟨[], .append true⟩, ⟨[0], .appendScalar (.num (.int .int32) 7)⟩, ⟨[], .append true⟩,
    ⟨[0], .finish⟩]

/-- The second slot of a list starts at a row that is gone when the list is finished. -/
theorem finish_after_child :
    ∃ b b' c rest, make true (.list (.num (.int .int32))) = .ok b ∧ b.run childFirst = .ok b' ∧
      b'.KeysFilled ∧ b'.finish = .ok (c, rest) ∧ ∃ r, c.validateFull = .error (.refusal r) := by
  have made : make true (.list (.num (.int .int32))) = .ok _ := rfl
  have ran : (ofValues true (.num (.empty (.int .int32) true))).run childFirst = .ok _ := rfl
  have held := (holds_make _ made).run ran
  -- two slots, of which the second starts at row 1 of none
  have left : childFirst.foldl Contents.call (.ofValues (.list (.num (.int .int32))) []) =
      .list [true, true] [0, 1] (.num (.int .int32) [] []) := rfl
  rw [left] at held
  obtain ⟨c, rest, finished, describes⟩ | ⟨stops, -⟩ := held.finish_outcome
  · refine ⟨_, _, c, rest, made, ran, ?_, finished, ?_⟩
    · exact .node rfl (List.forall_mem_singleton.2 (.node rfl nofun))
    · obtain ⟨accepted, -⟩ | ⟨-, refused⟩ := Column.validateFull_decides c
      · have start := (describes.accepted.1 accepted).1.here.within 1 (by decide)
        exact absurd start (by decide)
      · exact refused
  · refine absurd ⟨?_, ?_⟩ stops
    · exact .node (by decide) (List.forall_mem_singleton.2 (.node (by decide) nofun))
    · exact .node trivial (List.forall_mem_singleton.2 (.node trivial nofun))

end Builder

end Columnar
