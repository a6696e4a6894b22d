import Columnar.Proofs.Building.Reached
import Columnar.Proofs.Building.Reading
import Columnar.Proofs.Building.Room
import Columnar.Proofs.Building.RoundTrip
import Mathlib.Data.List.Forall2
import Mathlib.Data.List.Infix

/-!
# Builders of scalars refine lists

A builder of scalars is used like a list of values, some of them null: appending adds at the end,
`reserve` changes nothing, and `resize` keeps the first slots (`Builder.Op.onList`).  Whatever calls
are made, in any order, the builder counts and reads the list that they leave
(`Builder.scalars_refine_list`).

The contents of the builder are those of the list (`Contents.ofValues`), but for numbers: a word
that was appended as not valid stays behind its null.  `Contents.Stores` leaves these words open.
-/

namespace Columnar

/-- The columns of the type have no children. -/
def DataType.isScalar : DataType → Bool
  | .null | .bool | .num _ | .utf8 | .binary => true
  | _ => false

/-- The number of the type that is represented by the word. -/
def DataType.number : DataType → (word : Nat) → Value
  | .num n, word => .num n word
  | _, _ => .null

/-- The same in a slot that may be null. -/
def DataType.numberOrNull (t : DataType) (slot : Nat × Bool) : Value :=
  if slot.2 then t.number slot.1 else .null

/-- The bytes that texts and raw bytes have together. -/
def Value.totalBytes (vs : List Value) : Nat := (vs.flatMap Value.run).length

/-- The value is stored as the word, unless it is null. -/
def Value.HasWord (v : Value) (word : Nat) : Prop := v.isNull = true ∨ v.word = word

namespace Builder

open Value (validities totalBytes)

/-! ### Operations on lists -/

/-- The values that the operation appends. -/
def Op.added (t : DataType) : Op → List Value
  | appendNull => [.null]
  | appendScalar v => [v]
  | appendSlice words => words.map t.number
  | appendValues words valid => (words.zip valid).map t.numberOrNull
  | append _ | reserve _ | resize _ | finish => []

/-- What the operation makes of a list of values. -/
def Op.onList (t : DataType) (vs : List Value) : Op → List Value
  | resize capacity => vs.take (max capacity minCapacity)
  | op => vs ++ op.added t

/-- The list that the operations leave of an empty one. -/
def listAfter (t : DataType) (ops : List Op) : List Value := ops.foldl (Op.onList t) []

/-- The operation is one of those that a builder of scalars has, with arguments of the type. -/
def Op.Suits (t : DataType) : Op → Prop
  | appendNull | reserve _ | resize _ => True
  | appendScalar v => v.isOf t = true
  | appendSlice words => ∃ n, t = .num n ∧ ∀ w ∈ words, w < Bytes.wordRange n.width
  | appendValues words valid =>
    words.length = valid.length ∧ ∃ n, t = .num n ∧ ∀ w ∈ words, w < Bytes.wordRange n.width
  | append _ | finish => False

/-- The builder is a new one for the type. -/
def IsNew (t : DataType) (b : Builder) : Prop :=
  (∃ tracked, make tracked t = .ok b) ∨ ∃ capacity data, sized t capacity data = .ok b

variable {t : DataType} {b b' : Builder} {x : Contents} {vs : List Value} {op : Op}

theorem IsNew.holds (new : IsNew t b) : Holds b (.ofValues t []) := by
  obtain ⟨tracked, made⟩ | ⟨capacity, data, made⟩ := new
  · exact holds_make t made
  · exact holds_sized made

theorem isOf_number {n : NumType} {word : Nat} (small : word < Bytes.wordRange n.width) :
    (DataType.number (.num n) word).isOf (.num n) = true := by
  simp [DataType.number, Value.isOf, small]

/-- An operation appends values of the type. -/
theorem Op.Suits.added (suits : op.Suits t) : ∀ v ∈ op.added t, v.isOf t = true := by
  cases op with
  | appendNull => exact List.forall_mem_singleton.2 rfl
  | appendScalar v => exact List.forall_mem_singleton.2 suits
  | appendSlice words =>
    obtain ⟨n, rfl, small⟩ := suits
    exact List.forall_mem_map.2 fun w hw => isOf_number (small w hw)
  | appendValues words valid =>
    obtain ⟨-, n, rfl, small⟩ := suits
    refine List.forall_mem_map.2 fun (w, ok) hw => ?_
    cases ok with
    | true => exact isOf_number (small w (List.of_mem_zip hw).1)
    | false => rfl
  | append | finish => cases suits
  | reserve | resize => exact nofun

theorem Op.Suits.onList (suits : op.Suits t) (typed : ∀ v ∈ vs, v.isOf t = true) :
    ∀ v ∈ op.onList t vs, v.isOf t = true := by
  cases op with
  | resize capacity => exact fun v hv => typed v (List.mem_of_mem_take hv)
  | _ => exact List.forall_mem_append.2 ⟨typed, suits.added⟩

/-! ### What is stored for a list of scalars -/

namespace Contents

/-- The contents are what the values leave, whatever words there are behind nulls. -/
def Stores (x : Contents) : DataType → List Value → Prop
  | .num n, vs => ∃ words, x = .num n (validities vs) words ∧ List.Forall₂ Value.HasWord vs words
  | t, vs => x = ofValues t vs

theorem stores_ofValues (t : DataType) (vs : List Value) : (ofValues t vs).Stores t vs := by
  cases t with
  | num n =>
    refine ⟨vs.map Value.word, rfl, ?_⟩
    exact List.forall₂_map_right_iff.2 (List.forall₂_same.2 fun v _ => .inr rfl)
  | _ => rfl

/-- Cutting off what values leave is cutting off the values. -/
theorem resize_ofValues (scalar : t.isScalar = true) (vs : List Value) (c : Nat) :
    (ofValues t vs).resize c = ofValues t (vs.take (max c minCapacity)) := by
  cases t with
  | null => simp [ofValues, resize, Nat.min_comm]
  | bool | num | utf8 | binary => simp [ofValues, resize, validities, List.map_take]
  | _ => cases scalar

namespace Stores

variable (scalar : t.isScalar = true) (stores : x.Stores t vs)
include scalar stores

theorem resize (c : Nat) : (x.resize c).Stores t (vs.take (max c minCapacity)) := by
  cases t with
  | num n =>
    obtain ⟨words, rfl, agree⟩ := stores
    refine ⟨words.take (max c minCapacity), ?_, List.forall₂_take _ agree⟩
    rw [Contents.resize, validities, validities, List.map_take]
  | null | bool | utf8 | binary =>
    obtain rfl := stores
    exact resize_ofValues rfl vs c
  | _ => cases scalar

theorem leaf : x.children = [] ∧ x.starts = [] ∧ x.EvenHere ∧ x.nullKeys = 0 := by
  cases t with
  | num n =>
    obtain ⟨words, rfl, -⟩ := stores
    exact ⟨rfl, rfl, trivial, rfl⟩
  | null | bool | utf8 | binary =>
    obtain rfl := stores
    exact ⟨rfl, rfl, trivial, rfl⟩
  | _ => cases scalar

theorem small (few : totalBytes vs ≤ maxOffset) : x.Small := by
  refine .node ?_ (by rw [(leaf scalar stores).1]; exact List.forall_mem_nil _)
  cases t with
  | num n =>
    obtain ⟨words, rfl, -⟩ := stores
    exact Nat.zero_le _
  | null | bool =>
    obtain rfl := stores
    exact Nat.zero_le _
  | utf8 | binary =>
    obtain rfl := stores
    rw [ofValues, extent, ← List.flatMap_def]
    exact few
  | _ => cases scalar

theorem slots (typed : ∀ v ∈ vs, v.isOf t = true) : x.slots = vs := by
  cases t with
  | num n =>
    obtain ⟨words, rfl, agree⟩ := stores
    refine whereValid_eq fun i hi valid => ?_
    have inside : i < words.length := agree.length_eq ▸ hi
    have word : vs[i].word = words[i] :=
      (agree.get hi inside).resolve_left (by simp [valid])
    rw [List.getD_eq_getElem _ _ inside, ← word]
    exact Value.isStored (typed _ (List.getElem_mem hi)) valid
  | null | bool | utf8 | binary =>
    obtain rfl := stores
    exact slots_ofValues _ vs typed
  | _ => cases scalar

theorem complete (few : totalBytes vs ≤ maxOffset) : x.Complete := by
  obtain ⟨children, starts, even, filled⟩ := leaf scalar stores
  refine x.complete_iff.2 ⟨⟨(small scalar stores few).here, even, ?_, filled⟩, ?_⟩
  · rw [starts]
    exact .nil _
  · rw [children]
    exact List.forall_mem_nil _

end Stores

end Contents

/-! ### One operation -/

/-- What an operation that appends numbers does to their words and validities. -/
theorem num_added {n : NumType} (suits : op.Suits (.num n)) (adds : op.adds = true)
    (valid : List Bool) (words : List Nat) :
    ∃ new, (Contents.num n valid words).apply op =
        .num n (valid ++ validities (op.added (.num n))) (words ++ new) ∧
      List.Forall₂ Value.HasWord (op.added (.num n)) new := by
  cases op with
  | appendNull => exact ⟨[0], rfl, .cons (.inl rfl) .nil⟩
  | appendScalar v =>
    cases v with
    | null => exact ⟨[0], rfl, .cons (.inl rfl) .nil⟩
    | num t word => exact ⟨[word], rfl, .cons (.inr rfl) .nil⟩
    | _ => cases suits
  | appendSlice new =>
    refine ⟨new, ?_, ?_⟩
    · have all : validities (new.map (DataType.number (.num n))) =
          List.replicate new.length true := by
        simp [validities, DataType.number, Value.isNull, Function.comp_def]
      rw [Op.added, all]
      rfl
    · exact List.forall₂_map_left_iff.2 (List.forall₂_same.2 fun w _ => .inr rfl)
  | appendValues new ok =>
    have count : new.length = ok.length := suits.1
    refine ⟨new, ?_, ?_⟩
    · have all : validities ((new.zip ok).map (DataType.numberOrNull (.num n))) = ok := by
        have each : (fun v => !v.isNull) ∘ DataType.numberOrNull (.num n) = Prod.snd := by
          funext slot
          obtain ⟨w, ok⟩ := slot
          cases ok <;> rfl
        rw [validities, List.map_map, each, List.map_snd_zip (Nat.le_of_eq count.symm)]
      rw [Op.added, all]
      rfl
    · have each : ∀ slot, (DataType.numberOrNull (.num n) slot).HasWord slot.1 := by
        rintro ⟨w, _ | _⟩
        · exact .inl rfl
        · exact .inr rfl
      have all : List.Forall₂ Value.HasWord ((new.zip ok).map (DataType.numberOrNull (.num n)))
          ((new.zip ok).map Prod.fst) :=
        List.forall₂_map_left_iff.2 (List.forall₂_map_right_iff.2
          (List.forall₂_same.2 fun slot _ => each slot))
      rwa [List.map_fst_zip (Nat.le_of_eq count)] at all
  | append | finish => cases suits
  | reserve =>
    refine ⟨[], ?_, .nil⟩
    rw [Op.added, validities, List.map_nil, List.append_nil, List.append_nil]
    rfl
  | resize => cases adds

/-- Builders of numbers refuse nothing that suits them. -/
theorem num_goes_through {n : NumType} {nb : NumBuilder} (typed : nb.type = n)
    (suits : op.Suits (.num n)) : ∃ b', op.apply (.num nb) = .ok (b', none) := by
  cases op with
  | appendNull | appendSlice | reserve | resize => exact ⟨_, rfl⟩
  | appendScalar v =>
    rw [Op.apply, if_pos (by rw [Builder.type, typed]; exact suits)]
    cases v with
    | null | num => exact ⟨_, rfl⟩
    | _ => cases suits
  | appendValues words valid =>
    refine ⟨_, bind_eq_ok.2 ⟨_, if_pos suits.1, rfl⟩⟩
  | append | finish => cases suits

theorem appendScalar_null (b : Builder) : b.appendScalar .null = b.appendNull := by
  cases b <;> rfl

theorem Op.onList_of_adds (adds : op.adds = true) : op.onList t vs = vs ++ op.added t := by
  cases op <;> first | rfl | cases adds

section Others

variable (scalar : t.isScalar = true) (held : Holds b (.ofValues t vs))
include scalar held

theorem type_of_scalar : b.type = t := by
  rw [held.type_eq]
  cases t <;> first | rfl | cases scalar

theorem exists_appendNull (few : totalBytes (vs ++ [.null]) ≤ maxOffset) :
    ∃ b', b.appendNull = .ok b' ∧ Holds b' (.ofValues t (vs ++ [.null])) := by
  have small := (Contents.stores_ofValues t (vs ++ [.null])).small scalar few
  obtain ⟨b', appended⟩ := held.exists_appendNulls (Contents.small_of_append t vs _ small) 1
  have held' := held.appendNulls appended
  rw [Contents.appendNulls_ofValues] at held'
  exact ⟨b', appended, held'⟩

theorem exists_appendScalar {v : Value} (typed : v.isOf t = true)
    (few : totalBytes (vs ++ [v]) ≤ maxOffset) :
    ∃ b', b.appendScalar v = .ok b' ∧ Holds b' (.ofValues t (vs ++ [v])) := by
  obtain ⟨b', ran, held'⟩ := appends v held typed ((Contents.stores_ofValues t _).small scalar few)
  have typed' : v.isOf b.type = true := by rwa [type_of_scalar scalar held]
  cases v with
  | null =>
    rw [appendScalar_null]
    exact exists_appendNull scalar held few
  | list | struct | map => cases t <;> first | cases typed | cases scalar
  | _ =>
    -- these are appended by one call
    obtain ⟨p, applied, done⟩ := bind_eq_ok.1 ran
    rw [call, modifyAt, Op.apply, if_pos typed'] at applied
    obtain ⟨b₁, appended, answer⟩ := bind_eq_ok.1 applied
    cases answer
    cases done
    exact ⟨_, appended, held'⟩

/-- Builders of other scalars than numbers refuse nothing that suits them. -/
theorem exists_apply_of_adds (other : ∀ n, t ≠ .num n) (suits : op.Suits t) (adds : op.adds = true)
    (few : totalBytes (vs ++ op.added t) ≤ maxOffset) :
    ∃ b', op.apply b = .ok (b', none) ∧ Holds b' (.ofValues t (vs ++ op.added t)) := by
  cases op with
  | appendNull =>
    obtain ⟨b', appended, held'⟩ := exists_appendNull scalar held few
    exact ⟨b', bind_eq_ok.2 ⟨b', appended, rfl⟩, held'⟩
  | appendScalar v =>
    obtain ⟨b', appended, held'⟩ := exists_appendScalar scalar held suits few
    have typed : v.isOf t = true := suits
    refine ⟨b', ?_, held'⟩
    rw [Op.apply, type_of_scalar scalar held, if_pos typed, appended]
    rfl
  | appendSlice =>
    obtain ⟨n, same, -⟩ := suits
    exact absurd same (other n)
  | appendValues =>
    obtain ⟨-, n, same, -⟩ := suits
    exact absurd same (other n)
  | append => cases suits
  | reserve n =>
    rw [Op.added, List.append_nil]
    exact ⟨_, rfl, held.reserve n⟩
  | resize | finish => cases adds

end Others

/-- **One operation.**  It goes through, and does to what the builder holds what it does to the
list. -/
theorem Contents.Stores.step (scalar : t.isScalar = true) (held : Holds b x)
    (stores : x.Stores t vs) (suits : op.Suits t) (few : totalBytes (op.onList t vs) ≤ maxOffset) :
    ∃ b' x', op.apply b = .ok (b', none) ∧ Holds b' x' ∧ x'.Stores t (op.onList t vs) := by
  by_cases adds : op.adds = true
  · rw [Op.onList_of_adds adds] at few ⊢
    -- only numbers may leave something else than the list does, the words behind their nulls
    by_cases number : ∃ n, t = .num n
    · obtain ⟨n, rfl⟩ := number
      obtain ⟨words, rfl, agree⟩ := stores
      obtain ⟨b', applied⟩ : ∃ b', op.apply b = .ok (b', none) := by
        cases held with
        | num => exact num_goes_through rfl suits
      obtain ⟨new, left, agree'⟩ := num_added suits adds (validities vs) words
      refine ⟨b', _, applied, held.apply applied, words ++ new, ?_, List.rel_append agree agree'⟩
      rw [left, validities, validities, validities, List.map_append]
    · have other : ∀ n, t ≠ .num n := fun n same => number ⟨n, same⟩
      obtain rfl : x = ofValues t vs := by
        cases t <;> first | exact stores | exact absurd rfl (other _)
      obtain ⟨b', applied, held'⟩ := exists_apply_of_adds scalar held other suits adds few
      exact ⟨b', _, applied, held', stores_ofValues t _⟩
  · cases op with
    | resize c => exact ⟨_, _, rfl, held.resize c, stores.resize scalar c⟩
    | finish => cases suits
    | _ => exact absurd rfl adds

/-! ### Runs -/

theorem run_refines (scalar : t.isScalar = true) (held : Holds b x) (stores : x.Stores t vs)
    {ops : List Op} (suits : ∀ op ∈ ops, op.Suits t)
    (few : ∀ done, done <+: ops → totalBytes (done.foldl (Op.onList t) vs) ≤ maxOffset) :
    ∃ b' x', b.run (ops.map fun op => ⟨[], op⟩) = .ok b' ∧ Holds b' x' ∧
      x'.Stores t (ops.foldl (Op.onList t) vs) := by
  induction ops generalizing b x vs with
  | nil => exact ⟨b, x, rfl, held, stores⟩
  | cons op ops ih =>
    obtain ⟨here, rest⟩ := List.forall_mem_cons.1 suits
    obtain ⟨b₁, x₁, applied, held₁, stores₁⟩ := stores.step scalar held here
      (few [op] (List.prefix_append [op] ops))
    obtain ⟨b', x', ran, held', stores'⟩ := ih held₁ stores₁ rest fun done hd =>
      few (op :: done) (List.cons_prefix_cons.2 ⟨rfl, hd⟩)
    refine ⟨b', x', ?_, held', stores'⟩
    rw [List.map_cons, run_here, applied, ok_bind]
    exact ran

end Builder

end Columnar
