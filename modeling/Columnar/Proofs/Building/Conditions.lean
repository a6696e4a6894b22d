import Columnar.Proofs.Building.Contents

/-!
# Conditions on a builder and the builders below it

Whether a finished column is any good depends on what the builders of a tree hold of each other's
rows.  `Builder.Anchored` says that the slots of every list and map start, in order, at rows that
the child has; `Builder.KeysFilled` that no map has a null key.  `Contents.Small` and
`Contents.Even` are what finishing itself looks at: that offsets are large enough for the rows, and
that children have the rows that the slots call for.

An operation can break the first condition, because it may drop rows of a child whose parent has
already noted where its slots start.  `Builder.KeepsRows` excludes just this, and then contents stay
anchored (`Builder.Contents.Anchored.apply`).  Calls that only add keep rows
(`Builder.KeepsRows.of_adds`).
-/

namespace Columnar

/-! ### Trees -/

section Trees

variable {α : Type} {children : α → List α} {P Q : α → Prop} {R : α → α → Prop} {a b c d : α}

/-- `P` holds of a node and of those below it, at every depth. -/
inductive Throughout (children : α → List α) (P : α → Prop) : α → Prop where
  | node {a : α} (here : P a) (below : ∀ d ∈ children a, Throughout children P d) :
      Throughout children P a

/-- `R` holds between two nodes, and between those that are reached from them in the same way. -/
inductive Alongside (children : α → List α) (R : α → α → Prop) : α → α → Prop where
  | node {a b : α} (here : R a b)
      (below : ∀ (i : Nat) (c d : α), (children a)[i]? = some c → (children b)[i]? = some d →
        Alongside children R c d) :
      Alongside children R a b

theorem Throughout.here (h : Throughout children P a) : P a := by
  cases h with
  | node here _ => exact here

theorem Throughout.child (h : Throughout children P a) (hd : d ∈ children a) :
    Throughout children P d := by
  cases h with
  | node _ below => exact below d hd

theorem throughout_iff :
    Throughout children P a ↔ P a ∧ ∀ d ∈ children a, Throughout children P d :=
  ⟨fun h => ⟨h.here, fun _ hd => h.child hd⟩, fun h => .node h.1 h.2⟩

theorem Alongside.here (h : Alongside children R a b) : R a b := by
  cases h with
  | node here _ => exact here

theorem Alongside.child (h : Alongside children R a b) {i : Nat} (hc : (children a)[i]? = some c)
    (hd : (children b)[i]? = some d) : Alongside children R c d := by
  cases h with
  | node _ below => exact below i c d hc hd

/-- Pairs of nodes below that are related in order. -/
theorem Alongside.of_forall₂ (here : R a b)
    (below : List.Forall₂ (Alongside children R) (children a) (children b)) :
    Alongside children R a b := by
  refine .node here fun i c d hc hd => ?_
  obtain ⟨inside, rfl⟩ := List.getElem?_eq_some_iff.1 hc
  obtain ⟨inside', rfl⟩ := List.getElem?_eq_some_iff.1 hd
  exact below.get inside inside'

end Trees

/-! ### Starts within rows -/

/-- The starts do not decrease, and none is past the rows. -/
structure StartsWithin (starts : List Nat) (rows : Nat) : Prop where
  ordered : starts.Pairwise (· ≤ ·)
  within : ∀ n ∈ starts, n ≤ rows

namespace StartsWithin

variable {starts more : List Nat} {rows n : Nat}

theorem nil (rows : Nat) : StartsWithin [] rows := ⟨.nil, nofun⟩

theorem isChain_iff : (starts ++ [rows]).IsChain (· ≤ ·) ↔ StartsWithin starts rows := by
  rw [List.isChain_iff_pairwise, List.pairwise_append]
  constructor
  · rintro ⟨ordered, -, within⟩
    exact ⟨ordered, fun n hn => within n hn rows (List.mem_singleton_self rows)⟩
  · rintro ⟨ordered, within⟩
    refine ⟨ordered, List.pairwise_singleton _ _, fun n hn m hm => ?_⟩
    rw [List.mem_singleton.1 hm]
    exact within n hn

/-- Slots more, which start where the rows end. -/
theorem extend (h : StartsWithin starts rows) (n : Nat) :
    StartsWithin (starts ++ List.replicate n rows) rows where
  ordered := by
    refine List.pairwise_append.2 ⟨h.ordered, List.pairwise_replicate.2 (.inr (Nat.le_refl _)), ?_⟩
    intro m hm k hk
    rw [(List.mem_replicate.1 hk).2]
    exact h.within m hm
  within := by
    intro m hm
    rcases List.mem_append.1 hm with hm | hm
    · exact h.within m hm
    · exact Nat.le_of_eq (List.mem_replicate.1 hm).2

/-- Fewer slots, and as many rows as before unless no slot is left. -/
theorem sublist (h : StartsWithin starts rows) (fewer : more.Sublist starts)
    (kept : more = [] ∨ rows ≤ n) : StartsWithin more n := by
  rcases kept with rfl | kept
  · exact nil n
  · exact ⟨h.ordered.sublist fewer, fun m hm => Nat.le_trans (h.within m (fewer.subset hm)) kept⟩

/-- Runs laid end to end start in order, and within their rows. -/
theorem startsOf {β : Type} (runs : List (List β)) :
    StartsWithin (startsOf runs) runs.flatten.length := isChain_iff.1 (isChain_bounds runs)

end StartsWithin

namespace Builder

/-! ### Conditions on builders -/

/-- The builders of the children, in order. -/
def children : Builder → List Builder
  | null _ | bool _ | num _ | bytes _ => []
  | list _ values | fixedList _ _ values => [values]
  | struct _ _ children => children
  | entries keys items | map _ keys items _ => [keys, items]

/-- Where the rows of each slot of a list or a map start. -/
def starts : Builder → List Nat
  | list spans _ | map spans _ _ _ => spans.starts
  | _ => []

/-- Number of rows that the slots of a list or a map share out. -/
def rows : Builder → Nat
  | list _ values => values.len
  | map _ keys _ _ => keys.len
  | _ => 0

/-- Number of null keys of a map. -/
def nullKeys : Builder → Nat
  | map _ keys _ _ => keys.nulls
  | _ => 0

/-- The slots of every list and map start, in order, at rows that the child has. -/
def Anchored (b : Builder) : Prop := Throughout children (fun b => StartsWithin b.starts b.rows) b

/-- No map has a null key. -/
def KeysFilled (b : Builder) : Prop := Throughout children (fun b => b.nullKeys = 0) b

/-- Every list and map that has slots in `b'` has at least the rows there that it has in `b`. -/
def KeepsRows (b b' : Builder) : Prop :=
  Alongside children (fun b b' => b'.starts = [] ∨ b.rows ≤ b'.rows) b b'

namespace Contents

variable {x y : Contents} {n i c : Nat}

/-! ### Conditions on contents -/

/-- The contents of the children, in order. -/
def children : Contents → List Contents
  | null _ | bool _ _ | num _ _ _ | bytes _ _ _ => []
  | list _ _ values | fixedList _ _ values => [values]
  | struct _ _ children => children
  | entries keys items | map _ _ keys items _ => [keys, items]

/-- Where the rows of each slot of a list or a map start. -/
def starts : Contents → List Nat
  | list _ starts _ | map _ starts _ _ _ => starts
  | _ => []

/-- Number of rows that the slots of a list or a map share out. -/
def rows : Contents → Nat
  | list _ _ values => values.len
  | map _ _ keys _ _ => keys.len
  | _ => 0

/-- Number of null keys of a map. -/
def nullKeys : Contents → Nat
  | map _ _ keys _ _ => keys.nulls
  | _ => 0

/-- The end of the bytes or rows, as an offset. -/
def extent : Contents → Nat
  | bytes _ _ runs => runs.flatten.length
  | x => x.rows

/-- The children have the rows that the slots call for. -/
def EvenHere : Contents → Prop
  | fixedList valid size values => values.len = valid.length * size
  | struct valid _ children => ∀ y ∈ children, y.len = valid.length
  | entries keys items | map _ _ keys items _ => keys.len = items.len
  | _ => True

/-- The slots of every list and map start, in order, at rows that the child has. -/
def Anchored (x : Contents) : Prop := Throughout children (fun x => StartsWithin x.starts x.rows) x

/-- No map has a null key. -/
def KeysFilled (x : Contents) : Prop := Throughout children (fun x => x.nullKeys = 0) x

/-- Every list and map that has slots in `y` has at least the rows there that it has in `x`. -/
def KeepsRows (x y : Contents) : Prop :=
  Alongside children (fun x y => y.starts = [] ∨ x.rows ≤ y.rows) x y

/-- Offsets are large enough for all bytes and rows. -/
def Small (x : Contents) : Prop := Throughout children (fun x => x.extent ≤ maxOffset) x

/-- Everywhere, the children have the rows that the slots call for. -/
def Even (x : Contents) : Prop := Throughout children EvenHere x

/-! ### Calls that keep rows -/

theorem child?_eq (x : Contents) (i : Nat) : x.child? i = x.children[i]? := by
  rcases x with _ | _ | _ | _ | _ | _ | _ | _ | _ <;> rcases i with _ | _ | i <;> rfl

theorem children_setChild (x : Contents) (i : Nat) (y : Contents) :
    (x.setChild i y).children = x.children.set i y := by
  rcases x with _ | _ | _ | _ | _ | _ | _ | _ | _ <;> rcases i with _ | _ | i <;> rfl

theorem starts_setChild (x : Contents) (i : Nat) (y : Contents) :
    (x.setChild i y).starts = x.starts := by
  rcases x with _ | _ | _ | _ | _ | _ | _ | _ | _ <;> rcases i with _ | _ | i <;> rfl

/-- A leaf is anchored. -/
theorem anchored_leaf (leaf : x.children = []) (none : x.starts = []) : x.Anchored := by
  refine .node ?_ ?_
  · rw [none]
    exact .nil _
  · rw [leaf]
    exact nofun

theorem appendNullsToAll_eq (xs : List Contents) (n : Nat) :
    appendNullsToAll xs n = xs.map (·.appendNulls n) := by
  induction xs with
  | nil => rfl
  | cons x xs ih => rw [appendNullsToAll, List.map_cons, ih]

mutual

theorem anchored_emptied : (x : Contents) → x.emptied.Anchored
  | null _ | bool _ _ | num _ _ _ | bytes _ _ _ => anchored_leaf rfl rfl
  | list _ _ values | fixedList _ _ values =>
    .node (.nil _) (List.forall_mem_singleton.2 (anchored_emptied values))
  | struct _ _ xs => .node (.nil _) (anchored_emptiedAll xs)
  | entries keys items | map _ _ keys items _ =>
    .node (.nil _) (List.forall_mem_cons.2
      ⟨anchored_emptied keys, List.forall_mem_singleton.2 (anchored_emptied items)⟩)

theorem anchored_emptiedAll : (xs : List Contents) → ∀ y ∈ emptiedAll xs, y.Anchored
  | [] => nofun
  | x :: xs => List.forall_mem_cons.2 ⟨anchored_emptied x, anchored_emptiedAll xs⟩

end

namespace Anchored

theorem appendNulls (h : x.Anchored) (n : Nat) : (x.appendNulls n).Anchored := by
  induction h generalizing n with
  | @node x here below ih =>
    cases x with
    | list | map => exact .node (here.extend n) below
    | fixedList valid size values =>
      refine .node (.nil _) ?_
      rintro _ (_ | ⟨_, ⟨⟩⟩)
      exact ih values (List.mem_singleton_self _) (n * size)
    | struct valid fields xs =>
      refine .node (.nil _) ?_
      rw [Contents.appendNulls, children, appendNullsToAll_eq, List.forall_mem_map]
      exact fun y hy => ih y hy n
    | entries keys items =>
      refine .node (.nil _) ?_
      exact List.forall_mem_map.2 fun y hy => ih y hy n
    | _ => exact anchored_leaf rfl rfl

theorem append (h : x.Anchored) (v : Bool) : (x.append v).Anchored := by
  cases x with
  | list | map => exact .node (h.here.extend 1) fun _ hd => h.child hd
  | fixedList valid size values =>
    refine .node (.nil _) ?_
    rintro _ (_ | ⟨_, ⟨⟩⟩)
    have child : values.Anchored := h.child (List.mem_singleton_self _)
    cases v with
    | true => exact child
    | false => exact child.appendNulls size
  | struct => exact .node (.nil _) fun _ hd => h.child hd
  | _ => exact h

theorem appendScalar (h : x.Anchored) (v : Value) : (x.appendScalar v).Anchored := by
  cases v with
  | null =>
    rw [appendScalar_null]
    exact h.appendNulls 1
  | _ => cases x <;> first | exact h | exact anchored_leaf rfl rfl

theorem appendWords (h : x.Anchored) (words : List Nat) (valid : List Bool) :
    (x.appendWords words valid).Anchored := by
  cases x with
  | num => exact anchored_leaf rfl rfl
  | _ => exact h

theorem resize (h : x.Anchored) (c : Nat) (kept : x.KeepsRows (x.resize c)) :
    (x.resize c).Anchored := by
  induction h generalizing c with
  | @node x here below ih =>
    cases x with
    | list => exact .node (here.sublist (List.take_sublist _ _) kept.here) below
    | entries keys items =>
      refine .node (.nil _) (List.forall_mem_cons.2 ⟨?_, List.forall_mem_singleton.2 ?_⟩)
      · exact ih keys (by simp [children]) _ (kept.child (i := 0) rfl rfl)
      · exact ih items (by simp [children]) _ (kept.child (i := 1) rfl rfl)
    | map valid starts keys items sorted =>
      refine .node (here.sublist (List.take_sublist _ _) kept.here)
        (List.forall_mem_cons.2 ⟨?_, List.forall_mem_singleton.2 ?_⟩)
      · exact ih keys (by simp [children]) _ (kept.child (i := 0) rfl rfl)
      · exact ih items (by simp [children]) _ (kept.child (i := 1) rfl rfl)
    | fixedList | struct => exact .node (.nil _) below
    | _ => exact anchored_leaf rfl rfl

/-- An operation keeps contents anchored if it keeps their rows. -/
theorem apply (h : x.Anchored) (op : Op) (kept : x.KeepsRows (x.apply op)) :
    (x.apply op).Anchored := by
  cases op with
  | appendNull => exact h.appendNulls 1
  | append v => exact h.append v
  | appendScalar v => exact h.appendScalar v
  | appendSlice words => exact h.appendWords _ _
  | appendValues words valid => exact h.appendWords _ _
  | reserve => exact h
  | resize c => exact h.resize c kept
  | finish => exact anchored_emptied x

end Anchored

/-! ### Calls that only add -/

mutual

theorem keepsRows_appendNulls : (x : Contents) → (n : Nat) → x.KeepsRows (x.appendNulls n)
  | null _, _ | bool _ _, _ | num _ _ _, _ | bytes _ _ _, _ => .of_forall₂ (.inl rfl) .nil
  | list _ _ values, _ =>
    .of_forall₂ (.inr (Nat.le_refl _)) (.cons (keepsRows_self values) .nil)
  | fixedList _ _ values, _ =>
    .of_forall₂ (.inl rfl) (.cons (keepsRows_appendNulls values _) .nil)
  | struct _ _ xs, n => .of_forall₂ (.inl rfl) (keepsRows_appendNullsToAll xs n)
  | entries keys items, n => .of_forall₂ (.inl rfl)
      (.cons (keepsRows_appendNulls keys n) (.cons (keepsRows_appendNulls items n) .nil))
  | map _ _ keys items _, _ => .of_forall₂ (.inr (Nat.le_refl _))
      (.cons (keepsRows_self keys) (.cons (keepsRows_self items) .nil))

theorem keepsRows_appendNullsToAll : (xs : List Contents) → (n : Nat) →
    List.Forall₂ KeepsRows xs (appendNullsToAll xs n)
  | [], _ => .nil
  | x :: xs, n => .cons (keepsRows_appendNulls x n) (keepsRows_appendNullsToAll xs n)

theorem keepsRows_self : (x : Contents) → x.KeepsRows x
  | null _ | bool _ _ | num _ _ _ | bytes _ _ _ => .of_forall₂ (.inl rfl) .nil
  | list _ _ values | fixedList _ _ values =>
    .of_forall₂ (.inr (Nat.le_refl _)) (.cons (keepsRows_self values) .nil)
  | struct _ _ xs => .of_forall₂ (.inl rfl) (keepsRows_all xs)
  | entries keys items | map _ _ keys items _ => .of_forall₂ (.inr (Nat.le_refl _))
      (.cons (keepsRows_self keys) (.cons (keepsRows_self items) .nil))

theorem keepsRows_all : (xs : List Contents) → List.Forall₂ KeepsRows xs xs
  | [] => .nil
  | x :: xs => .cons (keepsRows_self x) (keepsRows_all xs)

end

/-- `y` has at least the slots of `x`, and at every depth the rows that slots were given. -/
structure Grows (x y : Contents) : Prop where
  len : x.len ≤ y.len
  rows : x.KeepsRows y

theorem Grows.refl (x : Contents) : x.Grows x := ⟨Nat.le_refl _, keepsRows_self x⟩

theorem len_appendNulls : (x : Contents) → (n : Nat) → (x.appendNulls n).len = x.len + n
  | null _, _ => rfl
  | bool _ _, _ | num _ _ _, _ | bytes _ _ _, _ | list _ _ _, _ | fixedList _ _ _, _
  | struct _ _ _, _ | map _ _ _ _ _, _ => by simp [appendNulls, len]
  | entries keys _, n => len_appendNulls keys n

theorem grows_appendNulls (x : Contents) (n : Nat) : x.Grows (x.appendNulls n) where
  len := by rw [len_appendNulls]; exact Nat.le_add_right _ _
  rows := keepsRows_appendNulls x n

theorem grows_append (x : Contents) (v : Bool) : x.Grows (x.append v) := by
  cases x with
  | list | map =>
    exact ⟨by simp [append, len], .of_forall₂ (.inr (Nat.le_refl _)) (keepsRows_all _)⟩
  | struct valid fields xs =>
    exact ⟨by simp [append, len], .of_forall₂ (.inl rfl) (keepsRows_all xs)⟩
  | fixedList valid size values =>
    refine ⟨by simp [append, len], .of_forall₂ (.inl rfl) (.cons ?_ .nil)⟩
    cases v with
    | true => exact keepsRows_self values
    | false => exact keepsRows_appendNulls values size
  | _ => exact .refl _

theorem grows_appendScalar (x : Contents) (v : Value) : x.Grows (x.appendScalar v) := by
  cases v with
  | null =>
    rw [appendScalar_null]
    exact grows_appendNulls x 1
  | _ =>
    cases x <;> first
      | exact .refl _
      | exact ⟨by simp [appendScalar, len], .of_forall₂ (.inl rfl) .nil⟩

theorem grows_appendWords (x : Contents) (words : List Nat) (valid : List Bool) :
    x.Grows (x.appendWords words valid) := by
  cases x with
  | num => exact ⟨by simp [appendWords, len], .of_forall₂ (.inl rfl) .nil⟩
  | _ => exact .refl _

end Contents

/-- The operation drops neither slots nor rows. -/
def Op.adds : Op → Bool
  | resize _ | finish => false
  | _ => true

namespace Contents

theorem grows_apply (x : Contents) {op : Op} (adds : op.adds = true) : x.Grows (x.apply op) := by
  cases op with
  | appendNull => exact grows_appendNulls x 1
  | append v => exact grows_append x v
  | appendScalar v => exact grows_appendScalar x v
  | appendSlice words => exact grows_appendWords x _ _
  | appendValues words valid => exact grows_appendWords x _ _
  | reserve => exact .refl x
  | resize | finish => cases adds

theorem Grows.setChild {x y : Contents} {i : Nat} {y' : Contents} (hy : x.child? i = some y)
    (h : y.Grows y') : x.Grows (x.setChild i y') := by
  cases x with
  | list | fixedList =>
    rcases i with _ | i <;> cases hy
    exact ⟨Nat.le_refl _,
      .of_forall₂ (by first | exact .inr h.len | exact .inl rfl) (.cons h.rows .nil)⟩
  | struct valid fields xs =>
    refine ⟨Nat.le_refl _, .of_forall₂ (.inl rfl) ?_⟩
    obtain ⟨inside, rfl⟩ := List.getElem?_eq_some_iff.1 hy
    have set := Holds.forall₂_set (keepsRows_all xs) h.rows i
    rwa [List.set_getElem_self] at set
  | entries keys items =>
    rcases i with _ | _ | i <;> cases hy
    · exact ⟨h.len, .of_forall₂ (.inl rfl) (.cons h.rows (.cons (keepsRows_self items) .nil))⟩
    · exact ⟨Nat.le_refl _,
        .of_forall₂ (.inl rfl) (.cons (keepsRows_self keys) (.cons h.rows .nil))⟩
  | map valid starts keys items sorted =>
    rcases i with _ | _ | i <;> cases hy
    · exact ⟨Nat.le_refl _,
        .of_forall₂ (.inr h.len) (.cons h.rows (.cons (keepsRows_self items) .nil))⟩
    · exact ⟨Nat.le_refl _,
        .of_forall₂ (.inr (Nat.le_refl _)) (.cons (keepsRows_self keys) (.cons h.rows .nil))⟩
  | _ => cases hy

theorem grows_modifyAt {change : Contents → Contents} (here : ∀ y : Contents, y.Grows (change y)) :
    (path : List Nat) → (x : Contents) → x.Grows (x.modifyAt change path)
  | [], x => here x
  | i :: path, x => by
    rw [modifyAt]
    cases hy : x.child? i with
    | none => exact .refl x
    | some y => exact .setChild hy (grows_modifyAt here path y)

/-- A call that adds, on whichever builder, drops no rows. -/
theorem grows_call (x : Contents) {c : Call} (adds : c.op.adds = true) : x.Grows (x.call c) :=
  grows_modifyAt (fun y => grows_apply y adds) c.path x

end Contents

/-! ### From contents to builders -/

namespace Holds

variable {b b' : Builder} {x x' : Contents}

theorem columns (h : Holds b x) : List.Forall₂ Holds b.children x.children := by
  cases h with
  | list _ child | fixedList _ child => exact .cons child .nil
  | struct _ _ columns => exact columns
  | entries first second | map _ first second => exact .cons first (.cons second .nil)
  | _ => exact .nil

theorem starts_eq (h : Holds b x) : b.starts = x.starts := by
  cases h with
  | list held _ | map held _ _ => exact held.starts_eq
  | _ => rfl

theorem rows_eq (h : Holds b x) : b.rows = x.rows := by
  cases h with
  | list _ child => exact child.len_eq
  | map _ first _ => exact first.len_eq
  | _ => rfl

theorem nullKeys_eq (h : Holds b x) : b.nullKeys = x.nullKeys := by
  cases h with
  | map _ first _ => exact first.nulls_eq
  | _ => rfl

/-- What holds throughout the contents holds throughout the builder, and the other way round. -/
theorem throughout_iff {P : Builder → Prop} {Q : Contents → Prop}
    (here : ∀ {b x}, Holds b x → (P b ↔ Q x)) (h : Holds b x) :
    Throughout children P b ↔ Throughout Contents.children Q x := by
  constructor
  · intro all
    induction all generalizing x with
    | node first _ ih =>
      refine .node ((here h).1 first) fun y hy => ?_
      obtain ⟨i, inside, rfl⟩ := List.getElem_of_mem hy
      have inside' := h.columns.length_eq ▸ inside
      exact ih _ (List.getElem_mem inside') (h.columns.get inside' inside)
  · intro all
    induction all generalizing b with
    | node first _ ih =>
      refine .node ((here h).2 first) fun d hd => ?_
      obtain ⟨i, inside, rfl⟩ := List.getElem_of_mem hd
      have inside' := h.columns.length_eq ▸ inside
      exact ih _ (List.getElem_mem inside') (h.columns.get inside inside')

theorem anchored_iff (h : Holds b x) : b.Anchored ↔ x.Anchored :=
  h.throughout_iff fun held => by rw [held.starts_eq, held.rows_eq]

theorem keysFilled_iff (h : Holds b x) : b.KeysFilled ↔ x.KeysFilled :=
  h.throughout_iff fun held => by rw [held.nullKeys_eq]

theorem keepsRows_iff (h : Holds b x) (h' : Holds b' x') : b.KeepsRows b' ↔ x.KeepsRows x' := by
  constructor
  · intro kept
    induction kept generalizing x x' with
    | node here _ ih =>
      refine .node ?_ fun i y y' hy hy' => ?_
      · rw [← h'.starts_eq, ← h.rows_eq, ← h'.rows_eq]
        exact here
      · obtain ⟨inside, rfl⟩ := List.getElem?_eq_some_iff.1 hy
        obtain ⟨inside', rfl⟩ := List.getElem?_eq_some_iff.1 hy'
        have below := h.columns.length_eq ▸ inside
        have below' := h'.columns.length_eq ▸ inside'
        exact ih i _ _ (List.getElem?_eq_getElem below) (List.getElem?_eq_getElem below')
          (h.columns.get below inside) (h'.columns.get below' inside')
  · intro kept
    induction kept generalizing b b' with
    | node here _ ih =>
      refine .node ?_ fun i d d' hd hd' => ?_
      · rw [h'.starts_eq, h.rows_eq, h'.rows_eq]
        exact here
      · obtain ⟨inside, rfl⟩ := List.getElem?_eq_some_iff.1 hd
        obtain ⟨inside', rfl⟩ := List.getElem?_eq_some_iff.1 hd'
        have below := h.columns.length_eq ▸ inside
        have below' := h'.columns.length_eq ▸ inside'
        exact ih i _ _ (List.getElem?_eq_getElem below) (List.getElem?_eq_getElem below')
          (h.columns.get inside below) (h'.columns.get inside' below')

end Holds

/-- A call that adds, on whichever builder, keeps the rows of lists and maps. -/
theorem KeepsRows.of_adds {b b' : Builder} {x : Contents} {c : Call} {answer : Option Column}
    (held : Holds b x) (called : b.call c = .ok (b', answer)) (adds : c.op.adds = true) :
    b.KeepsRows b' :=
  (held.keepsRows_iff (held.call called)).2 (x.grows_call adds).rows

end Builder

end Columnar
