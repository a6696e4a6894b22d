import Columnar.Proofs.Building.Conditions
import Columnar.Proofs.Building.Room

/-!
# What any call leads to

A call that makes room beyond what can be counted may drop slots, and then it does not lead to the
contents that `Contents.call` tells.  However sums come out, though, every builder that makes room
sets a capacity or stays as it is.  So any call leads to contents again, of the same type, and
anchored where no rows are lost (`Builder.Holds.exists_call`).
-/

namespace Columnar

/-! ### Room, however it is counted -/

/-- What grows to a target keeps its capacity or has one set. -/
theorem grow_cases {α : Type} (target : Option Nat) (a : α) (resize : Nat → α) :
    (match target with | some c => resize c | none => a) = a ∨
      ∃ c, (match target with | some c => resize c | none => a) = resize c := by
  cases target with
  | none => exact .inl rfl
  | some c => exact .inr ⟨c, rfl⟩

theorem Slots.reserve_cases (s : Slots) (n : Nat) (sizes : Sizes) :
    s.reserve n sizes = s ∨ ∃ c, s.reserve n sizes = s.resize (max c minCapacity) := by
  rw [Slots.reserve]
  cases grows : s.growTarget? n sizes with
  | none => exact .inl rfl
  | some c => exact .inr ⟨c, by rw [Slots.growTarget?_eq grows]⟩

theorem Spans.reserve_cases (s : Spans) (n : Nat) (sizes : Sizes) :
    s.reserve n sizes = s ∨ ∃ c, s.reserve n sizes = s.resize c :=
  grow_cases (s.slots.growTarget? n sizes) s s.resize

theorem NullBuilder.reserve_cases (b : NullBuilder) (n : Nat) (sizes : Sizes) :
    b.reserve n sizes = b ∨ ∃ c, b.reserve n sizes = b.resize c := by
  rw [NullBuilder.reserve]
  split_ifs
  · exact .inr ⟨_, rfl⟩
  · exact .inl rfl

namespace Builder

namespace Contents

variable {x y y' : Contents} {i : Nat}

/-! ### Contents that follow others -/

/-- `y` is of the type of `x`, and as long as it has the rows of `x`, it is anchored like `x`. -/
structure Follows (x y : Contents) : Prop where
  type : y.type = x.type
  anchored : x.Anchored → x.KeepsRows y → y.Anchored

namespace Follows

theorem refl (x : Contents) : x.Follows x := ⟨rfl, fun h _ => h⟩

theorem resize (x : Contents) (c : Nat) : x.Follows (x.resize c) :=
  ⟨x.type_resize c, fun h kept => h.resize c kept⟩

theorem apply (x : Contents) (op : Op) : x.Follows (x.apply op) :=
  ⟨x.type_apply op, fun h kept => h.apply op kept⟩

/-- Two children that follow two others, below contents that keep their rows. -/
theorem both {keys items keys' items' : Contents} (first : keys.Follows keys')
    (second : items.Follows items') (hx : x.children = [keys, items])
    (hy : y.children = [keys', items']) (h : x.Anchored) (kept : x.KeepsRows y) :
    ∀ d ∈ y.children, d.Anchored := by
  have kept₀ : keys.KeepsRows keys' := kept.child (i := 0) (by rw [hx]; rfl) (by rw [hy]; rfl)
  have kept₁ : items.KeepsRows items' := kept.child (i := 1) (by rw [hx]; rfl) (by rw [hy]; rfl)
  rw [hy]
  refine List.forall_mem_cons.2 ⟨?_, List.forall_mem_singleton.2 ?_⟩
  · exact first.anchored (h.child (by simp [hx])) kept₀
  · exact second.anchored (h.child (by simp [hx])) kept₁

theorem entries {keys items keys' items' : Contents} (first : keys.Follows keys')
    (second : items.Follows items') :
    (Contents.entries keys items).Follows (.entries keys' items') where
  type := by rw [Contents.type, Contents.type, first.type, second.type]
  anchored h kept := .node (.nil _) (both first second rfl rfl h kept)

/-- Slots may be dropped from a map, together with entries. -/
theorem map {valid valid' : List Bool} {starts starts' : List Nat} {sorted : Bool}
    {keys items keys' items' : Contents} (first : keys.Follows keys')
    (second : items.Follows items') (fewer : starts'.Sublist starts) :
    (Contents.map valid starts keys items sorted).Follows
      (.map valid' starts' keys' items' sorted) where
  type := by rw [Contents.type, Contents.type, first.type, second.type]
  anchored h kept := .node (h.here.sublist fewer kept.here) (both first second rfl rfl h kept)

/-- What follows a child, in its place. -/
theorem setChild (hy : x.child? i = some y) (h : y.Follows y') : x.Follows (x.setChild i y') where
  type := type_setChild hy h.type
  anchored held kept := by
    have found := (child?_eq x i).symm.trans hy
    obtain ⟨inside, rfl⟩ := List.getElem?_eq_some_iff.1 found
    have changed : (x.setChild i y').children[i]? = some y' := by
      rw [children_setChild, List.getElem?_set_self inside]
    refine .node ?_ ?_
    · -- the starts here are the same, over more rows
      have same := starts_setChild x i y'
      exact held.here.sublist (same ▸ List.Sublist.refl _) kept.here
    · rw [children_setChild]
      intro d hd
      rcases List.mem_or_eq_of_mem_set hd with old | rfl
      · exact held.child old
      · exact h.anchored (held.child (List.getElem_mem inside)) (kept.child found changed)

end Follows

end Contents

namespace Holds

variable {b b' : Builder} {x : Contents}

/-! ### Calls -/

/-- A builder of which a part stays as it is or has its capacity set. -/
theorem exists_of_resize {α : Type} {a a' : α} {resize : Nat → α} (h : Holds b x)
    (made : a' = a ∨ ∃ c, a' = resize c) (whole : α → Builder) (here : whole a = b)
    (resized : ∀ c, ∃ c', whole (resize c) = b.resize c') :
    ∃ y, Holds (whole a') y ∧ x.Follows y := by
  rcases made with rfl | ⟨c, rfl⟩
  · exact ⟨x, here ▸ h, .refl x⟩
  · obtain ⟨c', same⟩ := resized c
    exact ⟨x.resize c', same ▸ h.resize c', .resize x c'⟩

/-- Room leads to contents again, however it is counted. -/
theorem exists_reserve (n : Nat) (sizes : Sizes) : (b : Builder) → {x : Contents} → Holds b x →
    ∃ y, Holds (b.reserve n sizes) y ∧ x.Follows y
  | .null b, _, h => h.exists_of_resize (b.reserve_cases n sizes) .null rfl fun c => ⟨c, rfl⟩
  | .bool _, _, h => h.exists_of_resize (grow_cases _ _ _) .bool rfl fun c => ⟨c, rfl⟩
  | .num _, _, h => h.exists_of_resize (grow_cases _ _ _) .num rfl fun c => ⟨c, rfl⟩
  | .bytes _, _, h => h.exists_of_resize (grow_cases _ _ _) .bytes rfl fun c => ⟨c, rfl⟩
  | .list spans values, _, h =>
    h.exists_of_resize (spans.reserve_cases n sizes) (.list · values) rfl fun c => ⟨c, rfl⟩
  | .fixedList slots size values, _, h =>
    h.exists_of_resize (slots.reserve_cases n sizes) (.fixedList · size values) rfl
      fun c => ⟨c, rfl⟩
  | .struct slots fields children, _, h =>
    h.exists_of_resize (slots.reserve_cases n sizes) (.struct · fields children) rfl
      fun c => ⟨c, rfl⟩
  | .entries keys items, _, h => by
    cases h with
    | entries first second =>
      obtain ⟨y, hy, follows⟩ := exists_reserve n sizes keys first
      obtain ⟨y', hy', follows'⟩ := exists_reserve n sizes items second
      exact ⟨_, .entries hy hy', follows.entries follows'⟩
  | .map spans keys items sorted, _, h => by
    cases h with
    | map held first second =>
      obtain ⟨y, hy, follows⟩ := exists_reserve n sizes keys first
      obtain ⟨y', hy', follows'⟩ := exists_reserve n sizes items second
      rw [Builder.reserve]
      rcases spans.reserve_cases n sizes with same | ⟨c, same⟩
      · rw [same]
        exact ⟨_, .map held hy hy', follows.map follows' (.refl _)⟩
      · rw [same]
        exact ⟨_, .map (held.resize c) hy hy', follows.map follows' (List.take_sublist _ _)⟩

/-- An operation leads to contents again, of the same type, and anchored where rows are kept. -/
theorem exists_apply (h : Holds b x) {op : Op} {sizes : Sizes} {answer : Option Column}
    (hb : op.apply b sizes = .ok (b', answer)) : ∃ y, Holds b' y ∧ x.Follows y := by
  cases op with
  | reserve n =>
    cases hb
    exact exists_reserve n sizes b h
  | _ =>
    -- the others make no sums
    rw [apply_sizes] at hb
    · exact ⟨_, h.apply hb, .apply x _⟩
    · trivial

theorem exists_modifyAt {α : Type} {change : Builder → Except Fault (Builder × α)}
    (leads : ∀ {b x b' a}, Holds b x → change b = .ok (b', a) → ∃ y, Holds b' y ∧ x.Follows y) :
    (path : List Nat) → {b : Builder} → {x : Contents} → Holds b x → {b' : Builder} → {a : α} →
    Builder.modifyAt change path b = .ok (b', a) → ∃ y, Holds b' y ∧ x.Follows y
  | [], _, _, h, _, _, hb => leads h hb
  | i :: path, b, x, h, b', a, hb => by
    obtain ⟨c, hc, hb⟩ := bind_eq_ok.1 hb
    obtain ⟨⟨c', a'⟩, changed, hb⟩ := bind_eq_ok.1 hb
    cases hb
    obtain ⟨y, hy, held⟩ := h.child hc
    obtain ⟨y', held', follows⟩ := exists_modifyAt leads path held changed
    exact ⟨x.setChild i y', h.setChild hy held' follows.type, .setChild hy follows⟩

/-- **Any call leads to contents again**, of the same type, and anchored where rows are kept. -/
theorem exists_call (h : Holds b x) {c : Call} {sizes : Sizes} {answer : Option Column}
    (hb : b.call c sizes = .ok (b', answer)) : ∃ y, Holds b' y ∧ x.Follows y :=
  exists_modifyAt (fun held applied => held.exists_apply applied) c.path h hb

end Holds

end Builder

end Columnar
