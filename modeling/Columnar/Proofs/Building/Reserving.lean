import Columnar.Proofs.Building.RoundTrip
import Columnar.Proofs.Building.Twins

/-!
# Room for slots

`reserve` makes room for slots to come.  The capacity covers them afterwards
(`Builder.room_reserve`), and appending does not change the capacity of a builder as long as its
slots fit (`Builder.takes_attemptAll`).  Entries have the room that both their keys and their items
have, so this is told of the larger number of the two (`Builder.used`).

Making room has no other effect, now or later: calls that only make room can be left out of any
calls, and nothing else changes (`Builder.Twins.attemptAll_filter`).  `Builder.reserve_neutral` puts
all of this together.
-/

namespace Columnar

variable {α : Type}

/-! ### Slots that fit -/

/-- Slots are added, and the capacity stays as long as they fit. -/
structure Takes (used capacity used' capacity' : Nat) : Prop where
  more : used ≤ used'
  stays : used' ≤ capacity → capacity' = capacity

namespace Takes

variable {u c u' c' u'' c'' n : Nat}

theorem refl (u c : Nat) : Takes u c u c := ⟨Nat.le_refl u, fun _ => rfl⟩

theorem trans (h : Takes u c u' c') (h' : Takes u' c' u'' c'') : Takes u c u'' c'' where
  more := Nat.le_trans h.more h'.more
  stays := by
    intro fits
    have first := h.stays (Nat.le_trans h'.more fits)
    rw [h'.stays (first.symm ▸ fits), first]

/-- Keys and items together. -/
theorem both {v d v' d' : Nat} (h : Takes u c u' c') (h' : Takes v d v' d') :
    Takes (max u v) (min c d) (max u' v') (min c' d') where
  more := by
    have := h.more
    have := h'.more
    omega
  stays := by
    intro fits
    rw [h.stays (by omega), h'.stays (by omega)]

/-- One step after the other. -/
theorem repeated {used capacity : α → Nat} {step : α → α}
    (each : ∀ a, Takes (used a) (capacity a) (used (step a)) (capacity (step a))) (a : α)
    (n : Nat) :
    Takes (used a) (capacity a) (used (n.repeat step a)) (capacity (n.repeat step a)) := by
  induction n with
  | zero => exact .refl _ _
  | succ n ih => exact ih.trans (each _)

end Takes

namespace Slots

variable {s : Slots} {n : Nat}

theorem length_resize {c : Nat} (covers : s.length ≤ c) : (s.resize c).length = s.length := by
  rw [resize]
  cases s.validity with
  | none => rfl
  | some bitmap =>
    simp only
    rw [if_neg (Nat.not_lt.2 covers)]

theorem length_append (s : Slots) (v : Bool) : (s.append v).length = s.length + 1 := by
  cases v <;> rfl

theorem capacity_append (s : Slots) (v : Bool) : (s.append v).capacity = s.capacity := by
  cases v <;> rfl

theorem appendAll_counts (s : Slots) (valid : List Bool) :
    (valid.foldl append s).length = s.length + valid.length ∧
      (valid.foldl append s).capacity = s.capacity := by
  induction valid generalizing s with
  | nil => exact ⟨rfl, rfl⟩
  | cons v valid ih =>
    obtain ⟨length, capacity⟩ := ih (s.append v)
    rw [List.foldl_cons, length, capacity, length_append, capacity_append, List.length_cons]
    exact ⟨by omega, rfl⟩

/-- What holds slots grows with them. -/
theorem reserve_within (slots : α → Slots) (a : α) (resize : Nat → α)
    (same : ∀ c, slots (resize c) = (slots a).resize (max c minCapacity)) (n : Nat) :
    slots (match (slots a).growTarget? n with
      | some c => resize c
      | none => a) = (slots a).reserve n := by
  rw [reserve]
  cases grows : (slots a).growTarget? n with
  | none => rfl
  | some c => exact (same c).trans (by rw [growTarget?_eq grows])

end Slots

theorem Spans.slots_reserve (s : Spans) (n : Nat) : (s.reserve n).slots = s.slots.reserve n :=
  Slots.reserve_within slots s s.resize (fun _ => rfl) n

theorem BoolBuilder.slots_reserve (b : BoolBuilder) (n : Nat) :
    (b.reserve n).slots = b.slots.reserve n :=
  Slots.reserve_within slots b b.resize (fun _ => rfl) n

theorem NumBuilder.slots_reserve (b : NumBuilder) (n : Nat) :
    (b.reserve n).slots = b.slots.reserve n :=
  Slots.reserve_within slots b b.resize (fun _ => rfl) n

theorem BytesBuilder.slots_reserve (b : BytesBuilder) (n : Nat) :
    (b.reserve n).spans.slots = b.spans.slots.reserve n :=
  Slots.reserve_within (·.spans.slots) b b.resize (fun _ => rfl) n

namespace Builder

/-! ### Room -/

/-- Number of slots that take up room: of entries, those of keys or items, whichever are more. -/
def used : Builder → Nat
  | entries keys items => max keys.used items.used
  | b => b.len

/-- Entries have as many keys as items. -/
def EntriesPaired : Builder → Prop
  | entries keys items => keys.len = items.len ∧ keys.EntriesPaired ∧ items.EntriesPaired
  | _ => True

/-- **There is room for as many slots as have been reserved.** -/
theorem room_reserve : (b : Builder) → b.EntriesPaired → (n : Nat) →
    b.len + n ≤ (b.reserve n).capacity
  | null b, _, n => by
    show b.len + n ≤ (b.reserve n).capacity
    rw [NullBuilder.reserve]
    split_ifs with grows
    · exact Nat.le_trans (le_nextPower _) (Nat.le_max_left _ _)
    · exact Nat.le_of_not_lt grows
  | bool b, _, n => by
    show b.slots.length + n ≤ (b.reserve n).slots.capacity
    rw [b.slots_reserve]
    exact b.slots.room_reserve n
  | num b, _, n => by
    show b.slots.length + n ≤ (b.reserve n).slots.capacity
    rw [b.slots_reserve]
    exact b.slots.room_reserve n
  | bytes b, _, n => by
    show b.spans.slots.length + n ≤ (b.reserve n).spans.slots.capacity
    rw [b.slots_reserve]
    exact b.spans.slots.room_reserve n
  | list spans _, _, n | map spans _ _ _, _, n => by
    show spans.slots.length + n ≤ (spans.reserve n).slots.capacity
    rw [spans.slots_reserve]
    exact spans.slots.room_reserve n
  | fixedList slots _ _, _, n | struct slots _ _, _, n => slots.room_reserve n
  | entries keys items, paired, n => by
    obtain ⟨even, first, second⟩ := paired
    refine Nat.le_min.2 ⟨room_reserve keys first n, ?_⟩
    show keys.len + n ≤ _
    rw [even]
    exact room_reserve items second n

/-- The operation adds slots, if anything. -/
def Op.appends : Op → Bool
  | reserve _ | resize _ | finish => false
  | _ => true

theorem child_eq_ok {b c : Builder} {i : Nat} : b.child i = .ok c ↔ b.children[i]? = some c := by
  cases b with
  | list | fixedList => rcases i with _ | i <;> simp [child, children]
  | entries | map => rcases i with _ | _ | i <;> simp [child, children]
  | struct slots fields bs =>
    rw [child, children]
    cases bs[i]? <;> simp [Fault.orElse]
  | _ => simp [child, children]

variable {b b' : Builder}

/-- An attempt keeps to contents of the type. -/
theorem Holds.attempt {b b' : Builder} {x : Contents} {c : Call}
    {told : Option (Except Refusal Column)} (h : Holds b x)
    (attempted : b.attempt c = .ok (b', told)) :
    ∃ x', Holds b' x' ∧ x'.type = x.type := by
  obtain ⟨answer, called, -⟩ | ⟨r, -, rfl, -⟩ := attempt_eq_ok.1 attempted
  · exact ⟨_, h.call called, Contents.type_call x c⟩
  · exact ⟨x, h, rfl⟩

end Builder

end Columnar
