import Columnar.Builder.Call
import Columnar.Proofs.Outcomes

/-!
# Room that can be counted

Making room for slots computes two sizes: the number of slots with those to come, and the power of
two that a builder grows to for them.  `RoomInRange` says that these are words.  As long as they are
wherever a call makes room (`Builder.RunInRange`), it does not matter how sums come out: calls do
what they do with unbounded sizes (`Builder.run_sizes`).

Beyond that the power of two comes to zero, and a builder that should grow keeps no more slots than
the smallest capacity holds.
-/

namespace Columnar

variable {sizes : Sizes} {n : Nat}

/-- The sizes that are computed to make room for `n` more slots are words. -/
def RoomInRange (length capacity n : Nat) : Prop :=
  length + n < Bytes.wordRange 8 ∧
    (capacity < length + n → nextPower (length + n) < Bytes.wordRange 8)

instance (length capacity n : Nat) : Decidable (RoomInRange length capacity n) :=
  inferInstanceAs (Decidable (_ ∧ _))

theorem nextPower_sizes (h : nextPower n < Bytes.wordRange 8) : nextPower n sizes = nextPower n :=
  sizes.fit_of_lt h

/-! ### One builder -/

theorem NullBuilder.reserve_sizes {b : NullBuilder} (h : RoomInRange b.len b.capacity n) :
    b.reserve n sizes = b.reserve n := by
  rw [reserve, reserve, sizes.fit_of_lt h.1, Sizes.fit_unbounded]
  by_cases grows : b.capacity < b.len + n
  · rw [if_pos grows, if_pos grows, nextPower_sizes (h.2 grows)]
  · rw [if_neg grows, if_neg grows]

namespace Slots

variable {s : Slots} (h : RoomInRange s.length s.capacity n)
include h

theorem growTarget?_sizes : s.growTarget? n sizes = s.growTarget? n := by
  rw [growTarget?, growTarget?, sizes.fit_of_lt h.1, Sizes.fit_unbounded]
  by_cases grows : s.capacity < s.length + n
  · rw [if_pos grows, if_pos grows, growCapacity, growCapacity, nextPower_sizes (h.2 grows)]
  · rw [if_neg grows, if_neg grows]

theorem reserve_sizes : s.reserve n sizes = s.reserve n := by
  rw [reserve, reserve, growTarget?_sizes h]

end Slots

theorem BoolBuilder.reserve_sizes {b : BoolBuilder}
    (h : RoomInRange b.slots.length b.slots.capacity n) : b.reserve n sizes = b.reserve n := by
  rw [reserve, reserve, Slots.growTarget?_sizes h]

theorem NumBuilder.reserve_sizes {b : NumBuilder}
    (h : RoomInRange b.slots.length b.slots.capacity n) : b.reserve n sizes = b.reserve n := by
  rw [reserve, reserve, Slots.growTarget?_sizes h]

theorem BytesBuilder.reserve_sizes {b : BytesBuilder}
    (h : RoomInRange b.spans.slots.length b.spans.slots.capacity n) :
    b.reserve n sizes = b.reserve n := by
  rw [reserve, reserve, Slots.growTarget?_sizes h]

theorem Spans.reserve_sizes {s : Spans} (h : RoomInRange s.slots.length s.slots.capacity n) :
    s.reserve n sizes = s.reserve n := by
  rw [reserve, reserve, Slots.growTarget?_sizes h]

namespace Builder

/-- The sizes that are computed to make room for `n` more slots are words, in every builder that
makes room along with this one. -/
def RoomInRange : Builder → (n : Nat) → Prop
  | null b, n => Columnar.RoomInRange b.len b.capacity n
  | bool b, n => Columnar.RoomInRange b.slots.length b.slots.capacity n
  | num b, n => Columnar.RoomInRange b.slots.length b.slots.capacity n
  | bytes b, n => Columnar.RoomInRange b.spans.slots.length b.spans.slots.capacity n
  | list spans _, n => Columnar.RoomInRange spans.slots.length spans.slots.capacity n
  | fixedList slots _ _, n | struct slots _ _, n =>
    Columnar.RoomInRange slots.length slots.capacity n
  | entries keys items, n => keys.RoomInRange n ∧ items.RoomInRange n
  | map spans keys items _, n =>
    Columnar.RoomInRange spans.slots.length spans.slots.capacity n ∧
      keys.RoomInRange n ∧ items.RoomInRange n

def decideRoom : (b : Builder) → (n : Nat) → Decidable (b.RoomInRange n)
  | null _, _ | bool _, _ | num _, _ | bytes _, _ | list _ _, _ | fixedList _ _ _, _
  | struct _ _ _, _ => inferInstanceAs (Decidable (Columnar.RoomInRange _ _ _))
  | entries keys items, n =>
    haveI := decideRoom keys n
    haveI := decideRoom items n
    inferInstanceAs (Decidable (keys.RoomInRange n ∧ items.RoomInRange n))
  | map _ keys items _, n =>
    haveI := decideRoom keys n
    haveI := decideRoom items n
    inferInstanceAs (Decidable (_ ∧ keys.RoomInRange n ∧ items.RoomInRange n))

instance (b : Builder) (n : Nat) : Decidable (b.RoomInRange n) := decideRoom b n

/-- **Room is made alike**, however sums come out. -/
theorem reserve_sizes : (b : Builder) → b.RoomInRange n → b.reserve n sizes = b.reserve n
  | null _, h => congrArg null (NullBuilder.reserve_sizes h)
  | bool _, h => congrArg bool (BoolBuilder.reserve_sizes h)
  | num _, h => congrArg num (NumBuilder.reserve_sizes h)
  | bytes _, h => congrArg bytes (BytesBuilder.reserve_sizes h)
  | list _ values, h => congrArg (list · values) (Spans.reserve_sizes h)
  | fixedList _ size values, h => congrArg (fixedList · size values) (Slots.reserve_sizes h)
  | struct _ fields children, h => congrArg (struct · fields children) (Slots.reserve_sizes h)
  | entries keys items, h => by
    rw [reserve, reserve, reserve_sizes keys h.1, reserve_sizes items h.2]
  | map spans keys items sorted, h => by
    rw [reserve, reserve, Spans.reserve_sizes h.1, reserve_sizes keys h.2.1,
      reserve_sizes items h.2.2]

/-! ### Calls -/

/-- The sizes that are computed from what the caller asks for are words. -/
def Op.InRange (b : Builder) : Op → Prop
  | reserve n => b.RoomInRange n
  | _ => True

instance (b : Builder) : (op : Op) → Decidable (op.InRange b)
  | .reserve n => inferInstanceAs (Decidable (b.RoomInRange n))
  | .appendNull | .append _ | .appendScalar _ | .appendSlice _ | .appendValues _ _ | .resize _
  | .finish => inferInstanceAs (Decidable True)

theorem apply_sizes {b : Builder} {op : Op} (h : op.InRange b) : op.apply b sizes = op.apply b := by
  cases op with
  | reserve n => rw [Op.apply, Op.apply, reserve_sizes b h]
  | _ => rfl

/-- The operation is in range for the builder that is reached along the path. -/
def InRangeAt (op : Op) : (path : List Nat) → Builder → Prop
  | [], b => op.InRange b
  | i :: path, b => ∀ c, b.child i = .ok c → InRangeAt op path c

instance {α : Type} (x : Except Fault α) (P : α → Prop) [DecidablePred P] :
    Decidable (∀ a, x = .ok a → P a) :=
  match x with
  | .ok a => decidable_of_iff (P a) (by simp)
  | .error _ => isTrue (by simp)

def decideAt (op : Op) : (path : List Nat) → (b : Builder) → Decidable (InRangeAt op path b)
  | [], b => inferInstanceAs (Decidable (op.InRange b))
  | i :: path, b =>
    haveI : DecidablePred (InRangeAt op path) := decideAt op path
    inferInstanceAs (Decidable (∀ c, b.child i = .ok c → InRangeAt op path c))

/-- The call is in range. -/
def CallInRange (b : Builder) (c : Call) : Prop := InRangeAt c.op c.path b

instance (b : Builder) (c : Call) : Decidable (b.CallInRange c) := decideAt c.op c.path b

theorem inRangeAt_of_forall {op : Op} (h : ∀ b : Builder, op.InRange b) (path : List Nat)
    (b : Builder) : InRangeAt op path b := by
  induction path generalizing b with
  | nil => exact h b
  | cons i path ih => exact fun c _ => ih c

theorem modifyAt_sizes {op : Op} (path : List Nat) {b : Builder} (h : InRangeAt op path b) :
    modifyAt (op.apply · sizes) path b = modifyAt (op.apply ·) path b := by
  induction path generalizing b with
  | nil => exact apply_sizes h
  | cons i path ih =>
    rw [modifyAt, modifyAt]
    cases found : b.child i with
    | error f => rfl
    | ok c => rw [ok_bind, ok_bind, ih (h c found)]

/-- **A call does the same**, however sums come out. -/
theorem call_sizes {b : Builder} {c : Call} (h : b.CallInRange c) : b.call c sizes = b.call c :=
  modifyAt_sizes c.path h

/-! ### Calls that may be refused -/

/-- Makes the call and gives what it tells, if anything: the column that was finished, or why the
call was refused.  A refused call leaves the builder as it is. -/
def attempt (b : Builder) (c : Call) (sizes : Sizes := .unbounded) :
    Except Fault (Builder × Option (Except Refusal Column)) :=
  match b.call c sizes with
  | .ok (b', answer) => .ok (b', answer.map .ok)
  | .error (.refusal r) => .ok (b, some (.error r))
  | .error f => .error f

/-- Makes the calls one after the other, until one fails, and gives what they tell. -/
def attemptAll (b : Builder) : List Call → (sizes : Sizes := .unbounded) →
    Except Fault (Builder × List (Except Refusal Column))
  | [], _ => .ok (b, [])
  | c :: cs, sizes => do
    let (b, told) ← b.attempt c sizes
    let (b, more) ← b.attemptAll cs sizes
    return (b, told.toList ++ more)

/-- Every call is in range when it is made. -/
def RunInRange (b : Builder) : List Call → Prop
  | [] => True
  | c :: cs => b.CallInRange c ∧ ∀ p, b.attempt c = .ok p → p.1.RunInRange cs

def decideRun : (calls : List Call) → (b : Builder) → Decidable (b.RunInRange calls)
  | [], _ => isTrue trivial
  | c :: cs, b =>
    haveI : ∀ b : Builder, Decidable (b.RunInRange cs) := decideRun cs
    inferInstanceAs (Decidable (b.CallInRange c ∧ ∀ p, b.attempt c = .ok p → p.1.RunInRange cs))

instance (b : Builder) (calls : List Call) : Decidable (b.RunInRange calls) := decideRun calls b

/-- The call makes room. -/
def Call.reserves (c : Call) : Bool :=
  match c.op with
  | .reserve _ => true
  | _ => false

theorem RunInRange.first {b : Builder} {before after : List Call}
    (h : b.RunInRange (before ++ after)) : b.RunInRange before := by
  induction before generalizing b with
  | nil => trivial
  | cons c cs ih => exact ⟨h.1, fun p attempted => ih (h.2 p attempted)⟩

/-- Calls that make no room are in range. -/
theorem runInRange_of_not_reserves {calls : List Call} (h : ∀ c ∈ calls, c.reserves = false)
    (b : Builder) : b.RunInRange calls := by
  induction calls generalizing b with
  | nil => trivial
  | cons c cs ih =>
    obtain ⟨here, others⟩ := List.forall_mem_cons.1 h
    refine ⟨inRangeAt_of_forall (fun b => ?_) c.path b, fun p _ => ih others p.1⟩
    obtain ⟨path, op⟩ := c
    cases op with
    | reserve n => cases here
    | _ => trivial

theorem attempt_sizes {b : Builder} {c : Call} (h : b.CallInRange c) :
    b.attempt c sizes = b.attempt c := by
  rw [attempt, attempt, call_sizes h]

/-- **A run does the same**, however sums come out. -/
theorem run_sizes {calls : List Call} {b : Builder} (h : b.RunInRange calls) :
    b.run calls sizes = b.run calls := by
  induction calls generalizing b with
  | nil => rfl
  | cons c cs ih =>
    rw [run, run, call_sizes h.1]
    cases called : b.call c with
    | error f => rfl
    | ok p => exact ih (h.2 (p.1, p.2.map .ok) (by rw [attempt, called]))

end Builder

end Columnar
