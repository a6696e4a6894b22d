import Columnar.Column.Equality

/-!
# Outcomes of checks and tests

A check of arbitrary data accepts it, refuses it, or fails in a way that no caller expects.
`Decides check P` excludes the third: the check accepts where `P` holds and refuses where it does
not.  `Answers test P` says that a test of two columns gives an answer, and that the answer is yes
exactly where `P` holds.

Both are put together step by step, as the checks are: a later step has to be right only where the
steps before it went through (`Decides.andThen`, `Answers.andThen`).

`Matches R x y` compares two computations: they fail in the same way, or give results that are
related.  It is put together step by step as well (`Matches.bind`).
-/

namespace Columnar

variable {α β γ δ ε : Type}

/-! ### One step after the other -/

theorem ok_bind (a : α) (f : α → Except Fault β) : ((Except.ok a : Except Fault α) >>= f) = f a :=
  rfl

theorem bind_eq_ok {x : Except Fault α} {f : α → Except Fault β} {b : β} :
    (x >>= f) = .ok b ↔ ∃ a, x = .ok a ∧ f a = .ok b := by
  cases x with
  | error e => simp [bind, Except.bind]
  | ok a => simp [bind, Except.bind]

/-- What holds from position `i` on for `n + 1` positions, holds at `i` and for the `n` after it. -/
theorem forall_window_succ {P : Nat → Prop} {i n : Nat} :
    (∀ k, i ≤ k → k < i + (n + 1) → P k) ↔ P i ∧ ∀ k, i + 1 ≤ k → k < i + 1 + n → P k := by
  constructor
  · intro all
    exact ⟨all i (Nat.le_refl i) (by omega), fun k h1 h2 => all k (by omega) (by omega)⟩
  · rintro ⟨first, rest⟩ k h1 h2
    rcases Nat.eq_or_lt_of_le h1 with rfl | h1
    · exact first
    · exact rest k h1 (by omega)

/-! ### Checks -/

/-- The check accepts where `P` holds, and refuses where it does not. -/
def Decides (check : Except Fault Unit) (P : Prop) : Prop :=
  (P ∧ check = .ok ()) ∨ (¬ P ∧ ∃ r, check = .error (.refusal r))

namespace Decides

variable {x y : Except Fault Unit} {P Q : Prop}

theorem accept (h : P) : Decides (.ok ()) P := .inl ⟨h, rfl⟩

theorem refuse {r : Refusal} (h : ¬ P) : Decides r.refuse P := .inr ⟨h, r, rfl⟩

theorem defect {d : Defect} (h : ¬ P) : Decides d.refuse P := .inr ⟨h, .defect d, rfl⟩

theorem congr (h : Decides x P) (e : P ↔ Q) : Decides x Q := propext e ▸ h

theorem ok_iff (h : Decides x P) : x = .ok () ↔ P := by
  rcases h with ⟨hp, hx⟩ | ⟨hp, r, hx⟩
  · simp [hp, hx]
  · simp [hp, hx]

/-- A check that does not accept refuses. -/
theorem refuses (h : Decides x P) (hp : ¬ P) : ∃ r, x = .error (.refusal r) := by
  rcases h with ⟨h, -⟩ | ⟨-, h⟩
  · exact absurd h hp
  · exact h

/-- One check after another.  The second may rely on what the first one accepts. -/
theorem andThen (hx : Decides x P) (hy : P → Decides y Q) :
    Decides (x >>= fun _ => y) (P ∧ Q) := by
  rcases hx with ⟨hp, rfl⟩ | ⟨hp, r, rfl⟩
  · exact (hy hp).congr (by simp [hp])
  · exact .inr ⟨fun h => hp h.1, r, rfl⟩

/-- A check whose failing branch refuses, and whose other branch goes on. -/
theorem otherwise {c : Prop} [Decidable c] {d : Defect} (hy : ¬ c → Decides y Q) :
    Decides (if c then d.refuse else y) (¬ c ∧ Q) := by
  by_cases h : c
  · rw [if_pos h]
    exact defect fun hc => hc.1 h
  · rw [if_neg h]
    exact (hy h).congr (by simp [h])

/-- A check whose other branch refuses. -/
theorem orElse {c : Prop} [Decidable c] {d : Defect} (hy : c → Decides y Q) :
    Decides (if c then y else d.refuse) (c ∧ Q) := by
  by_cases h : c
  · rw [if_pos h]
    exact (hy h).congr (by simp [h])
  · rw [if_neg h]
    exact defect fun hc => h hc.1

/-- A single test: what does not pass is refused. -/
theorem test {c : Prop} [Decidable c] {d : Defect} : Decides (if c then .ok () else d.refuse) c :=
  (orElse fun _ => accept trivial).congr (iff_of_eq (and_true _))

theorem testNot {c : Prop} [Decidable c] {d : Defect} :
    Decides (if c then d.refuse else .ok ()) (¬ c) :=
  (otherwise fun _ => accept trivial).congr (iff_of_eq (and_true _))

/-- A check that is only made under a condition. -/
theorem when {c : Prop} [Decidable c] (hy : c → Decides y Q) :
    Decides (if c then y else .ok ()) (c → Q) := by
  by_cases h : c
  · rw [if_pos h]; exact (hy h).congr (by simp [h])
  · rw [if_neg h]; exact accept fun hc => absurd hc h

end Decides

/-! ### Tests -/

/-- The test gives an answer, which is yes exactly where `P` holds. -/
def Answers (test : Except Fault Bool) (P : Prop) : Prop := ∃ b, test = .ok b ∧ (b = true ↔ P)

namespace Answers

variable {x y : Except Fault Bool} {P Q : Prop}

theorem yes (h : P) : Answers (.ok true) P := ⟨true, rfl, by simp [h]⟩

theorem no (h : ¬ P) : Answers (.ok false) P := ⟨false, rfl, by simp [h]⟩

theorem congr (h : Answers x P) (e : P ↔ Q) : Answers x Q := propext e ▸ h

/-- One test after another.  The second is made only where the first one says yes. -/
theorem andThen (hx : Answers x P) (hy : P → Answers y Q) :
    Answers (x >>= fun b => if b = true then y else pure false) (P ∧ Q) := by
  obtain ⟨b, rfl, hb⟩ := hx
  cases b with
  | true =>
    have hp : P := hb.1 rfl
    exact (hy hp).congr (by simp [hp])
  | false => exact no fun h => by simpa using hb.2 h.1

/-- Two values are read and compared. -/
theorem eq [BEq α] [LawfulBEq α] {x y : Except Fault α} {a b : α} (hx : x = .ok a)
    (hy : y = .ok b) :
    Answers (do return (← x) == (← y)) (a = b) := by
  subst hx hy
  exact ⟨a == b, rfl, beq_iff_eq⟩

end Answers

namespace Column

/-- A test of `n` positions in a row. -/
theorem allFrom_answers {test : Nat → Except Fault Bool} {P : Nat → Prop} (n : Nat) {i : Nat}
    (h : ∀ k, i ≤ k → k < i + n → Answers (test k) (P k)) :
    Answers (allFrom test i n) (∀ k, i ≤ k → k < i + n → P k) := by
  induction n generalizing i with
  | zero => exact .yes fun k h1 h2 => absurd h2 (by omega)
  | succ n ih =>
    obtain ⟨first, rest⟩ := forall_window_succ.1 h
    exact (first.andThen fun _ => ih rest).congr forall_window_succ.symm

end Column

/-! ### Outcomes side by side -/

/-- Both fail in the same way, or both give results, which are related. -/
inductive Matches (R : α → β → Prop) : Except ε α → Except ε β → Prop
  | ok {a : α} {b : β} (related : R a b) : Matches R (.ok a) (.ok b)
  | error (e : ε) : Matches R (.error e) (.error e)

namespace Matches

variable {R : α → β → Prop} {S : γ → δ → Prop} {x : Except ε α} {y : Except ε β}

theorem mono {S : α → β → Prop} (h : Matches R x y) (weaker : ∀ a b, R a b → S a b) :
    Matches S x y := by
  cases h with
  | ok related => exact .ok (weaker _ _ related)
  | error e => exact .error e

theorem exists_of_ok {a : α} (h : Matches R (.ok a) y) : ∃ b, y = .ok b ∧ R a b := by
  cases h with
  | ok related => exact ⟨_, rfl, related⟩

theorem bind {f : α → Except ε γ} {g : β → Except ε δ} (h : Matches R x y)
    (next : ∀ a b, R a b → Matches S (f a) (g b)) : Matches S (x >>= f) (y >>= g) := by
  cases h with
  | ok related => exact next _ _ related
  | error e => exact .error e

end Matches

end Columnar
