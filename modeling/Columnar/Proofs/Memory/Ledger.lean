import Columnar.Memory.Allocator
import Mathlib.Logic.Function.Basic

/-!
# The ledger of a region allocator

An `Allocator` only adds up bytes, so a total that comes out right does not yet tell that every
region was given back once and whole.  A `Ledger` keeps the regions apart: it tells the size of the
memory that each owner has, and refuses an event that hands out memory where there is some already,
or that names a size other than the present one.  A log that the ledger serves from beginning to
end frees nothing twice, and nothing with a wrong size.

The number of times that an owner's memory begins, less the number of times that it ends, is one
while the owner has memory and zero otherwise (`Ledger.serveAll_balance`).
-/

namespace Columnar

/-- What has memory of its own: a buffer being written, or a frozen region with all its handles. -/
inductive Owner where
  | writer (w : Nat)
  | frozen (region : Nat)
  deriving DecidableEq

/-- What happens to memory. -/
inductive Event where
  | allocated (o : Owner) (size : Nat)
  | reallocated (o : Owner) (old new : Nat)
  /-- The memory of a writer becomes that of a frozen region, unchanged. -/
  | frozen (w region : Nat)
  | freed (o : Owner) (size : Nat)
  deriving DecidableEq

namespace Event

/-- What the event does to the running total. -/
def charge (a : Allocator) : Event → Except Fault Allocator
  | .allocated _ size => a.allocate size
  | .reallocated _ old new => a.reallocate old new
  | .frozen _ _ => .ok a
  | .freed _ size => .ok (a.free size)

/-- The event gives memory to the owner. -/
def begins (o : Owner) : Event → Bool
  | .allocated o' _ => o' = o
  | .frozen _ region => Owner.frozen region = o
  | .reallocated _ _ _ | .freed _ _ => false

/-- The event takes the owner's memory away. -/
def ends (o : Owner) : Event → Bool
  | .freed o' _ => o' = o
  | .frozen w _ => Owner.writer w = o
  | .reallocated _ _ _ | .allocated _ _ => false

end Event

/-- The size of the memory of every owner that has some. -/
def Ledger : Type := Owner → Option Nat

namespace Ledger

/-- No owner has memory. -/
def empty : Ledger := fun _ => none

/-- Enters the memory of one owner. -/
def enter (l : Ledger) (o : Owner) (size : Option Nat) : Ledger := Function.update l o size

theorem enter_apply (l : Ledger) (o o' : Owner) (size : Option Nat) :
    l.enter o size o' = if o' = o then size else l o' := Function.update_apply l o size o'

/-- The ledger after the event, unless the event contradicts it. -/
def serve (l : Ledger) : Event → Option Ledger
  | .allocated o size => if l o = none then some (l.enter o (some size)) else none
  | .reallocated o old new => if l o = some old then some (l.enter o (some new)) else none
  | .frozen w region =>
    if (l (.writer w)).isSome ∧ l (.frozen region) = none then
      some ((l.enter (.frozen region) (l (.writer w))).enter (.writer w) none)
    else none
  | .freed o size => if l o = some size then some (l.enter o none) else none

/-- The ledger after the events, unless one of them contradicts it. -/
def serveAll (l : Ledger) (log : List Event) : Option Ledger := log.foldlM serve l

theorem serveAll_append (l : Ledger) (log rest : List Event) :
    l.serveAll (log ++ rest) = (l.serveAll log).bind fun l => l.serveAll rest :=
  List.foldlM_append

variable {l l' : Ledger} {e : Event} {log : List Event}

theorem serve_balance (h : l.serve e = some l') (o : Owner) :
    (l o).isSome.toNat + (e.begins o).toNat = (l' o).isSome.toNat + (e.ends o).toNat := by
  cases e with
  | allocated o' size =>
    obtain ⟨free, rfl⟩ : l o' = none ∧ l.enter o' (some size) = l' := by simpa [serve] using h
    rw [enter_apply]
    by_cases same : o = o'
    · subst same
      simp [free, Event.begins, Event.ends]
    · simp [same, Ne.symm same, Event.begins, Event.ends]
  | reallocated o' old new =>
    obtain ⟨held, rfl⟩ : l o' = some old ∧ l.enter o' (some new) = l' := by simpa [serve] using h
    rw [enter_apply]
    by_cases same : o = o'
    · subst same
      simp [held, Event.begins, Event.ends]
    · simp [same, Event.begins, Event.ends]
  | frozen w region =>
    obtain ⟨⟨held, free⟩, rfl⟩ : ((l (.writer w)).isSome ∧ l (.frozen region) = none) ∧
        (l.enter (.frozen region) (l (.writer w))).enter (.writer w) none = l' := by
      simpa [serve] using h
    rw [enter_apply, enter_apply]
    -- memory ends for the writer and begins for the region, which are not the same owner
    by_cases writer : o = .writer w
    · subst writer
      simp [held, Event.begins, Event.ends]
    · by_cases target : o = .frozen region
      · subst target
        simp [held, free, Event.begins, Event.ends]
      · simp [writer, target, Ne.symm writer, Ne.symm target, Event.begins, Event.ends]
  | freed o' size =>
    obtain ⟨held, rfl⟩ : l o' = some size ∧ l.enter o' none = l' := by simpa [serve] using h
    rw [enter_apply]
    by_cases same : o = o'
    · subst same
      simp [held, Event.begins, Event.ends]
    · simp [same, Ne.symm same, Event.begins, Event.ends]

theorem countP_cons_toNat (p : Event → Bool) (e : Event) (log : List Event) :
    (e :: log).countP p = log.countP p + (p e).toNat := by
  rw [List.countP_cons]
  cases p e <;> rfl

/-- **Balance**: what has begun is still there or has ended. -/
theorem serveAll_balance (h : l.serveAll log = some l') (o : Owner) :
    (l o).isSome.toNat + log.countP (·.begins o) =
      (l' o).isSome.toNat + log.countP (·.ends o) := by
  induction log generalizing l with
  | nil =>
    obtain rfl : l = l' := by simpa [serveAll] using h
    rfl
  | cons e log ih =>
    obtain ⟨next, first, rest⟩ : ∃ next, l.serve e = some next ∧ next.serveAll log = some l' :=
      Option.bind_eq_some_iff.mp h
    have step := serve_balance first o
    have run := ih rest
    rw [countP_cons_toNat, countP_cons_toNat]
    omega

end Ledger

end Columnar
