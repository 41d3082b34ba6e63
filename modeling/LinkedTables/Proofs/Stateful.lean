import Mathlib

/-!
# Computations that keep a state

A `Stateful` computation changes a state and may fail, and the state stays as it is after a failure.
It is written over a monad, which says what else may come of it.  The lemmas say what comes of one
step, and of two steps in a row.

A `Machine` may have no result at all.  It has none if it reaches `broken`, which stands where a
rule of the machine is checked, so a machine that has a result in a state has kept its rules on the
way.  A machine that repeats something is given fuel, and is broken when it has none left.
`Machine.Ends` says that it ends of its own: there is a result that it has with any fuel that is
enough.
-/

namespace LinkedTables

/-- A computation that may fail and keeps a state, which stays after a failure. -/
abbrev Stateful (m : Type → Type) (σ ε α : Type) := ExceptT ε (StateT σ m) α

namespace Stateful

variable {m : Type → Type} [Monad m] {σ ε α β : Type}

/-- What a computation answers in a state, and the state that it leaves. -/
def runFrom (x : Stateful m σ ε α) (st : σ) : m (Except ε α × σ) := x.run.run st

/-- The second of two steps in a row starts where the first has ended, if it has not failed. -/
lemma runFrom_bind (x : Stateful m σ ε α) (f : α → Stateful m σ ε β) (st : σ) :
    (x >>= f).runFrom st = x.runFrom st >>= fun result => match result.1 with
      | .ok a => (f a).runFrom result.2
      | .error e => pure (.error e, result.2) := by
  refine bind_congr fun ⟨answer, st₁⟩ => ?_
  cases answer <;> rfl

end Stateful

/-- A computation that keeps a state and may have no result. -/
abbrev Machine (σ ε α : Type) := Stateful Option σ ε α

namespace Machine

open Stateful

variable {σ ε α β : Type}

/-- The machine without a result. -/
def broken : Machine σ ε α := ExceptT.mk fun _ => none

/-- With enough fuel, a machine has this result in a state. -/
def Ends (x : ℕ → Machine σ ε α) (st : σ) (result : Except ε α × σ) : Prop :=
  ∃ enough, ∀ fuel ≥ enough, (x fuel).runFrom st = some result

lemma runFrom_pure (a : α) (st : σ) :
    runFrom (pure a : Machine σ ε α) st = some (.ok a, st) := rfl

lemma runFrom_throw (e : ε) (st : σ) :
    runFrom (throw e : Machine σ ε α) st = some (.error e, st) := rfl

lemma runFrom_get (st : σ) : runFrom (get : Machine σ ε σ) st = some (.ok st, st) := rfl

lemma runFrom_modify (f : σ → σ) (st : σ) :
    runFrom (modify f : Machine σ ε Unit) st = some (.ok (), f st) := rfl

variable {x : Machine σ ε α} {f : α → Machine σ ε β} {st st₁ : σ}

lemma runFrom_bind_ok {a : α} (h : x.runFrom st = some (.ok a, st₁)) :
    (x >>= f).runFrom st = (f a).runFrom st₁ := by
  rw [runFrom_bind, h]
  rfl

lemma runFrom_bind_error {e : ε} (h : x.runFrom st = some (.error e, st₁)) :
    (x >>= f).runFrom st = some (.error e, st₁) := by
  rw [runFrom_bind, h]
  rfl

end Machine

end LinkedTables
