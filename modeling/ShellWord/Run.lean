/-!
# Stateful computations that may fail

Expanding a word reads and changes the state of a session, and it may fail half way; what happened
before the failure stays.  So a computation is a function from a state to an outcome together with
the state it leaves, also when the outcome is an error.

## Main definitions

* `Run`: computations over a state
* `Run.total`: a step that cannot fail
* `Run.within`: run a computation on a part of a larger state
-/

namespace ShellWord

/-- A computation over the state `σ` that gives a value or fails with an `ε`, and leaves a state
either way. -/
abbrev Run (σ ε : Type) := ExceptT ε (StateM σ)

namespace Run

/-- The outcome of a computation and the state it leaves. -/
def exec {σ ε α : Type} (x : Run σ ε α) (s : σ) : Except ε α × σ :=
  x.run.run s

@[simp] theorem exec_pure {σ ε α : Type} (a : α) (s : σ) :
    exec (pure a : Run σ ε α) s = (.ok a, s) := rfl

@[simp] theorem exec_throw {σ ε α : Type} (e : ε) (s : σ) :
    exec (throw e : Run σ ε α) s = (.error e, s) := rfl

/-- A step that always gives a value. -/
def total {σ ε α : Type} (f : σ → α × σ) : Run σ ε α := fun s =>
  (.ok (f s).1, (f s).2)

@[simp] theorem exec_total {σ ε α : Type} (f : σ → α × σ) (s : σ) :
    exec (total f : Run σ ε α) s = (.ok (f s).1, (f s).2) := rfl

/-- Run a computation on a part of the state, and turn its errors into errors of the whole. -/
def within {σ τ ε δ α : Type} (view : σ → τ) (update : τ → σ → σ) (onError : δ → ε)
    (x : Run τ δ α) : Run σ ε α := fun s =>
  match x.exec (view s) with
  | (.ok a, t) => (.ok a, update t s)
  | (.error e, t) => (.error (onError e), update t s)

end Run

end ShellWord
