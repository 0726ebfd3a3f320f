import SelectAlgebra.Host

/-!
# Runs on a machine

A machine whose state can be looked at is a state monad.  A run takes a state to its result and to
the state behind it, and a whole run is followed step by step by rewriting.

Main results:

- Theorem `runFrom_bind`: a run does one part from the state behind the other.
- Theorem `runFrom_eachLine_cons_next`: a line that goes on leaves its state to the other lines.
- Theorem `runFrom_eachLine_cons_stop`: a line that stops is the last one.
-/

namespace SelectAlgebra

variable {σ α β τ : Type}

/-! ## Steps -/

/-- The result of a run that starts in a state, and the state behind it. -/
def runFrom (st : σ) (x : StateM σ α) : α × σ :=
  (StateT.run x st).run

/-- A value is its own result and changes nothing. -/
@[simp]
theorem runFrom_pure (st : σ) (a : α) : runFrom st (pure a) = (a, st) :=
  rfl

/-- A run does one part from the state behind the other. -/
@[simp]
theorem runFrom_bind (st : σ) (x : StateM σ α) (f : α → StateM σ β) :
    runFrom st (x >>= f) = runFrom (runFrom st x).2 (f (runFrom st x).1) :=
  rfl

/-- A function of the result changes the result alone. -/
@[simp]
theorem runFrom_map (st : σ) (f : α → β) (x : StateM σ α) :
    runFrom st (f <$> x) = (f (runFrom st x).1, (runFrom st x).2) :=
  rfl

/-- The state can be asked for. -/
@[simp]
theorem runFrom_get (st : σ) : runFrom st (get : StateM σ σ) = (st, st) :=
  rfl

/-! ## Lines -/

/-- Goes through lines until one says to stop. -/
def eachLine {m : Type → Type} [Monad m] (step : τ → α → m (Continue τ)) (state : τ) :
    List α → m (Continue τ)
  | [] => return .next state
  | line :: rest => do
    match ← step state line with
    | .next state' => eachLine step state' rest
    | .stop state' => return .stop state'

variable {step : τ → α → StateM σ (Continue τ)} {state state' : τ} {st st' : σ} {line : α}

/-- Without a line there is nothing to do. -/
@[simp]
theorem runFrom_eachLine_nil (st : σ) (state : τ) :
    runFrom st (eachLine step state []) = (.next state, st) :=
  rfl

/-- A line that goes on leaves its state to the other lines. -/
theorem runFrom_eachLine_cons_next (lines : List α)
    (h : runFrom st (step state line) = (.next state', st')) :
    runFrom st (eachLine step state (line :: lines)) =
      runFrom st' (eachLine step state' lines) := by
  rw [eachLine, runFrom_bind, h]

/-- A line that stops is the last one. -/
theorem runFrom_eachLine_cons_stop (lines : List α)
    (h : runFrom st (step state line) = (.stop state', st')) :
    runFrom st (eachLine step state (line :: lines)) = (.stop state', st') := by
  rw [eachLine, runFrom_bind, h, runFrom_pure]

end SelectAlgebra
