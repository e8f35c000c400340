import RegionBacking.Effect

/-!
# Operations

An operation takes a state and leaves a result, a new state and a trace of effects. It may stop
early in two ways: with an error, which its caller handles, or with a fault, which nobody handles.
Either way the state and the trace are kept as they are at that point; nothing is rolled back.

Four things live here: the type `Op` with its sequencing, the ways to stop and to catch an error,
loops over a list, and the equations of sequencing and of loops.
-/

namespace RegionBacking

/-- Why an operation stopped before its end. -/
inductive Stop (ε : Type) where
  /-- An error that the caller handles. -/
  | error (error : ε)
  /-- A fault, which ends every caller as well. -/
  | fault (fault : Fault)
deriving DecidableEq, Repr

/-- What an operation leaves behind. -/
structure Run (ε σ α : Type) where
  /-- The value, or why there is none. -/
  result : Except (Stop ε) α
  /-- The state at the end, also where the operation stopped early. -/
  state : σ
  /-- The effects, in order. -/
  trace : List Effect

/-- An operation on states `σ` with values `α` and errors `ε`. -/
def Op (ε σ α : Type) : Type := σ → Run ε σ α

namespace Op

variable {ε ε' σ τ α β : Type}

/-- The run of an operation from a state. -/
def run (op : Op ε σ α) (state : σ) : Run ε σ α := op state

/-- The operation that only returns a value. -/
protected def pure (value : α) : Op ε σ α := fun state => ⟨.ok value, state, []⟩

/-- The second operation after the first, if the first comes to its end. -/
protected def bind (op : Op ε σ α) (next : α → Op ε σ β) : Op ε σ β := fun state =>
  match op state with
  | ⟨.ok value, state, trace⟩ =>
    match next value state with
    | ⟨result, state, later⟩ => ⟨result, state, trace ++ later⟩
  | ⟨.error stop, state, trace⟩ => ⟨.error stop, state, trace⟩

instance : Monad (Op ε σ) where
  pure := Op.pure
  bind := Op.bind

/-! ## Single steps -/

/-- The state. -/
def get : Op ε σ σ := fun state => ⟨.ok state, state, []⟩

/-- Changes the state. -/
def modify (change : σ → σ) : Op ε σ Unit := fun state => ⟨.ok (), change state, []⟩

/-- Shows an effect. -/
def emit (effect : Effect) : Op ε σ Unit := fun state => ⟨.ok (), state, [effect]⟩

/-- Writes a line of the diagnostic log. -/
def note (record : Record) : Op ε σ Unit := emit (.record record)

/-- Stops with an error. -/
def refuse (error : ε) : Op ε σ α := fun state => ⟨.error (.error error), state, []⟩

/-- Stops with a fault. -/
def fail (fault : Fault) : Op ε σ α := fun state => ⟨.error (.fault fault), state, []⟩

/-- Stops with a fault unless a condition holds. -/
def require (condition : Bool) (fault : Fault) : Op ε σ Unit :=
  if condition then pure () else fail fault

/-- A value that may be a fault instead. -/
def checked (value : Except Fault α) : Op ε σ α :=
  match value with
  | .ok value => pure value
  | .error fault => fail fault

/-! ## Errors and parts of the state -/

/-- Goes on with `handle` after an error; a fault passes through. -/
def recover (op : Op ε σ α) (handle : ε → Op ε' σ α) : Op ε' σ α := fun state =>
  match op state with
  | ⟨.ok value, state, trace⟩ => ⟨.ok value, state, trace⟩
  | ⟨.error (.fault fault), state, trace⟩ => ⟨.error (.fault fault), state, trace⟩
  | ⟨.error (.error error), state, trace⟩ =>
    match handle error state with
    | ⟨result, state, later⟩ => ⟨result, state, trace ++ later⟩

/-- Runs an operation on a part of the state. -/
def within (part : τ → σ) (put : σ → τ → τ) (op : Op ε σ α) : Op ε τ α := fun whole =>
  match op (part whole) with
  | ⟨result, state, trace⟩ => ⟨result, put state whole, trace⟩

/-! ## Loops -/

/-- The loop of `fold`, with the effects of the earlier elements, the latest first. -/
def foldFrom (step : β → α → Op ε σ β) (items : List α) (value : β) (earlier : List Effect) :
    Op ε σ β := fun state =>
  match items with
  | [] => ⟨.ok value, state, earlier.reverse⟩
  | item :: rest =>
    match step value item state with
    | ⟨.ok value, state, trace⟩ => foldFrom step rest value (trace.reverse ++ earlier) state
    | ⟨.error stop, state, trace⟩ => ⟨.error stop, state, earlier.reverse ++ trace⟩

/-- Runs an operation for each element of a list, in order. Each run hands a value to the next. -/
def fold (step : β → α → Op ε σ β) (value : β) (items : List α) : Op ε σ β :=
  foldFrom step items value []

/-- Runs an operation for each element of a list, in order. -/
def forEach (items : List α) (step : α → Op ε σ Unit) : Op ε σ Unit :=
  fold (fun _ item => step item) () items

/-! ## The equations of sequencing -/

@[simp] theorem pure_run (value : α) (state : σ) :
    (pure value : Op ε σ α) state = ⟨.ok value, state, []⟩ := rfl

theorem bind_run_ok {op : Op ε σ α} {next : α → Op ε σ β} {state after : σ} {value : α}
    {trace : List Effect} (h : op state = ⟨.ok value, after, trace⟩) :
    (op >>= next) state =
      ⟨(next value after).result, (next value after).state, trace ++ (next value after).trace⟩ := by
  show Op.bind op next state = _
  simp only [Op.bind, h]

theorem bind_run_error {op : Op ε σ α} {next : α → Op ε σ β} {state after : σ} {stop : Stop ε}
    {trace : List Effect} (h : op state = ⟨.error stop, after, trace⟩) :
    (op >>= next) state = ⟨.error stop, after, trace⟩ := by
  show Op.bind op next state = _
  simp only [Op.bind, h]

protected theorem pure_bind (value : α) (next : α → Op ε σ β) :
    (pure value >>= next) = next value := by
  funext state
  rw [bind_run_ok (pure_run value state)]
  simp

protected theorem bind_assoc {γ : Type} (op : Op ε σ α) (f : α → Op ε σ β) (g : β → Op ε σ γ) :
    (op >>= f) >>= g = op >>= fun value => f value >>= g := by
  funext state
  match h : op state with
  | ⟨.ok value, after, trace⟩ =>
    rw [bind_run_ok h]
    match h' : f value after with
    | ⟨.ok value', after', trace'⟩ =>
      rw [bind_run_ok (bind_run_ok h |>.trans (by rw [h'])), bind_run_ok h']
      simp
    | ⟨.error stop, after', trace'⟩ =>
      rw [bind_run_error (bind_run_ok h |>.trans (by rw [h'])), bind_run_error h']
  | ⟨.error stop, after, trace⟩ =>
    rw [bind_run_error h, bind_run_error (bind_run_error h)]

protected theorem bind_pure (op : Op ε σ α) : op >>= pure = op := by
  funext state
  match h : op state with
  | ⟨.ok value, after, trace⟩ => simp [bind_run_ok h]
  | ⟨.error stop, after, trace⟩ => rw [bind_run_error h]

instance : LawfulMonad (Op ε σ) := LawfulMonad.mk' (Op ε σ)
  (fun op => Op.bind_pure op)
  (fun value next => Op.pure_bind value next)
  (fun op f g => Op.bind_assoc op f g)

/-! ## The equations of loops -/

/-- The effects of the earlier elements come before all others. -/
theorem foldFrom_eq (step : β → α → Op ε σ β) (items : List α) (value : β)
    (earlier : List Effect) (state : σ) :
    foldFrom step items value earlier state =
      ⟨(fold step value items state).result, (fold step value items state).state,
        earlier.reverse ++ (fold step value items state).trace⟩ := by
  unfold fold
  induction items generalizing value earlier state with
  | nil => simp [foldFrom]
  | cons item rest ih =>
    simp only [foldFrom]
    split
    · next after trace _ => rw [ih _ (trace.reverse ++ earlier), ih _ (trace.reverse ++ [])]; simp
    · simp

@[simp] theorem fold_nil (step : β → α → Op ε σ β) (value : β) :
    fold step value [] = pure value := rfl

theorem fold_cons (step : β → α → Op ε σ β) (value : β) (item : α) (rest : List α) :
    fold step value (item :: rest) = step value item >>= fun value => fold step value rest := by
  funext state
  match h : step value item state with
  | ⟨.ok value, after, trace⟩ =>
    rw [bind_run_ok h]
    simp only [fold, foldFrom, h]
    rw [foldFrom_eq]
    simp [fold]
  | ⟨.error stop, after, trace⟩ =>
    rw [bind_run_error h]
    simp [fold, foldFrom, h]

/-- A loop is the fold of its list in the monad of operations. -/
theorem fold_eq_foldlM (step : β → α → Op ε σ β) (value : β) (items : List α) :
    fold step value items = items.foldlM step value := by
  induction items generalizing value with
  | nil => rfl
  | cons item rest ih => rw [fold_cons, List.foldlM_cons]; exact bind_congr fun value => ih value

@[simp] theorem forEach_nil (step : α → Op ε σ Unit) : forEach [] step = pure () := rfl

theorem forEach_cons (item : α) (rest : List α) (step : α → Op ε σ Unit) :
    forEach (item :: rest) step = (do step item; forEach rest step) := fold_cons _ _ _ _

end Op

end RegionBacking
