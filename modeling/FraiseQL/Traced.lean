import Mathlib.Data.List.Basic

/-! Computations that call out: an outcome together with the calls made on the way to it. A failed step ends
the computation and the calls made before it stay. The rules at the end read a call of a run back to the step
that made it. -/

structure Traced (ε κ α : Type) where
  outcome : Except ε α
  calls : List κ

namespace Traced

variable {ε κ κ' α β : Type}

/-- A step without calls. -/
def lift (x : Except ε α) : Traced ε κ α := ⟨x, []⟩

def call (c : κ) (response : Except ε α) : Traced ε κ α := ⟨response, [c]⟩

def andThen (m : Traced ε κ α) (f : α → Traced ε κ β) : Traced ε κ β :=
  match m.outcome with
  | .ok a => ⟨(f a).outcome, m.calls ++ (f a).calls⟩
  | .error e => ⟨.error e, m.calls⟩

/-- The same computation with its calls under other names. -/
def relabel (f : κ → κ') (m : Traced ε κ α) : Traced ε κ' α := ⟨m.outcome, m.calls.map f⟩

/-- The same computation with another error. -/
def mapError {ε' : Type} (f : ε → ε') (m : Traced ε κ α) : Traced ε' κ α := ⟨m.outcome.mapError f, m.calls⟩

instance : Monad (Traced ε κ) where
  pure a := lift (.ok a)
  bind := andThen

instance : MonadLift (Except ε) (Traced ε κ) := ⟨lift⟩

@[simp] theorem outcome_lift (x : Except ε α) : (lift x : Traced ε κ α).outcome = x := rfl

@[simp] theorem liftM_eq (x : Except ε α) : (liftM x : Traced ε κ α) = lift x := rfl

@[simp] theorem outcome_call (c : κ) (response : Except ε α) : (call c response).outcome = response := rfl

@[simp] theorem outcome_pure (a : α) : (pure a : Traced ε κ α).outcome = .ok a := rfl

@[simp] theorem outcome_bind (m : Traced ε κ α) (f : α → Traced ε κ β) :
    (m >>= f).outcome = m.outcome >>= fun a => (f a).outcome := by
  show (andThen m f).outcome = _
  unfold andThen
  cases m.outcome <;> rfl

@[simp] theorem calls_lift (x : Except ε α) : (lift x : Traced ε κ α).calls = [] := rfl

@[simp] theorem calls_call (c : κ) (response : Except ε α) : (call c response).calls = [c] := rfl

@[simp] theorem calls_pure (a : α) : (pure a : Traced ε κ α).calls = [] := rfl

variable {m : Traced ε κ α}

@[simp] theorem mem_calls_relabel {f : κ → κ'} {c : κ'} :
    c ∈ (m.relabel f).calls ↔ ∃ d ∈ m.calls, f d = c := List.mem_map

variable {f : α → Traced ε κ β}

/-- A call of a sequence is made by its first part, or by the rest once the first part has returned. -/
@[simp] theorem mem_calls_bind {c : κ} :
    c ∈ (m >>= f).calls ↔ c ∈ m.calls ∨ ∃ a, m.outcome = .ok a ∧ c ∈ (f a).calls := by
  show c ∈ (andThen m f).calls ↔ _
  unfold andThen
  cases m.outcome with
  | ok a => simp
  | error e => simp

theorem calls_bind_ok {a : α} (h : m.outcome = .ok a) : (m >>= f).calls = m.calls ++ (f a).calls := by
  show (andThen m f).calls = _
  unfold andThen
  rw [h]

theorem calls_bind_error {e : ε} (h : m.outcome = .error e) : (m >>= f).calls = m.calls := by
  show (andThen m f).calls = _
  unfold andThen
  rw [h]

end Traced
