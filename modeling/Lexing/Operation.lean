import Lexing.Event

/-!
# Operations

An operation turns a state into an outcome, a state and the events that were reported on the way.
It leaves a state also when it fails, so a failure can be followed by anything that a success can
be followed by. Events are only ever added: no operation can see what was reported before it.

Operations are sequenced by `do`. The sequence stops at the first failure, with the state that the
failure left and all events up to it. The monad laws hold (`LawfulMonad`).
-/

set_option autoImplicit false

namespace Lexing

/-- What an operation makes of a state. -/
structure Result (ε S α : Type) where
  outcome : Except ε α
  state : S
  /-- What happened, the oldest event first. -/
  events : Array Event

/-- An operation on states `S` that may fail with `ε`. -/
def Operation (ε S α : Type) : Type := S → Result ε S α

namespace Result

variable {ε S α β : Type}

def map (change : α → β) : Result ε S α → Result ε S β
  | ⟨outcome, state, events⟩ => ⟨outcome.map change, state, events⟩

def after (events : Array Event) : Result ε S α → Result ε S α
  | ⟨outcome, state, more⟩ => ⟨outcome, state, events ++ more⟩

@[simp] theorem after_empty (result : Result ε S α) : result.after #[] = result := by
  simp [after]

@[simp] theorem after_after (result : Result ε S α) (first second : Array Event) :
    (result.after second).after first = result.after (first ++ second) := by
  simp [after, Array.append_assoc]

end Result

namespace Operation

variable {ε S α β : Type}

/-- Goes on from a success; a failure is the end. -/
@[inline] def bind (operation : Operation ε S α) (rest : α → Operation ε S β) :
    Operation ε S β := fun state =>
  match operation state with
  | ⟨.ok value, state, events⟩ => (rest value state).after events
  | ⟨.error error, state, events⟩ => ⟨.error error, state, events⟩

@[always_inline] instance : Monad (Operation ε S) where
  pure value := fun state => ⟨.ok value, state, #[]⟩
  bind := Operation.bind

@[always_inline] instance : MonadStateOf S (Operation ε S) where
  get := fun state => ⟨.ok state, state, #[]⟩
  set after := fun _ => ⟨.ok ⟨⟩, after, #[]⟩
  modifyGet change := fun state =>
    match change state with
    | (value, state) => ⟨.ok value, state, #[]⟩

/-- A failure that is handled keeps the events that led to it. -/
@[always_inline] instance : MonadExceptOf ε (Operation ε S) where
  throw error := fun state => ⟨.error error, state, #[]⟩
  tryCatch operation handle := fun state =>
    match operation state with
    | ⟨.ok value, state, events⟩ => ⟨.ok value, state, events⟩
    | ⟨.error error, state, events⟩ => (handle error state).after events

def note (event : Event) : Operation ε S Unit := fun state => ⟨.ok (), state, #[event]⟩

/-- Replaces the failure of an operation by another. -/
def orThrow (operation : Operation ε S α) (error : ε) : Operation ε S α :=
  tryCatch operation fun _ => throw error

theorem pure_apply (value : α) (state : S) :
    (pure value : Operation ε S α) state = ⟨.ok value, state, #[]⟩ := rfl

theorem throw_apply (error : ε) (state : S) :
    (throw error : Operation ε S α) state = ⟨.error error, state, #[]⟩ := rfl

theorem get_apply (state : S) :
    (get : Operation ε S S) state = ⟨.ok state, state, #[]⟩ := rfl

/-- What follows an operation sees its value and the state it left, unless it failed. -/
theorem bind_apply (operation : Operation ε S α) (rest : α → Operation ε S β) (state : S) :
    (operation >>= rest) state =
      match operation state with
      | ⟨.ok value, state, events⟩ => (rest value state).after events
      | ⟨.error error, state, events⟩ => ⟨.error error, state, events⟩ := rfl

/-- A value can be changed after the fact. -/
theorem map_apply (change : α → β) (operation : Operation ε S α) (state : S) :
    (change <$> operation) state = (operation state).map change := by
  change Operation.bind operation (fun value => pure (change value)) state = _
  simp only [Operation.bind]
  rcases operation state with ⟨_ | value, state, events⟩
  · rfl
  · simp only [Result.after, Result.map, Except.map, pure_apply, Array.append_empty]

private theorem id_map_eq (operation : Operation ε S α) : id <$> operation = operation := by
  funext state
  rw [map_apply]
  rcases operation state with ⟨_ | _, _, _⟩ <;> rfl

private theorem pure_bind_eq (value : α) (rest : α → Operation ε S β) :
    pure value >>= rest = rest value := by
  funext state
  simp only [bind_apply, pure_apply, Result.after_empty]

private theorem bind_assoc_eq {γ : Type} (operation : Operation ε S α)
    (rest : α → Operation ε S β) (last : β → Operation ε S γ) :
    operation >>= rest >>= last = operation >>= fun value => rest value >>= last := by
  funext state
  simp only [bind_apply]
  rcases operation state with ⟨_ | value, state, events⟩
  · rfl
  · simp only [Result.after]
    rcases rest value state with ⟨_ | value, state, more⟩
    · rfl
    · simp only [Array.append_assoc]

instance : LawfulMonad (Operation ε S) :=
  LawfulMonad.mk' _ id_map_eq pure_bind_eq bind_assoc_eq

/-- An operation whose outcome is a value, whatever it is, so that nothing stops a sequence. -/
def attempt (operation : Operation ε S α) : Operation ε S (Except ε α) := fun state =>
  match operation state with
  | ⟨outcome, state, events⟩ => ⟨.ok outcome, state, events⟩

/-- Performs an operation so many times, failures included, and yields all outcomes. -/
def times (operation : Operation ε S α) : Nat → Operation ε S (List (Except ε α))
  | 0 => pure []
  | count + 1 => do
    let outcome ← operation.attempt
    let outcomes ← operation.times count
    return outcome :: outcomes

end Operation

end Lexing
