import Lexing.Buffer.Read

/-!
# Reading while bytes are accepted

Every byte that is read uses up room (`roomLeft_lt_of_nextIf`), so reading while bytes are accepted
comes to an end on every source, also on one that never ends. `eatWhile_eq` is its law: a byte that
was accepted is followed by the same again.

Models `eat_while` of `LexBuffer`, from the module `buffer` of `lexkit_core`.
-/

set_option autoImplicit false

namespace Lexing.Buffer

variable {σ : Type} [ByteSource σ]

/-- A byte that is read makes the pending token one longer, where there was room for it or after
growth. -/
theorem next_byte_window {buffer after : Buffer σ} {byte : UInt8} {events : Array Event}
    (h : next buffer = ⟨.ok (.byte byte), after, events⟩) :
    after.window.consumed = buffer.window.consumed + 1 ∧
      (buffer.window.consumed < buffer.window.capacity ∧
          after.window.capacity = buffer.window.capacity ∨
        buffer.window.capacity < buffer.window.growthTarget ∧
          after.window.capacity = buffer.window.growthTarget) := by
  simp only [next] at h
  split at h
  next room =>
    obtain ⟨consumed, capacity⟩ := read_byte_window h
    exact ⟨consumed, Or.inl ⟨room, capacity⟩⟩
  next =>
    split at h
    next =>
      simp only [readAtCeiling] at h
      split at h <;> cases h
    next =>
      simp only [Operation.bind] at h
      split at h
      next growth =>
        obtain ⟨larger, grown⟩ := grow_ok_window growth
        simp only [Result.after, Result.mk.injEq] at h
        obtain ⟨outcome, state, -⟩ := h
        obtain ⟨consumed, capacity⟩ :=
          read_byte_window (show read _ = ⟨.ok (.byte byte), after, _⟩ by rw [← outcome, ← state])
        rw [grown] at consumed capacity
        exact ⟨consumed, Or.inr ⟨larger, capacity⟩⟩
      next => cases h

/-- Every byte that is read uses up room. -/
theorem roomLeft_lt_of_next {buffer after : Buffer σ} {byte : UInt8} {events : Array Event}
    (h : next buffer = ⟨.ok (.byte byte), after, events⟩) :
    after.window.roomLeft < buffer.window.roomLeft := by
  obtain ⟨consumed, ⟨room, capacity⟩ | ⟨larger, capacity⟩⟩ := next_byte_window h
  · exact Window.roomLeft_lt_of_consumed room consumed capacity
  · exact Window.roomLeft_lt_of_grown larger consumed capacity

/-- Every byte that is accepted uses up room. -/
theorem roomLeft_lt_of_nextIf {accepts : UInt8 → Bool} {buffer after : Buffer σ} {byte : UInt8}
    {events : Array Event} (h : nextIf accepts buffer = ⟨.ok (some byte), after, events⟩) :
    after.window.roomLeft < buffer.window.roomLeft := by
  simp only [nextIf, Operation.bind_apply] at h
  split at h
  next value state before result =>
    cases value with
    | eos => cases h
    | byte found =>
      simp only at h
      split at h
      next =>
        cases h
        exact roomLeft_lt_of_next result
      next =>
        simp only [Operation.bind_apply] at h
        split at h <;> cases h
  next => cases h

/-- Reads on while bytes are accepted, having counted and reported some already. -/
def eatFrom (accepts : UInt8 → Bool) (count : Nat) (log : Array Event) (buffer : Buffer σ) :
    Result LexError (Buffer σ) Nat :=
  match _ : nextIf accepts buffer with
  | ⟨.ok (some _), after, events⟩ => eatFrom accepts (count + 1) (log ++ events) after
  | ⟨.ok none, after, events⟩ => ⟨.ok count, after, log ++ events⟩
  | ⟨.error error, after, events⟩ => ⟨.error error, after, log ++ events⟩
termination_by buffer.window.roomLeft
decreasing_by exact roomLeft_lt_of_nextIf ‹nextIf accepts buffer = _›

def eatWhile (accepts : UInt8 → Bool) : BufferM σ Nat := fun buffer =>
  eatFrom accepts 0 #[] buffer

/-- What was counted and reported before is added to what comes after. -/
theorem eatFrom_eq (accepts : UInt8 → Bool) (count : Nat) (log : Array Event)
    (buffer : Buffer σ) :
    eatFrom accepts count log buffer =
      ((eatWhile accepts buffer).map (count + ·)).after log := by
  have added (count total : Nat) (log sofar : Array Event) (buffer : Buffer σ) :
      eatFrom accepts (count + total) (log ++ sofar) buffer =
        ((eatFrom accepts total sofar buffer).map (count + ·)).after log := by
    fun_induction eatFrom accepts total sofar buffer with
    | case1 total sofar buffer _ after events result ih =>
      rw [eatFrom, result]
      simpa only [Nat.add_assoc, Array.append_assoc] using ih
    | case2 total sofar buffer after events result =>
      rw [eatFrom, result]
      simp only [Result.map, Result.after, Except.map, Array.append_assoc]
    | case3 total sofar buffer error after events result =>
      rw [eatFrom, result]
      simp only [Result.map, Result.after, Except.map, Array.append_assoc]
  simpa only [eatWhile, Nat.add_zero, Array.append_empty] using added count 0 log #[] buffer

/-- Eating reads a byte if it is accepted, and goes on after a byte that was. -/
theorem eatWhile_eq (accepts : UInt8 → Bool) :
    (eatWhile accepts : BufferM σ Nat) = do
      match ← nextIf accepts with
      | some _ => (1 + ·) <$> eatWhile accepts
      | none => return 0 := by
  funext buffer
  rw [Operation.bind_apply, eatWhile, eatFrom]
  split
  next result =>
    rw [result, eatFrom_eq]
    simp only [Nat.zero_add, Array.empty_append, Operation.map_apply]
  next result =>
    rw [result]
    simp only [Operation.pure_apply, Result.after, Array.append_empty, Array.empty_append]
  next result =>
    rw [result]
    simp only [Array.empty_append]

end Lexing.Buffer
