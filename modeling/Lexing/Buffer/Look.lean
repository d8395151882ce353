import Lexing.Buffer.Eat

/-!
# Taking bytes that were looked at first

The long way round to read bytes that are accepted: each is looked at, and only one that is accepted
is read. Looking gives back what it reads, so it uses up no room, and the loop comes to an end like
the one that reads first.
-/

set_option autoImplicit false

namespace Lexing.Buffer

variable {σ : Type} [ByteSource σ]

/-- Looks at the next byte and reads it if it is accepted. -/
def takeIf (accepts : UInt8 → Bool) : BufferM σ (Option UInt8) := do
  match ← peek with
  | .eos => return none
  | .byte seen =>
    if accepts seen then
      match ← next with
      | .eos => return none
      | .byte byte => return some byte
    else return none

/-- A byte that is looked at was read and given back. -/
theorem peek_byte {buffer after : Buffer σ} {byte : UInt8} {events : Array Event}
    (h : peek buffer = ⟨.ok (.byte byte), after, events⟩) :
    ∃ between, next buffer = ⟨.ok (.byte byte), between, events⟩ ∧
      after = ⟨between.window.retreat, between.source⟩ := by
  simp only [peek, Operation.bind_apply] at h
  split at h
  next value between before read =>
    cases value with
    | eos => cases h
    | byte found =>
      have given : (back.orThrow .peekBackup : BufferM σ Unit) between =
          ⟨.ok (), ⟨between.window.retreat, between.source⟩, #[]⟩ := by
        have pending : between.window.consumed ≠ 0 := by
          rw [(next_byte_window read).1]
          exact Nat.succ_ne_zero _
        simp only [Operation.orThrow, tryCatch, tryCatchThe, MonadExceptOf.tryCatch, back,
          if_neg pending]
      simp only [Operation.bind_apply, given, Operation.pure_apply, Result.after,
        Array.append_empty] at h
      cases h
      exact ⟨between, read, rfl⟩
  next => cases h

/-- Looking at a byte uses up no room. -/
theorem roomLeft_le_of_peek {buffer after : Buffer σ} {byte : UInt8} {events : Array Event}
    (h : peek buffer = ⟨.ok (.byte byte), after, events⟩) :
    after.window.roomLeft ≤ buffer.window.roomLeft := by
  obtain ⟨between, read, rfl⟩ := peek_byte h
  obtain ⟨consumed, capacity⟩ := next_byte_window read
  have bound := buffer.window.growthTarget_le_max
  simp only [Window.roomLeft, Window.retreat, consumed, Nat.add_sub_cancel]
  omega

/-- Every byte that is taken uses up room. -/
theorem roomLeft_lt_of_takeIf {accepts : UInt8 → Bool} {buffer after : Buffer σ} {byte : UInt8}
    {events : Array Event} (h : takeIf accepts buffer = ⟨.ok (some byte), after, events⟩) :
    after.window.roomLeft < buffer.window.roomLeft := by
  simp only [takeIf, Operation.bind_apply] at h
  split at h
  next value between before saw =>
    cases value with
    | eos => cases h
    | byte seen =>
      simp only at h
      split at h
      next =>
        simp only [Operation.bind_apply] at h
        split at h
        next value last more read =>
          cases value with
          | eos => cases h
          | byte found =>
            cases h
            exact Nat.lt_of_lt_of_le (roomLeft_lt_of_next read) (roomLeft_le_of_peek saw)
        next => cases h
      next => cases h
  next => cases h

/-- Takes bytes while they are accepted, having counted and reported some already. -/
def takeFrom (accepts : UInt8 → Bool) (count : Nat) (log : Array Event) (buffer : Buffer σ) :
    Result LexError (Buffer σ) Nat :=
  match _ : takeIf accepts buffer with
  | ⟨.ok (some _), after, events⟩ => takeFrom accepts (count + 1) (log ++ events) after
  | ⟨.ok none, after, events⟩ => ⟨.ok count, after, log ++ events⟩
  | ⟨.error error, after, events⟩ => ⟨.error error, after, log ++ events⟩
termination_by buffer.window.roomLeft
decreasing_by exact roomLeft_lt_of_takeIf ‹takeIf accepts buffer = _›

def takeWhile (accepts : UInt8 → Bool) : BufferM σ Nat := fun buffer =>
  takeFrom accepts 0 #[] buffer

end Lexing.Buffer
