import Lexing.Buffer.Basic

/-!
# Reading from a buffer

Reads take the next byte of the stream into the pending token and may give it back. Lookahead is
read again before the source is asked, a full window grows before it takes another byte, and a
window that is full at its ceiling refuses bytes but still notices the end of the stream.

Models `next`, `back`, `peek` and `next_if` of `LexBuffer`, from the module `buffer` of
`lexkit_core`, and `pull`, `next_at_ceiling` and `grow`, which they call. `read` is `next` where
there is room.
-/

set_option autoImplicit false

namespace Lexing.Buffer

variable {σ : Type}

/-- Doubles the capacity, up to the ceiling. -/
def grow : BufferM σ Unit := fun ⟨window, source⟩ =>
  if window.growthTarget ≤ window.capacity then
    ⟨.error (.allocationFailure (Size.double window.capacity)), ⟨window, source⟩,
      #[.cannotGrow window.capacity window.limit]⟩
  else if window.grants window.growthTarget then
    ⟨.ok (), ⟨{ window with capacity := window.growthTarget }, source⟩,
      #[.grew window.capacity window.growthTarget]⟩
  else ⟨.error (.allocationFailure window.growthTarget), ⟨window, source⟩, #[]⟩

/-- A buffer that grew has the capacity it was to grow to, which is larger. -/
theorem grow_ok_window {buffer after : Buffer σ} {events : Array Event}
    (h : grow buffer = ⟨.ok (), after, events⟩) :
    buffer.window.capacity < buffer.window.growthTarget ∧
      after.window = { buffer.window with capacity := buffer.window.growthTarget } := by
  simp only [grow] at h
  split at h
  next => cases h
  next larger =>
    split at h
    next =>
      cases h
      exact ⟨Nat.lt_of_not_le larger, rfl⟩
    next => cases h

/-- Gives the last pending byte back; it is read again by the next read. -/
def back : BufferM σ Unit := fun ⟨window, source⟩ =>
  if window.consumed = 0 then
    ⟨.error .backupUnderflow, ⟨window, source⟩, #[.backupUnderflow window.start]⟩
  else ⟨.ok (), ⟨window.retreat, source⟩, #[]⟩

variable [ByteSource σ]

/-- The held byte if there is one, else what the source answers. -/
def pull : BufferM σ Next := fun ⟨window, source⟩ =>
  match window.held with
  | some byte => ⟨.ok (.byte byte), ⟨{ window with held := none }, source⟩, #[]⟩
  | none =>
    match ByteSource.poll source with
    | (.ok next, source) => ⟨.ok next, ⟨window, source⟩, #[]⟩
    | (.error fault, source) => ⟨.error (.source fault), ⟨window, source⟩, #[]⟩

/-- Reads where there is room: the lookahead first, then the stream. The end of the stream is not
stored, so the source is asked again by the next read. -/
def read : BufferM σ Next := fun ⟨window, source⟩ =>
  match window.stored[window.consumed]? with
  | some byte => ⟨.ok (.byte byte), ⟨window.advance, source⟩, #[]⟩
  | none =>
    match pull ⟨window, source⟩ with
    | ⟨.ok (.byte byte), ⟨window, source⟩, events⟩ =>
      ⟨.ok (.byte byte), ⟨window.append byte, source⟩, events⟩
    | ⟨.ok .eos, buffer, events⟩ => ⟨.ok .eos, buffer, events⟩
    | ⟨.error error, buffer, events⟩ => ⟨.error error, buffer, events⟩

/-- Reads where there is no room and never will be. The end of the stream is still an answer; a
byte is refused, and held until something is discarded. -/
def readAtCeiling : BufferM σ Next := fun buffer =>
  match pull buffer with
  | ⟨.ok (.byte byte), ⟨window, source⟩, events⟩ =>
    ⟨.error (.allocationFailure (Size.double window.capacity)),
      ⟨{ window with held := some byte }, source⟩,
      events.push (.refused window.capacity window.offset)⟩
  | ⟨.ok .eos, buffer, events⟩ => ⟨.ok .eos, buffer, events⟩
  | ⟨.error error, buffer, events⟩ => ⟨.error error, buffer, events⟩

def next : BufferM σ Next := fun buffer =>
  if buffer.window.consumed < buffer.window.capacity then read buffer
  else if buffer.window.atCeiling then readAtCeiling buffer
  else Operation.bind grow (fun _ => read) buffer

def peek : BufferM σ Next := do
  match ← next with
  | .eos => return .eos
  | .byte byte =>
    back.orThrow .peekBackup
    return .byte byte

def nextIf (accepts : UInt8 → Bool) : BufferM σ (Option UInt8) := do
  match ← next with
  | .eos => return none
  | .byte byte =>
    if accepts byte then
      return some byte
    else
      back
      return none

/-- Pulling a byte changes nothing in the window but the held byte. -/
theorem pull_window (buffer : Buffer σ) :
    (pull buffer).state.window = { buffer.window with held := none } := by
  obtain ⟨window, source⟩ := buffer
  obtain ⟨stored, consumed, capacity, limit, memory, start, held⟩ := window
  cases held with
  | some byte => rfl
  | none =>
    simp only [pull]
    split <;> rfl

/-- A byte that is read where there is room makes the pending token one longer. -/
theorem read_byte_window {buffer after : Buffer σ} {byte : UInt8} {events : Array Event}
    (h : read buffer = ⟨.ok (.byte byte), after, events⟩) :
    after.window.consumed = buffer.window.consumed + 1 ∧
      after.window.capacity = buffer.window.capacity := by
  have pulled := pull_window buffer
  simp only [read] at h
  split at h
  next =>
    cases h
    exact ⟨rfl, rfl⟩
  next =>
    split at h
    next result =>
      cases h
      rw [result] at pulled
      simp only at pulled
      subst pulled
      exact ⟨rfl, rfl⟩
    next => cases h
    next => cases h

end Lexing.Buffer
