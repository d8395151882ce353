import Lexing.Buffer.Basic

/-!
# Taking tokens from a buffer

The pending token is discarded, handed out as bytes or handed out as text. The lookahead after it
stays and is what the next token begins with.

Models `dump`, `skip`, `emit` and `emit_str` of `LexBuffer`, from the module `buffer` of
`lexkit_core`.
-/

set_option autoImplicit false

namespace Lexing.Buffer

variable {σ : Type}

/-- Discards the pending token. Nothing pending is nothing to do. -/
def dump : BufferM σ Unit := fun ⟨window, source⟩ =>
  if window.available < window.consumed then
    ⟨.error (.moveFailure window.consumed window.available), ⟨window, source⟩, #[]⟩
  else if window.consumed = 0 then ⟨.ok (), ⟨window, source⟩, #[]⟩
  else
    let after := window.discard
    ⟨.ok (), ⟨after, source⟩, #[.dumped window.consumed after.available after.start]⟩

def skip : BufferM σ Nat := do
  let length := (← get).window.consumed
  dump
  return length

def reserve (bytes : Nat) : BufferM σ Unit := do
  unless (← get).window.grants bytes do throw (.allocationFailure bytes)

/-- Hands out the pending token and discards it. It is copied before anything is discarded, so a
copy that cannot be made changes nothing. -/
def emit : BufferM σ (Array UInt8) := do
  let window := (← get).window
  let token := window.pending
  let length := window.consumed
  reserve length
  dump
  Operation.note (.emitted length ((← get).window.start - length.toUInt64))
  return token

/-- Hands out the pending token as text and discards it. A token that is not text stays, so that
it can still be handed out as bytes. -/
def emitText : BufferM σ String := do
  let window := (← get).window
  match Utf8.decode window.pending with
  | .error malformation => throw (.copyFailure window.consumed malformation)
  | .ok text =>
    discard emit
    return text

end Lexing.Buffer
