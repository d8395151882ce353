import Lexing.Buffer.Call

/-!
# Programs over a buffer

A client of a buffer performs one call after another and may choose each by what it has seen. One
that chooses by nothing is a list of calls.
-/

set_option autoImplicit false

namespace Lexing

/-- What a call shows of a buffer: its outcome and the position afterwards, but not the capacity. -/
structure Observation where
  outcome : Except LexError Value
  pending : Array UInt8
  available : Nat
  start : UInt64

/-- A choice of the next call by everything seen so far, the latest observation first. -/
abbrev Client := List Observation → Call

namespace Buffer

variable {σ : Type} [ByteSource σ]

def observe (call : Call) (buffer : Buffer σ) : Observation × Buffer σ :=
  match call.perform buffer with
  | ⟨outcome, ⟨window, source⟩, _⟩ =>
    (⟨outcome, window.pending, window.available, window.start⟩, ⟨window, source⟩)

/-- What a client has seen after so many calls, the latest observation first, and the buffer that
it leaves. -/
def serve (client : Client) (buffer : Buffer σ) : Nat → List Observation × Buffer σ
  | 0 => ([], buffer)
  | count + 1 =>
    let (seen, buffer) := serve client buffer count
    let (observation, buffer) := buffer.observe (client seen)
    (observation :: seen, buffer)

/-- Performs calls in order and yields their outcomes, failures included. -/
def performAll (calls : List Call) : BufferM σ (List (Except LexError Value)) :=
  calls.mapM fun call => call.perform.attempt

end Buffer

end Lexing
