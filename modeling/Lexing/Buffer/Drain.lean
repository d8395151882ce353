import Lexing.Buffer.Eat
import Lexing.Buffer.Token

/-!
# Draining a buffer

A client that wants all of a stream but keeps to a ceiling reads as far as there is room, takes what
it has read, and goes on where room was wanting.
-/

set_option autoImplicit false

namespace Lexing.Buffer

variable {σ : Type} [ByteSource σ]

/-- Reads everything there is room for. Whether room was wanting for more is the value. -/
def fill : BufferM σ Bool := do
  match ← (eatWhile fun _ => true).attempt with
  | .ok _ => return false
  | .error (.allocationFailure _) => return true
  | .error error => throw error

/-- Takes all of a stream in chunks, unless there are more of them than the given number. -/
def drain : Nat → BufferM σ (Option (List (Array UInt8)))
  | 0 => return none
  | count + 1 => do
    let more ← fill
    let chunk ← emit
    if more then
      return (← drain count).map (chunk :: ·)
    else
      return some [chunk]

end Lexing.Buffer
