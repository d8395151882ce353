import Lexing.Buffer.Client
import Lexing.Source.Script

/-!
# Trying again

A call that failed because its source reported a fault can be performed again, on the buffer that
the failure left. A client that does so until no fault is reported settles the call.
-/

set_option autoImplicit false

namespace Lexing

/-- Whether a call is one operation and not copies of one. -/
def Call.isSingle : Call → Bool
  | .times _ _ => false
  | _ => true

/-- The same value with bytes that were counted before. -/
def Value.plus (before : Nat) : Value → Value
  | .count bytes => .count (before + bytes)
  | value => value

namespace Buffer

/-- The buffer on which a call is performed for the last time when it is performed again while it
fails with a fault of the source, at most so many times again. -/
def lastAttempt {σ : Type} [ByteSource σ] (call : Call) : (tries : Nat) → Buffer σ → Buffer σ
  | 0, buffer => buffer
  | tries + 1, buffer =>
    match call.perform buffer with
    | ⟨.error (.source _), after, _⟩ => lastAttempt call tries after
    | _ => buffer

/-- Performs a call until it does not fail with a fault of the source. Each fault uses up an answer,
so there are no more of them than answers. -/
def settle (call : Call) (buffer : Buffer Script) : Result LexError (Buffer Script) Value :=
  call.perform (lastAttempt call buffer.source.answers.length buffer)

def settleAll : List Call → Buffer Script → Buffer Script
  | [], buffer => buffer
  | call :: calls, buffer => settleAll calls (settle call buffer).state

end Buffer

end Lexing
