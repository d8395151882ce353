import Lexing.Machine.Basic

/-!
# Counting down

A machine that reads nothing: it counts its state down to zero and then gives a byte back, which
fails unless one is pending.

Models `Underflow` from the tests of the module `executor` of `lexkit`.
-/

set_option autoImplicit false

namespace Lexing.Countdown

variable {σ C : Type}

/-- One step for each number, and the last for giving a byte back. -/
def machine : Machine σ Nat C LexError
  | 0 => do
    Session.onBuffer Buffer.back
    return .halt
  | n + 1 => return .proceed n

end Lexing.Countdown
