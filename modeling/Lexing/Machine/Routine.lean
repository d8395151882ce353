import Lexing.Machine.Basic

/-!
# Machines made of routines

A machine may be written as routines that name each other: each does its work and says which
routine comes next, or none. The states of such a machine are the names.

Models `StateFn` from the module `state` of `lexkit`.
-/

set_option autoImplicit false

namespace Lexing.Machine

variable {σ φ C ε : Type}

/-- The machine whose states are the names of routines. It halts after a routine that names no
other. -/
def ofRoutines (routine : φ → SessionM σ C ε (Option φ)) : Machine σ φ C ε := fun name =>
  Transition.ofOption <$> routine name

end Lexing.Machine
