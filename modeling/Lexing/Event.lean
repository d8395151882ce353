/-!
# Events

Buffers and machines report what they do as a sequence of events. Each has a level and a wording
besides its own fields.

Models the trace of `LexBuffer`, from the module `buffer` of `lexkit_core`, and that of `run` and
`Lexer`, from the module `executor` of `lexkit`.
-/

set_option autoImplicit false

namespace Lexing

/-- Something that a buffer or a machine did. Offsets count bytes from where the buffer began. -/
inductive Event where
  /-- A byte was refused by a buffer that is full at its ceiling. -/
  | refused (capacity : Nat) (offset : UInt64)
  /-- A full buffer had no larger capacity to grow to. -/
  | cannotGrow (capacity : Nat) (limit : Option Nat)
  /-- The capacity changed. -/
  | grew (before after : Nat)
  /-- A byte was to be given back and none was pending. -/
  | backupUnderflow (offset : UInt64)
  /-- Pending bytes were discarded. The offset is where the next token starts. -/
  | dumped (discarded lookahead : Nat) (offset : UInt64)
  /-- A token was handed out. -/
  | emitted (length : Nat) (start : UInt64)
  /-- A machine was started. -/
  | started (offset : UInt64)
  /-- A step is about to be taken; the first step has number 1. -/
  | step (number : Nat) (offset : UInt64)
  /-- A machine halted after so many steps. -/
  | halted (steps : Nat) (offset : Option UInt64)
  deriving DecidableEq, Repr

inductive Level where
  | trace
  | debug
  | warn
  deriving DecidableEq, Repr

namespace Event

/-- The level of an event: what limits the caller is a warning, the life of a machine is for
debugging, and the rest is trace. -/
def level : Event → Level
  | refused .. | cannotGrow .. => .warn
  | started .. | halted .. => .debug
  | grew .. | backupUnderflow .. | dumped .. | emitted .. | step .. => .trace

def message : Event → String
  | refused .. | cannotGrow .. => "lex buffer at maximum capacity"
  | grew .. => "grow"
  | backupUnderflow .. => "backup underflow"
  | dumped .. => "dump"
  | emitted .. => "emit"
  | started .. => "state machine started"
  | step .. => "step"
  | halted .. => "state machine halted"

end Event

end Lexing
