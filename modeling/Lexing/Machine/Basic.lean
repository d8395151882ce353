import Lexing.Buffer.Eat
import Lexing.Buffer.Token

/-!
# State machines over a buffer

A machine gives each state a step. A step reads and emits through the buffer, delivers what it
makes into a context of its own, and names the state that comes next, or halts, or fails. Nothing
else moves a machine from state to state.

Models `Transition` and `State` from the module `state` of `lexkit`, and `run` from its module
`executor`. The steps of a run are bounded, as a machine may go on for ever.
-/

set_option autoImplicit false

namespace Lexing

inductive Transition (S : Type) where
  /-- This state comes next. -/
  | proceed (next : S)
  /-- The machine stops. -/
  | halt
  deriving DecidableEq, Repr

namespace Transition

variable {S : Type}

/-- Proceeds to a state that is there, and halts where there is none. -/
def ofOption : Option S → Transition S
  | some next => .proceed next
  | none => .halt

def isHalt : Transition S → Bool
  | .proceed _ => false
  | .halt => true

end Transition

/-- What a machine works on: a buffer, and a context for what it makes. -/
structure Session (σ C : Type) where
  buffer : Buffer σ
  context : C

abbrev SessionM (σ C ε : Type) : Type → Type := Operation ε (Session σ C)

/-- Failures that include those of buffer operations. -/
class FromLexError (ε : Type) where
  ofLexError : LexError → ε

instance : FromLexError LexError := ⟨id⟩

namespace Session

variable {σ C ε : Type}

def offset (session : Session σ C) : UInt64 := session.buffer.window.offset

/-- Performs a buffer operation and leaves the context alone. -/
def onBuffer [FromLexError ε] {α : Type} (operation : BufferM σ α) : SessionM σ C ε α :=
  fun ⟨buffer, context⟩ =>
    match operation buffer with
    | ⟨.ok value, buffer, events⟩ => ⟨.ok value, ⟨buffer, context⟩, events⟩
    | ⟨.error error, buffer, events⟩ =>
      ⟨.error (FromLexError.ofLexError error), ⟨buffer, context⟩, events⟩

def modifyContext (change : C → C) : SessionM σ C ε Unit := fun ⟨buffer, context⟩ =>
  ⟨.ok (), ⟨buffer, change context⟩, #[]⟩

end Session

/-- The step of each state. -/
abbrev Machine (σ S C ε : Type) := S → SessionM σ C ε (Transition S)

namespace Machine

variable {σ S C ε : Type}

/-- Takes at most `fuel` steps from a state, having taken and reported some already. Yields the
number of steps in all when the machine halts, and nothing when the fuel does not suffice. -/
def runFrom (machine : Machine σ S C ε) :
    (fuel steps : Nat) → (log : Array Event) → S → Session σ C →
      Option (Result ε (Session σ C) Nat)
  | 0, _, _, _, _ => none
  | fuel + 1, steps, log, state, session =>
    let log := log.push (.step (steps + 1) session.offset)
    match machine state session with
    | ⟨.ok (.proceed next), session, events⟩ =>
      machine.runFrom fuel (steps + 1) (log ++ events) next session
    | ⟨.ok .halt, session, events⟩ =>
      some ⟨.ok (steps + 1), session,
        (log ++ events).push (.halted (steps + 1) (some session.offset))⟩
    | ⟨.error error, session, events⟩ => some ⟨.error error, session, log ++ events⟩

/-- Runs a machine from a state until it halts or fails, for at most `fuel` steps. Yields the
number of steps taken, the halting one included. -/
def runFor (machine : Machine σ S C ε) (fuel : Nat) (initial : S) (session : Session σ C) :
    Option (Result ε (Session σ C) Nat) :=
  machine.runFrom fuel 0 #[.started session.offset] initial session

/-- Runs a machine from a state until it halts or fails. Steps are counted by a size, so a machine
that has done neither when sizes run out yields nothing. -/
def run (machine : Machine σ S C ε) (initial : S) (session : Session σ C) :
    Option (Result ε (Session σ C) Nat) :=
  machine.runFor Size.max initial session

end Machine

end Lexing
