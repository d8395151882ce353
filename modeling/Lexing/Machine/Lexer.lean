import Lexing.Machine.Basic

/-!
# Lexers

A lexer is a session together with the state that comes next, so that a machine can be driven one
step at a time and the buffer be used in between. A step that halts or fails leaves no state: the
lexer is halted for good.

Models `Lexer` from the module `executor` of `lexkit`: `with_config`, `from_buffer`, `step`, `run`,
`is_halted` and `buffer_mut`, the last by the operation that is performed through it.
-/

set_option autoImplicit false

namespace Lexing

/-- A session under way. -/
structure Lexer (σ S C : Type) where
  session : Session σ C
  /-- The state that comes next, unless the lexer is halted. -/
  state : Option S
  /-- How many steps were taken. -/
  steps : Nat

namespace Lexer

variable {σ S C ε : Type}

/-- A lexer in a session that may have stored bytes already. -/
def ofSession (session : Session σ C) (initial : S) : Lexer σ S C := ⟨session, some initial, 0⟩

def openWith (config : Config) (memory : Nat) (source : σ) (context : C) (initial : S) :
    Except LexError (Lexer σ S C) :=
  (Buffer.openWith config memory source).map fun buffer => ofSession ⟨buffer, context⟩ initial

def isHalted (lexer : Lexer σ S C) : Bool := lexer.state.isNone

/-- Takes one step and says whether the machine can go on. A halted lexer takes none. -/
def step (machine : Machine σ S C ε) : Operation ε (Lexer σ S C) Bool
  | ⟨session, none, steps⟩ => ⟨.ok false, ⟨session, none, steps⟩, #[]⟩
  | ⟨session, some state, steps⟩ =>
    let log := #[.step (steps + 1) session.offset]
    match machine state session with
    | ⟨.ok (.proceed next), session, events⟩ =>
      ⟨.ok true, ⟨session, some next, steps + 1⟩, log ++ events⟩
    | ⟨.ok .halt, session, events⟩ =>
      ⟨.ok false, ⟨session, none, steps + 1⟩, (log ++ events).push (.halted (steps + 1) none)⟩
    | ⟨.error error, session, events⟩ => ⟨.error error, ⟨session, none, steps + 1⟩, log ++ events⟩

/-- Takes at most `fuel` steps, having reported some events already. -/
def runFrom (machine : Machine σ S C ε) : (fuel : Nat) → (log : Array Event) → Lexer σ S C →
    Option (Result ε (Lexer σ S C) Nat)
  | 0, _, _ => none
  | fuel + 1, log, lexer =>
    match lexer.step machine with
    | ⟨.ok true, lexer, events⟩ => runFrom machine fuel (log ++ events) lexer
    | ⟨.ok false, lexer, events⟩ => some ⟨.ok lexer.steps, lexer, log ++ events⟩
    | ⟨.error error, lexer, events⟩ => some ⟨.error error, lexer, log ++ events⟩

/-- Takes at most `fuel` steps, until one halts or fails. Yields the number of steps taken since
the lexer was made, and nothing when the fuel does not suffice. -/
def runFor (machine : Machine σ S C ε) (fuel : Nat) (lexer : Lexer σ S C) :
    Option (Result ε (Lexer σ S C) Nat) :=
  runFrom machine fuel #[] lexer

/-- Takes steps until one halts or fails. Steps are counted by a size, so a machine that does
neither before sizes run out yields nothing. -/
def run (machine : Machine σ S C ε) (lexer : Lexer σ S C) :
    Option (Result ε (Lexer σ S C) Nat) :=
  runFor machine Size.max lexer

/-- Performs a buffer operation outside any state. -/
def onBuffer {α : Type} (operation : BufferM σ α) : Operation LexError (Lexer σ S C) α :=
  fun ⟨⟨buffer, context⟩, state, steps⟩ =>
    match operation buffer with
    | ⟨outcome, buffer, events⟩ => ⟨outcome, ⟨⟨buffer, context⟩, state, steps⟩, events⟩

end Lexer

end Lexing
