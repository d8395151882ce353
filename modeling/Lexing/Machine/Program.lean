import Lexing.Buffer.Call
import Lexing.Machine.Basic

/-!
# Programs

What a state does to its session, written so that it does not depend on the source: it looks at the
window and the context, stores a context, performs a call on the buffer and goes on by what came of
it. A grammar gives each state a program, and so is a machine over every source.
-/

set_option autoImplicit false

namespace Lexing

/-- What is done to a session. -/
inductive Program (C ε α : Type) where
  | done (outcome : Except ε α)
  | look (rest : Window → C → Program C ε α)
  | store (context : C) (rest : Program C ε α)
  | call (call : Call) (rest : Except LexError Value → Program C ε α)

/-- Does it. A call that fails is no failure of the program, which may go on from there. -/
def Program.perform {σ C ε α : Type} [ByteSource σ] : Program C ε α → SessionM σ C ε α
  | .done outcome, session => ⟨outcome, session, #[]⟩
  | .look rest, session => (rest session.buffer.window session.context).perform session
  | .store context rest, session => rest.perform { session with context }
  | .call made rest, ⟨buffer, context⟩ =>
    match made.perform buffer with
    | ⟨outcome, buffer, events⟩ => ((rest outcome).perform ⟨buffer, context⟩).after events

abbrev Grammar (S C ε : Type) := S → Program C ε (Transition S)

def Grammar.machine {σ S C ε : Type} [ByteSource σ] (grammar : Grammar S C ε) : Machine σ S C ε :=
  fun state => (grammar state).perform

end Lexing
