import Lexing.Machine.Drive
import Lexing.Machine.Program

/-!
# Buffers in use

A buffer is used by calls: by a client that performs them, by the programs of a grammar while it is
run or driven by a lexer, and through a lexer between its steps. What comes about from a buffer in
any of these ways is still the buffer in use.
-/

set_option autoImplicit false

namespace Lexing.Buffer

variable {σ : Type} [ByteSource σ]

/-- The buffers that come about from one in use, the one itself included. -/
inductive Used (first : Buffer σ) : Buffer σ → Prop
  | unused : Used first first
  | called {buffer : Buffer σ} (call : Call) :
    Used first buffer → Used first (call.perform buffer).state
  /-- A program is part of a step, or one. -/
  | performed {C ε α : Type} (program : Program C ε α) {session : Session σ C} :
    Used first session.buffer → Used first (program.perform session).state.buffer
  | ran {S C ε : Type} (grammar : Grammar S C ε) {fuel : Nat} {initial : S}
    {session : Session σ C} {result : Result ε (Session σ C) Nat} :
    grammar.machine.runFor fuel initial session = some result → Used first session.buffer →
      Used first result.state.buffer
  | lexed {S C ε : Type} (grammar : Grammar S C ε) {fuel : Nat} {uses : List Lexer.Use}
    {lexer after : Lexer σ S C} {replies : List (Lexer.Reply ε)} {events : Array Event} :
    Lexer.useAll grammar.machine fuel uses lexer = some (replies, after, events) →
      Used first lexer.session.buffer → Used first after.session.buffer

end Lexing.Buffer
