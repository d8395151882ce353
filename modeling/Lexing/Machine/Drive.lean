import Lexing.Buffer.Call
import Lexing.Machine.Lexer

/-!
# Driving machines

A machine comes to its end in many ways: it is run in one go, or a lexer takes single steps and runs
on from there, or lexers take turns, each handing its buffer on to the next. `Way` lists the ways,
`drive` goes them and `Ending` is what is seen in the end.

`Use` is what may be done with a lexer at any time, halted or not.
-/

set_option autoImplicit false

namespace Lexing

/-- The offsets at which steps were announced. -/
def stepOffsets (log : Array Event) : List UInt64 :=
  log.toList.filterMap fun
    | .step _ offset => some offset
    | _ => none

structure Ending (ε σ C : Type) where
  /-- The number of steps that was returned, added up over all that drove the machine. -/
  outcome : Except ε Nat
  session : Session σ C
  /-- The offsets at which steps were announced. -/
  offsets : List UInt64
  /-- How many steps were taken, also where the last one failed. -/
  steps : Nat

/-- The same end after so many steps at these offsets. -/
def Ending.behind {ε σ C : Type} (steps : Nat) (offsets : List UInt64) :
    Ending ε σ C → Ending ε σ C
  | ⟨outcome, session, later, more⟩ =>
    ⟨outcome.map (steps + ·), session, offsets ++ later, steps + more⟩

inductive Way where
  /-- It is run without a lexer. -/
  | run
  /-- A new lexer takes so many single steps and then runs. -/
  | lexer (steps : Nat)
  /-- A new lexer takes so many single steps and gives up its buffer, from which the machine is
  driven on. -/
  | relay (steps : Nat) (rest : Way)
  deriving DecidableEq, Repr

namespace Lexer

variable {σ S C ε : Type}

/-- Takes so many single steps, unless one fails. -/
def stepTimes (machine : Machine σ S C ε) : Nat → Operation ε (Lexer σ S C) Unit
  | 0 => pure ()
  | count + 1 => do
    let _ ← step machine
    stepTimes machine count

/-- Takes so many single steps and then, unless one has failed, runs for at most `fuel` more. -/
def stepThenRun (machine : Machine σ S C ε) (count fuel : Nat) (lexer : Lexer σ S C) :
    Option (Result ε (Lexer σ S C) Nat) :=
  match stepTimes machine count lexer with
  | ⟨.ok _, lexer, events⟩ => (runFor machine fuel lexer).map (·.after events)
  | ⟨.error error, lexer, events⟩ => some ⟨.error error, lexer, events⟩

end Lexer

namespace Machine

variable {σ S C ε : Type}

/-- How many steps a run takes, if `fuel` suffices. -/
def stepsFor (machine : Machine σ S C ε) : (fuel : Nat) → S → Session σ C → Nat
  | 0, _, _ => 0
  | fuel + 1, state, session =>
    match machine state session with
    | ⟨.ok (.proceed next), session, _⟩ => machine.stepsFor fuel next session + 1
    | _ => 1

/-- Drives a machine to its end. A run may take at most `fuel` steps; if it has not come to its end
by then, nothing is seen. A lexer whose machine is at its end hands nothing on. -/
def drive (machine : Machine σ S C ε) (fuel : Nat) :
    Way → S → Session σ C → Option (Ending ε σ C)
  | .run, initial, session =>
    (machine.runFor fuel initial session).map fun ⟨outcome, after, log⟩ =>
      ⟨outcome, after, stepOffsets log, machine.stepsFor fuel initial session⟩
  | .lexer count, initial, session =>
    (Lexer.stepThenRun machine count fuel (.ofSession session initial)).map
      fun ⟨outcome, lexer, log⟩ => ⟨outcome, lexer.session, stepOffsets log, lexer.steps⟩
  | .relay count rest, initial, session =>
    match Lexer.stepTimes machine count (.ofSession session initial) with
    | ⟨.ok _, ⟨session, some state, steps⟩, log⟩ =>
      (machine.drive fuel rest state session).map (·.behind steps (stepOffsets log))
    | ⟨.ok _, ⟨session, none, steps⟩, log⟩ => some ⟨.ok steps, session, stepOffsets log, steps⟩
    | ⟨.error error, ⟨session, _, steps⟩, log⟩ =>
      some ⟨.error error, session, stepOffsets log, steps⟩

/-- Driven this way, the machine comes to this end. -/
def EndsBy (machine : Machine σ S C ε) (way : Way) (initial : S) (session : Session σ C)
    (ending : Ending ε σ C) : Prop :=
  ∃ fuel, machine.drive fuel way initial session = some ending

end Machine

namespace Lexer

inductive Use where
  | step
  | run
  /-- A call on its buffer, outside any state. -/
  | call (call : Call)

inductive Reply (ε : Type) where
  | stepped (outcome : Except ε Bool)
  | ran (outcome : Except ε Nat)
  | called (outcome : Except LexError Value)

variable {σ S C ε : Type} [ByteSource σ]

/-- Does something with a lexer. A run may take at most `fuel` steps. -/
def use (machine : Machine σ S C ε) (fuel : Nat) (lexer : Lexer σ S C) :
    Use → Option (Reply ε × Lexer σ S C × Array Event)
  | .step =>
    match step machine lexer with
    | ⟨outcome, lexer, events⟩ => some (.stepped outcome, lexer, events)
  | .run => (runFor machine fuel lexer).map fun ⟨outcome, lexer, events⟩ =>
      (.ran outcome, lexer, events)
  | .call call =>
    match onBuffer call.perform lexer with
    | ⟨outcome, lexer, events⟩ => some (.called outcome, lexer, events)

/-- Does one thing after another with a lexer. Nothing comes of it when a run takes too long. -/
def useAll (machine : Machine σ S C ε) (fuel : Nat) :
    List Use → Lexer σ S C → Option (List (Reply ε) × Lexer σ S C × Array Event)
  | [], lexer => some ([], lexer, #[])
  | use :: uses, lexer => do
    let (reply, lexer, events) ← lexer.use machine fuel use
    let (replies, lexer, more) ← useAll machine fuel uses lexer
    return (reply :: replies, lexer, events ++ more)

end Lexer

end Lexing
