import Lexing.Buffer.Call
import Lexing.Machine.Routine

/-!
# Machines given by tables

A table has a row for each state: calls to perform on the buffer, and a rule for the row that
comes next. Tables may run for ever, so a session has a budget of steps.
-/

set_option autoImplicit false

namespace Lexing.Table

open Session (onBuffer modifyContext)

inductive Successor where
  /-- The same row in any case. -/
  | always (row : Option Nat)
  /-- The row of the first class that accepts the byte to be read next; other rows at the end of
  the stream and for bytes that no class accepts. -/
  | choose (classes : List ((UInt8 → Bool) × Option Nat)) (eos otherwise : Option Nat)

structure Row where
  calls : List Call
  successor : Successor

structure Context where
  /-- How many steps may still be taken. -/
  fuel : Nat
  /-- The row that comes next, where the machine does not keep it in its state. -/
  row : Nat
  /-- What the calls have yielded. -/
  out : Array Value

inductive Error where
  | lex (error : LexError)
  | outOfFuel
  | noState (row : Nat)
  deriving DecidableEq, Repr

instance : FromLexError Error := ⟨.lex⟩

def Error.message : Error → String
  | lex error => error.message
  | outOfFuel => "out of fuel"
  | noState row => s!"no state {row}"

variable {σ : Type}

/-- Uses up a step of the budget. -/
def burn : SessionM σ Context Error Unit := fun ⟨buffer, context⟩ =>
  match context.fuel with
  | 0 => ⟨.error .outOfFuel, ⟨buffer, context⟩, #[]⟩
  | fuel + 1 => ⟨.ok (), ⟨buffer, { context with fuel }⟩, #[]⟩

variable [ByteSource σ]

def Successor.resolve : Successor → BufferM σ (Option Nat)
  | always row => return row
  | choose classes eos otherwise => do
    match ← Buffer.peek with
    | .eos => return eos
    | .byte byte =>
      match classes.find? fun ⟨accepts, _⟩ => accepts byte with
      | some (_, row) => return row
      | none => return otherwise

/-- Performs the calls of a row, keeping what they yield, and finds the row that comes next. -/
def Row.perform (row : Row) : SessionM σ Context Error (Option Nat) := do
  row.calls.forM fun call => do
    let value ← onBuffer call.perform
    modifyContext fun context => { context with out := context.out.push value }
  onBuffer row.successor.resolve

/-- The step of the state with a number. The budget is checked before the number. -/
def step (table : Array Row) (number : Nat) : SessionM σ Context Error (Option Nat) := do
  burn
  match table[number]? with
  | some row => row.perform
  | none => throw (.noState number)

/-- The machine of a table, with the number of a row as its state. -/
def machine (table : Array Row) : Machine σ Nat Context Error := fun number =>
  Transition.ofOption <$> step table number

/-- The one routine of a table, which keeps the number of the row in the context. -/
def routine (table : Array Row) : Unit → SessionM σ Context Error (Option Unit) := fun _ => do
  match ← step table (← get).context.row with
  | some row =>
    modifyContext fun context => { context with row }
    return some ()
  | none => return none

def routineMachine (table : Array Row) : Machine σ Unit Context Error :=
  .ofRoutines (routine table)

end Lexing.Table
