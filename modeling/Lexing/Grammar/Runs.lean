import Lexing.Machine.Program

/-!
# Runs of equal bytes

A machine that cuts its input into runs of equal bytes, as long as they can be. It is also written
as a grammar, which is one machine for every source.

Models `Runs` from the tests of the module `executor` of `lexkit`.
-/

set_option autoImplicit false

namespace Lexing.Runs

open Session (onBuffer modifyContext)

/-- Between runs, or in a run of this byte. -/
inductive State where
  | start
  | inRun (byte : UInt8)
  deriving DecidableEq, Repr

variable {σ : Type} [ByteSource σ]

/-- The first byte of a run is read between runs; the run ends before a different byte. -/
def machine : Machine σ State (Array (Array UInt8)) LexError
  | .start => do
    match ← onBuffer Buffer.next with
    | .eos => return .halt
    | .byte byte => return .proceed (.inRun byte)
  | .inRun byte => do
    let _ ← onBuffer (Buffer.eatWhile (· == byte))
    let run ← onBuffer Buffer.emit
    modifyContext (·.push run)
    return .proceed .start

/-- The same, with the calls on the buffer as data. -/
def grammar : Grammar State (Array (Array UInt8)) LexError
  | .start => .call .next fun
    | .ok (.next (.byte byte)) => .done (.ok (.proceed (.inRun byte)))
    | .ok _ => .done (.ok .halt)
    | .error error => .done (.error error)
  | .inRun byte => .call (.eatWhile (· == byte)) fun
    | .error error => .done (.error error)
    | .ok _ => .call .emit fun
      | .ok (.token run) => .look fun _ runs =>
        .store (runs.push run) (.done (.ok (.proceed .start)))
      | .ok _ => .done (.ok .halt)
      | .error error => .done (.error error)

/-- The machine is the one that the grammar is over its source. -/
theorem machine_eq_grammar : (machine : Machine σ State _ _) = grammar.machine := by
  funext state session
  obtain ⟨buffer, runs⟩ := session
  cases state with
  | start =>
    simp only [machine, Grammar.machine, grammar, Program.perform, Call.perform,
      Operation.bind_apply, Operation.map_apply, onBuffer]
    rcases Buffer.next buffer with ⟨error | byte | _, after, events⟩
    · rfl
    · rfl
    · rfl
  | inRun byte =>
    simp only [machine, Grammar.machine, grammar, Program.perform, Call.perform,
      Operation.bind_apply, Operation.map_apply, onBuffer, modifyContext]
    rcases Buffer.eatWhile (· == byte) buffer with ⟨error | count, eaten, events⟩
    · rfl
    · simp only [Result.map, Except.map, Program.perform, Call.perform, Operation.map_apply]
      rcases Buffer.emit eaten with ⟨error | run, after, more⟩
      · rfl
      · rfl

end Lexing.Runs
