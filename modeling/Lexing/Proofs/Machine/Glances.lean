import Lexing.Proofs.Buffer.InStep
import Lexing.Proofs.Machine.Ends

/-!
# Looking ahead does not show

A client may look ahead at any time besides what it does (`Move`). As long as every such glance sees
a byte, or is refused one, nothing that the client sees of its calls is changed by it: no outcome,
and neither the token nor its start afterwards (`glances_hidden`). The buffer with the glances stays
in step with the one without. At the end of a source that keeps its end a glance may see the end as
well.
-/

set_option autoImplicit false

namespace Lexing

/-- What a client does that looks ahead besides the calls that it is about to make. -/
inductive Move where
  | call (call : Call)
  | glance

def Move.isCall : Move → Bool
  | .call _ => true
  | .glance => false

structure Sight where
  outcome : Except LexError Value
  consumed : Nat
  pending : Array UInt8
  start : UInt64

namespace Buffer

open ByteSource (KeepsEnd)

variable {σ : Type} [ByteSource σ]

def sight (call : Call) (buffer : Buffer σ) : Sight :=
  let ⟨outcome, ⟨window, _⟩, _⟩ := call.perform buffer
  ⟨outcome, window.consumed, window.pending, window.start⟩

def moved : List Move → Buffer σ → Buffer σ
  | [], buffer => buffer
  | .call call :: moves, buffer => moved moves (call.perform buffer).state
  | .glance :: moves, buffer => moved moves (peek buffer).state

/-- What is seen of the calls among the moves. -/
def sights : List Move → Buffer σ → List Sight
  | [], _ => []
  | .call call :: moves, buffer => sight call buffer :: sights moves (call.perform buffer).state
  | .glance :: moves, buffer => sights moves (peek buffer).state

def Glances (keeps : Prop) : List Move → Buffer σ → Prop
  | [], _ => True
  | .call call :: moves, buffer => Glances keeps moves (call.perform buffer).state
  | .glance :: moves, buffer =>
    Passes keeps (peek buffer).outcome ∧ Glances keeps moves (peek buffer).state

variable {left right buffer : Buffer σ} {keeps : Prop}

/-- Calls on buffers in step look the same. -/
theorem InStep.sight_eq (inStep : InStep left right) (call : Call) :
    sight call left = sight call right := by
  obtain ⟨outcome, states, -⟩ := perform_inStep call inStep
  have seen (buffer : Buffer σ) : sight call buffer =
      ⟨(call.perform buffer).outcome, (call.perform buffer).state.window.consumed,
        (call.perform buffer).state.window.pending,
        (call.perform buffer).state.window.start⟩ := rfl
  rw [seen, seen, outcome, states.consumed, states.pending, states.start]

/-- Glances in one of two buffers in step do not show, and leave them in step. -/
theorem InStep.glances {moves : List Move} (inStep : InStep left right)
    (ends : keeps → KeepsEnd right.source) (glances : Glances keeps moves right) :
    sights (moves.filter Move.isCall) left = sights moves right ∧
      InStep (moved (moves.filter Move.isCall) left) (moved moves right) := by
  induction moves generalizing left right with
  | nil => exact ⟨rfl, inStep⟩
  | cons move moves ih =>
    cases move with
    | call call =>
      have after := (perform_inStep call inStep).state
      have still (held : keeps) : KeepsEnd (call.perform right).state.source :=
        (perform_keeps_source (fun _ => KeepsEnd.poll) call right
          ⟨inStep.rightFormed, ends held⟩).2
      obtain ⟨seen, further⟩ := ih after still glances
      refine ⟨?_, further⟩
      simp only [List.filter_cons, Move.isCall, if_true, sights, seen, inStep.sight_eq call]
    | glance =>
      obtain ⟨passes, others⟩ := glances
      have still (held : keeps) : KeepsEnd (peek right).state.source :=
        (peek_keeps (next_keeps_source fun _ => KeepsEnd.poll) (back_keeps_source KeepsEnd) right
          ⟨inStep.rightFormed, ends held⟩).2
      exact ih (inStep.peek_right ends passes) still others

/-- A read after a glance at a byte reads that byte again, and leaves what a read without the glance
leaves. -/
theorem next_of_peek {byte : UInt8} (formed : buffer.window.WellFormed)
    (saw : (peek buffer).outcome = .ok (.byte byte)) :
    (next buffer).outcome = .ok (.byte byte) ∧
      next (peek buffer).state = ⟨.ok (.byte byte), (next buffer).state, #[]⟩ ∧
      (next buffer).state.source = (peek buffer).state.source := by
  have kept := next_keeps_wellFormed buffer formed
  have given := peek_keeps next_keeps_wellFormed back_keeps_wellFormed buffer formed
  rw [peek_eq formed] at saw given ⊢
  rcases result : next buffer with ⟨error | found | _, after, events⟩
  · rw [result] at saw
    cases saw
  · rw [result] at saw kept given
    cases saw
    have token := (next_extends_token formed result).1
    obtain ⟨ahead, again⟩ := Window.advance_of_retreat kept.consumed_le token
    have replayed : ReadsTo ⟨after.window.retreat, after.source⟩ _ := .replayed ahead
    refine ⟨rfl, ?_, rfl⟩
    rw [replayed.next_eq given, again]
  · rw [result] at saw
    cases saw

/-- Glances are hidden from the client that makes them.

However a buffer over any source has been used, glances among further calls that each see a byte or
are refused one change nothing that is seen of these calls; for a source that keeps its end they may
see the end too. The buffer that they leave is in step with the one that the calls alone leave. A
read that follows a glance at a byte does not poll, and is a read of that byte as it were without
the glance. -/
theorem glances_hidden {source : σ} {config : Config} {memory : Nat} {first : Buffer σ}
    (opened : openWith config memory source = .ok first) (used : Used first buffer) :
    (∀ moves, Glances (KeepsEnd source) moves buffer →
      sights (moves.filter Move.isCall) buffer = sights moves buffer ∧
        InStep (moved (moves.filter Move.isCall) buffer) (moved moves buffer)) ∧
    ∀ byte, (peek buffer).outcome = .ok (.byte byte) →
      (next buffer).outcome = .ok (.byte byte) ∧
        next (peek buffer).state = ⟨.ok (.byte byte), (next buffer).state, #[]⟩ ∧
        (next buffer).state.source = (peek buffer).state.source := by
  have formed := (used.bounded opened).formed
  constructor
  · intro moves glances
    exact (InStep.refl formed).glances (used.keepsEnd opened) glances
  · intro byte saw
    exact next_of_peek formed saw

/-- Three glances around two reads: the second makes room, and the last is refused a byte, which is
held from then on. The reads do not show it. -/
theorem glances_hidden_refusal :
    let script : Script := ⟨[.ok (.byte 97), .ok (.byte 98), .ok (.byte 99)]⟩
    let first : Buffer Script := ⟨Window.empty 1 (some 2) (1 <<< 48), script⟩
    let moves : List Move := [.glance, .call .next, .glance, .call .next, .glance]
    openWith ⟨1, some 2⟩ (1 <<< 48) script = .ok first ∧ Glances (KeepsEnd script) moves first ∧
      (moved moves first).window.held = some 99 ∧
      (moved [.call .next, .call .next] first).window.held = none ∧
      sights [.call .next, .call .next] first = sights moves first ∧
      InStep (moved [.call .next, .call .next] first) (moved moves first) ∧
      (peek first).outcome = .ok (.byte 97) ∧
      next (peek first).state = ⟨.ok (.byte 97), (next first).state, #[]⟩ := by
  intro script first moves
  have opened : openWith ⟨1, some 2⟩ (1 <<< 48) script = .ok first := rfl
  have glances : Glances (KeepsEnd script) moves first := ⟨trivial, trivial, trivial, trivial⟩
  have saw : (peek first).outcome = .ok (.byte 97) := rfl
  obtain ⟨hidden, replayed⟩ := glances_hidden opened .unused
  obtain ⟨seen, inStep⟩ := hidden moves glances
  exact ⟨opened, glances, by decide, by decide, seen, inStep, saw, (replayed 97 saw).2.1⟩

end Buffer

end Lexing
