import Lexing.Proofs.Buffer.History

/-!
# Agreement of the operations that look at what they read

Two buffers on which a read agrees, and on which bytes can be given back with agreement, agree on
all operations that read a byte and then decide what becomes of it. The sources may be of different
kinds; how the buffers are related is left open. With agreement on the operations that take tokens
this makes up agreement on every call (`perform_agree`).
-/

set_option autoImplicit false

namespace Lexing.Buffer

open Result (Agree)

variable {σ τ : Type} [ByteSource σ] [ByteSource τ] {related : Buffer σ → Buffer τ → Prop}
  {shown : Event → Bool} {left : Buffer σ} {right : Buffer τ}

theorem peek_agree (read : Agree related shown (next left) (next right))
    (giving : ∀ left right, related left right → Agree related shown (back left) (back right)) :
    Agree related shown (peek left) (peek right) := by
  refine read.bind fun next left right states => ?_
  cases next with
  | eos => exact .pure states
  | byte byte =>
    exact (giving left right states).orThrow.bind fun _ left right states => .pure states

theorem nextIf_agree (accepts : UInt8 → Bool) (read : Agree related shown (next left) (next right))
    (giving : ∀ left right, related left right → Agree related shown (back left) (back right)) :
    Agree related shown (nextIf accepts left) (nextIf accepts right) := by
  refine read.bind fun next left right states => ?_
  cases next with
  | eos => exact .pure states
  | byte byte =>
    by_cases accepted : accepts byte = true
    · simp only [if_pos accepted]
      exact .pure states
    · simp only [if_neg accepted]
      exact (giving left right states).bind fun _ left right states => .pure states

/-- Reading on agrees as far as each of its reads does. What each read needs is an invariant, which
a byte that was accepted must keep. -/
theorem eatFrom_agree (accepts : UInt8 → Bool) {invariant : Buffer σ → Buffer τ → Prop}
    (taking : ∀ left right, invariant left right →
      Agree related shown (nextIf accepts left) (nextIf accepts right))
    (keeping : ∀ left right byte after events, invariant left right →
      nextIf accepts left = ⟨.ok (some byte), after, events⟩ →
        invariant after (nextIf accepts right).state)
    (count : Nat) {log other : Array Event}
    (logs : log.toList.filter shown = other.toList.filter shown) (holds : invariant left right) :
    Agree related shown (eatFrom accepts count log left) (eatFrom accepts count other right) := by
  fun_induction eatFrom accepts count log left generalizing other right with
  | case1 count log left byte after events result ih =>
    have kept := keeping left right byte after events holds result
    have taken := taking left right holds
    rw [result] at taken
    obtain ⟨state, more, same, -, reported⟩ := taken.right_eq
    rw [eatFrom_step accepts count other right, same]
    rw [same] at kept
    exact ih (Agree.append_events logs reported) kept
  | case2 count log left after events result =>
    have taken := taking left right holds
    rw [result] at taken
    obtain ⟨state, more, same, states, reported⟩ := taken.right_eq
    rw [eatFrom_step accepts count other right, same]
    exact ⟨rfl, states, Agree.append_events logs reported⟩
  | case3 count log left error after events result =>
    have taken := taking left right holds
    rw [result] at taken
    obtain ⟨state, more, same, states, reported⟩ := taken.right_eq
    rw [eatFrom_step accepts count other right, same]
    exact ⟨rfl, states, Agree.append_events logs reported⟩

/-- Operations that agree on related buffers make up calls that do. -/
theorem perform_agree
    (reading : ∀ left right, related left right → Agree related shown (next left) (next right))
    (giving : ∀ left right, related left right → Agree related shown (back left) (back right))
    (discarding : ∀ left right, related left right → Agree related shown (dump left) (dump right))
    (skipping : ∀ left right, related left right → Agree related shown (skip left) (skip right))
    (emitting : ∀ left right, related left right → Agree related shown (emit left) (emit right))
    (decoding : ∀ left right, related left right →
      Agree related shown (emitText left) (emitText right))
    (call : Call) (states : related left right) :
    Agree related shown (call.perform left) (call.perform right) := by
  induction call generalizing left right with
  | next => exact (reading left right states).map
  | peek => exact (peek_agree (reading left right states) giving).map
  | back => exact (giving left right states).bind fun _ left right states => .pure states
  | dump => exact (discarding left right states).bind fun _ left right states => .pure states
  | skip => exact (skipping left right states).map
  | emit => exact (emitting left right states).map
  | emitText => exact (decoding left right states).map
  | nextIf accepts => exact (nextIf_agree accepts (reading left right states) giving).map
  | eatWhile accepts =>
    have taking (left : Buffer σ) (right : Buffer τ) (states : related left right) :=
      nextIf_agree accepts (reading left right states) giving
    refine Agree.map (eatFrom_agree accepts taking ?_ 0 rfl states)
    intro left right byte after events states result
    have taken := taking left right states
    rw [result] at taken
    exact taken.state
  | times count call ih => exact (Agree.times (fun _ _ => ih) count states).map

end Lexing.Buffer
