import Lexing.Proofs.Buffer.Answers
import Lexing.Proofs.Buffer.Tracking

/-!
# Buffers in step

Two buffers are in step when they have the same token at the same place and are to be answered the
same, though one has looked further ahead (`InStep`). It may have polled its source for bytes that
the other has not asked for, have been refused one at the ceiling, and have grown once where the
other is about to grow. None of this shows: all calls agree on buffers in step and leave buffers in
step (`perform_inStep`), and a buffer that looks at one byte more stays in step
(`InStep.peek_right`).
-/

set_option autoImplicit false

namespace Lexing

open ByteSource (KeepsEnd)
open Result (Agree)

namespace Window

/-- Two windows under the same ceiling and memory, the second as large as the first or as the first
is to become by growing once. -/
structure Level (window other : Window) : Prop where
  limit : window.limit = other.limit
  memory : window.memory = other.memory
  capacity : other.capacity = window.capacity ∨
    window.Growable ∧ other.capacity = window.growthTarget

variable {window other : Window}

theorem growthTarget_congr (capacity : window.capacity = other.capacity)
    (limit : window.limit = other.limit) : window.growthTarget = other.growthTarget := by
  rw [growthTarget, growthTarget, capacity, limit]

theorem growable_congr (capacity : window.capacity = other.capacity)
    (limit : window.limit = other.limit) (memory : window.memory = other.memory) :
    window.Growable ↔ other.Growable := by
  rw [Growable, Growable, growthTarget_congr capacity limit, atCeiling, atCeiling, capacity, limit,
    memory]

/-- Capacity, ceiling and memory are all that counts. -/
theorem Level.congr {first second : Window} (level : window.Level other)
    (left : first.capacity = window.capacity ∧ first.limit = window.limit ∧
      first.memory = window.memory)
    (right : second.capacity = other.capacity ∧ second.limit = other.limit ∧
      second.memory = other.memory) : first.Level second := by
  obtain ⟨capacity, limit, memory⟩ := left
  obtain ⟨capacity', limit', memory'⟩ := right
  refine ⟨?_, ?_, ?_⟩
  · rw [limit, limit', level.limit]
  · rw [memory, memory', level.memory]
  · rw [growable_congr capacity limit memory, growthTarget_congr capacity limit, capacity,
      capacity']
    exact level.capacity

theorem Level.capacity_le (level : window.Level other) : window.capacity ≤ other.capacity := by
  rcases level.capacity with same | ⟨growable, grown⟩
  · exact Nat.le_of_eq same.symm
  · have larger := growable.2.1
    omega

section Reading

variable (level : window.Level other) (formed : window.WellFormed) (formed' : other.WellFormed)
  (consumed : window.consumed = other.consumed)

include level formed formed' consumed

theorem Level.full_iff : window.Full ↔ other.Full := by
  rw [Window.full_iff formed, Window.full_iff formed', level.limit, consumed]

/-- Growth is refused to both or to neither. -/
theorem Level.able_iff : window.Able ↔ other.Able := by
  have within : window.consumed ≤ window.capacity :=
    Nat.le_trans formed.consumed_le formed.available_le
  rw [Able, Able, level.full_iff formed formed' consumed]
  rcases level.capacity with same | ⟨growable, grown⟩
  · have both := growable_congr same.symm level.limit level.memory
    rw [Roomy, Roomy, both, consumed, same]
  · have larger := growable.2.1
    have room : other.Roomy := Or.inl (by omega)
    exact iff_of_true (Or.inl (Or.inr growable)) (Or.inl room)

/-- When both make room for a byte they stay level. -/
theorem Level.widened (able : window.Able) : window.widened.Level other.widened := by
  have able' := (level.able_iff formed formed' consumed).1 able
  have larger := level.capacity_le
  by_cases room : window.consumed < window.capacity
  · rwa [widened_of_lt room, widened_of_lt (by omega)]
  · by_cases full : window.Full
    · have full' := (level.full_iff formed formed' consumed).1 full
      rwa [widened_of_full formed full, widened_of_full formed' full']
    · have growable := (able.resolve_right full).resolve_left room
      have within := Nat.le_trans formed.consumed_le formed.available_le
      rw [widened_of_growable room growable]
      rcases level.capacity with same | ⟨-, grown⟩
      · have growable' := (growable_congr same.symm level.limit level.memory).1 growable
        rw [widened_of_growable (by omega) growable']
        exact ⟨level.limit, level.memory, Or.inl (growthTarget_congr same level.limit.symm)⟩
      · have more := growable.2.1
        rw [widened_of_lt (by omega)]
        exact ⟨level.limit, level.memory, Or.inl grown⟩

/-- The second may look ahead. -/
theorem Level.widened_right (able : other.Able) : window.Level other.widened := by
  have larger := level.capacity_le
  have within : window.consumed ≤ window.capacity :=
    Nat.le_trans formed.consumed_le formed.available_le
  by_cases room : other.consumed < other.capacity
  · rwa [widened_of_lt room]
  · by_cases full : other.Full
    · rwa [widened_of_full formed' full]
    · have growable := (able.resolve_right full).resolve_left room
      have same : other.capacity = window.capacity := by omega
      rw [widened_of_growable room growable]
      refine ⟨level.limit, level.memory, Or.inr ⟨?_, ?_⟩⟩
      · exact (growable_congr same level.limit.symm level.memory.symm).1 growable
      · exact growthTarget_congr same level.limit.symm

end Reading

end Window

namespace Buffer

variable {σ : Type} [ByteSource σ]

/-- The same token at the same place, and the same answers to come. The second buffer may have
looked further ahead. -/
structure InStep (left right : Buffer σ) : Prop where
  leftFormed : left.window.WellFormed
  rightFormed : right.window.WellFormed
  pending : left.window.pending = right.window.pending
  start : left.window.start = right.window.start
  level : left.window.Level right.window
  answers : ∀ count, answers left count = answers right count

variable {left right buffer : Buffer σ}

theorem InStep.refl (formed : buffer.window.WellFormed) : InStep buffer buffer :=
  ⟨formed, formed, rfl, rfl, ⟨rfl, rfl, Or.inl rfl⟩, fun _ => rfl⟩

theorem InStep.consumed (inStep : InStep left right) :
    left.window.consumed = right.window.consumed := by
  rw [← Window.length_pending inStep.leftFormed.consumed_le,
    ← Window.length_pending inStep.rightFormed.consumed_le, inStep.pending]

/-- A read that is refused growth does nothing. -/
theorem next_of_unable (formed : buffer.window.WellFormed) (unable : ¬ buffer.window.Able) :
    ∃ requested events,
      grow buffer = ⟨.error (.allocationFailure requested), buffer, events⟩ ∧
        next buffer = ⟨.error (.allocationFailure requested), buffer, events⟩ := by
  have step := next_readsTo formed
  generalize next buffer = result at step ⊢
  cases step with
  | replayed ahead =>
    have below := (Array.getElem?_eq_some_iff.1 ahead).1
    have fits := formed.available_le
    exact absurd (Or.inl (Or.inl (Nat.lt_of_lt_of_le below fits))) unable
  | cramped used tight below refusal => exact ⟨_, _, refusal, rfl⟩
  | released used room held => exact absurd (Or.inl (Or.inl room)) unable
  | refusedAgain used full held => exact absurd (Or.inr full) unable
  | stored used roomy unheld answer => exact absurd (Or.inl roomy) unable
  | refused used full unheld answer => exact absurd (Or.inr full) unable
  | ended used able unheld answer => exact absurd able unable
  | failed used able unheld answer => exact absurd able unable

omit [ByteSource σ] in
/-- Growth is refused by capacity, ceiling and memory alone. -/
theorem grow_outcome_congr (capacity : left.window.capacity = right.window.capacity)
    (limit : left.window.limit = right.window.limit)
    (memory : left.window.memory = right.window.memory) :
    (grow left).outcome = (grow right).outcome := by
  obtain ⟨window, source⟩ := left
  obtain ⟨other, origin⟩ := right
  simp only at capacity limit memory
  simp only [grow, Window.growthTarget_congr capacity limit, Window.grants, capacity, memory]
  by_cases last : other.growthTarget ≤ other.capacity
  · simp only [if_pos last]
  · by_cases granted : other.growthTarget < other.memory
    · simp only [if_neg last, granted, decide_true, if_true]
    · simp only [if_neg last, granted, decide_false, Bool.false_eq_true, if_false]

/-- Buffers in step are given the same answer, and make the same of it. -/
theorem Receives.inStep {answer : Except Fault Next} (inStep : InStep left right)
    (able : left.window.Able) (one : Receives answer left (next left))
    (other : Receives answer right (next right)) : Agree InStep unseen (next left) (next right) := by
  have consumed := inStep.consumed
  have level := inStep.level
  have spent : spends left.window answer = spends right.window answer := by
    simp only [spends, level.limit, consumed]
  have outcome : (next left).outcome = (next right).outcome := by
    rw [one.outcome, other.outcome]
    simp only [received, level.limit, consumed]
  have widened := level.widened inStep.leftFormed inStep.rightFormed consumed able
  refine ⟨outcome, ?_, by rw [filter_unseen, filter_unseen]⟩
  refine ⟨next_keeps_wellFormed left inStep.leftFormed,
    next_keeps_wellFormed right inStep.rightFormed, ?_, ?_, ?_, ?_⟩
  · rw [← Array.toList_inj, one.token, other.token, outcome, inStep.pending]
  · rw [one.widens.start, other.widens.start, inStep.start]
  · exact widened.congr one.widens.room other.widens.room
  · intro count
    have others := one.others count
    rw [inStep.answers, spent, other.others] at others
    exact (List.append_cancel_left others).symm

theorem next_inStep (inStep : InStep left right) :
    Agree InStep unseen (next left) (next right) := by
  have level := inStep.level
  have both := level.able_iff inStep.leftFormed inStep.rightFormed inStep.consumed
  by_cases able : left.window.Able
  · obtain ⟨answer, one⟩ := next_receives inStep.leftFormed able
    obtain ⟨same, other⟩ := next_receives inStep.rightFormed (both.1 able)
    have first := one.first
    rw [inStep.answers, other.first] at first
    cases first
    exact one.inStep inStep able other
  · have unable : ¬ right.window.Able := fun able' => able (both.2 able')
    obtain ⟨requested, events, refusal, failed⟩ := next_of_unable inStep.leftFormed able
    obtain ⟨other, more, refusal', failed'⟩ := next_of_unable inStep.rightFormed unable
    have capacity : left.window.capacity = right.window.capacity := by
      rcases level.capacity with same | ⟨growable, -⟩
      · exact same.symm
      · exact absurd (Or.inl (Or.inr growable)) able
    have outcome := grow_outcome_congr capacity level.limit level.memory
    rw [refusal, refusal'] at outcome
    cases outcome
    rw [failed, failed']
    exact ⟨rfl, inStep, by rw [filter_unseen, filter_unseen]⟩

/-- Given back, the last byte of the token is the next answer of both. -/
theorem back_inStep (inStep : InStep left right) :
    Agree InStep unseen (back left) (back right) := by
  have consumed := inStep.consumed
  by_cases none : left.window.consumed = 0
  · rw [back_of_none none, back_of_none (consumed.symm.trans none)]
    exact ⟨rfl, inStep, by rw [filter_unseen, filter_unseen]⟩
  · have leftFormed := back_keeps_wellFormed left inStep.leftFormed
    have rightFormed := back_keeps_wellFormed right inStep.rightFormed
    have stored := inStep.leftFormed.consumed_le
    have stored' := inStep.rightFormed.consumed_le
    obtain ⟨token, byte, pending⟩ := Window.pending_eq_append stored none
    have pending' := inStep.pending ▸ pending
    have shorter := (Window.ahead_of_retreat stored pending).2.1
    have shorter' := (Window.ahead_of_retreat stored' pending').2.1
    rw [back_state] at leftFormed rightFormed
    rw [back_of_pending none, back_of_pending fun none' => none (consumed.trans none')]
    refine ⟨rfl, ⟨leftFormed, rightFormed, ?_, inStep.start, ?_, ?_⟩, rfl⟩
    · rw [← Array.toList_inj, shorter, shorter']
    · exact inStep.level.congr ⟨rfl, rfl, rfl⟩ ⟨rfl, rfl, rfl⟩
    · intro count
      cases count with
      | zero => rw [answers_zero, answers_zero]
      | succ count =>
        rw [answers_retreat stored pending, answers_retreat stored' pending']
        exact congrArg _ (inStep.answers count)

theorem InStep.discard (inStep : InStep left right) :
    InStep ⟨left.window.discard, left.source⟩ ⟨right.window.discard, right.source⟩ where
  leftFormed := inStep.leftFormed.discard
  rightFormed := inStep.rightFormed.discard
  pending := by simp [Window.pending, Window.discard]
  start := by
    simp only [Window.discard, inStep.start, inStep.consumed]
  level := inStep.level.congr ⟨rfl, rfl, rfl⟩ ⟨rfl, rfl, rfl⟩
  answers count := by
    rw [answers_discard, answers_discard]
    exact inStep.answers count

theorem dump_inStep (inStep : InStep left right) :
    Agree InStep unseen (dump left) (dump right) := by
  rw [dump_eq inStep.leftFormed.consumed_le, dump_eq inStep.rightFormed.consumed_le]
  exact ⟨rfl, inStep.discard, by rw [filter_unseen, filter_unseen]⟩

theorem skip_inStep (inStep : InStep left right) :
    Agree InStep unseen (skip left) (skip right) := by
  rw [skip_eq inStep.leftFormed.consumed_le, skip_eq inStep.rightFormed.consumed_le]
  refine ⟨congrArg Except.ok inStep.consumed, inStep.discard, ?_⟩
  rw [filter_unseen, filter_unseen]

theorem emit_inStep (inStep : InStep left right) :
    Agree InStep unseen (emit left) (emit right) := by
  rw [emit_eq inStep.leftFormed, emit_eq inStep.rightFormed]
  refine ⟨congrArg Except.ok inStep.pending, inStep.discard, ?_⟩
  rw [filter_unseen, filter_unseen]

theorem emitText_inStep (inStep : InStep left right) :
    Agree InStep unseen (emitText left) (emitText right) := by
  rw [emitText_eq inStep.leftFormed, emitText_eq inStep.rightFormed, inStep.pending,
    inStep.consumed]
  cases Utf8.decode right.window.pending with
  | error malformation => exact ⟨rfl, inStep, rfl⟩
  | ok text => exact ⟨rfl, inStep.discard, by rw [filter_unseen, filter_unseen]⟩

/-- Every call does the same to buffers in step. -/
theorem perform_inStep (call : Call) (inStep : InStep left right) :
    Agree InStep unseen (call.perform left) (call.perform right) :=
  perform_agree (fun _ _ => next_inStep) (fun _ _ => back_inStep) (fun _ _ => dump_inStep)
    (fun _ _ => skip_inStep) (fun _ _ => emit_inStep) (fun _ _ => emitText_inStep) call inStep

/-- Whether a look ahead is one of those that do not show: it sees a byte, or is refused one or the
room for it. It may see the end of a source that keeps its end. -/
def Passes (keeps : Prop) : Except LexError Next → Prop
  | .ok (.byte _) | .error (.allocationFailure _) => True
  | .ok .eos => keeps
  | .error _ => False

/-- The answers after a look ahead are those before it. -/
theorem peek_answers {keeps : Prop} (formed : buffer.window.WellFormed)
    (able : buffer.window.Able) (ends : keeps → KeepsEnd buffer.source)
    (passes : Passes keeps (peek buffer).outcome) :
    (peek buffer).state.window.pending = buffer.window.pending ∧
      buffer.window.Widens (peek buffer).state.window ∧
      ∀ count, answers buffer count = answers (peek buffer).state count := by
  obtain ⟨answer, receives⟩ := next_receives formed able
  have kept := next_keeps_wellFormed buffer formed
  have widens := receives.widens
  have token := receives.token
  rw [peek_eq formed] at passes ⊢
  rcases result : next buffer with ⟨error | byte | _, after, events⟩
  · rw [result] at passes receives token widens
    cases error with
    | allocationFailure requested =>
      have same := token.trans (List.append_nil _)
      exact ⟨Array.toList_inj.1 same, widens, receives.answers_of_allocationFailure⟩
    | _ => cases passes
  · rw [result] at kept receives token widens
    have stored := kept.consumed_le
    obtain ⟨start, limit, memory, capacity⟩ := widens
    refine ⟨?_, ⟨start, limit, memory, capacity⟩, ?_⟩
    · rw [← Array.toList_inj]
      exact (Window.ahead_of_retreat stored token).2.1
    · intro count
      cases count with
      | zero => rw [answers_zero, answers_zero]
      | succ count =>
        rw [receives.following_of_byte, answers_retreat stored token]
  · rw [result] at passes receives token widens
    have following := receives.following_of_end
    have same := token.trans (List.append_nil _)
    refine ⟨Array.toList_inj.1 same, widens, ?_⟩
    have first : answers buffer 1 = [.ok .eos] := by rw [following 0, answers_zero]
    have ended := answers_of_end (ends passes) first
    intro count
    have left := following count
    rw [ended, List.replicate_succ] at left
    rw [ended, (List.cons.inj left).2]

/-- A buffer that looks ahead stays in step. -/
theorem InStep.peek_right {keeps : Prop} (inStep : InStep left right)
    (ends : keeps → KeepsEnd right.source) (passes : Passes keeps (peek right).outcome) :
    InStep left (peek right).state := by
  have formed := inStep.rightFormed
  have kept := peek_keeps next_keeps_wellFormed back_keeps_wellFormed right formed
  by_cases able : right.window.Able
  · obtain ⟨pending, widens, answers⟩ := peek_answers formed able ends passes
    have level := inStep.level.widened_right inStep.leftFormed formed inStep.consumed able
    refine ⟨inStep.leftFormed, kept, ?_, ?_, ?_, ?_⟩
    · rw [pending, inStep.pending]
    · rw [widens.start, inStep.start]
    · exact level.congr ⟨rfl, rfl, rfl⟩ widens.room
    · intro count
      rw [inStep.answers, answers]
  · obtain ⟨requested, events, -, failed⟩ := next_of_unable formed able
    rw [(peek_eq_error formed).2 failed]
    exact inStep

end Buffer

end Lexing
