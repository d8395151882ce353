import Lexing.Proofs.Buffer.Answers
import Lexing.Proofs.Buffer.Bounds

/-!
# Refusals

A buffer whose token fills it up to its ceiling and that has refused a byte (`Refusing`) stays as it
is while it is only read from (`Refusing.stays`). All calls that read come to such a buffer by a
read that fails, eating by the one behind the bytes that it took (`eatFrom_fails`). Giving bytes
back and discarding the others makes room; then the bytes that were given back are read, then the
refused one, then what the source answers (`Refusing.reads_after`).
-/

set_option autoImplicit false

namespace Lexing

def Call.IsRead : Call → Prop
  | .next | .peek | .nextIf _ | .eatWhile _ => True
  | _ => False

namespace Buffer

section Refusals

variable {σ : Type} [ByteSource σ] {bound : Nat} {byte : UInt8} {buffer : Buffer σ}

/-- The token fills the window up to its ceiling, and a byte that followed was refused. -/
structure Refusing (bound : Nat) (byte : UInt8) (buffer : Buffer σ) : Prop where
  formed : buffer.window.WellFormed
  limit : buffer.window.limit = some bound
  consumed : buffer.window.consumed = bound
  held : buffer.window.held = some byte

namespace Refusing

omit [ByteSource σ] in
theorem capacity_eq (refusing : Refusing bound byte buffer) : buffer.window.capacity = bound := by
  have limit := refusing.formed.held_full (by rw [refusing.held]; rfl)
  exact Option.some.inj (limit.symm.trans refusing.limit)

omit [ByteSource σ] in
theorem available_eq (refusing : Refusing bound byte buffer) : buffer.window.available = bound := by
  have stored := refusing.formed.consumed_le
  have fits := refusing.formed.available_le
  have consumed := refusing.consumed
  have capacity := refusing.capacity_eq
  omega

omit [ByteSource σ] in
/-- Nothing but the token is stored. -/
theorem stored_eq (refusing : Refusing bound byte buffer) :
    buffer.window.stored.toList = buffer.window.pending.toList := by
  have whole : buffer.window.stored.toList.length = buffer.window.consumed :=
    refusing.available_eq.trans refusing.consumed.symm
  rw [Window.pending_toList, ← whole, List.take_length]

/-- The byte is refused again. -/
theorem next_eq (refusing : Refusing bound byte buffer) :
    next buffer = ⟨.error (.allocationFailure (Size.double bound)), buffer,
      #[.refused bound buffer.window.offset]⟩ := by
  have used := refusing.consumed.trans refusing.available_eq.symm
  have capacity := refusing.capacity_eq
  have full : buffer.window.Full := by
    refine ⟨refusing.consumed.trans capacity.symm, ?_⟩
    rw [refusing.limit, capacity]
  have step : ReadsTo buffer _ := .refusedAgain used full refusing.held
  rw [step.next_eq refusing.formed, capacity]

/-- Every call that does nothing but read fails, and leaves everything as it was. -/
theorem perform_eq (refusing : Refusing bound byte buffer) {call : Call} (reads : call.IsRead) :
    call.perform buffer = ⟨.error (.allocationFailure (Size.double bound)), buffer,
      #[.refused bound buffer.window.offset]⟩ := by
  have formed := refusing.formed
  have failed := refusing.next_eq
  have tried (accepts : UInt8 → Bool) := (nextIf_eq_error accepts formed).2 failed
  cases call with
  | next =>
    rw [Call.perform, Operation.map_apply, failed]
    rfl
  | peek =>
    rw [Call.perform, Operation.map_apply, (peek_eq_error formed).2 failed]
    rfl
  | nextIf accepts =>
    rw [Call.perform, Operation.map_apply, tried accepts]
    rfl
  | eatWhile accepts =>
    rw [Call.perform, Operation.map_apply, eatWhile_of_error (tried accepts)]
    rfl
  | _ => cases reads

/-- So do calls in any number. -/
theorem stays (refusing : Refusing bound byte buffer) (calls : List Call)
    (reads : ∀ call ∈ calls, call.IsRead) :
    (performAll calls buffer).outcome =
        .ok (calls.map fun _ => .error (.allocationFailure (Size.double bound))) ∧
      (performAll calls buffer).state = buffer := by
  induction calls with
  | nil => exact ⟨rfl, rfl⟩
  | cons call calls ih =>
    obtain ⟨first, others⟩ := List.forall_mem_cons.1 reads
    obtain ⟨outcome, state⟩ := ih others
    rw [performAll_cons_outcome, performAll_cons_state, refusing.perform_eq first, outcome]
    exact ⟨rfl, state⟩

end Refusing

variable {config : Config} {memory requested : Nat} {after : Buffer σ} {events : Array Event}

theorem refusing_of_next (bounded : Bounded config memory buffer)
    (limit : config.limit = some bound)
    (fails : next buffer = ⟨.error (.allocationFailure requested), after, events⟩)
    (filled : after.window.consumed = bound) :
    requested = Size.double bound ∧ ∃ byte, Refusing bound byte after := by
  have kept := next_keeps_bounded buffer bounded
  have step := next_readsTo bounded.formed
  rw [fails] at kept step
  have formed : after.window.WellFormed := kept.formed
  have ceiling := kept.limit.trans limit
  have capacity : after.window.capacity = bound := by
    have stored := formed.consumed_le
    have fits := formed.available_le
    have upto := formed.capacity_le bound ceiling
    omega
  cases step with
  | cramped used tight below refusal =>
    exact absurd ⟨filled.trans capacity.symm, capacity ▸ ceiling⟩ below
  | refusedAgain used full held =>
    exact ⟨congrArg Size.double capacity, _, formed, ceiling, filled, held⟩
  | refused used full unheld answer =>
    exact ⟨congrArg Size.double capacity, _, formed, ceiling, filled, rfl⟩

/-- Reads yield these bytes one after another, and all of them are accepted. -/
inductive Eats (accepts : UInt8 → Bool) : Buffer σ → List UInt8 → Buffer σ → Prop
  | none {buffer : Buffer σ} : Eats accepts buffer [] buffer
  | one {before between after : Buffer σ} {byte : UInt8} {bytes : List UInt8}
      {events : Array Event} (accepted : accepts byte = true)
      (read : next before = ⟨.ok (.byte byte), between, events⟩)
      (others : Eats accepts between bytes after) : Eats accepts before (byte :: bytes) after

/-- What reads keep is kept by any number of them. -/
theorem Eats.keeps {accepts : UInt8 → Bool} {bytes : List UInt8} {property : Buffer σ → Prop}
    (reading : Operation.Keeps property (next (σ := σ))) (eats : Eats accepts buffer bytes after)
    (holds : property buffer) : property after := by
  induction eats with
  | none => exact holds
  | @one before between after byte bytes events accepted read others ih =>
    have kept := reading before holds
    rw [read] at kept
    exact ih kept

/-- Reading on fails like the read behind the bytes that it took. -/
theorem eatFrom_fails {accepts : UInt8 → Bool} {count : Nat} {log : Array Event} {error : LexError}
    (formed : buffer.window.WellFormed)
    (fails : eatFrom accepts count log buffer = ⟨.error error, after, events⟩) :
    ∃ bytes last reported, Eats accepts buffer bytes last ∧
      last ∈ eatAttempts accepts buffer ∧ next last = ⟨.error error, after, reported⟩ := by
  fun_induction eatFrom accepts count log buffer with
  | case1 count log buffer byte between reported result ih =>
    have kept := nextIf_keeps_wellFormed accepts buffer formed
    rw [result] at kept
    obtain ⟨bytes, last, told, eats, attempted, failed⟩ := ih kept fails
    obtain ⟨accepted, read⟩ := next_of_nextIf_some formed result
    refine ⟨byte :: bytes, last, told, .one accepted read eats, ?_, failed⟩
    rw [eatAttempts_eq, result]
    exact List.mem_cons_of_mem _ attempted
  | case2 count log buffer between reported result => cases fails
  | case3 count log buffer cause between reported result =>
    cases fails
    have failed := (nextIf_eq_error accepts formed).1 result
    refine ⟨[], buffer, reported, .none, ?_, failed⟩
    rw [eatAttempts_eq]
    exact List.mem_cons_self

/-- A call that reads fails where the last byte that it reads for does. -/
theorem next_of_read_fails (bounded : Bounded config memory buffer) {call : Call}
    (reads : call.IsRead) {error : LexError}
    (fails : (call.perform buffer).outcome = .error error) :
    ∃ last reported, Bounded config memory last ∧
      next last = ⟨.error error, (call.perform buffer).state, reported⟩ := by
  cases call with
  | next =>
    obtain ⟨events, failed⟩ := Operation.eq_of_map_error fails
    exact ⟨buffer, events, bounded, failed⟩
  | peek =>
    obtain ⟨events, failed⟩ := Operation.eq_of_map_error fails
    exact ⟨buffer, events, bounded, (peek_eq_error bounded.formed).1 failed⟩
  | nextIf accepts =>
    obtain ⟨events, failed⟩ := Operation.eq_of_map_error fails
    exact ⟨buffer, events, bounded, (nextIf_eq_error accepts bounded.formed).1 failed⟩
  | eatWhile accepts =>
    obtain ⟨events, failed⟩ := Operation.eq_of_map_error fails
    obtain ⟨bytes, last, reported, eats, -, failed⟩ := eatFrom_fails bounded.formed failed
    exact ⟨last, reported, eats.keeps next_keeps_bounded bounded, failed⟩
  | _ => cases reads

/-- A read that fails for want of room and leaves a token as long as the ceiling has been refused a
byte. -/
theorem refusing_of_read (bounded : Bounded config memory buffer)
    (limit : config.limit = some bound) {call : Call} (reads : call.IsRead)
    (fails : (call.perform buffer).outcome = .error (.allocationFailure requested))
    (filled : (call.perform buffer).state.window.consumed = bound) :
    requested = Size.double bound ∧ ∃ byte, Refusing bound byte (call.perform buffer).state := by
  obtain ⟨last, reported, kept, failed⟩ := next_of_read_fails bounded reads fails
  exact refusing_of_next kept limit failed filled

/-- When some bytes have been given back and the others discarded, what is read is first the bytes
that were given back, then the one that was refused, and then what the source answers. -/
theorem Refusing.reads_after (refusing : Refusing bound byte buffer) {backs count : Nat}
    (fewer : backs < bound) (upto : count ≤ bound) {discard : Call}
    (discards : discard.IsDiscard) {value : Value}
    (succeeds : (discard.perform
      (performAll (List.replicate backs .back) buffer).state).outcome = .ok value) :
    let given := buffer.window.pending.toList.drop (bound - backs)
    (performAll (List.replicate count .next)
        (discard.perform (performAll (List.replicate backs .back) buffer).state).state).outcome =
      .ok ((byteAnswers ((given ++ [byte]).take count) ++
        ByteSource.answers buffer.source (count - (backs + 1))).map Value.ofAnswer) := by
  intro given
  have within : backs ≤ buffer.window.consumed := by
    rw [refusing.consumed]
    exact Nat.le_of_lt fewer
  have formed := performAll_keeps (List.replicate backs .back)
    (fun call _ => perform_keeps_wellFormed call) buffer refusing.formed
  rw [backs_eq within] at succeeds formed ⊢
  rw [discard_state formed discards succeeds]
  have ahead : { buffer.window with consumed := buffer.window.consumed - backs }.discard.ahead =
      given ++ [byte] := by
    rw [Window.ahead_discard, Window.ahead, Window.lookahead_toList]
    simp only [refusing.stored_eq, refusing.consumed, refusing.held, Option.toList_some, given]
  have length : (given ++ [byte]).length = backs + 1 := by
    have pending := Window.length_pending refusing.formed.consumed_le
    rw [refusing.consumed] at pending
    rw [List.length_append, List.length_drop, pending, List.length_singleton]
    omega
  have room : 0 + count ≤ buffer.window.capacity := by
    rw [refusing.capacity_eq]
    omega
  rw [nexts_outcome formed.discard room, answers, ahead, length]

end Refusals

end Buffer

end Lexing
