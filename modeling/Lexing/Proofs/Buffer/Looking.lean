import Lexing.Proofs.Buffer.Invariant

/-!
# Looking at what is read

A byte that was read is pending, so it can always be given back. This puts the operations that
read a byte and then decide what becomes of it into closed form (`peek_eq`, `nextIf_eq`) and tells
for every call which failures can come of it (`Call.mayFail_of_error`).
-/

set_option autoImplicit false

namespace Lexing

/-- Whether a read can fail with it: storage is refused, or the source reports a fault. -/
def LexError.OfRead : LexError → Prop
  | .allocationFailure _ | .source _ => True
  | _ => False

def LexError.IsDefect : LexError → Prop
  | .moveFailure _ _ | .peekBackup => True
  | _ => False

def Call.MayFail : Call → LexError → Prop
  | .next, error | .peek, error | .nextIf _, error | .eatWhile _, error => error.OfRead
  | .back, error => error = .backupUnderflow
  | .emitText, error => ∃ length malformation, error = .copyFailure length malformation
  | .dump, _ | .skip, _ | .emit, _ | .times _ _, _ => False

/-- No kind of call can fail with a defect. -/
theorem Call.MayFail.not_isDefect {call : Call} {error : LexError} (may : call.MayFail error) :
    ¬ error.IsDefect := by
  have reading : error.OfRead → ¬ error.IsDefect := by
    cases error with
    | allocationFailure requested => exact fun _ => id
    | source fault => exact fun _ => id
    | _ => nofun
  cases call with
  | next => exact reading may
  | peek => exact reading may
  | nextIf accepts => exact reading may
  | eatWhile accepts => exact reading may
  | back =>
    rw [show error = _ from may]
    exact id
  | emitText =>
    obtain ⟨length, malformation, same⟩ := may
    rw [same]
    exact id
  | dump => cases may
  | skip => cases may
  | emit => cases may
  | times count call => cases may

namespace Window

variable {token : List UInt8} {byte : UInt8}

theorem pending_advance {window : Window} (ahead : window.stored[window.consumed]? = some byte) :
    window.advance.pending.toList = window.pending.toList ++ [byte] := by
  rw [pending_toList, pending_toList, advance, List.take_add_one, Array.getElem?_toList, ahead]
  rfl

theorem pending_append {window : Window} (used : window.consumed = window.available)
    (byte : UInt8) : (window.append byte).pending.toList = window.pending.toList ++ [byte] := by
  have whole : window.stored.toList.length = window.consumed := used.symm
  rw [pending_toList, pending_toList, append, Array.toList_push, ← whole, List.take_length,
    List.take_of_length_le (by simp)]

/-- What is pending has a last byte. -/
theorem pending_eq_append {window : Window} (stored : window.consumed ≤ window.available)
    (some : window.consumed ≠ 0) : ∃ token byte, window.pending.toList = token ++ [byte] := by
  have lengths := length_pending stored
  rcases List.eq_nil_or_concat window.pending.toList with none | ⟨token, byte, pending⟩
  · rw [none] at lengths
    exact absurd lengths.symm some
  · exact ⟨token, byte, pending.trans List.concat_eq_append⟩

/-- The last byte of the pending token is ahead once it is given back. -/
theorem ahead_of_retreat {window : Window} (stored : window.consumed ≤ window.available)
    (pending : window.pending.toList = token ++ [byte]) :
    window.consumed = token.length + 1 ∧ window.retreat.pending.toList = token ∧
      window.stored[token.length]? = some byte := by
  have lengths := length_pending stored
  rw [pending, List.length_append, List.length_singleton] at lengths
  rw [pending_toList, ← lengths] at pending
  refine ⟨lengths.symm, ?_, ?_⟩
  · have front := congrArg (List.take token.length) pending
    rw [List.take_take, Nat.min_eq_left (Nat.le_succ _), List.take_left] at front
    rw [pending_toList, retreat, ← lengths]
    exact front
  · have last := congrArg (·[token.length]?) pending
    rw [← Array.getElem?_toList]
    simpa [List.getElem?_take] using last

/-- Read again, it is taken back into the token. -/
theorem advance_of_retreat {window : Window} (stored : window.consumed ≤ window.available)
    (pending : window.pending.toList = token ++ [byte]) :
    window.retreat.stored[window.retreat.consumed]? = some byte ∧
      window.retreat.advance = window := by
  obtain ⟨consumed, -, ahead⟩ := ahead_of_retreat stored pending
  have place : window.retreat.consumed = token.length := by
    rw [retreat, consumed, Nat.add_sub_cancel]
  constructor
  · rw [place]
    exact ahead
  · rw [advance, place, ← consumed]
    rfl

end Window

namespace Buffer

variable {σ : Type}

theorem back_of_pending {buffer : Buffer σ} (pending : buffer.window.consumed ≠ 0) :
    back buffer = ⟨.ok (), ⟨buffer.window.retreat, buffer.source⟩, #[]⟩ := by
  obtain ⟨window, source⟩ := buffer
  exact if_neg pending

theorem back_of_none {buffer : Buffer σ} (none : buffer.window.consumed = 0) :
    back buffer = ⟨.error .backupUnderflow, buffer, #[.backupUnderflow buffer.window.start]⟩ := by
  obtain ⟨window, source⟩ := buffer
  exact if_pos none

variable [ByteSource σ] {buffer after : Buffer σ} {events : Array Event}

/-- A byte that is read is pending. -/
theorem next_byte_consumed {byte : UInt8} (formed : buffer.window.WellFormed)
    (result : next buffer = ⟨.ok (.byte byte), after, events⟩) :
    after.window.consumed = buffer.window.consumed + 1 := by
  have step := next_readsTo formed
  rw [result] at step
  cases step with
  | replayed ahead => rfl
  | released used room held => rfl
  | stored used roomy unheld answer => exact congrArg (· + 1) (Window.widened_consumed _)

/-- A byte that is read extends the token. -/
theorem next_extends_token {byte : UInt8} (formed : buffer.window.WellFormed)
    (read : next buffer = ⟨.ok (.byte byte), after, events⟩) :
    after.window.pending.toList = buffer.window.pending.toList ++ [byte] ∧
      after.window.start = buffer.window.start := by
  have step := next_readsTo formed
  rw [read] at step
  cases step with
  | replayed ahead => exact ⟨Window.pending_advance ahead, rfl⟩
  | @released window source byte used room held =>
    have emptied : { window with held := none }.consumed = window.available := used
    exact ⟨Window.pending_append emptied byte, rfl⟩
  | @stored window source after byte used roomy unheld answer =>
    have still : window.widened.consumed = window.widened.available := by
      simpa [Window.available] using used
    have same : window.widened.pending = window.pending := by simp [Window.pending]
    refine ⟨?_, window.widened_start⟩
    rw [Window.pending_append still, same]

/-- A read that fails leaves the token as it was. -/
theorem next_error_consumed {error : LexError} (formed : buffer.window.WellFormed)
    (result : next buffer = ⟨.error error, after, events⟩) :
    error.OfRead ∧ after.window.consumed = buffer.window.consumed := by
  have step := next_readsTo formed
  rw [result] at step
  cases step with
  | cramped used tight below refusal => exact ⟨trivial, rfl⟩
  | refusedAgain used full held => exact ⟨trivial, rfl⟩
  | refused used full unheld answer => exact ⟨trivial, rfl⟩
  | failed used able unheld answer => exact ⟨trivial, Window.widened_consumed _⟩

/-- What polls keep of a source, reads keep of the source of a buffer. -/
theorem next_keeps_source {property : σ → Prop}
    (polling : ∀ source, property source → property (ByteSource.poll source).2) :
    Operation.Keeps (fun buffer => buffer.window.WellFormed ∧ property buffer.source)
      (next (σ := σ)) := by
  rintro buffer ⟨formed, holds⟩
  refine ⟨next_keeps_wellFormed buffer formed, ?_⟩
  have polled := polling _ holds
  have step := next_readsTo formed
  generalize next buffer = result at step ⊢
  cases step with
  | replayed ahead => exact holds
  | cramped used tight below refusal => exact holds
  | released used room held => exact holds
  | refusedAgain used full held => exact holds
  | stored used roomy unheld answer => rwa [answer] at polled
  | refused used full unheld answer => rwa [answer] at polled
  | ended used able unheld answer => rwa [answer] at polled
  | failed used able unheld answer => rwa [answer] at polled

omit [ByteSource σ] in
theorem back_keeps_source (property : σ → Prop) :
    Operation.Keeps (fun buffer => buffer.window.WellFormed ∧ property buffer.source)
      (back (σ := σ)) := by
  rintro buffer ⟨formed, holds⟩
  refine ⟨back_keeps_wellFormed buffer formed, ?_⟩
  rwa [back_state]

omit [ByteSource σ] in
theorem dump_keeps_source (property : σ → Prop) :
    Operation.Keeps (fun buffer => buffer.window.WellFormed ∧ property buffer.source)
      (dump (σ := σ)) := by
  rintro ⟨window, source⟩ ⟨formed, holds⟩
  rw [dump_eq formed.consumed_le]
  exact ⟨formed.discard, holds⟩

/-- What polls keep of a source, every call keeps of the source of a buffer. -/
theorem perform_keeps_source {property : σ → Prop}
    (polling : ∀ source, property source → property (ByteSource.poll source).2) (call : Call) :
    Operation.Keeps (fun buffer => buffer.window.WellFormed ∧ property buffer.source)
      (call.perform (σ := σ)) :=
  call.perform_keeps (next_keeps_source polling) (back_keeps_source property)
    (dump_keeps_source property)

/-- Looking at a byte is reading it and giving it back. -/
theorem peek_eq (formed : buffer.window.WellFormed) :
    peek buffer =
      match next buffer with
      | ⟨.ok (.byte byte), after, events⟩ =>
        ⟨.ok (.byte byte), ⟨after.window.retreat, after.source⟩, events⟩
      | ⟨.ok .eos, after, events⟩ => ⟨.ok .eos, after, events⟩
      | ⟨.error error, after, events⟩ => ⟨.error error, after, events⟩ := by
  rw [peek, Operation.bind_apply]
  rcases result : next buffer with ⟨error | byte | _, after, events⟩
  · rfl
  · have consumed := next_byte_consumed formed result
    have given : back.orThrow .peekBackup after = _ :=
      Operation.orThrow_of_ok (back_of_pending (by omega))
    simp only [Operation.bind_apply, given, Operation.pure_apply, Result.after, Array.append_empty]
  · simp only [Operation.pure_apply, Result.after, Array.append_empty]

/-- Reading a byte if it is accepted is reading it and giving back one that is not. -/
theorem nextIf_eq (accepts : UInt8 → Bool) (formed : buffer.window.WellFormed) :
    nextIf accepts buffer =
      match next buffer with
      | ⟨.ok (.byte byte), after, events⟩ =>
        if accepts byte then ⟨.ok (some byte), after, events⟩
        else ⟨.ok none, ⟨after.window.retreat, after.source⟩, events⟩
      | ⟨.ok .eos, after, events⟩ => ⟨.ok none, after, events⟩
      | ⟨.error error, after, events⟩ => ⟨.error error, after, events⟩ := by
  rw [nextIf, Operation.bind_apply]
  rcases result : next buffer with ⟨error | byte | _, after, events⟩
  · rfl
  · have consumed := next_byte_consumed formed result
    have given : back after = _ := back_of_pending (by omega)
    by_cases accepted : accepts byte = true
    · simp only [if_pos accepted, Operation.pure_apply, Result.after, Array.append_empty]
    · simp only [if_neg accepted, Operation.bind_apply, given, Operation.pure_apply, Result.after,
        Array.append_empty]
  · simp only [Operation.pure_apply, Result.after, Array.append_empty]

/-- Reading on after a byte that is accepted. -/
theorem eatWhile_of_some {accepts : UInt8 → Bool} {byte : UInt8}
    (result : nextIf accepts buffer = ⟨.ok (some byte), after, events⟩) :
    eatWhile accepts buffer = ((eatWhile accepts after).map (1 + ·)).after events := by
  rw [congrFun (eatWhile_eq accepts) buffer, Operation.bind_apply, result]
  simp only [Operation.map_apply]

/-- No read follows a byte that is not accepted, or an end. -/
theorem eatWhile_of_none {accepts : UInt8 → Bool}
    (result : nextIf accepts buffer = ⟨.ok none, after, events⟩) :
    eatWhile accepts buffer = ⟨.ok 0, after, events⟩ := by
  rw [congrFun (eatWhile_eq accepts) buffer, Operation.bind_apply, result]
  simp only [Operation.pure_apply, Result.after, Array.append_empty]

theorem eatWhile_of_error {accepts : UInt8 → Bool} {error : LexError}
    (result : nextIf accepts buffer = ⟨.error error, after, events⟩) :
    eatWhile accepts buffer = ⟨.error error, after, events⟩ := by
  rw [congrFun (eatWhile_eq accepts) buffer, Operation.bind_of_error result]

/-- Reading a byte that is accepted is reading a byte. -/
theorem next_of_nextIf_some {accepts : UInt8 → Bool} {byte : UInt8}
    (formed : buffer.window.WellFormed)
    (result : nextIf accepts buffer = ⟨.ok (some byte), after, events⟩) :
    accepts byte = true ∧ next buffer = ⟨.ok (.byte byte), after, events⟩ := by
  rw [nextIf_eq accepts formed] at result
  rcases read : next buffer with ⟨cause | found | _, between, reported⟩
  · rw [read] at result
    cases result
  · rw [read] at result
    by_cases accepted : accepts found = true
    · simp only [if_pos accepted] at result
      cases result
      exact ⟨accepted, rfl⟩
    · simp only [if_neg accepted] at result
      cases result
  · rw [read] at result
    cases result

/-- A byte that is accepted is pending. -/
theorem nextIf_some_consumed {accepts : UInt8 → Bool} {byte : UInt8}
    (formed : buffer.window.WellFormed)
    (result : nextIf accepts buffer = ⟨.ok (some byte), after, events⟩) :
    after.window.consumed = buffer.window.consumed + 1 :=
  next_byte_consumed formed (next_of_nextIf_some formed result).2

theorem next_error {error : LexError} (formed : buffer.window.WellFormed)
    (fails : (next buffer).outcome = .error error) : error.OfRead := by
  obtain ⟨after, events, result⟩ := Result.eq_of_outcome fails
  exact (next_error_consumed formed result).1

/-- Looking at a byte fails when reading it does, and in the same way. -/
theorem peek_eq_error {error : LexError} (formed : buffer.window.WellFormed) :
    peek buffer = ⟨.error error, after, events⟩ ↔ next buffer = ⟨.error error, after, events⟩ := by
  rw [peek_eq formed]
  rcases next buffer with ⟨cause | byte | _, between, reported⟩
  · rfl
  · simp
  · simp

theorem nextIf_eq_error (accepts : UInt8 → Bool) {error : LexError}
    (formed : buffer.window.WellFormed) :
    nextIf accepts buffer = ⟨.error error, after, events⟩ ↔
      next buffer = ⟨.error error, after, events⟩ := by
  rw [nextIf_eq accepts formed]
  rcases next buffer with ⟨cause | byte | _, between, reported⟩
  · simp
  · by_cases accepted : accepts byte = true
    · simp [accepted]
    · simp [accepted]
  · simp

theorem peek_error {error : LexError} (formed : buffer.window.WellFormed)
    (fails : (peek buffer).outcome = .error error) : (next buffer).outcome = .error error := by
  obtain ⟨after, events, result⟩ := Result.eq_of_outcome fails
  rw [(peek_eq_error formed).1 result]

theorem nextIf_error (accepts : UInt8 → Bool) {error : LexError}
    (formed : buffer.window.WellFormed)
    (fails : (nextIf accepts buffer).outcome = .error error) :
    (next buffer).outcome = .error error := by
  obtain ⟨after, events, result⟩ := Result.eq_of_outcome fails
  rw [(nextIf_eq_error accepts formed).1 result]

theorem nextIf_keeps_wellFormed (accepts : UInt8 → Bool) :
    Operation.Keeps (·.window.WellFormed) (nextIf (σ := σ) accepts) :=
  nextIf_keeps accepts next_keeps_wellFormed back_keeps_wellFormed

theorem eatFrom_error (accepts : UInt8 → Bool) (count : Nat) (log : Array Event)
    {error : LexError} (formed : buffer.window.WellFormed)
    (fails : (eatFrom accepts count log buffer).outcome = .error error) : error.OfRead := by
  fun_induction eatFrom accepts count log buffer with
  | case1 count log buffer _ after events result ih =>
    have between := nextIf_keeps_wellFormed accepts buffer formed
    rw [result] at between
    exact ih between fails
  | case2 count log buffer after events result => cases fails
  | case3 count log buffer error after events result =>
    cases fails
    have failed : (nextIf accepts buffer).outcome = .error error := by rw [result]
    exact next_error formed (nextIf_error accepts formed failed)

end Buffer

/-- No call on a well-formed buffer fails in another way than its kind of call can. -/
theorem Call.mayFail_of_error {σ : Type} [ByteSource σ] {buffer : Buffer σ} {error : LexError}
    (formed : buffer.window.WellFormed) (call : Call)
    (fails : (call.perform buffer).outcome = .error error) : call.MayFail error := by
  cases call with
  | next => exact Buffer.next_error formed (Operation.outcome_map_eq_error.1 fails)
  | peek =>
    have failed := Operation.outcome_map_eq_error.1 fails
    exact Buffer.next_error formed (Buffer.peek_error formed failed)
  | nextIf accepts =>
    have failed := Operation.outcome_map_eq_error.1 fails
    exact Buffer.next_error formed (Buffer.nextIf_error accepts formed failed)
  | eatWhile accepts =>
    exact Buffer.eatFrom_error accepts 0 #[] formed (Operation.outcome_map_eq_error.1 fails)
  | back =>
    by_cases none : buffer.window.consumed = 0
    · rw [perform, Operation.bind_apply, Buffer.back_of_none none] at fails
      cases fails
      rfl
    · rw [perform, Operation.bind_apply, Buffer.back_of_pending none] at fails
      cases fails
  | dump =>
    rw [perform, Operation.bind_apply, Buffer.dump_eq formed.consumed_le] at fails
    cases fails
  | skip =>
    have failed := Operation.outcome_map_eq_error.1 fails
    rw [Buffer.skip_eq formed.consumed_le] at failed
    cases failed
  | emit =>
    have failed := Operation.outcome_map_eq_error.1 fails
    rw [Buffer.emit_eq formed] at failed
    cases failed
  | emitText =>
    have failed := Operation.outcome_map_eq_error.1 fails
    rw [Buffer.emitText_eq formed] at failed
    split at failed
    · cases failed
      exact ⟨_, _, rfl⟩
    · cases failed
  | times count call =>
    have failed := Operation.outcome_map_eq_error.1 fails
    obtain ⟨outcomes, yields⟩ := Operation.times_outcome call.perform count buffer
    rw [yields] at failed
    cases failed

end Lexing
