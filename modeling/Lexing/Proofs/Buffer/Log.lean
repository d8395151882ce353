import Lexing.Proofs.Buffer.Invariant

/-!
# What calls report

What is known of a buffer and of all that was reported on the way to it follows every call, if it
follows a read, a byte given back and a token that is discarded or handed out.
-/

set_option autoImplicit false

namespace Lexing

open Operation (Follows)

variable {σ : Type} [ByteSource σ] {invariant : List Event → Buffer σ → Prop}

namespace Buffer

theorem peek_follows (reading : Follows invariant (next (σ := σ)))
    (giving : Follows invariant (back (σ := σ))) : Follows invariant (peek (σ := σ)) := by
  refine Follows.bind reading fun value => ?_
  cases value with
  | eos => exact Follows.pure _
  | byte byte => exact Follows.bind (giving.orThrow _) fun _ => Follows.pure _

theorem nextIf_follows (accepts : UInt8 → Bool) (reading : Follows invariant (next (σ := σ)))
    (giving : Follows invariant (back (σ := σ))) :
    Follows invariant (nextIf (σ := σ) accepts) := by
  refine Follows.bind reading fun value => ?_
  cases value with
  | eos => exact Follows.pure _
  | byte byte =>
    by_cases accepted : accepts byte
    · simp only [accepted, if_true]
      exact Follows.pure _
    · simp only [accepted, Bool.false_eq_true, if_false]
      exact Follows.bind giving fun _ => Follows.pure _

/-- Reading on is followed with all that it has reported already. -/
theorem eatFrom_follows {accepts : UInt8 → Bool}
    (follows : Follows invariant (nextIf (σ := σ) accepts)) (count : Nat) (log : Array Event)
    (buffer : Buffer σ) (before : List Event) (holds : invariant (before ++ log.toList) buffer) :
    invariant (before ++ (eatFrom accepts count log buffer).events.toList)
      (eatFrom accepts count log buffer).state := by
  fun_induction eatFrom accepts count log buffer with
  | case1 count log buffer _ after events result ih =>
    have between := follows _ buffer holds
    rw [result] at between
    exact ih (by simpa only [Array.toList_append, List.append_assoc] using between)
  | case2 count log buffer after events result =>
    have between := follows _ buffer holds
    rw [result] at between
    simpa only [Array.toList_append, List.append_assoc] using between
  | case3 count log buffer error after events result =>
    have between := follows _ buffer holds
    rw [result] at between
    simpa only [Array.toList_append, List.append_assoc] using between

omit [ByteSource σ] in
theorem emitText_follows (emitting : Follows invariant (emit (σ := σ))) :
    Follows invariant (emitText (σ := σ)) := by
  refine Follows.bind Follows.get fun buffer => ?_
  cases decoded : Utf8.decode buffer.window.pending with
  | error malformation =>
    simp only [decoded]
    exact Follows.throw _
  | ok text =>
    simp only [decoded]
    exact Follows.bind (Follows.map emitting) fun _ => Follows.pure _

end Buffer

/-- What follows reads, bytes given back and tokens discarded or handed out follows every call. -/
theorem Call.perform_follows (reading : Follows invariant (Buffer.next (σ := σ)))
    (giving : Follows invariant (Buffer.back (σ := σ)))
    (discarding : Follows invariant (Buffer.dump (σ := σ)))
    (emitting : Follows invariant (Buffer.emit (σ := σ)))
    (call : Call) : Follows invariant (call.perform (σ := σ)) := by
  induction call with
  | next => exact reading.map
  | peek => exact (Buffer.peek_follows reading giving).map
  | back => exact Follows.bind giving fun _ => Follows.pure _
  | dump => exact Follows.bind discarding fun _ => Follows.pure _
  | skip =>
    exact (Follows.bind Follows.get fun _ => Follows.bind discarding fun _ => Follows.pure _).map
  | emit => exact emitting.map
  | emitText => exact (Buffer.emitText_follows emitting).map
  | nextIf accepts => exact (Buffer.nextIf_follows accepts reading giving).map
  | eatWhile accepts =>
    have taking := Buffer.nextIf_follows accepts reading giving
    refine Follows.map fun log buffer holds => ?_
    exact Buffer.eatFrom_follows taking 0 #[] buffer log (by simpa using holds)
  | times count call ih => exact (ih.times count).map

end Lexing
