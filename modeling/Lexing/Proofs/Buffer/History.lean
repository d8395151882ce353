import Lexing.Proofs.Buffer.Invariant

/-!
# What calls discard and when they read

Two things that a list of calls does and that its last buffer does not show: the bytes that were
discarded on the way (`Call.discards`) and the buffers at which a read was attempted
(`Call.attempts`). Both are gathered along the calls in order (`along`), also where a client chooses
the calls (`served`). What each read brings about with itself among those attempted, every call does
(`perform_attempts`).
-/

set_option autoImplicit false

namespace Lexing

open Operation (Keeps)

variable {σ α : Type}

namespace Buffer

instance (window : Window) : Decidable window.Growable :=
  inferInstanceAs (Decidable (_ ∧ _ ∧ _))

instance (window : Window) : Decidable window.Roomy := inferInstanceAs (Decidable (_ ∨ _))

instance (window : Window) : Decidable window.Full := inferInstanceAs (Decidable (_ ∧ _))

/-- Whether a read asks the source: nothing is stored or held for it, and room for an answer is
there or can be made, or never will be. -/
def Asks (buffer : Buffer σ) : Prop :=
  buffer.window.consumed = buffer.window.available ∧ buffer.window.held = none ∧
    (buffer.window.Roomy ∨ buffer.window.Full)

instance (buffer : Buffer σ) : Decidable buffer.Asks := inferInstanceAs (Decidable (_ ∧ _ ∧ _))

end Buffer

variable [ByteSource σ]

namespace Buffer

/-- What each call contributes when calls are performed one after another. -/
def along (contribution : Call → Buffer σ → List α) : List Call → Buffer σ → List α
  | [], _ => []
  | call :: calls, buffer =>
    contribution call buffer ++ along contribution calls (call.perform buffer).state

/-- The buffers at which reading on while bytes are accepted attempts a read. -/
def eatAttempts (accepts : UInt8 → Bool) (buffer : Buffer σ) : List (Buffer σ) :=
  buffer ::
    match _ : nextIf accepts buffer with
    | ⟨.ok (some _), after, _⟩ => eatAttempts accepts after
    | ⟨.ok none, _, _⟩ => []
    | ⟨.error _, _, _⟩ => []
termination_by buffer.window.roomLeft
decreasing_by exact roomLeft_lt_of_nextIf ‹nextIf accepts buffer = _›

end Buffer

namespace Call

/-- The bytes that a call discards: those that it hands out or, where it hands out none, those of
the pending token. -/
def discards : Call → Buffer σ → List UInt8
  | .dump, buffer =>
    match (Buffer.dump buffer).outcome with
    | .ok _ => buffer.window.pending.toList
    | .error _ => []
  | .skip, buffer =>
    match (Buffer.skip buffer).outcome with
    | .ok _ => buffer.window.pending.toList
    | .error _ => []
  | .emit, buffer =>
    match (Buffer.emit buffer).outcome with
    | .ok token => token.toList
    | .error _ => []
  | .emitText, buffer =>
    match (Buffer.emitText buffer).outcome with
    | .ok text => text.toUTF8.data.toList
    | .error _ => []
  | .times count call, buffer =>
    Buffer.along (fun _ => call.discards) (.replicate count call) buffer
  | .next, _ | .peek, _ | .back, _ | .nextIf _, _ | .eatWhile _, _ => []

def attempts : Call → Buffer σ → List (Buffer σ)
  | .next, buffer | .peek, buffer | .nextIf _, buffer => [buffer]
  | .eatWhile accepts, buffer => Buffer.eatAttempts accepts buffer
  | .times count call, buffer =>
    Buffer.along (fun _ => call.attempts) (.replicate count call) buffer
  | .back, _ | .dump, _ | .skip, _ | .emit, _ | .emitText, _ => []

def reports (call : Call) (buffer : Buffer σ) : List Event := (call.perform buffer).events.toList

end Call

namespace Buffer

theorem observe_eq (call : Call) (buffer : Buffer σ) :
    observe call buffer =
      (⟨(call.perform buffer).outcome, (call.perform buffer).state.window.pending,
        (call.perform buffer).state.window.available, (call.perform buffer).state.window.start⟩,
        (call.perform buffer).state) := rfl

def served (contribution : Call → Buffer σ → List α) (client : Client) (buffer : Buffer σ) :
    Nat → List α
  | 0 => []
  | count + 1 =>
    let (seen, between) := serve client buffer count
    served contribution client buffer count ++ contribution (client seen) between

@[simp] theorem along_nil (contribution : Call → Buffer σ → List α) (buffer : Buffer σ) :
    along contribution [] buffer = [] := rfl

@[simp] theorem along_cons (contribution : Call → Buffer σ → List α) (call : Call)
    (calls : List Call) (buffer : Buffer σ) :
    along contribution (call :: calls) buffer =
      contribution call buffer ++ along contribution calls (call.perform buffer).state := rfl

/-- Reading on is reading a byte and, after one that was accepted, reading on. -/
theorem eatFrom_step (accepts : UInt8 → Bool) (count : Nat) (log : Array Event)
    (buffer : Buffer σ) :
    eatFrom accepts count log buffer =
      match nextIf accepts buffer with
      | ⟨.ok (some _), after, events⟩ => eatFrom accepts (count + 1) (log ++ events) after
      | ⟨.ok none, after, events⟩ => ⟨.ok count, after, log ++ events⟩
      | ⟨.error error, after, events⟩ => ⟨.error error, after, log ++ events⟩ := by
  rw [eatFrom]
  split
  next result => rw [result]
  next result => rw [result]
  next result => rw [result]

/-- After a byte that was accepted, reading goes on; otherwise no read follows. -/
theorem eatAttempts_eq (accepts : UInt8 → Bool) (buffer : Buffer σ) :
    eatAttempts accepts buffer =
      buffer ::
        match nextIf accepts buffer with
        | ⟨.ok (some _), after, _⟩ => eatAttempts accepts after
        | ⟨.ok none, _, _⟩ => []
        | ⟨.error _, _, _⟩ => [] := by
  rw [eatAttempts]
  congr 1
  split
  next result => rw [result]
  next result => rw [result]
  next result => rw [result]

/-- Copies of one call contribute what that call does each time. -/
theorem along_replicate (contribution : Call → Buffer σ → List α) (call : Call) (count : Nat)
    (buffer : Buffer σ) :
    along (fun _ => contribution call) (List.replicate count call) buffer =
      along contribution (List.replicate count call) buffer := by
  induction count generalizing buffer with
  | zero => rfl
  | succ count ih => rw [List.replicate_succ, along_cons, along_cons, ih]

theorem discards_times (count : Nat) (call : Call) (buffer : Buffer σ) :
    (Call.times count call).discards buffer =
      along Call.discards (List.replicate count call) buffer := by
  rw [Call.discards, along_replicate]

theorem attempts_times (count : Nat) (call : Call) (buffer : Buffer σ) :
    (Call.times count call).attempts buffer =
      along Call.attempts (List.replicate count call) buffer := by
  rw [Call.attempts, along_replicate]

/-- Repeating a call leaves the buffer that performing its copies leaves. -/
theorem times_state (count : Nat) (call : Call) (buffer : Buffer σ) :
    ((Call.times count call).perform buffer).state =
      (performAll (List.replicate count call) buffer).state := by
  rw [Call.perform, Operation.map_apply, times_perform]
  rfl

/-- What each call brings about by its contribution, all of them bring about by theirs. -/
theorem along_invariant {contribution : Call → Buffer σ → List α}
    {invariant : List α → Buffer σ → Prop} (calls : List Call)
    (step : ∀ call ∈ calls, ∀ items buffer, invariant items buffer →
      invariant (items ++ contribution call buffer) (call.perform buffer).state)
    {items : List α} {buffer : Buffer σ} (start : invariant items buffer) :
    invariant (items ++ along contribution calls buffer) (performAll calls buffer).state := by
  induction calls generalizing items buffer with
  | nil => simpa using start
  | cons call calls ih =>
    rw [along_cons, performAll_cons_state, ← List.append_assoc]
    have first := step call List.mem_cons_self items buffer start
    exact ih (fun call member => step call (List.mem_cons_of_mem _ member)) first

section Attempting

variable (invariant : List (Buffer σ) → Buffer σ → Prop)
  (reading : ∀ reads buffer, invariant reads buffer →
    invariant (reads ++ [buffer]) (next buffer).state)
  (giving : ∀ reads, Keeps (invariant reads) (back (σ := σ)))

include reading giving

/-- What each read brings about with itself among those attempted, eating does with all of its
reads. -/
theorem eatFrom_attempts (accepts : UInt8 → Bool) (count : Nat) (log : Array Event)
    {reads : List (Buffer σ)} {buffer : Buffer σ} (holds : invariant reads buffer) :
    invariant (reads ++ eatAttempts accepts buffer) (eatFrom accepts count log buffer).state := by
  fun_induction eatFrom accepts count log buffer generalizing reads with
  | case1 count log buffer _ after events result ih =>
    have read := nextIf_state accepts (reading reads buffer holds) (giving _)
    rw [result] at read
    rw [eatAttempts_eq, result, List.append_cons]
    exact ih read
  | case2 count log buffer after events result =>
    have read := nextIf_state accepts (reading reads buffer holds) (giving _)
    rw [result] at read
    rwa [eatAttempts_eq, result]
  | case3 count log buffer error after events result =>
    have read := nextIf_state accepts (reading reads buffer holds) (giving _)
    rw [result] at read
    rwa [eatAttempts_eq, result]

variable (discarding : ∀ reads, Keeps (invariant reads) (dump (σ := σ)))

include discarding

/-- So does every call, if nothing but reads changes what is known. -/
theorem perform_attempts (call : Call) {reads : List (Buffer σ)} {buffer : Buffer σ}
    (holds : invariant reads buffer) :
    invariant (reads ++ call.attempts buffer) (call.perform buffer).state := by
  induction call generalizing reads buffer with
  | next =>
    rw [Call.attempts, Call.perform, Operation.map_apply]
    exact reading reads buffer holds
  | peek =>
    rw [Call.attempts, Call.perform, Operation.map_apply]
    exact peek_state (reading reads buffer holds) (giving _)
  | nextIf accepts =>
    rw [Call.attempts, Call.perform, Operation.map_apply]
    exact nextIf_state accepts (reading reads buffer holds) (giving _)
  | eatWhile accepts =>
    rw [Call.attempts, Call.perform, Operation.map_apply]
    exact eatFrom_attempts invariant reading giving accepts 0 #[] holds
  | back =>
    rw [Call.attempts, List.append_nil]
    exact Keeps.bind (giving _) (fun _ => Keeps.pure _) _ holds
  | dump =>
    rw [Call.attempts, List.append_nil]
    exact Keeps.bind (discarding _) (fun _ => Keeps.pure _) _ holds
  | skip =>
    rw [Call.attempts, List.append_nil]
    exact (skip_keeps (discarding _)).map _ holds
  | emit =>
    rw [Call.attempts, List.append_nil]
    exact (emit_keeps (discarding _)).map _ holds
  | emitText =>
    rw [Call.attempts, List.append_nil]
    exact (emitText_keeps (discarding _)).map _ holds
  | times count call ih =>
    rw [attempts_times, times_state]
    refine along_invariant _ (fun copy member reads buffer holds => ?_) holds
    rw [List.eq_of_mem_replicate member]
    exact ih holds

end Attempting

/-- What the primitives keep holds wherever a call attempts a read. -/
theorem attempts_of_keeps {property : Buffer σ → Prop}
    (reading : Keeps property (next (σ := σ))) (giving : Keeps property (back (σ := σ)))
    (discarding : Keeps property (dump (σ := σ))) (call : Call) {buffer : Buffer σ}
    (holds : property buffer) : ∀ read ∈ call.attempts buffer, property read := by
  let invariant (reads : List (Buffer σ)) (buffer : Buffer σ) : Prop :=
    (∀ read ∈ reads, property read) ∧ property buffer
  have reads (reads : List (Buffer σ)) (buffer : Buffer σ) (known : invariant reads buffer) :
      invariant (reads ++ [buffer]) (next buffer).state :=
    ⟨List.forall_mem_append.2 ⟨known.1, List.forall_mem_singleton.2 known.2⟩,
      reading buffer known.2⟩
  have fresh : invariant [] buffer := ⟨nofun, holds⟩
  exact (perform_attempts invariant reads (fun _ buffer known => ⟨known.1, giving buffer known.2⟩)
    (fun _ buffer known => ⟨known.1, discarding buffer known.2⟩) call fresh).1

/-- What giving back and discarding keep, a call keeps that attempts no read. -/
theorem perform_of_unread {property : Buffer σ → Prop} (giving : Keeps property (back (σ := σ)))
    (discarding : Keeps property (dump (σ := σ))) (call : Call) {buffer : Buffer σ}
    (unread : call.attempts buffer = []) (holds : property buffer) :
    property (call.perform buffer).state := by
  let invariant (reads : List (Buffer σ)) (buffer : Buffer σ) : Prop := reads = [] → property buffer
  have reading (reads : List (Buffer σ)) (buffer : Buffer σ) (_ : invariant reads buffer) :
      invariant (reads ++ [buffer]) (next buffer).state := fun none => absurd none (by simp)
  have fresh : invariant [] buffer := fun _ => holds
  exact perform_attempts invariant reading (fun _ buffer known none => giving buffer (known none))
    (fun _ buffer known none => discarding buffer (known none)) call fresh unread

end Buffer

end Lexing
