import Lexing.Buffer.Client
import Lexing.Proofs.Buffer.Steps

/-!
# Invariants of buffers

A property that a read, giving a byte back and discarding the pending token keep is kept by every
call (`Call.perform_keeps`) and by every list of calls (`performAll_keeps`). A window that was opened
is well formed (`openWith_eq_ok`) and stays so (`perform_keeps_wellFormed`).
-/

set_option autoImplicit false

namespace Lexing

open Operation (Keeps)

variable {σ : Type}

namespace Buffer

section Keeping

variable [ByteSource σ] {property : Buffer σ → Prop}

/-- What a read brings about and giving a byte back keeps, looking at a byte brings about. -/
theorem peek_state {buffer : Buffer σ} (read : property (next buffer).state)
    (giving : Keeps property (back (σ := σ))) : property (peek buffer).state := by
  refine Keeps.state_bind read fun value => ?_
  cases value with
  | eos => exact Keeps.pure _
  | byte byte => exact Keeps.bind (giving.orThrow _) fun _ => Keeps.pure _

theorem nextIf_state (accepts : UInt8 → Bool) {buffer : Buffer σ}
    (read : property (next buffer).state) (giving : Keeps property (back (σ := σ))) :
    property (nextIf accepts buffer).state := by
  refine Keeps.state_bind read fun value => ?_
  cases value with
  | eos => exact Keeps.pure _
  | byte byte =>
    by_cases accepted : accepts byte
    · simp only [accepted, if_true]
      exact Keeps.pure _
    · simp only [accepted, Bool.false_eq_true, if_false]
      exact Keeps.bind giving fun _ => Keeps.pure _

theorem peek_keeps (reading : Keeps property (next (σ := σ)))
    (giving : Keeps property (back (σ := σ))) : Keeps property (peek (σ := σ)) :=
  fun buffer held => peek_state (reading buffer held) giving

theorem nextIf_keeps (accepts : UInt8 → Bool) (reading : Keeps property (next (σ := σ)))
    (giving : Keeps property (back (σ := σ))) : Keeps property (nextIf (σ := σ) accepts) :=
  fun buffer held => nextIf_state accepts (reading buffer held) giving

/-- What reading a byte if it is accepted keeps, reading on while bytes are accepted keeps. -/
theorem eatFrom_keeps {accepts : UInt8 → Bool} (keeps : Keeps property (nextIf (σ := σ) accepts))
    (count : Nat) (log : Array Event) (buffer : Buffer σ) (held : property buffer) :
    property (eatFrom accepts count log buffer).state := by
  fun_induction eatFrom accepts count log buffer with
  | case1 count log buffer _ after events result ih =>
    have between := keeps buffer held
    rw [result] at between
    exact ih between
  | case2 count log buffer after events result =>
    have between := keeps buffer held
    rwa [result] at between
  | case3 count log buffer error after events result =>
    have between := keeps buffer held
    rwa [result] at between

end Keeping

section Discarding

variable {property : Buffer σ → Prop}

theorem skip_keeps (discarding : Keeps property (dump (σ := σ))) :
    Keeps property (skip (σ := σ)) :=
  Keeps.bind Keeps.get fun _ => Keeps.bind discarding fun _ => Keeps.pure _

theorem reserve_keeps (bytes : Nat) : Keeps property (reserve (σ := σ) bytes) := by
  refine Keeps.bind Keeps.get fun buffer => ?_
  cases buffer.window.grants bytes with
  | true => exact Keeps.pure _
  | false => exact Keeps.throw _

theorem emit_keeps (discarding : Keeps property (dump (σ := σ))) :
    Keeps property (emit (σ := σ)) :=
  Keeps.bind Keeps.get fun _ => Keeps.bind (reserve_keeps _) fun _ =>
    Keeps.bind discarding fun _ => Keeps.bind Keeps.get fun _ =>
      Keeps.bind (Keeps.note _) fun _ => Keeps.pure _

theorem emitText_keeps (discarding : Keeps property (dump (σ := σ))) :
    Keeps property (emitText (σ := σ)) := by
  refine Keeps.bind Keeps.get fun buffer => ?_
  cases decoded : Utf8.decode buffer.window.pending with
  | error malformation =>
    simp only [decoded]
    exact Keeps.throw _
  | ok text =>
    simp only [decoded]
    exact Keeps.bind (Keeps.map (emit_keeps discarding)) fun _ => Keeps.pure _

end Discarding

end Buffer

section Calls

variable [ByteSource σ] {property : Buffer σ → Prop}

open Buffer

/-- Every call is made of reads, bytes given back and tokens discarded. -/
theorem Call.perform_keeps (reading : Keeps property (Buffer.next (σ := σ)))
    (giving : Keeps property (Buffer.back (σ := σ)))
    (discarding : Keeps property (Buffer.dump (σ := σ)))
    (call : Call) : Keeps property (call.perform (σ := σ)) := by
  induction call with
  | next => exact reading.map
  | peek => exact (peek_keeps reading giving).map
  | back => exact Keeps.bind giving fun _ => Keeps.pure _
  | dump => exact Keeps.bind discarding fun _ => Keeps.pure _
  | skip => exact (skip_keeps discarding).map
  | emit => exact (emit_keeps discarding).map
  | emitText => exact (emitText_keeps discarding).map
  | nextIf accepts => exact (nextIf_keeps accepts reading giving).map
  | eatWhile accepts =>
    exact Keeps.map fun buffer held =>
      eatFrom_keeps (nextIf_keeps accepts reading giving) 0 #[] buffer held
  | times count call ih => exact (ih.times count).map

namespace Buffer

/-- Calls are performed one after another, whatever becomes of each. -/
theorem performAll_cons (call : Call) (calls : List Call) (buffer : Buffer σ) :
    performAll (call :: calls) buffer =
      ((performAll calls (call.perform buffer).state).map
        ((call.perform buffer).outcome :: ·)).after (call.perform buffer).events := by
  have all : performAll (call :: calls) = call.perform.attempt >>= fun outcome =>
      performAll (σ := σ) calls >>= fun outcomes => pure (outcome :: outcomes) := List.mapM_cons
  rw [all]
  simp only [Operation.attempt, Operation.bind_apply, Operation.pure_apply]
  generalize performAll calls (call.perform buffer).state = rest
  obtain ⟨_ | outcomes, state, events⟩ := rest
  · rfl
  · simp only [Result.after, Result.map, Except.map, Array.append_empty]

@[simp] theorem performAll_nil (buffer : Buffer σ) :
    performAll [] buffer = ⟨.ok [], buffer, #[]⟩ := rfl

@[simp] theorem performAll_cons_state (call : Call) (calls : List Call) (buffer : Buffer σ) :
    (performAll (call :: calls) buffer).state =
      (performAll calls (call.perform buffer).state).state := by
  rw [performAll_cons]
  rfl

theorem performAll_append_state (calls later : List Call) (buffer : Buffer σ) :
    (performAll (calls ++ later) buffer).state =
      (performAll later (performAll calls buffer).state).state := by
  induction calls generalizing buffer with
  | nil => rfl
  | cons call calls ih =>
    rw [List.cons_append, performAll_cons_state, performAll_cons_state, ih]

theorem performAll_cons_outcome (call : Call) (calls : List Call) (buffer : Buffer σ) :
    (performAll (call :: calls) buffer).outcome =
      (performAll calls (call.perform buffer).state).outcome.map
        ((call.perform buffer).outcome :: ·) := by
  rw [performAll_cons]
  rfl

/-- Repeating a call is performing that many copies of it. -/
theorem times_perform (call : Call) (count : Nat) :
    Operation.times (call.perform (σ := σ)) count = performAll (List.replicate count call) := by
  induction count with
  | zero => rfl
  | succ count ih =>
    unfold performAll at ih ⊢
    rw [List.replicate_succ, List.mapM_cons, ← ih]
    rfl

/-- What one call keeps, all of them keep. -/
theorem performAll_keeps (calls : List Call)
    (keeps : ∀ call ∈ calls, Keeps property (call.perform (σ := σ))) :
    Keeps property (performAll (σ := σ) calls) := by
  intro buffer held
  induction calls generalizing buffer with
  | nil => exact held
  | cons call calls ih =>
    rw [performAll_cons_state]
    have first := keeps call List.mem_cons_self buffer held
    exact ih (fun call member => keeps call (List.mem_cons_of_mem _ member)) _ first

end Buffer

end Calls

/-- What is kept of a window when its pending token is discarded fits as before. -/
theorem Window.WellFormed.discard {window : Window} (formed : window.WellFormed) :
    window.discard.WellFormed := by
  obtain ⟨consumed_le, available_le, capacity_pos, capacity_le, held_full, granted⟩ := formed
  refine ⟨Nat.zero_le _, ?_, capacity_pos, capacity_le, held_full, granted⟩
  have shorter : window.lookahead.size ≤ window.available := by
    simp [Window.lookahead, Window.available]
  exact Nat.le_trans shorter available_le

namespace Buffer

/-- An opened buffer is empty at the start of its source. -/
theorem openWith_eq_ok {config : Config} {memory : Nat} {source : σ} {buffer : Buffer σ}
    (opened : openWith config memory source = .ok buffer) :
    buffer = ⟨Window.empty config.initial config.limit memory, source⟩ ∧
      buffer.window.WellFormed := by
  unfold openWith Config.validate at opened
  split at opened
  · cases opened
  next accepted =>
    split at accepted
    · cases accepted
    next positive =>
      have within : ∀ limit, config.limit = some limit → config.initial ≤ limit := by
        intro limit present
        rw [present] at accepted
        by_cases low : limit < config.initial
        · simp [low] at accepted
        · omega
      simp only [Window.grants, decide_eq_true_eq] at opened
      split at opened
      next granted =>
        cases opened
        refine ⟨rfl, Nat.le_refl 0, Nat.zero_le _, Nat.pos_of_ne_zero positive, within, ?_, granted⟩
        intro held
        cases held
      next => cases opened

theorem dump_keeps_wellFormed : Keeps (·.window.WellFormed) (dump (σ := σ)) := by
  rintro ⟨window, source⟩ formed
  rw [dump_eq formed.consumed_le]
  exact formed.discard

theorem back_keeps_wellFormed : Keeps (·.window.WellFormed) (back (σ := σ)) := by
  intro buffer formed
  rw [back_state]
  obtain ⟨consumed_le, available_le, capacity_pos, capacity_le, held_full, granted⟩ := formed
  exact ⟨Nat.le_trans (Nat.sub_le _ _) consumed_le, available_le, capacity_pos, capacity_le,
    held_full, granted⟩

end Buffer

namespace Window

theorem growthTarget_le_double (window : Window) :
    window.growthTarget ≤ 2 * window.capacity := by
  unfold growthTarget Size.double
  split <;> omega

theorem growthTarget_le_limit {window : Window} {bound : Nat} (limit : window.limit = some bound) :
    window.growthTarget ≤ bound := by
  simp only [growthTarget, limit]
  exact Nat.min_le_right _ _

/-- Below the ceiling and the largest size there is a larger capacity to grow to. -/
theorem capacity_lt_growthTarget {window : Window} (formed : window.WellFormed)
    (below : window.capacity < Size.max) (ceiling : window.limit ≠ some window.capacity) :
    window.capacity < window.growthTarget := by
  have positive := formed.capacity_pos
  unfold growthTarget Size.double
  cases present : window.limit with
  | none =>
    simp only
    omega
  | some bound =>
    have within := formed.capacity_le bound present
    have other : bound ≠ window.capacity := fun same =>
      ceiling (present.trans (congrArg some same))
    simp only
    omega

/-- Where a larger size is left and granted, a window grows up to its ceiling. -/
theorem roomy_or_full {window : Window} (formed : window.WellFormed)
    (below : window.capacity < Size.max) (granted : window.growthTarget < window.memory) :
    window.Roomy ∨ window.Full := by
  have stored := formed.consumed_le
  have fits := formed.available_le
  by_cases room : window.consumed < window.capacity
  · exact Or.inl (Or.inl room)
  · by_cases limit : window.limit = some window.capacity
    · exact Or.inr ⟨by omega, limit⟩
    · refine Or.inl (Or.inr ⟨?_, capacity_lt_growthTarget formed below limit, granted⟩)
      rw [Bool.eq_false_iff]
      exact fun ceiling => limit ((atCeiling_iff formed).1 ceiling)

/-- A read that finds or makes room does not stand at the limit. -/
theorem limit_ne_of_roomy {window : Window} (formed : window.WellFormed) (roomy : window.Roomy) :
    window.limit ≠ some window.consumed := by
  intro limit
  have bound := formed.capacity_le _ limit
  have stored := formed.consumed_le
  have fits := formed.available_le
  have same : window.consumed = window.capacity := by omega
  rcases roomy with room | growable
  · omega
  · have ceiling := (atCeiling_iff formed).2 (same ▸ limit)
    rw [growable.1] at ceiling
    cases ceiling

theorem Full.limit_eq {window : Window} (full : window.Full) :
    window.limit = some window.consumed := full.1.symm ▸ full.2

theorem widened_of_growable {window : Window} (used : ¬ window.consumed < window.capacity)
    (growable : window.Growable) :
    window.widened = { window with capacity := window.growthTarget } := by
  refine if_neg ?_
  simp [used, growable.1]

/-- A read that finds or makes room leaves room. -/
theorem consumed_lt_widened {window : Window} (formed : window.WellFormed)
    (roomy : window.Roomy) : window.consumed < window.widened.capacity := by
  by_cases room : window.consumed < window.capacity
  · rwa [widened_of_lt room]
  · have growable : window.Growable := roomy.resolve_left room
    rw [widened_of_growable room growable]
    have stored := formed.consumed_le
    have fits := formed.available_le
    have larger := growable.2.1
    simp only
    omega

theorem capacity_le_widened {window : Window} (formed : window.WellFormed)
    (able : window.Roomy ∨ window.Full) : window.capacity ≤ window.widened.capacity := by
  rcases able with roomy | full
  · by_cases room : window.consumed < window.capacity
    · exact Nat.le_of_eq (congrArg capacity (widened_of_lt room)).symm
    · have growable : window.Growable := roomy.resolve_left room
      rw [widened_of_growable room growable]
      exact Nat.le_of_lt growable.2.1
  · exact Nat.le_of_eq (congrArg capacity (widened_of_full formed full)).symm

theorem widened_wellFormed {window : Window} (formed : window.WellFormed)
    (able : window.Roomy ∨ window.Full) : window.widened.WellFormed := by
  rcases able with roomy | full
  · by_cases room : window.consumed < window.capacity
    · rwa [widened_of_lt room]
    · have growable : window.Growable := roomy.resolve_left room
      have ⟨below, larger, granted⟩ := growable
      rw [widened_of_growable room growable]
      refine ⟨formed.consumed_le, ?_, ?_, ?_, ?_, granted⟩
      · exact Nat.le_trans formed.available_le (Nat.le_of_lt larger)
      · exact Nat.lt_trans formed.capacity_pos larger
      · intro limit present
        exact growthTarget_le_limit present
      · intro held
        have ceiling := (atCeiling_iff formed).2 (formed.held_full held)
        rw [below] at ceiling
        cases ceiling
  · rwa [widened_of_full formed full]

/-- A byte can be stored where there is room for it. -/
theorem append_wellFormed {window : Window} (formed : window.WellFormed)
    (used : window.consumed = window.available) (room : window.consumed < window.capacity)
    (byte : UInt8) : (window.append byte).WellFormed := by
  have size : (window.stored.push byte).size = window.available + 1 := Array.size_push ..
  refine ⟨?_, ?_, formed.capacity_pos, formed.capacity_le, formed.held_full, formed.granted⟩
  · simp only [append, available] at size used ⊢
    omega
  · simp only [append, available] at size used room ⊢
    omega

end Window

namespace Buffer

theorem next_keeps_wellFormed [ByteSource σ] : Keeps (·.window.WellFormed) (next (σ := σ)) := by
  intro buffer formed
  have step := next_readsTo formed
  generalize next buffer = result at step ⊢
  cases step with
  | replayed ahead =>
    have below := (Array.getElem?_eq_some_iff.1 ahead).1
    exact ⟨below, formed.available_le, formed.capacity_pos, formed.capacity_le, formed.held_full,
      formed.granted⟩
  | cramped used tight below refusal => exact formed
  | @released window source byte used room held =>
    have unheld : ({ window with held := none } : Window).WellFormed :=
      ⟨formed.consumed_le, formed.available_le, formed.capacity_pos, formed.capacity_le,
        (fun held => nomatch held), formed.granted⟩
    exact Window.append_wellFormed unheld used room byte
  | refusedAgain used full held => exact formed
  | stored used roomy unheld answer =>
    have widened := Window.widened_wellFormed formed (Or.inl roomy)
    refine Window.append_wellFormed widened ?_ ?_ _
    · simpa only [Window.available, Window.widened_stored, Window.widened_consumed] using used
    · simpa only [Window.widened_consumed] using Window.consumed_lt_widened formed roomy
  | refused used full unheld answer =>
    exact ⟨formed.consumed_le, formed.available_le, formed.capacity_pos, formed.capacity_le,
      fun _ => full.2, formed.granted⟩
  | ended used able unheld answer => exact Window.widened_wellFormed formed able
  | failed used able unheld answer => exact Window.widened_wellFormed formed able

/-- Calls leave windows well formed, whether they fail or not. -/
theorem perform_keeps_wellFormed [ByteSource σ] (call : Call) :
    Keeps (·.window.WellFormed) (call.perform (σ := σ)) :=
  call.perform_keeps next_keeps_wellFormed back_keeps_wellFormed dump_keeps_wellFormed

end Buffer

end Lexing
