import Lexing.Proofs.Buffer.Refusal
import Lexing.Proofs.Machine.Defects

/-!
# What calls that fail leave

A read that fails leaves the stored bytes, the token and its start as they were (`FailedRead`). At
most three things change: the source was polled once, a byte that was refused at the ceiling is
held, and the capacity was doubled before the source reported a fault. Calls that look at one byte
fail like the read; eating fails like the read behind the bytes that it took, which stay taken.
Giving a byte back and handing out a text that is malformed leave everything, and no other call
fails (`Call.Leaves`). As elsewhere growth is granted to every read.
-/

set_option autoImplicit false

namespace Lexing

namespace Buffer

variable {σ : Type} [ByteSource σ]

inductive FailedRead : LexError → Buffer σ → Buffer σ → Prop
  /-- A byte does not fit at the ceiling. It was held before, or the source was polled for it. -/
  | refused {window : Window} {source after : σ} {byte : UInt8} (full : window.Full)
      (follows : window.held = some byte ∧ after = source ∨
        window.held = none ∧ ByteSource.poll source = (.ok (.byte byte), after)) :
      FailedRead (.allocationFailure (Size.double window.capacity)) ⟨window, source⟩
        ⟨{ window with held := some byte }, after⟩
  /-- The source reports a fault, perhaps after room was made for a byte. -/
  | faulted {window : Window} {source after : σ} {fault : Fault} {capacity : Nat}
      (unheld : window.held = none) (answer : ByteSource.poll source = (.error fault, after))
      (room : capacity = window.capacity ∨ window.consumed = window.capacity ∧
        window.capacity < window.growthTarget ∧ capacity = window.growthTarget) :
      FailedRead (.source fault) ⟨window, source⟩ ⟨{ window with capacity }, after⟩

/-- The next byte cannot be read, and this is left. -/
structure ReadFails (error : LexError) (before after : Buffer σ) : Prop where
  read : ∃ events, next before = ⟨.error error, after, events⟩
  effect : FailedRead error before after

end Buffer

variable {σ : Type} [ByteSource σ]

/-- How a call can fail, and what it leaves then. -/
def Call.Leaves (error : LexError) (before after : Buffer σ) : Call → Prop
  | .next | .peek | .nextIf _ => Buffer.ReadFails error before after
  | .eatWhile accepts => ∃ bytes last, Buffer.Eats accepts before bytes last ∧
      Buffer.ReadFails error last after ∧
      after.window.pending.toList = before.window.pending.toList ++ bytes ∧
      after.window.start = before.window.start
  | .back => error = .backupUnderflow ∧ after = before
  | .emitText => ∃ malformation, error = .copyFailure before.window.consumed malformation ∧
      after = before
  | .dump | .skip | .emit | .times _ _ => False

/-- A window is widened where it is used up, by one doubling up to the ceiling. -/
theorem Window.widened_cases {window : Window} (formed : window.WellFormed) (able : window.Able) :
    window.widened = window ∨ window.consumed = window.capacity ∧
      window.capacity < window.growthTarget ∧
      window.widened = { window with capacity := window.growthTarget } := by
  have stored := formed.consumed_le
  have fits := formed.available_le
  rcases able with roomy | full
  · by_cases below : window.consumed < window.capacity
    · exact Or.inl (widened_of_lt below)
    · have growable := roomy.resolve_left below
      have widened := widened_of_growable below growable
      exact Or.inr ⟨by omega, growable.2.1, widened⟩
  · exact Or.inl (widened_of_full formed full)

namespace Buffer

variable {buffer after : Buffer σ} {error : LexError} {events : Array Event}

/-- The failures among all that a read can do. -/
theorem readFails_of_next (formed : buffer.window.WellFormed) (able : buffer.window.Able)
    (fails : next buffer = ⟨.error error, after, events⟩) : ReadFails error buffer after := by
  refine ⟨⟨events, fails⟩, ?_⟩
  have step := next_readsTo formed
  rw [fails] at step
  cases step with
  | cramped used tight below refusal =>
    rcases able with roomy | full
    · exact absurd roomy tight
    · exact absurd full below
  | @refusedAgain window source byte used full held =>
    have same : { window with held := some byte } = window := by rw [← held]
    have effect : FailedRead _ ⟨window, source⟩ ⟨{ window with held := some byte }, source⟩ :=
      .refused full (Or.inl ⟨held, rfl⟩)
    rwa [same] at effect
  | refused used full unheld answer => exact .refused full (Or.inr ⟨unheld, answer⟩)
  | @failed window source after fault used able unheld answer =>
    rcases Window.widened_cases formed able with same | ⟨filled, larger, grown⟩
    · rw [same]
      exact .faulted unheld answer (Or.inl rfl)
    · rw [grown]
      exact .faulted unheld answer (Or.inr ⟨filled, larger, rfl⟩)

/-- A read that fails leaves the token and its start. -/
theorem FailedRead.keeps_token (failed : FailedRead error buffer after) :
    after.window.pending = buffer.window.pending ∧ after.window.start = buffer.window.start := by
  cases failed with
  | refused full follows => exact ⟨rfl, rfl⟩
  | faulted unheld answer room => exact ⟨rfl, rfl⟩

/-- Bytes that are read one after another extend the token. -/
theorem Eats.extends_token {accepts : UInt8 → Bool} {bytes : List UInt8}
    (eats : Eats accepts buffer bytes after) (formed : buffer.window.WellFormed) :
    after.window.pending.toList = buffer.window.pending.toList ++ bytes ∧
      after.window.start = buffer.window.start := by
  induction eats with
  | none => exact ⟨(List.append_nil _).symm, rfl⟩
  | @one before between after byte bytes events accepted read others ih =>
    have kept := next_keeps_wellFormed before formed
    rw [read] at kept
    obtain ⟨token, start⟩ := next_extends_token formed read
    obtain ⟨pending, startsAt⟩ := ih kept
    refine ⟨?_, startsAt.trans start⟩
    rw [pending, token, List.append_assoc, List.singleton_append]

/-- What every call leaves that fails. -/
theorem perform_leaves (formed : buffer.window.WellFormed) {call : Call}
    (able : ∀ read ∈ call.attempts buffer, read.window.Able)
    (fails : (call.perform buffer).outcome = .error error) :
    call.Leaves error buffer (call.perform buffer).state := by
  have may := call.mayFail_of_error formed fails
  cases call with
  | next =>
    obtain ⟨events, failed⟩ := Operation.eq_of_map_error fails
    exact readFails_of_next formed (able buffer List.mem_cons_self) failed
  | peek =>
    obtain ⟨events, failed⟩ := Operation.eq_of_map_error fails
    have failed := (peek_eq_error formed).1 failed
    exact readFails_of_next formed (able buffer List.mem_cons_self) failed
  | nextIf accepts =>
    obtain ⟨events, failed⟩ := Operation.eq_of_map_error fails
    have failed := (nextIf_eq_error accepts formed).1 failed
    exact readFails_of_next formed (able buffer List.mem_cons_self) failed
  | eatWhile accepts =>
    obtain ⟨events, failed⟩ := Operation.eq_of_map_error fails
    obtain ⟨bytes, last, reported, eats, attempted, failed⟩ := eatFrom_fails formed failed
    have kept := eats.keeps next_keeps_wellFormed formed
    have failure := readFails_of_next kept (able last attempted) failed
    obtain ⟨pending, start⟩ := eats.extends_token formed
    obtain ⟨token, startsAt⟩ := failure.effect.keeps_token
    have extended := (congrArg Array.toList token).trans pending
    exact ⟨bytes, last, eats, failure, extended, startsAt.trans start⟩
  | back =>
    refine ⟨may, ?_⟩
    by_cases none : buffer.window.consumed = 0
    · rw [Call.perform, Operation.bind_apply, back_of_none none]
    · rw [Call.perform, Operation.bind_apply, back_of_pending none] at fails
      cases fails
  | emitText =>
    rw [Call.perform, Operation.map_apply, emitText_eq formed] at fails ⊢
    cases decoded : Utf8.decode buffer.window.pending with
    | error malformation =>
      rw [decoded] at fails
      cases fails
      exact ⟨malformation, rfl, rfl⟩
    | ok text =>
      rw [decoded] at fails
      cases fails
  | _ => cases may

/-- Calls that fail leave a buffer as it was.

However a buffer over any source has been used, a call on it that fails while growth is granted
fails in one of the ways of its kind, and leaves what `Call.Leaves` says: all of it for a byte given
back and for a text; all but the held byte, the capacity and one poll for the calls that look at one
byte; and for eating, what reading the accepted bytes one by one and then failing to read another
leaves. -/
theorem failure_leaves {source : σ} {config : Config} {memory : Nat} {first : Buffer σ}
    (opened : openWith config memory source = .ok first) (used : Used first buffer) {call : Call}
    (able : ∀ read ∈ call.attempts buffer, read.window.Able)
    (fails : (call.perform buffer).outcome = .error error) :
    call.Leaves error buffer (call.perform buffer).state :=
  perform_leaves (used.bounded opened).formed able fails

/-- Two bytes are eaten. The read for a third makes room and then fails; the two stay pending. -/
theorem failure_leaves_eaten :
    let fault : Fault := ⟨"Other", "unplugged"⟩
    let script : Script := ⟨[.ok (.byte 97), .ok (.byte 97), .error fault]⟩
    let buffer : Buffer Script := ⟨Window.empty 1 none (1 <<< 48), script⟩
    let call : Call := .eatWhile (· == 97)
    openWith ⟨1, none⟩ (1 <<< 48) script = .ok buffer ∧
      (∀ read ∈ call.attempts buffer, read.window.Able) ∧
      (call.perform buffer).outcome = .error (.source fault) ∧
      (call.perform buffer).state = ⟨⟨#[97, 97], 2, 4, none, 1 <<< 48, 0, none⟩, ⟨[]⟩⟩ ∧
      call.Leaves (.source fault) buffer (call.perform buffer).state := by
  intro fault script buffer call
  let stands (stored : Array UInt8) (capacity : Nat) (answers : List (Except Fault Next)) :
      Buffer Script := ⟨⟨stored, stored.size, capacity, none, 1 <<< 48, 0, none⟩, ⟨answers⟩⟩
  have opened : openWith ⟨1, none⟩ (1 <<< 48) script = .ok buffer := rfl
  have able : ∀ read ∈ call.attempts buffer, read.window.Able := by decide +kernel
  have first : nextIf (· == 97) buffer =
      ⟨.ok (some 97), stands #[97] 1 [.ok (.byte 97), .error fault], #[]⟩ := rfl
  have second : nextIf (· == 97) (stands #[97] 1 [.ok (.byte 97), .error fault]) =
      ⟨.ok (some 97), stands #[97, 97] 2 [.error fault], #[.grew 1 2]⟩ := rfl
  have third : nextIf (· == 97) (stands #[97, 97] 2 [.error fault]) =
      ⟨.error (.source fault), stands #[97, 97] 4 [], #[.grew 2 4]⟩ := rfl
  have eaten : call.perform buffer =
      ⟨.error (.source fault), stands #[97, 97] 4 [], #[.grew 1 2, .grew 2 4]⟩ := by
    rw [Call.perform, Operation.map_apply, eatWhile_of_some first, eatWhile_of_some second,
      eatWhile_of_error third]
    rfl
  have fails : (call.perform buffer).outcome = .error (.source fault) := by rw [eaten]
  have left : (call.perform buffer).state = stands #[97, 97] 4 [] := by rw [eaten]
  exact ⟨opened, able, fails, left, failure_leaves opened .unused able fails⟩

end Buffer

end Lexing
