import Lexing.Proofs.Buffer.Looking
import Lexing.Proofs.Buffer.Tracking
import Lexing.Proofs.Source.Stream

/-!
# Buffers over a stream

Over a source that streams given bytes, with ends and faults at any time, a buffer still works on
these bytes in order: from the start of the token on they are what is stored, what is held and what
is to come (`Carries`). So every operation can be told by the bytes that it takes into the token
(`next_ensures` and what follows it), and the only failures of reading are faults of the source and
bytes refused at the ceiling (`Excused`), as long as growth is granted.
-/

set_option autoImplicit false

namespace Lexing

open ByteSource (Streams)
open Operation (Keeps Ensures)

variable {σ : Type} {bytes token : List UInt8} {limit : Option Nat} {start : Nat} {byte : UInt8}

/-- Whether a read can fail with it although growth is granted: the source reports a fault, or a
byte is refused at the ceiling. -/
def LexError.Excused (limit : Option Nat) : LexError → Prop
  | .source _ => True
  | .allocationFailure requested => ∃ ceiling, limit = some ceiling ∧ requested = Size.double ceiling
  | _ => False

namespace Buffer

/-- The bytes from the start of the token on are what is stored, what is held and what the source
is to hand out, and growth is granted to all of them. -/
structure Carries [ByteSource σ] (bytes : List UInt8) (limit : Option Nat) (start : Nat)
    (buffer : Buffer σ) : Prop where
  formed : buffer.window.WellFormed
  limit : buffer.window.limit = limit
  granted : GrantsGrowth buffer.window.memory buffer.window.limit bytes.length
  startsAt : buffer.window.start = start.toUInt64
  start_le : start ≤ bytes.length
  ahead : ∃ rest, bytes.drop start =
    buffer.window.stored.toList ++ buffer.window.held.toList ++ rest ∧ Streams rest buffer.source

/-- The buffer works on the bytes, with this token pending. -/
def Stands [ByteSource σ] (bytes : List UInt8) (limit : Option Nat) (start : Nat)
    (token : List UInt8) (buffer : Buffer σ) : Prop :=
  Carries bytes limit start buffer ∧ buffer.window.pending.toList = token

def Facing (byte : UInt8) (buffer : Buffer σ) : Prop :=
  buffer.window.stored[buffer.window.consumed]? = some byte

def Stopped [ByteSource σ] (bytes : List UInt8) (limit : Option Nat) (error : LexError)
    (buffer : Buffer σ) : Prop :=
  error.Excused limit ∧ ∃ start, Carries bytes limit start buffer

variable [ByteSource σ] {buffer : Buffer σ}

theorem Carries.available_le (carries : Carries bytes limit start buffer) :
    start + buffer.window.available ≤ bytes.length := by
  obtain ⟨rest, ahead, -⟩ := carries.ahead
  have lengths := congrArg List.length ahead
  have within := carries.start_le
  simp only [List.length_drop, List.length_append, Array.length_toList] at lengths
  simp only [Window.available]
  omega

theorem Carries.roomy_or_full (fits : bytes.length < Size.max)
    (carries : Carries bytes limit start buffer)
    (used : buffer.window.consumed = buffer.window.available) :
    buffer.window.Roomy ∨ buffer.window.Full := by
  have stored := carries.available_le
  exact carries.granted.roomy_or_full carries.formed fits (by omega) used

/-- The source alone has moved on. -/
theorem Carries.with_widened {window : Window} {source after : σ} {rest : List UInt8}
    (carries : Carries bytes limit start ⟨window, source⟩) (formed : window.widened.WellFormed)
    (ahead : bytes.drop start = window.stored.toList ++ window.held.toList ++ rest)
    (streams : Streams rest after) : Carries bytes limit start ⟨window.widened, after⟩ where
  formed := formed
  limit := window.widened_limit.trans carries.limit
  granted := by simpa using carries.granted
  startsAt := window.widened_start.trans carries.startsAt
  start_le := carries.start_le
  ahead := ⟨rest, by simpa using ahead, streams⟩

theorem Carries.widened {window : Window} {source after : σ} {answer : Except Fault Next}
    (carries : Carries bytes limit start ⟨window, source⟩) (formed : window.widened.WellFormed)
    (answered : ByteSource.poll source = (answer, after)) (nothing : tellsNoByte answer = true) :
    Carries bytes limit start ⟨window.widened, after⟩ := by
  obtain ⟨rest, ahead, streams⟩ := carries.ahead
  exact carries.with_widened formed ahead (streams.of_other answered nothing)

/-- A read takes the next byte into the token, or comes to an end and takes none. -/
theorem next_ensures (fits : bytes.length < Size.max) :
    Ensures (Stands bytes limit start token) (next (σ := σ))
      (fun next => Stands bytes limit start (token ++ next.byte?.toList)) (Stopped bytes limit) := by
  rintro buffer ⟨carries, pending⟩
  have formed := next_keeps_wellFormed buffer carries.formed
  obtain ⟨rest, ahead, streams⟩ := carries.ahead
  have step := next_readsTo carries.formed
  generalize next buffer = result at formed step ⊢
  cases step with
  | @replayed window source byte stored =>
    refine ⟨{ carries with formed }, ?_⟩
    rw [Window.pending_advance stored]
    exact congrArg (· ++ [byte]) pending
  | cramped used tight below refusal =>
    exact ((carries.roomy_or_full fits used).elim tight below).elim
  | @released window source byte used room held =>
    refine ⟨{ carries with formed, ahead := ⟨rest, ?_, streams⟩ }, ?_⟩
    · rw [ahead, held]
      simp [Window.append]
    · have unheld : ({ window with held := none } : Window).consumed =
          ({ window with held := none } : Window).available := used
      rw [Window.pending_append unheld]
      exact congrArg (· ++ [byte]) pending
  | @refusedAgain window source byte used full held =>
    exact ⟨⟨window.capacity, carries.limit.symm.trans full.2, rfl⟩, start, carries⟩
  | @stored window source after byte used roomy unheld answer =>
    obtain ⟨others, rfl, further⟩ := streams.of_byte answer
    have unheld : window.held = none := unheld
    refine ⟨?_, ?_⟩
    · refine ⟨formed, ?_, ?_, ?_, carries.start_le, others, ?_, further⟩
      · simpa [Window.append] using carries.limit
      · simpa [Window.append] using carries.granted
      · simpa [Window.append] using carries.startsAt
      · rw [ahead]
        simp [Window.append, unheld]
    · have used : window.widened.consumed = window.widened.available := by
        simpa [Window.available] using used
      rw [Window.pending_append used]
      refine congrArg (· ++ [byte]) (Eq.trans ?_ pending)
      simp [Window.pending]
  | @refused window source after byte used full unheld answer =>
    obtain ⟨others, rfl, further⟩ := streams.of_byte answer
    have unheld : window.held = none := unheld
    refine ⟨⟨window.capacity, carries.limit.symm.trans full.2, rfl⟩, start,
      { carries with formed, ahead := ⟨others, ?_, further⟩ }⟩
    rw [ahead]
    simp [unheld]
  | @ended window source after used able unheld answer =>
    refine ⟨carries.widened formed answer rfl, ?_⟩
    simpa [Window.pending, Next.byte?] using pending
  | failed used able unheld answer =>
    exact ⟨trivial, start, carries.widened formed answer rfl⟩

/-- The first byte of the lookahead is what a read takes. -/
theorem next_ensures_facing {failing : LexError → Buffer σ → Prop} :
    Ensures (fun buffer => Stands bytes limit start token buffer ∧ Facing byte buffer)
      (next (σ := σ))
      (fun next left => next = .byte byte ∧ Stands bytes limit start (token ++ [byte]) left)
      failing := by
  rintro buffer ⟨⟨carries, pending⟩, facing⟩
  have formed := next_keeps_wellFormed buffer carries.formed
  have step : ReadsTo buffer _ := .replayed facing
  rw [step.next_eq carries.formed] at formed ⊢
  refine ⟨rfl, { carries with formed }, ?_⟩
  rw [Window.pending_advance facing, pending]

theorem back_ensures {failing : LexError → Buffer σ → Prop} :
    Ensures (Stands bytes limit start (token ++ [byte])) (back (σ := σ))
      (fun _ left => Stands bytes limit start token left ∧ Facing byte left) failing := by
  rintro buffer ⟨carries, pending⟩
  have formed := back_keeps_wellFormed buffer carries.formed
  obtain ⟨consumed, given, ahead⟩ := Window.ahead_of_retreat carries.formed.consumed_le pending
  rw [back_state] at formed
  rw [back_of_pending (by omega)]
  refine ⟨⟨{ carries with formed }, given⟩, ?_⟩
  change buffer.window.stored[buffer.window.consumed - 1]? = some byte
  rwa [consumed, Nat.add_sub_cancel]

/-- A byte that was looked at is ahead. -/
theorem peek_ensures (fits : bytes.length < Size.max) :
    Ensures (Stands bytes limit start token) (peek (σ := σ))
      (fun next left => Stands bytes limit start token left ∧
        ∀ byte, next = .byte byte → Facing byte left) (Stopped bytes limit) := by
  refine (next_ensures fits).bind fun next => ?_
  cases next with
  | eos =>
    refine Ensures.pure fun buffer stands => ⟨?_, nofun⟩
    simpa [Next.byte?] using stands
  | byte byte =>
    refine (back_ensures.orThrow _).bind fun _ => Ensures.pure fun buffer stands => ⟨stands.1, ?_⟩
    rintro _ ⟨⟩
    exact stands.2

/-- A byte is taken only if it is accepted. -/
theorem nextIf_ensures (fits : bytes.length < Size.max) (accepts : UInt8 → Bool) :
    Ensures (Stands bytes limit start token) (nextIf (σ := σ) accepts)
      (fun byte? left => Stands bytes limit start (token ++ byte?.toList) left ∧
        ∀ byte, byte? = some byte → accepts byte = true) (Stopped bytes limit) := by
  refine (next_ensures fits).bind fun next => ?_
  cases next with
  | eos => exact Ensures.pure fun buffer stands => ⟨stands, nofun⟩
  | byte byte =>
    by_cases accepted : accepts byte = true
    · simp only [if_pos accepted]
      refine Ensures.pure fun buffer stands => ⟨stands, ?_⟩
      rintro _ ⟨⟩
      exact accepted
    · simp only [if_neg accepted]
      refine back_ensures.bind fun _ => Ensures.pure fun buffer stands => ⟨?_, nofun⟩
      simpa using stands.1

theorem nextIf_ensures_facing {accepts : UInt8 → Bool} {failing : LexError → Buffer σ → Prop}
    (accepted : accepts byte = true) :
    Ensures (fun buffer => Stands bytes limit start token buffer ∧ Facing byte buffer)
      (nextIf (σ := σ) accepts)
      (fun byte? left => byte? = some byte ∧ Stands bytes limit start (token ++ [byte]) left)
      failing := by
  refine next_ensures_facing.bind fun next => ?_
  rintro buffer ⟨rfl, stands⟩
  simp only [if_pos accepted]
  exact ⟨rfl, stands⟩

/-- Reading on takes the bytes that it counts, all of them accepted. -/
theorem eatWhile_ensures (fits : bytes.length < Size.max) (accepts : UInt8 → Bool) :
    Ensures (Stands bytes limit start token) (eatWhile (σ := σ) accepts)
      (fun count left => ∃ taken, taken.length = count ∧ taken.all accepts ∧
        Stands bytes limit start (token ++ taken) left) (Stopped bytes limit) := by
  intro buffer stands
  induction room : buffer.window.roomLeft using Nat.strongRecOn generalizing buffer token with
  | _ room ih =>
    subst room
    have taking := nextIf_ensures fits accepts buffer stands
    rcases result : nextIf accepts buffer with ⟨error | _ | byte, after, events⟩
    · rw [result] at taking
      rw [eatWhile_of_error result]
      exact taking
    · rw [result] at taking
      rw [eatWhile_of_none result]
      exact ⟨[], rfl, rfl, taking.1⟩
    · rw [result] at taking
      obtain ⟨stands, accepted⟩ := taking
      have more := ih _ (roomLeft_lt_of_nextIf result) after stands rfl
      rw [eatWhile_of_some result]
      generalize eatWhile accepts after = rest at more ⊢
      obtain ⟨error | count, left, reported⟩ := rest
      · exact more
      · obtain ⟨taken, length, all, stands⟩ := more
        refine ⟨byte :: taken, ?_, ?_, ?_⟩
        · rw [List.length_cons, length, Nat.add_comm]
        · rw [List.all_cons, accepted byte rfl, all]
          rfl
        · simpa using stands

/-- Where the first byte of the lookahead is accepted, reading on takes it first. -/
theorem eatWhile_ensures_facing (fits : bytes.length < Size.max) {accepts : UInt8 → Bool}
    (accepted : accepts byte = true) :
    Ensures (fun buffer => Stands bytes limit start token buffer ∧ Facing byte buffer)
      (eatWhile (σ := σ) accepts)
      (fun _ left => ∃ taken, taken.all accepts ∧
        Stands bytes limit start (token ++ byte :: taken) left) (Stopped bytes limit) := by
  rw [eatWhile_eq]
  refine (nextIf_ensures_facing accepted).bind fun byte? => ?_
  rintro buffer ⟨rfl, stands⟩
  refine (eatWhile_ensures fits accepts).map (fun count left taken => ?_) buffer stands
  obtain ⟨taken, -, all, stands⟩ := taken
  exact ⟨taken, all, by simpa using stands⟩

theorem Carries.discard (carries : Carries bytes limit start buffer) :
    Carries bytes limit (start + buffer.window.consumed) ⟨buffer.window.discard, buffer.source⟩ := by
  have stored : buffer.window.consumed ≤ buffer.window.stored.toList.length := by
    simpa [Window.available] using carries.formed.consumed_le
  have within := carries.available_le
  have consumed := carries.formed.consumed_le
  obtain ⟨rest, ahead, streams⟩ := carries.ahead
  refine ⟨carries.formed.discard, carries.limit, carries.granted, ?_, by omega, rest, ?_, streams⟩
  · change buffer.window.start + buffer.window.consumed.toUInt64 = _
    rw [carries.startsAt]
    exact (UInt64.ofNat_add _ _).symm
  · rw [← List.drop_drop, ahead, List.append_assoc, List.drop_append_of_le_length stored,
      ← List.append_assoc]
    exact congrArg (· ++ _ ++ rest) (Window.lookahead_toList buffer.window).symm

/-- What is left when the pending token is discarded. -/
theorem Stands.discard (stands : Stands bytes limit start token buffer) :
    Stands bytes limit (start + token.length) [] ⟨buffer.window.discard, buffer.source⟩ := by
  obtain ⟨carries, rfl⟩ := stands
  rw [Window.length_pending carries.formed.consumed_le]
  exact ⟨carries.discard, by rw [Window.pending_toList]; rfl⟩

theorem skip_ensures {failing : LexError → Buffer σ → Prop} :
    Ensures (Stands bytes limit start token) (skip (σ := σ))
      (fun _ => Stands bytes limit (start + token.length) []) failing := by
  intro buffer stands
  rw [skip_eq stands.1.formed.consumed_le]
  exact stands.discard

/-- A token that is text is handed out. -/
theorem emitText_ensures {text : String} {failing : LexError → Buffer σ → Prop}
    (decoded : Utf8.decode token.toArray = .ok text) :
    Ensures (Stands bytes limit start token) (emitText (σ := σ))
      (fun found left => found = text ∧ Stands bytes limit (start + token.length) [] left)
      failing := by
  intro buffer stands
  have whole : buffer.window.pending = token.toArray := by rw [← stands.2]
  rw [emitText_eq stands.1.formed, whole, decoded]
  exact ⟨rfl, stands.discard⟩

section Keeping

variable (fits : bytes.length < Size.max)

include fits in
theorem next_carries : Keeps (fun buffer => ∃ start, Carries bytes limit start buffer)
    (next (σ := σ)) := by
  rintro buffer ⟨start, carries⟩
  have read := next_ensures fits buffer ⟨carries, rfl⟩
  generalize next buffer = result at read ⊢
  obtain ⟨error | next, left, events⟩ := result
  · exact read.2
  · exact ⟨start, read.1⟩

theorem back_carries : Keeps (fun buffer => ∃ start, Carries bytes limit start buffer)
    (back (σ := σ)) := by
  rintro buffer ⟨start, carries⟩
  have formed := back_keeps_wellFormed buffer carries.formed
  rw [back_state] at formed ⊢
  exact ⟨start, { carries with formed }⟩

theorem dump_carries : Keeps (fun buffer => ∃ start, Carries bytes limit start buffer)
    (dump (σ := σ)) := by
  rintro ⟨window, source⟩ ⟨start, carries⟩
  rw [dump_eq carries.formed.consumed_le]
  exact ⟨_, carries.discard⟩

include fits in
/-- Every call keeps working on the bytes. -/
theorem perform_carries (call : Call) :
    Keeps (fun buffer => ∃ start, Carries bytes limit start buffer) (call.perform (σ := σ)) :=
  call.perform_keeps (next_carries fits) back_carries dump_carries

end Keeping

/-- A buffer that is opened has all bytes of the stream ahead. -/
theorem carries_of_openWith {config : Config} {memory : Nat} {source : σ}
    (streams : Streams bytes source)
    (granted : GrantsGrowth memory config.limit bytes.length)
    (opened : openWith config memory source = .ok buffer) : Carries bytes config.limit 0 buffer := by
  obtain ⟨rfl, formed⟩ := openWith_eq_ok opened
  exact ⟨formed, rfl, granted, rfl, Nat.zero_le _, bytes, rfl, streams⟩

end Buffer

end Lexing
