import Lexing.Proofs.Buffer.Alike
import Lexing.Proofs.Buffer.Looking
import Lexing.Proofs.Source.Ends

/-!
# What reads are answered

What a buffer yields is known before it is read: the bytes that were given back, then the one that
is held, then what the source answers (`answers`). A read that is not refused growth is given the
first of these answers and leaves the others, or all of them if it is a byte at the ceiling
(`next_receives`). Giving bytes back and discarding change what is pending, and no answer of those
to come (`backs_eq`, `discard_state`).
-/

set_option autoImplicit false

namespace Lexing

open ByteSource (KeepsEnd)

def Call.IsDiscard : Call → Prop
  | .dump | .skip | .emit | .emitText => True
  | _ => False

def Value.ofAnswer : Except Fault Next → Except LexError Value
  | .ok answer => .ok (.next answer)
  | .error fault => .error (.source fault)

namespace Window

variable {window : Window} {byte : UInt8}

/-- The bytes that are read before the source is asked: those that were given back and the one that
is held. -/
def ahead (window : Window) : List UInt8 := window.lookahead.toList ++ window.held.toList

theorem lookahead_of_stored (first : window.stored[window.consumed]? = some byte) :
    window.lookahead.toList = byte :: window.advance.lookahead.toList := by
  rw [← Array.getElem?_toList] at first
  have front := List.drop_eq_getElem?_toList_append (l := window.stored.toList)
    (i := window.consumed)
  rw [first] at front
  rw [lookahead_toList, lookahead_toList, front]
  rfl

theorem ahead_of_stored (first : window.stored[window.consumed]? = some byte) :
    window.ahead = byte :: window.advance.ahead := by
  rw [ahead, ahead, lookahead_of_stored first]
  rfl

theorem lookahead_of_used (used : window.consumed = window.available) :
    window.lookahead.toList = [] := by
  rw [lookahead_toList]
  exact List.drop_of_length_le (Nat.le_of_eq used.symm)

theorem ahead_of_used (used : window.consumed = window.available) :
    window.ahead = window.held.toList := by
  rw [ahead, lookahead_of_used used, List.nil_append]

theorem ahead_of_unheld (used : window.consumed = window.available) (unheld : window.held = none) :
    window.ahead = [] := by
  rw [ahead_of_used used, unheld]
  rfl

/-- A byte that is stored is not ahead. -/
theorem ahead_append (used : window.consumed = window.available) (byte : UInt8) :
    (window.append byte).ahead = window.held.toList := by
  have still : (window.append byte).consumed = (window.append byte).available := by
    simp only [append, available, Array.size_push]
    exact congrArg (· + 1) used
  exact ahead_of_used still

/-- What is ahead does not depend on the token before it. -/
theorem ahead_discard (window : Window) : window.discard.ahead = window.ahead := by
  rw [ahead, ahead, lookahead_toList]
  rfl

/-- The start, the ceiling and the memory are the same, and there is room made for a byte. -/
structure Widens (before after : Window) : Prop where
  start : after.start = before.start
  limit : after.limit = before.limit
  memory : after.memory = before.memory
  capacity : after.capacity = before.widened.capacity

/-- Where a window need not be widened its capacity is the same. -/
theorem Widens.of_eq {before after : Window} (widened : before.widened = before)
    (start : after.start = before.start) (limit : after.limit = before.limit)
    (memory : after.memory = before.memory) (capacity : after.capacity = before.capacity) :
    before.Widens after :=
  ⟨start, limit, memory, by rw [widened, capacity]⟩

theorem Widens.room {before after : Window} (widens : before.Widens after) :
    after.capacity = before.widened.capacity ∧ after.limit = before.widened.limit ∧
      after.memory = before.widened.memory := by
  rw [widened_limit, widened_memory]
  exact ⟨widens.capacity, widens.limit, widens.memory⟩

theorem widens_widened (window : Window) : window.Widens window.widened :=
  ⟨window.widened_start, window.widened_limit, window.widened_memory, rfl⟩

end Window

namespace Buffer

variable {σ : Type} [ByteSource σ] {buffer : Buffer σ}

/-- What so many reads are answered where there is room for as many bytes. -/
def answers (buffer : Buffer σ) (count : Nat) : List (Except Fault Next) :=
  byteAnswers (buffer.window.ahead.take count) ++
    ByteSource.answers buffer.source (count - buffer.window.ahead.length)

theorem answers_of_ahead {window : Window} {source : σ} {byte : UInt8} {more : List UInt8}
    (ahead : window.ahead = byte :: more) (count : Nat) :
    answers ⟨window, source⟩ (count + 1) =
      .ok (.byte byte) :: (byteAnswers (more.take count) ++
        ByteSource.answers source (count - more.length)) := by
  rw [answers, ahead, List.take_succ_cons, List.length_cons, Nat.succ_sub_succ]
  rfl

theorem answers_of_none {window : Window} {source : σ} (none : window.ahead = []) (count : Nat) :
    answers ⟨window, source⟩ count = ByteSource.answers source count := by
  rw [answers, none, List.take_nil, List.length_nil, Nat.sub_zero]
  rfl

theorem answers_zero (buffer : Buffer σ) : answers buffer 0 = [] := by
  rw [answers, List.take_zero, Nat.zero_sub]
  rfl

/-- A byte that is given back is answered before all else. -/
theorem answers_retreat {window : Window} {source : σ} {token : List UInt8} {byte : UInt8}
    (stored : window.consumed ≤ window.available)
    (pending : window.pending.toList = token ++ [byte]) (count : Nat) :
    answers ⟨window.retreat, source⟩ (count + 1) =
      .ok (.byte byte) :: answers ⟨window, source⟩ count := by
  obtain ⟨first, same⟩ := Window.advance_of_retreat stored pending
  rw [answers_of_ahead (Window.ahead_of_stored first), same]
  rfl

/-- No answer depends on the token. -/
theorem answers_discard (window : Window) (source : σ) (count : Nat) :
    answers ⟨window.discard, source⟩ count = answers ⟨window, source⟩ count := by
  rw [answers, answers, Window.ahead_discard]

/-- A source that keeps its end has no other answers after it. -/
theorem answers_of_end (keeps : KeepsEnd buffer.source) (first : answers buffer 1 = [.ok .eos])
    (count : Nat) : answers buffer count = List.replicate count (.ok .eos) := by
  obtain ⟨window, source⟩ := buffer
  cases ahead : window.ahead with
  | cons byte more =>
    rw [answers_of_ahead ahead] at first
    cases first
  | nil =>
    rw [answers_of_none ahead] at first ⊢
    exact keeps.answers_eq first count

/-- What a read makes of an answer: a byte is refused if the token is as long as the ceiling. -/
def received (window : Window) : Except Fault Next → Except LexError Next
  | .ok (.byte byte) =>
    if window.limit = some window.consumed then
      .error (.allocationFailure (Size.double window.consumed))
    else .ok (.byte byte)
  | .ok .eos => .ok .eos
  | .error fault => .error (.source fault)

/-- How many answers a read uses up: a byte that is refused is still to come. -/
def spends (window : Window) : Except Fault Next → Nat
  | .ok (.byte _) => if window.limit = some window.consumed then 0 else 1
  | _ => 1

def taken : Except LexError Next → List UInt8
  | .ok (.byte byte) => [byte]
  | _ => []

/-- What a read does that is given an answer. -/
structure Receives (answer : Except Fault Next) (buffer : Buffer σ)
    (result : Result LexError (Buffer σ) Next) : Prop where
  first : answers buffer 1 = [answer]
  others : ∀ count, answers buffer (count + spends buffer.window answer) =
    List.replicate (spends buffer.window answer) answer ++ answers result.state count
  outcome : result.outcome = received buffer.window answer
  token : result.state.window.pending.toList =
    buffer.window.pending.toList ++ taken result.outcome
  widens : buffer.window.Widens result.state.window

namespace Receives

variable {after : Buffer σ} {events : Array Event} {byte : UInt8}

/-- A byte that there is room for. -/
theorem of_byte (unlimited : buffer.window.limit ≠ some buffer.window.consumed)
    (following : ∀ count, answers buffer (count + 1) = .ok (.byte byte) :: answers after count)
    (token : after.window.pending.toList = buffer.window.pending.toList ++ [byte])
    (widens : buffer.window.Widens after.window) :
    Receives (.ok (.byte byte)) buffer ⟨.ok (.byte byte), after, events⟩ := by
  have one : spends buffer.window (.ok (.byte byte)) = 1 := if_neg unlimited
  refine ⟨?_, ?_, (if_neg unlimited).symm, token, widens⟩
  · rw [following 0, answers_zero]
  · rw [one]
    exact following

/-- A byte at the ceiling. -/
theorem of_refused (full : buffer.window.Full) (first : answers buffer 1 = [.ok (.byte byte)])
    (same : ∀ count, answers buffer count = answers after count)
    (token : after.window.pending = buffer.window.pending)
    (widens : buffer.window.Widens after.window) :
    Receives (.ok (.byte byte)) buffer
      ⟨.error (.allocationFailure (Size.double buffer.window.capacity)), after, events⟩ := by
  have limited := full.limit_eq
  have none : spends buffer.window (.ok (.byte byte)) = 0 := if_pos limited
  refine ⟨first, ?_, ?_, ?_, widens⟩
  · rw [none]
    exact same
  · rw [← full.1]
    exact (if_pos limited).symm
  · rw [token]
    exact (List.append_nil _).symm

/-- An end. -/
theorem of_end (following : ∀ count, answers buffer (count + 1) = .ok .eos :: answers after count)
    (token : after.window.pending = buffer.window.pending)
    (widens : buffer.window.Widens after.window) :
    Receives (.ok .eos) buffer ⟨.ok .eos, after, events⟩ := by
  refine ⟨?_, following, rfl, ?_, widens⟩
  · rw [following 0, answers_zero]
  · rw [token]
    exact (List.append_nil _).symm

/-- A fault. -/
theorem of_fault {fault : Fault}
    (following : ∀ count, answers buffer (count + 1) = .error fault :: answers after count)
    (token : after.window.pending = buffer.window.pending)
    (widens : buffer.window.Widens after.window) :
    Receives (.error fault) buffer ⟨.error (.source fault), after, events⟩ := by
  refine ⟨?_, following, rfl, ?_, widens⟩
  · rw [following 0, answers_zero]
  · rw [token]
    exact (List.append_nil _).symm

variable {answer : Except Fault Next}

/-- A byte that is yielded was answered. -/
theorem following_of_byte (receives : Receives answer buffer ⟨.ok (.byte byte), after, events⟩) :
    ∀ count, answers buffer (count + 1) = .ok (.byte byte) :: answers after count := by
  have outcome := receives.outcome
  have others := receives.others
  rcases answer with fault | found | _
  · cases outcome
  · by_cases limited : buffer.window.limit = some buffer.window.consumed
    · rw [received, if_pos limited] at outcome
      cases outcome
    · rw [received, if_neg limited] at outcome
      rw [spends, if_neg limited] at others
      cases outcome
      exact others
  · cases outcome

/-- So was an end. -/
theorem following_of_end (receives : Receives answer buffer ⟨.ok .eos, after, events⟩) :
    ∀ count, answers buffer (count + 1) = .ok .eos :: answers after count := by
  have outcome := receives.outcome
  rcases answer with fault | found | _
  · cases outcome
  · by_cases limited : buffer.window.limit = some buffer.window.consumed
    · rw [received, if_pos limited] at outcome
      cases outcome
    · rw [received, if_neg limited] at outcome
      cases outcome
  · exact receives.others

/-- A byte that is refused stays to be answered. -/
theorem answers_of_allocationFailure {requested : Nat}
    (receives : Receives answer buffer ⟨.error (.allocationFailure requested), after, events⟩) :
    ∀ count, answers buffer count = answers after count := by
  have outcome := receives.outcome
  have others := receives.others
  rcases answer with fault | found | _
  · cases outcome
  · by_cases limited : buffer.window.limit = some buffer.window.consumed
    · rw [spends, if_pos limited] at others
      exact others
    · rw [received, if_neg limited] at outcome
      cases outcome
  · cases outcome

end Receives

/-- A read that is not refused growth is given the first of the answers. -/
theorem next_receives (formed : buffer.window.WellFormed) (able : buffer.window.Able) :
    ∃ answer, Receives answer buffer (next buffer) := by
  have extended {byte : UInt8} {after : Buffer σ} {events : Array Event}
    (read : next buffer = ⟨.ok (.byte byte), after, events⟩) := next_extends_token formed read
  have step := next_readsTo formed
  generalize next buffer = result at step extended ⊢
  cases step with
  | @replayed window source byte ahead =>
    have below := (Array.getElem?_eq_some_iff.1 ahead).1
    have room := Nat.lt_of_lt_of_le below formed.available_le
    have unlimited := Window.limit_ne_of_roomy formed (Or.inl room)
    have widened := Window.widened_of_lt room
    refine ⟨_, .of_byte unlimited ?_ (extended rfl).1 (.of_eq widened rfl rfl rfl rfl)⟩
    exact answers_of_ahead (Window.ahead_of_stored ahead)
  | cramped used tight below refusal => exact absurd able fun able => able.elim tight below
  | @released window source byte used room held =>
    have unlimited := Window.limit_ne_of_roomy formed (Or.inl room)
    have widened := Window.widened_of_lt room
    have first : window.ahead = [byte] := by
      rw [Window.ahead_of_used used, held]
      rfl
    have emptied : { window with held := none }.consumed = window.available := used
    have none := Window.ahead_append emptied byte
    refine ⟨_, .of_byte unlimited ?_ (extended rfl).1 (.of_eq widened rfl rfl rfl rfl)⟩
    intro count
    rw [answers_of_ahead first, answers_of_none none, List.take_nil]
    rfl
  | @refusedAgain window source byte used full held =>
    have widened := Window.widened_of_full formed full
    have first : window.ahead = [byte] := by
      rw [Window.ahead_of_used used, held]
      rfl
    have one : answers ⟨window, source⟩ 1 = [.ok (.byte byte)] := answers_of_ahead first 0
    refine ⟨_, .of_refused full one (fun _ => rfl) rfl (.of_eq widened rfl rfl rfl rfl)⟩
  | @stored window source after byte used roomy unheld answer =>
    have unlimited := Window.limit_ne_of_roomy formed roomy
    have still : window.widened.consumed = window.widened.available := by
      simpa [Window.available] using used
    have none := Window.ahead_of_unheld used unheld
    have left : (window.widened.append byte).ahead = [] := by
      rw [Window.ahead_append still byte, Window.widened_held, unheld]
      rfl
    obtain ⟨start, limit, memory, capacity⟩ := window.widens_widened
    refine ⟨_, .of_byte unlimited ?_ (extended rfl).1 ⟨start, limit, memory, capacity⟩⟩
    intro count
    rw [answers_of_none none, answers_of_none left, ByteSource.answers, answer]
  | @refused window source after byte used full unheld answer =>
    have widened := Window.widened_of_full formed full
    have none := Window.ahead_of_unheld used unheld
    have held : { window with held := some byte }.ahead = [byte] := Window.ahead_of_used used
    refine ⟨.ok (.byte byte), .of_refused full ?_ ?_ rfl (.of_eq widened rfl rfl rfl rfl)⟩
    · rw [answers_of_none none, ByteSource.answers, answer]
      rfl
    · intro count
      cases count with
      | zero => rw [answers_zero, answers_zero]
      | succ count =>
        rw [answers_of_none none, ByteSource.answers, answer, answers_of_ahead held, List.take_nil]
        rfl
  | @ended window source after used able unheld answer =>
    have none := Window.ahead_of_unheld used unheld
    have left : window.widened.ahead = [] := by
      simpa [Window.ahead, Window.lookahead] using none
    refine ⟨_, .of_end ?_ (by simp [Window.pending]) window.widens_widened⟩
    intro count
    rw [answers_of_none none, answers_of_none left, ByteSource.answers, answer]
  | @failed window source after fault used able unheld answer =>
    have none := Window.ahead_of_unheld used unheld
    have left : window.widened.ahead = [] := by
      simpa [Window.ahead, Window.lookahead] using none
    refine ⟨_, .of_fault ?_ (by simp [Window.pending]) window.widens_widened⟩
    intro count
    rw [answers_of_none none, answers_of_none left, ByteSource.answers, answer]

/-- Where there is room, a read takes the first answer and leaves the others. -/
theorem next_answers (formed : buffer.window.WellFormed)
    (room : buffer.window.consumed < buffer.window.capacity) (count : Nat) :
    ∃ answer, (next buffer).outcome = answer.mapError .source ∧
      answers buffer (count + 1) = answer :: answers (next buffer).state count ∧
      (next buffer).state.window.consumed ≤ buffer.window.consumed + 1 ∧
      (next buffer).state.window.capacity = buffer.window.capacity := by
  have unlimited := Window.limit_ne_of_roomy formed (Or.inl room)
  have kept := next_keeps_wellFormed buffer formed
  obtain ⟨answer, receives⟩ := next_receives formed (Or.inl (Or.inl room))
  have before := Window.length_pending formed.consumed_le
  have token := congrArg List.length receives.token
  rw [List.length_append, before, Window.length_pending kept.consumed_le] at token
  have capacity := receives.widens.capacity
  rw [Window.widened_of_lt room] at capacity
  have outcome : (next buffer).outcome = answer.mapError .source := by
    rw [receives.outcome]
    rcases answer with fault | byte | _
    · rfl
    · exact if_neg unlimited
    · rfl
  have one : spends buffer.window answer = 1 := by
    rcases answer with fault | byte | _
    · rfl
    · exact if_neg unlimited
    · rfl
  have others := receives.others count
  rw [one] at others
  refine ⟨answer, outcome, others, ?_, capacity⟩
  have atMostOne : (taken (next buffer).outcome).length ≤ 1 := by
    unfold taken
    split
    · exact Nat.le_refl 1
    · exact Nat.zero_le 1
  omega

/-- Reads yield the answers, as long as there is room. -/
theorem nexts_outcome {count : Nat} (formed : buffer.window.WellFormed)
    (room : buffer.window.consumed + count ≤ buffer.window.capacity) :
    (performAll (List.replicate count .next) buffer).outcome =
      .ok ((answers buffer count).map Value.ofAnswer) := by
  induction count generalizing buffer with
  | zero =>
    rw [answers, List.take_zero, Nat.zero_sub]
    rfl
  | succ count ih =>
    have below : buffer.window.consumed < buffer.window.capacity := by omega
    obtain ⟨answer, outcome, taken, consumed, capacity⟩ := next_answers formed below count
    have first : Call.next.perform buffer = (next buffer).map .next := Operation.map_apply _ _ _
    have yields : ((next buffer).map Value.next).outcome = Value.ofAnswer answer := by
      change (next buffer).outcome.map Value.next = _
      rw [outcome]
      cases answer with
      | ok next => rfl
      | error fault => rfl
    have rest := ih (next_keeps_wellFormed buffer formed) (by omega)
    rw [List.replicate_succ, performAll_cons_outcome, first, yields, taken, List.map_cons]
    exact congrArg (Except.map _) rest

/-- So many pending bytes are given back. -/
theorem backs_eq {backs : Nat} (pending : backs ≤ buffer.window.consumed) :
    performAll (List.replicate backs .back) buffer =
      ⟨.ok (List.replicate backs (.ok .done)),
        ⟨{ buffer.window with consumed := buffer.window.consumed - backs }, buffer.source⟩,
        #[]⟩ := by
  induction backs generalizing buffer with
  | zero => rfl
  | succ backs ih =>
    have some : buffer.window.consumed ≠ 0 := by omega
    have one : Call.back.perform buffer =
        ⟨.ok .done, ⟨buffer.window.retreat, buffer.source⟩, #[]⟩ := by
      rw [Call.perform, Operation.bind_apply, back_of_pending some]
      rfl
    have fewer : backs ≤ buffer.window.retreat.consumed := Nat.le_sub_one_of_lt pending
    have total : buffer.window.retreat.consumed - backs = buffer.window.consumed - (backs + 1) := by
      rw [Window.retreat, Nat.sub_sub, Nat.add_comm 1]
    rw [List.replicate_succ, performAll_cons, one, ih fewer, total]
    rfl

/-- Bytes of the lookahead are read again, and nothing else changes. -/
theorem nexts_eq {count : Nat} (formed : buffer.window.WellFormed)
    (stored : buffer.window.consumed + count ≤ buffer.window.available) :
    performAll (List.replicate count .next) buffer =
      ⟨.ok ((buffer.window.lookahead.toList.take count).map fun byte => .ok (.next (.byte byte))),
        ⟨{ buffer.window with consumed := buffer.window.consumed + count }, buffer.source⟩,
        #[]⟩ := by
  induction count generalizing buffer with
  | zero =>
    rw [List.take_zero]
    rfl
  | succ count ih =>
    obtain ⟨window, source⟩ := buffer
    have below : window.consumed < window.stored.size := by
      simp only [Window.available] at stored
      omega
    have ahead : window.stored[window.consumed]? = some window.stored[window.consumed] :=
      Array.getElem?_eq_getElem below
    have replayed : ReadsTo ⟨window, source⟩ _ := .replayed ahead
    have read := replayed.next_eq formed
    have kept := next_keeps_wellFormed ⟨window, source⟩ formed
    rw [read] at kept
    have one : Call.next.perform ⟨window, source⟩ =
        ⟨.ok (.next (.byte window.stored[window.consumed])), ⟨window.advance, source⟩, #[]⟩ := by
      rw [Call.perform, Operation.map_apply, read]
      rfl
    have further : window.advance.consumed + count ≤ window.advance.available := by
      simp only [Window.advance, Window.available] at stored ⊢
      omega
    have place : window.advance.consumed + count = window.consumed + (count + 1) := by
      simp only [Window.advance]
      omega
    rw [List.replicate_succ, performAll_cons, one, ih kept further, place,
      Window.lookahead_of_stored ahead, List.take_succ_cons, List.map_cons]
    rfl

/-- A discard that succeeds drops the pending token and nothing else. -/
theorem discard_state (formed : buffer.window.WellFormed) {call : Call} (discards : call.IsDiscard)
    {value : Value} (succeeds : (call.perform buffer).outcome = .ok value) :
    (call.perform buffer).state = ⟨buffer.window.discard, buffer.source⟩ := by
  cases call with
  | dump =>
    rw [Call.perform, Operation.bind_apply, dump_eq formed.consumed_le]
    rfl
  | skip =>
    rw [Call.perform, Operation.map_apply, skip_eq formed.consumed_le]
    rfl
  | emit =>
    rw [Call.perform, Operation.map_apply, emit_eq formed]
    rfl
  | emitText =>
    rw [Call.perform, Operation.map_apply, emitText_eq formed] at succeeds ⊢
    cases decoded : Utf8.decode buffer.window.pending with
    | error malformation =>
      rw [decoded] at succeeds
      cases succeeds
    | ok text => rfl
  | _ => cases discards

end Buffer

end Lexing
