import Lexing.Proofs.Machine.Defects
import Lexing.Proofs.Source.Ends

/-!
# Buffers at the end of their source

A buffer over a source that keeps its end keeps the place of the end: once a read has come to the
end, all bytes up to there are stored or discarded and none follows (`Ended`). So a read that stands
at the same offset later comes to the end again, however the buffer is used in between
(`ends_kept`).
-/

set_option autoImplicit false

namespace Lexing.Buffer

open ByteSource (KeepsEnd AtEnd MayFollow)
open Operation (Keeps)

variable {σ : Type}

/-- The stored bytes are the last ones up to this offset, and no byte follows. A read after the last
one is not refused room: there is some, or the ceiling is reached. -/
structure Ended [ByteSource σ] (offset : UInt64) (buffer : Buffer σ) : Prop where
  formed : buffer.window.WellFormed
  unheld : buffer.window.held = none
  source : AtEnd buffer.source
  last : buffer.window.start + buffer.window.available.toUInt64 = offset
  able : buffer.window.available < buffer.window.capacity ∨
    buffer.window.limit = some buffer.window.capacity

variable [ByteSource σ] {offset : UInt64} {buffer : Buffer σ}

/-- A read after the last byte finds room for another one, or stands at the ceiling. -/
theorem Ended.room_or_full (ended : Ended offset buffer)
    (used : buffer.window.consumed = buffer.window.available) :
    buffer.window.consumed < buffer.window.capacity ∨ buffer.window.Full := by
  by_cases room : buffer.window.consumed < buffer.window.capacity
  · exact Or.inl room
  · have fits := ended.formed.available_le
    refine Or.inr ⟨by omega, ended.able.resolve_left ?_⟩
    omega

/-- A read after the last byte comes to the end and leaves the window as it is. -/
theorem Ended.next_eq (ended : Ended offset buffer)
    (used : buffer.window.consumed = buffer.window.available) :
    next buffer = ⟨.ok .eos, ⟨buffer.window, (ByteSource.poll buffer.source).2⟩, #[]⟩ := by
  have able := ended.room_or_full used
  have answer : ByteSource.poll buffer.source = (.ok .eos, (ByteSource.poll buffer.source).2) :=
    Prod.ext ended.source.answer rfl
  have step : ReadsTo buffer _ := .ended used (able.imp_left Or.inl) ended.unheld answer
  rw [step.next_eq ended.formed]
  rcases able with room | full
  · rw [Window.widened_of_lt room, Window.growth_of_lt room]
  · rw [Window.widened_of_full ended.formed full, Window.growth_of_full ended.formed full]

theorem next_keeps_ended : Keeps (Ended offset) (next (σ := σ)) := by
  intro buffer ended
  have formed := next_keeps_wellFormed buffer ended.formed
  cases ahead : buffer.window.stored[buffer.window.consumed]? with
  | some byte =>
    have step : ReadsTo buffer _ := .replayed ahead
    rw [step.next_eq ended.formed] at formed ⊢
    exact { ended with formed }
  | none =>
    have used : buffer.window.consumed = buffer.window.available :=
      Nat.le_antisymm ended.formed.consumed_le (Array.getElem?_eq_none_iff.1 ahead)
    rw [ended.next_eq used]
    exact { ended with source := ended.source.poll }

theorem back_keeps_ended : Keeps (Ended offset) (back (σ := σ)) := by
  intro buffer ended
  have formed := back_keeps_wellFormed buffer ended.formed
  rw [back_state] at formed ⊢
  exact { ended with formed }

theorem dump_keeps_ended : Keeps (Ended offset) (dump (σ := σ)) := by
  rintro ⟨window, source⟩ ⟨formed, unheld, atEnd, last, able⟩
  have stored : window.consumed ≤ window.available := formed.consumed_le
  rw [dump_eq stored]
  have available : window.discard.available = window.available - window.consumed := by
    simp [Window.available, Window.discard, Window.lookahead]
  refine ⟨formed.discard, unheld, atEnd, ?_, ?_⟩
  · -- what is discarded moves the start by as much as it leaves less to count from there
    have whole : window.consumed.toUInt64 + window.discard.available.toUInt64 =
        window.available.toUInt64 := by
      have split : window.available = window.consumed + window.discard.available := by omega
      rw [split]
      exact (UInt64.ofNat_add _ _).symm
    have start : window.discard.start = window.start + window.consumed.toUInt64 := rfl
    simp only at last ⊢
    rw [start, UInt64.add_assoc, whole, last]
  · refine able.imp_left fun room => ?_
    have capacity : window.discard.capacity = window.capacity := rfl
    simp only at room ⊢
    omega

theorem perform_keeps_ended (call : Call) : Keeps (Ended offset) (call.perform (σ := σ)) :=
  call.perform_keeps next_keeps_ended back_keeps_ended dump_keeps_ended

/-- A read at the offset where the stream has ended stands after the last byte. -/
theorem Ended.used (ended : Ended offset buffer) (sizes : buffer.window.memory ≤ Size.max)
    (here : buffer.window.offset = offset) :
    buffer.window.consumed = buffer.window.available := by
  have stored := ended.formed.consumed_le
  have fits := ended.formed.available_le
  have granted := ended.formed.granted
  have same : buffer.window.start + buffer.window.consumed.toUInt64 =
      buffer.window.start + buffer.window.available.toUInt64 := here.trans ended.last.symm
  have counts := congrArg UInt64.toNat (UInt64.add_right_inj _ |>.1 same)
  rwa [Size.toNat_toUInt64 (by omega), Size.toNat_toUInt64 (by omega)] at counts

/-- A source that keeps its end is at its end after a read that came to it, and so is the buffer. -/
theorem ended_of_next (formed : buffer.window.WellFormed) (keeps : KeepsEnd buffer.source)
    (atEnd : (next buffer).outcome = .ok .eos) :
    Ended buffer.window.offset (next buffer).state := by
  have kept := next_keeps_wellFormed buffer formed
  have step := next_readsTo formed
  generalize next buffer = result at atEnd kept step ⊢
  cases step with
  | @ended window source after used able unheld answer =>
    have used : window.consumed = window.available := used
    refine ⟨kept, window.widened_held.trans unheld, keeps.atEnd answer, ?_, ?_⟩
    · rw [Window.offset, used]
      simp only [Window.available, Window.widened_start, Window.widened_stored]
    · have available : window.widened.available = window.consumed := by
        simp only [Window.available, Window.widened_stored] at used ⊢
        exact used.symm
      simp only [available]
      rcases able with roomy | full
      · exact Or.inl (Window.consumed_lt_widened formed roomy)
      · rw [Window.widened_of_full formed full]
        exact Or.inr full.2
  | replayed ahead => cases atEnd
  | cramped used tight below refusal => cases atEnd
  | released used room held => cases atEnd
  | refusedAgain used full held => cases atEnd
  | stored used roomy unheld answer => cases atEnd
  | refused used full unheld answer => cases atEnd
  | failed used able unheld answer => cases atEnd

section Use

variable {source : σ} {config : Config} {memory : Nat} {first later : Buffer σ}

theorem Used.keepsEnd (opened : openWith config memory source = .ok first)
    (keeps : KeepsEnd source) (used : Used first buffer) : KeepsEnd buffer.source := by
  have fresh : first.window.WellFormed ∧ KeepsEnd first.source := by
    obtain ⟨rfl, formed⟩ := openWith_eq_ok opened
    exact ⟨formed, keeps⟩
  exact (used.keeps (perform_keeps_source fun _ => KeepsEnd.poll) fresh).2

/-- A read at the offset where a read has come to the end comes to the end. -/
theorem next_eos_of_used (sizes : memory ≤ Size.max)
    (opened : openWith config memory source = .ok first) (keeps : KeepsEnd source)
    (used : Used first buffer) (atEnd : (next buffer).outcome = .ok .eos)
    (between : Used (next buffer).state later)
    (here : later.window.offset = buffer.window.offset) : (next later).outcome = .ok .eos := by
  have bounded := used.bounded opened
  have ended := ended_of_next bounded.formed (used.keepsEnd opened keeps) atEnd
  have still := between.keeps perform_keeps_ended ended
  have granted := between.keeps perform_keeps_bounded (next_keeps_bounded buffer bounded)
  rw [still.next_eq (still.used (granted.memory ▸ sizes) here)]

/-- Which sources keep their end, and what comes of it for a buffer.

Bytes in memory do, and a source that is forwarded does if it does by itself. A block reader that is
read ahead of does if and only if it answers by nothing but ends after an end. Over a source that
keeps its end, once a read of a buffer in use has come to the end, every later read that a call
attempts at the same offset comes to the end, however the buffer is used in between. -/
theorem ends_kept :
    (∀ slice : Slice, KeepsEnd slice) ∧
      (∀ metered : Metered σ, KeepsEnd metered.source → KeepsEnd metered) ∧
      (∀ (size : Nat) (reader : Reader), KeepsEnd (ReadAhead.ofReader size reader) ↔
        (if size = 0 then reader.unproductive else reader.toScript.answers).Pairwise MayFollow) ∧
      ∀ {source : σ} {config : Config} {memory : Nat} {first buffer later : Buffer σ},
        memory ≤ Size.max → openWith config memory source = .ok first → KeepsEnd source →
          Used first buffer → (next buffer).outcome = .ok .eos →
          Used (next buffer).state later → ∀ call : Call, ∀ read ∈ call.attempts later,
            read.window.offset = buffer.window.offset → (next read).outcome = .ok .eos := by
  refine ⟨Slice.keepsEnd, fun metered => metered.keepsEnd_iff.2, ReadAhead.keepsEnd_iff, ?_⟩
  intro source config memory first buffer later sizes opened keeps used atEnd between call read
    attempted here
  exact next_eos_of_used sizes opened keeps used atEnd (between.attempts call read attempted) here

end Use

/-- One byte that fills the window for good: the end is met, the byte is given back, read again and
discarded, and the end is still there. -/
theorem ends_kept_discarding :
    let first : Buffer Slice := ⟨Window.empty 1 (some 1) (1 <<< 48), .ofList [97]⟩
    let buffer := (next first).state
    let later := (performAll [.back, .next, .dump] (next buffer).state).state
    openWith ⟨1, some 1⟩ (1 <<< 48) (Slice.ofList [97]) = .ok first ∧ Used first buffer ∧
      (next buffer).outcome = .ok .eos ∧ Used (next buffer).state later ∧
      later.window.offset = buffer.window.offset ∧ (next later).outcome = .ok .eos := by
  intro first buffer later
  have opened : openWith ⟨1, some 1⟩ (1 <<< 48) (Slice.ofList [97]) = .ok first := rfl
  have used : Used first buffer := Used.unused.called .next
  have atEnd : (next buffer).outcome = .ok .eos := rfl
  have between : Used (next buffer).state later :=
    ((Used.unused.called .back).called .next).called .dump
  have here : later.window.offset = buffer.window.offset := rfl
  have kept := (ends_kept (σ := Slice)).2.2.2 (by decide) opened (Slice.keepsEnd _) used atEnd
    between .next later List.mem_cons_self here
  exact ⟨opened, used, atEnd, between, here, kept⟩

/-- A reader that has a byte after an end: read ahead of, it leaves the end, and a buffer finds the
byte at the offset where it has found the end. -/
theorem readAhead_leaves_end :
    let source := ReadAhead.ofReader ReadAhead.defaultSize (.ofEvents [.finish, .data [97]])
    let first : Buffer ReadAhead := ⟨Window.empty 64 none (1 <<< 48), source⟩
    ¬ KeepsEnd source ∧ openWith .standard (1 <<< 48) source = .ok first ∧
      (next first).outcome = .ok .eos ∧
      (next first).state.window.offset = first.window.offset ∧
      (next (next first).state).outcome = .ok (.byte 97) := by
  intro source first
  let between : ReadAhead := ⟨⟨[.data [97]], [], 1, #[]⟩, [], ReadAhead.defaultSize⟩
  have ended : ByteSource.poll source = (.ok .eos, between) := by
    simp [source, between, ByteSource.poll, ReadAhead.poll, ReadAhead.ofReader, Reader.ofEvents,
      Reader.readThrough, Reader.read, Reader.deliver]
  have resumed : (ByteSource.poll between).1 = .ok (.byte 97) := by
    simp [between, ByteSource.poll, ReadAhead.poll, Reader.readThrough, Reader.read,
      Reader.deliver, ReadAhead.defaultSize]
  have opened : openWith .standard (1 <<< 48) source = .ok first := rfl
  have formed := (openWith_eq_ok opened).2
  have room : first.window.consumed < first.window.capacity := by decide
  have reads : next first = ⟨.ok .eos, ⟨first.window, between⟩, #[]⟩ :=
    (ReadsTo.ended rfl (Or.inl (Or.inl room)) rfl ended).next_eq formed
  have goesOn : (next ⟨first.window, between⟩).outcome = .ok (.byte 97) :=
    congrArg Result.outcome ((ReadsTo.stored rfl (Or.inl room) rfl
      (Prod.ext resumed rfl)).next_eq formed)
  rw [reads]
  refine ⟨?_, opened, rfl, rfl, goesOn⟩
  intro keeps
  have atEnd := keeps.atEnd ended
  cases resumed.symm.trans atEnd.answer

end Lexing.Buffer
