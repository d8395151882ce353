import Lexing.Proofs.Buffer.Answers
import Lexing.Proofs.Machine.Defects

/-!
# Giving bytes back and reading them again

Giving the last bytes of a token back shortens it (`Window.shortened`) and changes nothing else.
They are the first to be read again, and reading as many as were given back undoes it
(`nexts_of_shortened`). If the shorter token is taken before that, what is read again is the rest of
the longer one (`Window.rest_pending`), and the two discards leave what one would have left
(`Window.rest_discard`).
-/

set_option autoImplicit false

namespace Lexing

namespace Window

variable {window : Window} {length : Nat}

/-- The window when all but so many bytes of the token are given back. -/
def shortened (window : Window) (length : Nat) : Window := { window with consumed := length }

/-- The other bytes stay pending. -/
theorem pending_shortened (shorter : length ≤ window.consumed) :
    (window.shortened length).pending = window.pending.extract 0 length := by
  rw [← Array.toList_inj, pending_toList, Array.toList_extract, pending_toList, shortened]
  simp [List.take_take, Nat.min_eq_left shorter]

/-- The bytes that were given back are the first of the lookahead. -/
theorem lookahead_shortened (window : Window) (length : Nat) :
    (window.shortened length).lookahead.toList.take (window.consumed - length) =
      window.pending.toList.drop length := by
  rw [lookahead_toList, pending_toList, List.drop_take]
  rfl

theorem lookahead_discard (window : Window) : window.discard.lookahead = window.lookahead := by
  rw [← Array.toList_inj, lookahead_toList]
  rfl

theorem WellFormed.shortened (formed : window.WellFormed) (shorter : length ≤ window.consumed) :
    (window.shortened length).WellFormed :=
  { formed with consumed_le := Nat.le_trans shorter formed.consumed_le }

/-- All of them are stored. -/
theorem le_available_shortened (stored : window.consumed ≤ window.available)
    (shorter : length ≤ window.consumed) :
    (window.shortened length).discard.consumed + (window.consumed - length) ≤
      (window.shortened length).discard.available := by
  have size : (window.shortened length).discard.available = window.available - length := by
    simp [discard, available, lookahead, shortened]
  rw [size]
  simp only [discard]
  omega

/-- The window when the shortened token is taken and the bytes given back are read again. -/
def rest (window : Window) (length : Nat) : Window :=
  { (window.shortened length).discard with consumed := window.consumed - length }

theorem rest_pending (window : Window) (length : Nat) :
    (window.rest length).pending.toList = window.pending.toList.drop length := by
  rw [← lookahead_shortened, pending_toList]
  rfl

/-- Both tokens together are the one that there was. -/
theorem pending_append_rest (shorter : length ≤ window.consumed) :
    (window.shortened length).pending ++ (window.rest length).pending = window.pending := by
  rw [← Array.toList_inj, Array.toList_append, rest_pending, pending_shortened shorter,
    Array.toList_extract]
  simp

/-- The other token starts behind the shortened one, so both end where the longer one does. -/
theorem rest_offset (window : Window) (shorter : length ≤ window.consumed) :
    (window.rest length).offset = window.offset := by
  have whole : length.toUInt64 + (window.consumed - length).toUInt64 =
      window.consumed.toUInt64 :=
    (UInt64.ofNat_add _ _).symm.trans (congrArg Nat.toUInt64 (Nat.add_sub_cancel' shorter))
  change window.start + length.toUInt64 + (window.consumed - length).toUInt64 = _
  rw [UInt64.add_assoc, whole, offset]

theorem rest_lookahead (window : Window) (shorter : length ≤ window.consumed) :
    (window.rest length).lookahead = window.lookahead := by
  have stored : (window.rest length).stored.toList = window.stored.toList.drop length :=
    lookahead_toList (window.shortened length)
  rw [← Array.toList_inj, lookahead_toList, lookahead_toList, stored, List.drop_drop]
  change window.stored.toList.drop (length + (window.consumed - length)) = _
  rw [Nat.add_sub_cancel' shorter]

/-- Taking the token in two parts leaves what taking it at once leaves. -/
theorem rest_discard (window : Window) (shorter : length ≤ window.consumed) :
    (window.rest length).discard = window.discard := by
  have stored := rest_lookahead window shorter
  have start : (window.rest length).start + (window.rest length).consumed.toUInt64 =
      window.start + window.consumed.toUInt64 := rest_offset window shorter
  simp only [discard, stored, start]
  rfl

end Window

namespace Buffer

variable {σ : Type} [ByteSource σ]

section Rereading

variable {window : Window} {length : Nat}

/-- Reading as many bytes as were given back undoes it. -/
theorem nexts_of_shortened (formed : window.WellFormed) (shorter : length ≤ window.consumed)
    (source : σ) :
    performAll (List.replicate (window.consumed - length) .next) ⟨window.shortened length, source⟩ =
      ⟨.ok ((window.pending.toList.drop length).map fun byte => .ok (.next (.byte byte))),
        ⟨window, source⟩, #[]⟩ := by
  have place : length + (window.consumed - length) = window.consumed :=
    Nat.add_sub_cancel' shorter
  have stored : length + (window.consumed - length) ≤ window.available :=
    place.symm ▸ formed.consumed_le
  have read : performAll (List.replicate (window.consumed - length) .next)
      (⟨window.shortened length, source⟩ : Buffer σ) = _ :=
    nexts_eq (formed.shortened shorter) stored
  rw [read, Window.lookahead_shortened]
  simp only [Window.shortened, place]

/-- When the shortened token was taken before, the bytes that are read again are all that is
pending. -/
theorem nexts_of_discarded (formed : window.WellFormed) (shorter : length ≤ window.consumed)
    (source : σ) :
    performAll (List.replicate (window.consumed - length) .next)
        ⟨(window.shortened length).discard, source⟩ =
      ⟨.ok ((window.pending.toList.drop length).map fun byte => .ok (.next (.byte byte))),
        ⟨window.rest length, source⟩, #[]⟩ := by
  have stored := Window.le_available_shortened formed.consumed_le shorter
  have read : performAll (List.replicate (window.consumed - length) .next)
      (⟨(window.shortened length).discard, source⟩ : Buffer σ) = _ :=
    nexts_eq (formed.shortened shorter).discard stored
  have place : (window.shortened length).discard.consumed + (window.consumed - length) =
      window.consumed - length := Nat.zero_add _
  rw [read, place, Window.lookahead_discard, Window.lookahead_shortened]
  rfl

end Rereading

structure Rewinds (count : Nat) (buffer : Buffer σ) : Prop where
  given : performAll (List.replicate count .back) buffer =
    ⟨.ok (List.replicate count (.ok .done)),
      ⟨buffer.window.shortened (buffer.window.consumed - count), buffer.source⟩, #[]⟩
  /-- Reads yield the same bytes and leave the buffer that there was. -/
  reread :
    let back := performAll (List.replicate count .back) buffer
    let last := buffer.window.pending.toList.drop (buffer.window.consumed - count)
    performAll (List.replicate count .next) back.state =
      ⟨.ok (last.map fun byte => .ok (.next (.byte byte))), buffer, #[]⟩
  /-- The token can be taken in two parts. -/
  parts :
    let back := performAll (List.replicate count .back) buffer
    let last := buffer.window.pending.toList.drop (buffer.window.consumed - count)
    let one := emit back.state
    let again := performAll (List.replicate count .next) one.state
    let two := emit again.state
    again.outcome = .ok (last.map fun byte => .ok (.next (.byte byte))) ∧ again.events = #[] ∧
      (∃ front rest, one.outcome = .ok front ∧ two.outcome = .ok rest ∧
        front ++ rest = buffer.window.pending) ∧
      two.state = (emit buffer).state

theorem rewinds_of_pending {buffer : Buffer σ} {count : Nat} (formed : buffer.window.WellFormed)
    (pending : count ≤ buffer.window.consumed) : Rewinds count buffer := by
  obtain ⟨window, source⟩ := buffer
  have shorter : window.consumed - count ≤ window.consumed := Nat.sub_le _ _
  have number : window.consumed - (window.consumed - count) = count := Nat.sub_sub_self pending
  have given : performAll (List.replicate count .back) (⟨window, source⟩ : Buffer σ) =
      ⟨.ok (List.replicate count (.ok .done)),
        ⟨window.shortened (window.consumed - count), source⟩, #[]⟩ := backs_eq pending
  have reread := nexts_of_shortened formed shorter source
  have again := nexts_of_discarded formed shorter source
  rw [number] at reread again
  have short := formed.shortened shorter
  have rest : (window.rest (window.consumed - count)).WellFormed := by
    have kept := performAll_keeps (List.replicate count .next)
      (fun call _ => perform_keeps_wellFormed call)
      (⟨(window.shortened (window.consumed - count)).discard, source⟩ : Buffer σ) short.discard
    rwa [again] at kept
  refine ⟨given, ?_, ?_⟩
  · intro back last
    simp only [back]
    rw [given, reread]
  · simp only [given, emit_eq short, again, emit_eq rest, emit_eq formed]
    refine ⟨trivial, trivial, ⟨_, _, rfl, rfl, ?_⟩, ?_⟩
    · exact Window.pending_append_rest shorter
    · rw [Window.rest_discard window shorter]

/-- Giving bytes back undoes reading them.

However a buffer has been used, as many bytes as are pending can be given back (`Rewinds`): the last
ones, which are then the first to be read again, without a poll, growth or a report. That leaves the
buffer that there was, its window and its source with it, whatever record the source keeps. If the
shorter token is taken first and the bytes that are read again are taken after it, the two tokens
together are the one that there was, and what is left is what taking that one leaves. Giving back
one more byte than are pending fails and changes nothing, whatever lookahead there is. -/
theorem backup_undoes_reading {source : σ} {config : Config} {memory : Nat}
    {first buffer : Buffer σ} (opened : openWith config memory source = .ok first)
    (used : Used first buffer) :
    (∀ count ≤ buffer.window.consumed, Rewinds count buffer) ∧
      let emptied := (performAll (List.replicate buffer.window.consumed .back) buffer).state
      back emptied = ⟨.error .backupUnderflow, emptied,
        #[.backupUnderflow buffer.window.start]⟩ := by
  have formed := (used.bounded opened).formed
  refine ⟨fun count pending => rewinds_of_pending formed pending, ?_⟩
  have emptied := (rewinds_of_pending formed (Nat.le_refl _)).given
  rw [emptied]
  exact back_of_none (Nat.sub_self _)

/-- A window that is full at its ceiling beside a held byte, with lookahead that was there before a
token was dumped. -/
theorem backup_undoes_reading_full :
    let script : Script :=
      ⟨[.ok (.byte 97), .ok (.byte 98), .ok (.byte 99), .ok (.byte 100), .ok (.byte 101)]⟩
    let first : Buffer (Metered Script) := ⟨Window.empty 2 (some 3) (1 <<< 48), .ofSource script⟩
    let buffer := (performAll
      [.next, .next, .back, .dump, .next, .next, .next, .next, .back] first).state
    openWith ⟨2, some 3⟩ (1 <<< 48) (.ofSource script) = .ok first ∧ Used first buffer ∧
      buffer.window = ⟨#[98, 99, 100], 2, 3, some 3, 1 <<< 48, 1, some 101⟩ ∧
      buffer.source.polls = 5 ∧ 2 ≤ buffer.window.consumed ∧ Rewinds 2 buffer := by
  intro script first buffer
  have opened : openWith ⟨2, some 3⟩ (1 <<< 48) (.ofSource script) = .ok first := rfl
  have used : Used first buffer := Used.unused.performAll _
  have pending : 2 ≤ buffer.window.consumed := by decide
  have full : buffer.window = ⟨#[98, 99, 100], 2, 3, some 3, 1 <<< 48, 1, some 101⟩ := by
    decide +kernel
  exact ⟨opened, used, full, by decide, pending, (backup_undoes_reading opened used).1 2 pending⟩

end Buffer

end Lexing
