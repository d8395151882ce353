import Lexing.Proofs.Buffer.Refinement

/-!
# What operations do at a place

A buffer over bytes in memory stands at a place: where its token starts and how long it is. From
the place alone it is known what each operation yields and where it leaves the buffer, whatever is
stored, held or has been fetched.
-/

set_option autoImplicit false

namespace Lexing

open Operation (Leads)
open Result (Agree)

namespace Buffer

variable {α : Type} {bytes : List UInt8} {limit : Option Nat} {start length : Nat}

/-- The token starts at an offset of the bytes and has so many of them. -/
def StandsAt (bytes : List UInt8) (limit : Option Nat) (start length : Nat)
    (buffer : Buffer Slice) : Prop :=
  ∃ fetched, Tracks bytes limit buffer ⟨start, length, fetched⟩

namespace StandsAt

variable {buffer : Buffer Slice}

theorem consumed_eq (stands : StandsAt bytes limit start length buffer) :
    buffer.window.consumed = length := by
  obtain ⟨fetched, tracks⟩ := stands
  exact tracks.consumed

theorem start_eq (stands : StandsAt bytes limit start length buffer) :
    buffer.window.start = start.toUInt64 := by
  obtain ⟨fetched, tracks⟩ := stands
  exact tracks.start

theorem pending_eq (stands : StandsAt bytes limit start length buffer) :
    buffer.window.pending.toList = (bytes.drop start).take length := by
  obtain ⟨fetched, tracks⟩ := stands
  exact tracks.pending_eq

/-- The token is part of the bytes. -/
theorem inside (stands : StandsAt bytes limit start length buffer) :
    start + length ≤ bytes.length := by
  obtain ⟨fetched, tracks⟩ := stands
  have consumed : buffer.window.consumed = length := tracks.consumed
  have stored := tracks.formed.consumed_le
  have sum : start + buffer.window.available + buffer.window.held.toList.length = fetched :=
    tracks.fetched
  have within : fetched ≤ bytes.length := tracks.fetched_le
  omega

/-- The next byte to be read is the one behind the token. -/
theorem offset_toNat (fits : bytes.length < Size.max)
    (stands : StandsAt bytes limit start length buffer) :
    buffer.window.offset.toNat = start + length := by
  have inside := stands.inside
  unfold Window.offset
  rw [stands.start_eq, stands.consumed_eq]
  have sum : start.toUInt64 + length.toUInt64 = (start + length).toUInt64 :=
    (UInt64.ofNat_add _ _).symm
  rw [sum, Size.toNat_toUInt64 (by omega)]

/-- What is read on is added to the token. -/
theorem pending_add {before : Buffer Slice} {count : Nat}
    (stood : StandsAt bytes limit start length before)
    (stands : StandsAt bytes limit start (length + count) buffer) :
    buffer.window.pending.toList =
      before.window.pending.toList ++ (bytes.drop (start + length)).take count := by
  rw [stands.pending_eq, stood.pending_eq, List.take_add, List.drop_drop]

end StandsAt

/-- What agrees with an operation on offsets leads where that does. -/
theorem leads_of_agree {operation : BufferM Slice α} {followed : Operation LexError Offsets α}
    {outcome : Except LexError α} {start' length' : Nat}
    (agree : ∀ buffer offsets, Tracks bytes limit buffer offsets →
      Agree (Tracks bytes limit) unseen (operation buffer) (followed offsets))
    (result : ∀ fetched, ∃ fetched', followed ⟨start, length, fetched⟩ =
      ⟨outcome, ⟨start', length', fetched'⟩, #[]⟩) :
    Leads (StandsAt bytes limit start length) operation outcome
      (StandsAt bytes limit start' length') := by
  rintro buffer ⟨fetched, tracks⟩
  have same := agree buffer _ tracks
  obtain ⟨fetched', result⟩ := result fetched
  rw [result] at same
  exact ⟨same.outcome, fetched', same.state⟩

theorem back_leads :
    Leads (StandsAt bytes limit start (length + 1)) back (.ok ())
      (StandsAt bytes limit start length) :=
  leads_of_agree (fun _ _ => back_agrees) fun fetched => ⟨fetched, rfl⟩

/-- The token that is discarded is the one that ends where the next one starts. -/
theorem skip_leads :
    Leads (StandsAt bytes limit start length) skip (.ok length)
      (StandsAt bytes limit (start + length) 0) :=
  leads_of_agree (fun _ _ => skip_agrees) fun fetched => ⟨fetched, rfl⟩

theorem dump_leads :
    Leads (StandsAt bytes limit start length) dump (.ok ())
      (StandsAt bytes limit (start + length) 0) :=
  leads_of_agree (fun _ _ => dump_agrees) fun fetched => ⟨fetched, rfl⟩

theorem emit_leads {token : List UInt8} (pending : (bytes.drop start).take length = token) :
    Leads (StandsAt bytes limit start length) emit (.ok token.toArray)
      (StandsAt bytes limit (start + length) 0) := by
  subst pending
  exact leads_of_agree (fun _ _ => emit_agrees) fun fetched => ⟨fetched, rfl⟩

theorem emitText_leads {text : String}
    (decoded : Utf8.decode ((bytes.drop start).take length).toArray = .ok text) :
    Leads (StandsAt bytes limit start length) emitText (.ok text)
      (StandsAt bytes limit (start + length) 0) := by
  refine leads_of_agree (fun _ _ => emitText_agrees) fun fetched => ⟨fetched, ?_⟩
  rw [Offsets.emitText_eq]
  simp only [Offsets.pending, decoded]

section Reading

variable (fits : bytes.length < Size.max)

include fits

theorem next_leads_eos (ended : bytes[start + length]? = none) :
    Leads (StandsAt bytes limit start length) next (.ok .eos)
      (StandsAt bytes limit start length) :=
  leads_of_agree (fun _ _ => next_agrees fits) fun _ => ⟨_, Offsets.next_eq_eos ended⟩

theorem next_leads_byte {byte : UInt8} (there : bytes[start + length]? = some byte)
    (below : limit ≠ some length) :
    Leads (StandsAt bytes limit start length) next (.ok (.byte byte))
      (StandsAt bytes limit start (length + 1)) :=
  leads_of_agree (fun _ _ => next_agrees fits) fun _ => ⟨_, Offsets.next_eq_byte there below⟩

/-- Where the token may get longer, a read yields the byte behind it or the end. -/
theorem next_outcome (below : start + length < bytes.length → limit ≠ some length)
    {buffer : Buffer Slice} (stands : StandsAt bytes limit start length buffer) :
    (next buffer).outcome = .ok (Next.ofByte? bytes[start + length]?) := by
  cases there : bytes[start + length]? with
  | none => exact (next_leads_eos fits there buffer stands).1
  | some byte =>
    have inside := (List.getElem?_eq_some_iff.1 there).1
    exact (next_leads_byte fits there (below inside) buffer stands).1

theorem peek_leads_eos (ended : bytes[start + length]? = none) :
    Leads (StandsAt bytes limit start length) peek (.ok .eos)
      (StandsAt bytes limit start length) :=
  (next_leads_eos fits ended).bind (.pure _)

theorem peek_leads_byte {byte : UInt8} (there : bytes[start + length]? = some byte)
    (below : limit ≠ some length) :
    Leads (StandsAt bytes limit start length) peek (.ok (.byte byte))
      (StandsAt bytes limit start length) := by
  refine (next_leads_byte fits there below).bind ?_
  exact (back_leads.orThrow _).bind (.pure _)

theorem nextIf_leads_some {accepts : UInt8 → Bool} {byte : UInt8}
    (there : bytes[start + length]? = some byte) (accepted : accepts byte = true)
    (below : limit ≠ some length) :
    Leads (StandsAt bytes limit start length) (nextIf accepts) (.ok (some byte))
      (StandsAt bytes limit start (length + 1)) := by
  refine (next_leads_byte fits there below).bind ?_
  simp only [if_pos accepted]
  exact .pure _

/-- Where no byte follows that is accepted, none is taken. -/
theorem nextIf_leads_none {accepts : UInt8 → Bool}
    (rejected : ∀ byte, bytes[start + length]? = some byte →
      accepts byte = false ∧ limit ≠ some length) :
    Leads (StandsAt bytes limit start length) (nextIf accepts) (.ok none)
      (StandsAt bytes limit start length) := by
  cases there : bytes[start + length]? with
  | none => exact (next_leads_eos fits there).bind (.pure _)
  | some byte =>
    obtain ⟨refused, below⟩ := rejected byte there
    refine (next_leads_byte fits there below).bind ?_
    simp only [refused, Bool.false_eq_true, if_false]
    exact back_leads.bind (.pure _)

/-- Eating takes the leading bytes that are accepted, if at no byte on the way the token is as long
as the limit. -/
theorem eatWhile_leads (accepts : UInt8 → Bool) {rest : List UInt8}
    (ahead : bytes.drop (start + length) = rest)
    (below : ∀ count, count ≤ (rest.takeWhile accepts).length → count < rest.length →
      limit ≠ some (length + count)) :
    Leads (StandsAt bytes limit start length) (eatWhile accepts)
      (.ok (rest.takeWhile accepts).length)
      (StandsAt bytes limit start (length + (rest.takeWhile accepts).length)) := by
  induction rest generalizing length with
  | nil =>
    have ended : bytes[start + length]? = none := by
      rw [← List.head?_drop, ahead, List.head?_nil]
    rw [eatWhile_eq]
    exact (nextIf_leads_none fits fun byte there => nomatch ended.symm.trans there).bind (.pure _)
  | cons byte rest ih =>
    have there : bytes[start + length]? = some byte := by
      rw [← List.head?_drop, ahead, List.head?_cons]
    have first : limit ≠ some length := below 0 (Nat.zero_le _) (Nat.succ_pos _)
    rw [eatWhile_eq]
    by_cases accepted : accepts byte = true
    · rw [List.takeWhile_cons_of_pos accepted, List.length_cons] at below ⊢
      have behind : bytes.drop (start + (length + 1)) = rest := by
        rw [← Nat.add_assoc, ← List.drop_drop, ahead]
        rfl
      have further := ih behind fun count within inside => by
        have apart := below (count + 1) (by omega) (Nat.succ_lt_succ inside)
        rwa [Nat.add_assoc, Nat.add_comm 1 count]
      rw [Nat.add_comm _ 1, ← Nat.add_assoc]
      exact (nextIf_leads_some fits there accepted first).bind further.map
    · rw [List.takeWhile_cons_of_neg accepted]
      have refused : accepts byte = false := Bool.eq_false_iff.2 accepted
      refine (nextIf_leads_none fits fun found same => ?_).bind (.pure _)
      cases there.symm.trans same
      exact ⟨refused, first⟩

end Reading

end Buffer

end Lexing
