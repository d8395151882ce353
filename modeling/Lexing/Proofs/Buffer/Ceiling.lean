import Lexing.Proofs.Buffer.Place

/-!
# At the ceiling

A token that is as long as the ceiling takes no further byte: a byte that follows it is refused and
held (`RefusedAt`). Eating that comes to the ceiling before it comes to a byte that is not accepted
ends there (`eatWhile_leads_refused`), with `eatWhile_leads` for all other cases. The refused byte
is the first one that is read when the token has been taken.
-/

set_option autoImplicit false

namespace Lexing.Buffer

open Operation (Leads)

variable {bytes : List UInt8} {bound start length : Nat} {byte : UInt8} {buffer : Buffer Slice}

/-- The token is as long as the ceiling, and the byte behind it has been refused. No byte after
that one has been fetched. -/
def RefusedAt (bytes : List UInt8) (bound start : Nat) (buffer : Buffer Slice) : Prop :=
  Tracks bytes (some bound) buffer ⟨start, bound, start + bound + 1⟩

/-- A token does not get longer than the ceiling. -/
theorem StandsAt.length_le (stands : StandsAt bytes (some bound) start length buffer) :
    length ≤ bound := by
  obtain ⟨fetched, tracks⟩ := stands
  have consumed : buffer.window.consumed = length := tracks.consumed
  have stored := tracks.formed.consumed_le
  have fits := tracks.formed.available_le
  have capacity := tracks.formed.capacity_le bound tracks.limit
  omega

theorem StandsAt.bound_pos (stands : StandsAt bytes (some bound) start length buffer) :
    0 < bound := by
  obtain ⟨fetched, tracks⟩ := stands
  have positive := tracks.formed.capacity_pos
  have capacity := tracks.formed.capacity_le bound tracks.limit
  omega

theorem RefusedAt.standsAt (refused : RefusedAt bytes bound start buffer) :
    StandsAt bytes (some bound) start bound buffer :=
  ⟨_, refused⟩

/-- Nothing but the token is stored. -/
theorem RefusedAt.available_eq (refused : RefusedAt bytes bound start buffer) :
    buffer.window.available = bound := by
  have consumed : buffer.window.consumed = bound := refused.consumed
  have stored := refused.formed.consumed_le
  have fits := refused.formed.available_le
  have capacity := refused.formed.capacity_le bound refused.limit
  omega

/-- The byte behind the token is held. -/
theorem RefusedAt.held_eq (refused : RefusedAt bytes bound start buffer) :
    ∃ byte, buffer.window.held = some byte ∧ bytes[start + bound]? = some byte := by
  have consumed : buffer.window.consumed = bound := refused.consumed
  have available := refused.available_eq
  cases held : buffer.window.held with
  | some byte =>
    have used := consumed.trans available.symm
    exact ⟨byte, rfl, refused.getElem?_of_held used held⟩
  | none =>
    have fetched := refused.fetched
    simp only [held, Option.toList_none, List.length_nil] at fetched
    omega

/-- Up to and with the refused byte all bytes have been fetched, and no others. -/
theorem RefusedAt.position_eq (refused : RefusedAt bytes bound start buffer) :
    buffer.source.position = start + bound + 1 :=
  refused.position

theorem RefusedAt.pending_eq (refused : RefusedAt bytes bound start buffer) :
    buffer.window.pending.toList = (bytes.drop start).take bound :=
  Tracks.pending_eq refused

/-- Of bytes in memory no part is so long that twice its length is no size. -/
theorem RefusedAt.double_eq (refused : RefusedAt bytes bound start buffer)
    (fits : 2 * bytes.length < Size.max) : Size.double bound = 2 * bound := by
  have inside := refused.standsAt.inside
  unfold Size.double
  omega

/-- Whether a token can take so many more bytes and end there, with so many left of the stream. One
that gets as long as the ceiling ends only with the stream. -/
def RoomFor (limit : Option Nat) (length count left : Nat) : Prop :=
  ∀ bound, limit = some bound → length + count < bound ∨ length + count = bound ∧ count = left

section Reading

variable (fits : bytes.length < Size.max)

include fits

/-- A byte that follows a token as long as the ceiling is refused. -/
theorem next_leads_refused (there : bytes[start + bound]? = some byte) :
    Leads (StandsAt bytes (some bound) start bound) next
      (.error (.allocationFailure (Size.double bound))) (RefusedAt bytes bound start) := by
  rintro buffer ⟨fetched, tracks⟩
  have agree := next_agrees fits tracks
  have consumed : buffer.window.consumed = bound := tracks.consumed
  have stored := tracks.formed.available_le
  have capacity := tracks.formed.capacity_le bound tracks.limit
  -- what has been fetched is stored or held, and there is no room for more
  have upto : fetched ≤ start + bound + 1 := by
    have sum : start + buffer.window.available + buffer.window.held.toList.length = fetched :=
      tracks.fetched
    have single : buffer.window.held.toList.length ≤ 1 := by
      cases buffer.window.held <;> simp
    omega
  have refusal : Offsets.next bytes (some bound) ⟨start, bound, fetched⟩ =
      ⟨.error (.allocationFailure (Size.double bound)),
        ⟨start, bound, max fetched (start + bound + 1)⟩, #[]⟩ := Offsets.next_eq_refusal there rfl
  rw [refusal, Nat.max_eq_right upto] at agree
  exact ⟨agree.outcome, agree.state⟩

theorem nextIf_leads_refused (accepts : UInt8 → Bool)
    (there : bytes[start + bound]? = some byte) :
    Leads (StandsAt bytes (some bound) start bound) (nextIf accepts)
      (.error (.allocationFailure (Size.double bound))) (RefusedAt bytes bound start) :=
  (next_leads_refused fits there).bind_error

/-- Eating fails where a byte follows a token that has become as long as the ceiling, whether that
byte is accepted or not. -/
theorem eatWhile_leads_refused (accepts : UInt8 → Bool) {rest : List UInt8} {room : Nat}
    (ahead : bytes.drop (start + length) = rest) (filled : length + room = bound)
    (accepted : room ≤ (rest.takeWhile accepts).length) (inside : room < rest.length) :
    Leads (StandsAt bytes (some bound) start length) (eatWhile accepts)
      (.error (.allocationFailure (Size.double bound))) (RefusedAt bytes bound start) := by
  induction room generalizing length rest with
  | zero =>
    obtain ⟨byte, more, rfl⟩ := List.exists_cons_of_length_pos inside
    have there : bytes[start + bound]? = some byte := by
      rw [← filled, ← List.head?_drop, Nat.add_zero, ahead, List.head?_cons]
    rw [eatWhile_eq, ← filled, Nat.add_zero]
    rw [← filled, Nat.add_zero] at there
    exact (nextIf_leads_refused fits accepts there).bind_error
  | succ room ih =>
    obtain ⟨byte, more, rfl⟩ := List.exists_cons_of_length_pos (Nat.zero_lt_of_lt inside)
    have there : bytes[start + length]? = some byte := by
      rw [← List.head?_drop, ahead, List.head?_cons]
    have behind : bytes.drop (start + (length + 1)) = more := by
      rw [← Nat.add_assoc, ← List.drop_drop, ahead]
      rfl
    have below : some bound ≠ some length := by
      intro same
      have := Option.some.inj same
      omega
    by_cases taken : accepts byte = true
    · rw [List.takeWhile_cons_of_pos taken] at accepted
      rw [List.length_cons] at accepted inside
      have further := ih behind (by omega) (by omega) (by omega)
      rw [eatWhile_eq]
      exact (nextIf_leads_some fits there taken below).bind further.map
    · rw [List.takeWhile_cons_of_neg taken] at accepted
      exact absurd accepted (Nat.not_succ_le_zero room)

/-- Eating takes all leading bytes that are accepted if the token has room for them. -/
theorem eatWhile_leads_of_room (accepts : UInt8 → Bool) {limit : Option Nat} {rest : List UInt8}
    (ahead : bytes.drop (start + length) = rest)
    (room : RoomFor limit length (rest.takeWhile accepts).length rest.length) :
    Leads (StandsAt bytes limit start length) (eatWhile accepts)
      (.ok (rest.takeWhile accepts).length)
      (StandsAt bytes limit start (length + (rest.takeWhile accepts).length)) := by
  apply eatWhile_leads fits accepts ahead
  intro count within inside same
  have := room _ same
  omega

/-- Eating fails if the token has no room for all leading bytes that are accepted. -/
theorem eatWhile_leads_of_no_room (accepts : UInt8 → Bool) {rest : List UInt8}
    (ahead : bytes.drop (start + length) = rest) (upto : length ≤ bound)
    (tight : ¬ RoomFor (some bound) length (rest.takeWhile accepts).length rest.length) :
    Leads (StandsAt bytes (some bound) start length) (eatWhile accepts)
      (.error (.allocationFailure (Size.double bound))) (RefusedAt bytes bound start) := by
  have within : (rest.takeWhile accepts).length ≤ rest.length :=
    (List.takeWhile_sublist accepts).length_le
  have long : ¬ (length + (rest.takeWhile accepts).length < bound ∨
      length + (rest.takeWhile accepts).length = bound ∧
        (rest.takeWhile accepts).length = rest.length) := by
    intro short
    apply tight
    intro other same
    cases same
    exact short
  have filled : length + (bound - length) = bound := Nat.add_sub_of_le upto
  apply eatWhile_leads_refused fits accepts ahead filled
  · omega
  · omega

/-- When the token has been taken, the byte that was refused is read. -/
theorem RefusedAt.next_after {α : Type} {value : α} {operation : BufferM Slice α}
    (refused : RefusedAt bytes bound start buffer)
    (discards : Leads (StandsAt bytes (some bound) start bound) operation (.ok value)
      (StandsAt bytes (some bound) (start + bound) 0)) :
    (next (operation buffer).state).outcome = .ok (Next.ofByte? bytes[start + bound]?) := by
  obtain ⟨byte, -, there⟩ := refused.held_eq
  have left := (discards buffer refused.standsAt).2
  have positive := refused.standsAt.bound_pos
  have below : some bound ≠ some 0 := by
    intro same
    have := Option.some.inj same
    omega
  have behind : bytes[start + bound + 0]? = some byte := there
  rw [there]
  exact (next_leads_byte fits behind below _ left).1

end Reading

end Lexing.Buffer
