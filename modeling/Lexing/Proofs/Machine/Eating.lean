import Lexing.Proofs.Buffer.Ceiling
import Lexing.Proofs.Machine.Keeping

/-!
# Eating

However a buffer over bytes in memory has been used before, it stands at some place in them
(`standsAt_of_used`). From there, eating takes the longest prefix of what is left that is accepted,
if the token has room for it, and else fills the token up to the ceiling and fails
(`eatWhile_exact`).
-/

set_option autoImplicit false

namespace Lexing.Buffer

variable {bytes : List UInt8} {config : Config} {memory : Nat} {first buffer : Buffer Slice}

/-- Every call leaves a buffer at some place in the bytes. -/
theorem perform_keeps_place {limit : Option Nat} (fits : bytes.length < Size.max) (call : Call) :
    Operation.Keeps (fun buffer => ∃ start length, StandsAt bytes limit start length buffer)
      (call.perform (σ := Slice)) := by
  rintro buffer ⟨start, length, fetched, tracks⟩
  have agree := perform_agrees fits call tracks
  exact ⟨_, _, _, agree.state⟩

/-- A buffer in use stands at some place in the bytes. -/
theorem standsAt_of_used (fits : bytes.length < Size.max)
    (granted : GrantsGrowth memory config.limit bytes.length)
    (opened : openWith config memory (Slice.ofList bytes) = .ok first)
    (used : Used first buffer) :
    ∃ start length, StandsAt bytes config.limit start length buffer := by
  apply used.keeps (perform_keeps_place fits)
  exact ⟨0, 0, 0, tracks_of_openWith granted opened⟩

section Standing

variable {limit : Option Nat} {start length bound : Nat} {rest : List UInt8}
  (accepts : UInt8 → Bool) (ahead : bytes.drop (start + length) = rest)

include ahead

/-- Eating where there is room. -/
theorem StandsAt.eats (fits : bytes.length < Size.max)
    (stands : StandsAt bytes limit start length buffer)
    (room : RoomFor limit length (rest.takeWhile accepts).length rest.length) :
    let count := (rest.takeWhile accepts).length
    let eaten := eatWhile accepts buffer
    eaten.outcome = .ok count ∧ eaten.state.window.start = buffer.window.start ∧
      eaten.state.window.pending.toList = buffer.window.pending.toList ++ rest.take count ∧
      (next eaten.state).outcome = .ok (Next.ofByte? rest[count]?) := by
  intro count eaten
  obtain ⟨outcome, left⟩ := eatWhile_leads_of_room fits accepts ahead room buffer stands
  have behind : bytes[start + (length + count)]? = rest[count]? := by
    rw [← ahead, List.getElem?_drop, Nat.add_assoc]
  have below : start + (length + count) < bytes.length → limit ≠ some (length + count) := by
    intro more same
    have within := room _ same
    have upto : rest.length = bytes.length - (start + length) := by
      rw [← ahead, List.length_drop]
    omega
  have follows := next_outcome fits below left
  have pending := stands.pending_add left
  rw [ahead] at pending
  rw [behind] at follows
  exact ⟨outcome, left.start_eq.trans stands.start_eq.symm, pending, follows⟩

/-- Eating where there is no room. -/
theorem StandsAt.fills (fits : 2 * bytes.length < Size.max)
    (stands : StandsAt bytes (some bound) start length buffer)
    (tight : ¬ RoomFor (some bound) length (rest.takeWhile accepts).length rest.length) :
    let eaten := eatWhile accepts buffer
    ∃ byte, eaten.outcome = .error (.allocationFailure (2 * bound)) ∧
      eaten.state.window.start = buffer.window.start ∧
      eaten.state.window.pending.toList =
        buffer.window.pending.toList ++ rest.take (bound - length) ∧
      rest[bound - length]? = some byte ∧ eaten.state.window.held = some byte ∧
      (next (dump eaten.state).state).outcome = .ok (.byte byte) := by
  intro eaten
  have inside : bytes.length < Size.max := by omega
  have upto := stands.length_le
  obtain ⟨outcome, refused⟩ :=
    eatWhile_leads_of_no_room inside accepts ahead upto tight buffer stands
  obtain ⟨byte, held, there⟩ := refused.held_eq
  have filled : length + (bound - length) = bound := Nat.add_sub_of_le upto
  have behind : rest[bound - length]? = some byte := by
    rw [← ahead, List.getElem?_drop, Nat.add_assoc, filled, there]
  have grown : StandsAt bytes (some bound) start (length + (bound - length)) eaten.state := by
    rw [filled]
    exact refused.standsAt
  have pending := stands.pending_add grown
  have released := refused.next_after inside dump_leads
  rw [ahead] at pending
  rw [there] at released
  rw [refused.double_eq fits] at outcome
  exact ⟨byte, outcome, refused.standsAt.start_eq.trans stands.start_eq.symm, pending, behind, held,
    released⟩

end Standing

/-- What eating does to a buffer in use over bytes in memory. The token starts where it did.

If the token has room for the longest prefix of the rest that is accepted, the prefix is counted and
added to the token, and the byte behind it is the next one that is read, or the end. In every other
case there is a ceiling: the token is filled up to it, and the byte that follows is refused and
held, to be read when the token has been discarded. -/
theorem eatWhile_exact (fits : 2 * bytes.length < Size.max)
    (granted : GrantsGrowth memory config.limit bytes.length)
    (opened : openWith config memory (Slice.ofList bytes) = .ok first) (used : Used first buffer)
    (accepts : UInt8 → Bool) :
    let length := buffer.window.consumed
    let rest := bytes.drop buffer.window.offset.toNat
    let count := (rest.takeWhile accepts).length
    let eaten := eatWhile accepts buffer
    eaten.state.window.start = buffer.window.start ∧
      (RoomFor config.limit length count rest.length →
        eaten.outcome = .ok count ∧
          eaten.state.window.pending.toList = buffer.window.pending.toList ++ rest.take count ∧
          (next eaten.state).outcome = .ok (Next.ofByte? rest[count]?)) ∧
      (¬ RoomFor config.limit length count rest.length →
        ∃ bound byte, config.limit = some bound ∧ length ≤ bound ∧
          eaten.outcome = .error (.allocationFailure (2 * bound)) ∧
          eaten.state.window.pending.toList =
            buffer.window.pending.toList ++ rest.take (bound - length) ∧
          rest[bound - length]? = some byte ∧ eaten.state.window.held = some byte ∧
          (next (dump eaten.state).state).outcome = .ok (.byte byte)) := by
  have inside : bytes.length < Size.max := by omega
  obtain ⟨start, length, stands⟩ := standsAt_of_used inside granted opened used
  rw [stands.offset_toNat inside, stands.consumed_eq]
  intro length' rest count eaten
  have ahead : bytes.drop (start + length) = rest := rfl
  by_cases room : RoomFor config.limit length count rest.length
  · obtain ⟨outcome, starts, pending, follows⟩ := stands.eats accepts ahead inside room
    exact ⟨starts, fun _ => ⟨outcome, pending, follows⟩, fun tight => absurd room tight⟩
  · cases limit : config.limit with
    | none => exact absurd (fun bound same => nomatch limit.symm.trans same) room
    | some bound =>
      rw [limit] at stands room
      obtain ⟨byte, outcome, starts, pending, there, held, released⟩ :=
        stands.fills accepts ahead fits room
      refine ⟨starts, fun able => absurd able room, fun _ => ?_⟩
      exact ⟨bound, byte, rfl, stands.length_le, outcome, pending, there, held, released⟩

/-- A token of one byte takes another one and has the length of the ceiling, but a byte follows that
is not accepted. -/
theorem eatWhile_exact_cramped :
    let first : Buffer Slice := ⟨Window.empty 1 (some 2) (1 <<< 48), .ofList [97, 97, 98]⟩
    let buffer := (next first).state
    let eaten := eatWhile (· == 97) buffer
    openWith ⟨1, some 2⟩ (1 <<< 48) (Slice.ofList [97, 97, 98]) = .ok first ∧ Used first buffer ∧
      ¬ RoomFor (some 2) 1 1 2 ∧ eaten.outcome = .error (.allocationFailure 4) ∧
      eaten.state.window.pending.toList = [97, 97] ∧
      (next (dump eaten.state).state).outcome = .ok (.byte 98) := by
  intro first buffer eaten
  have opened : openWith ⟨1, some 2⟩ (1 <<< 48) (Slice.ofList [97, 97, 98]) = .ok first := rfl
  have used : Used first buffer := Used.unused.called .next
  have granted : GrantsGrowth (1 <<< 48) (some 2) 3 := grantsGrowth_of_lt _ (by decide)
  have tight : ¬ RoomFor (some 2) 1 1 2 := fun room => absurd (room 2 rfl) (by decide)
  obtain ⟨bound, byte, limit, -, outcome, pending, there, -, released⟩ :=
    (eatWhile_exact (by decide) granted opened used (· == 97)).2.2 tight
  cases limit
  cases there
  exact ⟨opened, used, tight, outcome, pending, released⟩

end Lexing.Buffer
