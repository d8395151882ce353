import Mathlib.Data.List.TakeWhile
import Lexing.Buffer.Drain
import Lexing.Proofs.Buffer.Ceiling

/-!
# Draining under a ceiling

Over bytes in memory, draining a buffer takes them in chunks as long as the ceiling (`Chunks`): one
is taken as long as more bytes are left than there is room for, and the last one is what fits
(`drain_leads`).
-/

set_option autoImplicit false

namespace Lexing.Buffer

open Operation (Leads)

variable {bytes rest : List UInt8} {bound start : Nat}

/-- Everything is accepted. -/
theorem takeWhile_everything (bytes : List UInt8) : (bytes.takeWhile fun _ => true) = bytes :=
  List.takeWhile_eq_self_iff.2 fun _ _ => rfl

theorem fill_leads_refused (fits : bytes.length < Size.max) (ahead : bytes.drop start = rest)
    (more : bound < rest.length) :
    Leads (StandsAt bytes (some bound) start 0) fill (.ok true) (RefusedAt bytes bound start) := by
  have here : bytes.drop (start + 0) = rest := ahead
  have accepted : bound ≤ (rest.takeWhile fun _ => true).length := by
    rw [takeWhile_everything]
    exact Nat.le_of_lt more
  exact (eatWhile_leads_refused fits _ here (Nat.zero_add bound) accepted more).attempt.bind
    (.pure true)

/-- The last bytes fill the token at most up to the ceiling. -/
theorem fill_leads_rest (fits : bytes.length < Size.max) (ahead : bytes.drop start = rest)
    (last : rest.length ≤ bound) :
    Leads (StandsAt bytes (some bound) start 0) fill (.ok false)
      (StandsAt bytes (some bound) start rest.length) := by
  have here : bytes.drop (start + 0) = rest := ahead
  have room : RoomFor (some bound) 0 (rest.takeWhile fun _ => true).length rest.length := by
    rintro _ ⟨⟩
    rw [takeWhile_everything, Nat.zero_add]
    omega
  have eats := eatWhile_leads_of_room fits _ here room
  rw [takeWhile_everything, Nat.zero_add] at eats
  exact eats.attempt.bind (.pure false)

/-- Chunks of bytes: all have the same length but the last, which may be shorter. None is empty,
unless there are no bytes. -/
structure Chunks (bound : Nat) (bytes : List UInt8) (front : List (Array UInt8))
    (last : Array UInt8) : Prop where
  full : ∀ chunk ∈ front, chunk.size = bound
  short : last.size ≤ bound
  filled : last = #[] → bytes = []
  joined : ((front ++ [last]).map Array.toList).flatten = bytes

theorem Chunks.single (short : rest.length ≤ bound) : Chunks bound rest [] rest.toArray where
  full := nofun
  short := short
  filled empty := congrArg Array.toList empty
  joined := by simp

theorem Chunks.cons {front : List (Array UInt8)} {last : Array UInt8} (more : bound < rest.length)
    (chunks : Chunks bound (rest.drop bound) front last) :
    Chunks bound rest ((rest.take bound).toArray :: front) last where
  full := by
    refine List.forall_mem_cons.2 ⟨?_, chunks.full⟩
    simp only [List.size_toArray, List.length_take]
    omega
  short := chunks.short
  filled empty := by
    have nothing := congrArg List.length (chunks.filled empty)
    rw [List.length_drop, List.length_nil] at nothing
    omega
  joined := by
    rw [List.cons_append, List.map_cons, List.flatten_cons, chunks.joined]
    exact List.take_append_drop bound rest

/-- Draining yields what is ahead in chunks, and leaves the buffer at the end of the bytes. -/
theorem drain_leads (fits : bytes.length < Size.max) (positive : 0 < bound)
    (inside : start ≤ bytes.length) (ahead : bytes.drop start = rest) {fuel : Nat}
    (enough : rest.length < fuel) :
    ∃ front last, Chunks bound rest front last ∧
      Leads (StandsAt bytes (some bound) start 0) (drain fuel) (.ok (some (front ++ [last])))
        (StandsAt bytes (some bound) bytes.length 0) := by
  induction fuel generalizing start rest with
  | zero => exact absurd enough (Nat.not_lt_zero _)
  | succ fuel ih =>
    have left : rest.length = bytes.length - start := by rw [← ahead, List.length_drop]
    by_cases more : bound < rest.length
    · have behind : bytes.drop (start + bound) = rest.drop bound := by
        rw [← ahead, List.drop_drop]
      obtain ⟨front, last, chunks, drains⟩ :=
        ih (by omega) behind (by rw [List.length_drop]; omega)
      have emits : Leads (RefusedAt bytes bound start) emit (.ok (rest.take bound).toArray)
          (StandsAt bytes (some bound) (start + bound) 0) :=
        (emit_leads (congrArg (List.take bound) ahead)).weaken fun _ => RefusedAt.standsAt
      refine ⟨_, last, chunks.cons more, ?_⟩
      exact (fill_leads_refused fits ahead more).bind (emits.bind (drains.bind (.pure _)))
    · have short : rest.length ≤ bound := Nat.le_of_not_lt more
      have ends : start + rest.length = bytes.length := by omega
      have emits : Leads (StandsAt bytes (some bound) start rest.length) emit (.ok rest.toArray)
          (StandsAt bytes (some bound) bytes.length 0) := by
        rw [← ends]
        exact emit_leads (by rw [ahead, List.take_length])
      refine ⟨[], _, .single short, ?_⟩
      exact (fill_leads_rest fits ahead short).bind (emits.bind (.pure _))

/-- At the end of the bytes all of them have been fetched. -/
theorem StandsAt.position_eq {limit : Option Nat} {buffer : Buffer Slice}
    (stands : StandsAt bytes limit bytes.length 0 buffer) :
    buffer.source.position = bytes.length := by
  obtain ⟨fetched, tracks⟩ := stands
  have sum : bytes.length + buffer.window.available + buffer.window.held.toList.length = fetched :=
    tracks.fetched
  have within : fetched ≤ bytes.length := tracks.fetched_le
  have position : buffer.source.position = fetched := tracks.position
  omega

end Lexing.Buffer
