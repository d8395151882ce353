import Lexing.Proofs.Buffer.Draining
import Lexing.Proofs.Buffer.Refusal
import Lexing.Proofs.Machine.Defects

/-!
# Recovery at the ceiling

A buffer in use that comes to its ceiling can be used on: what was read is discarded, the byte that
was refused is read after it, and nothing is lost. So a stream can be taken in chunks of the length
of the ceiling (`recovery_loses_nothing`).
-/

set_option autoImplicit false

namespace Lexing.Buffer

/-- What a buffer does that has refused a byte with a token as long as the ceiling. -/
structure Recovers {σ : Type} [ByteSource σ] (bound : Nat) (byte : UInt8)
    (buffer : Buffer σ) : Prop where
  held : buffer.window.held = some byte
  /-- While it is only read from, every read fails and the buffer and its source do not change. -/
  stays : ∀ calls : List Call, (∀ call ∈ calls, call.IsRead) →
    (performAll calls buffer).outcome =
        .ok (calls.map fun _ => .error (.allocationFailure (Size.double bound))) ∧
      (performAll calls buffer).state = buffer
  /-- When some bytes have been given back and the others discarded, then until the token is as long
  as the ceiling again the reads yield the bytes that were given back, the refused one, and what the
  source answers. -/
  resumes : ∀ backs < bound,
    let back := performAll (List.replicate backs .back) buffer
    back.outcome = .ok (List.replicate backs (.ok .done)) ∧
      ∀ discard : Call, discard.IsDiscard → ∀ value,
        (discard.perform back.state).outcome = .ok value → ∀ count ≤ bound,
          (performAll (List.replicate count .next) (discard.perform back.state).state).outcome =
            .ok ((byteAnswers
                ((buffer.window.pending.toList.drop (bound - backs) ++ [byte]).take count) ++
              ByteSource.answers buffer.source (count - (backs + 1))).map Value.ofAnswer)

theorem Refusing.recovers {σ : Type} [ByteSource σ] {bound : Nat} {byte : UInt8}
    {buffer : Buffer σ} (refusing : Refusing bound byte buffer) : Recovers bound byte buffer where
  held := refusing.held
  stays := refusing.stays
  resumes backs fewer := by
    have within : backs ≤ buffer.window.consumed := by
      rw [refusing.consumed]
      exact Nat.le_of_lt fewer
    refine ⟨congrArg Result.outcome (backs_eq within), ?_⟩
    intro discard discards value succeeds count upto
    exact refusing.reads_after fewer upto discards succeeds

/-- Nothing is lost at the ceiling.

A client that takes what there was room for whenever it wants room takes bytes in memory in chunks
as long as the ceiling, the last one perhaps shorter, and comes to their end. However a buffer has
been used, when a read has failed for want of room and left a token as long as the ceiling, all
further reads fail and change nothing, the record of polls included; and the bytes that were given
back and the refused one are read in order before others once the rest has been discarded. -/
theorem recovery_loses_nothing :
    (∀ {bytes : List UInt8} {bound capacity memory : Nat} {first : Buffer Slice},
      bytes.length < Size.max → GrantsGrowth memory (some bound) bytes.length →
      openWith ⟨capacity, some bound⟩ memory (Slice.ofList bytes) = .ok first →
      ∀ fuel, bytes.length < fuel → ∃ front last, Chunks bound bytes front last ∧
        (drain fuel first).outcome = .ok (some (front ++ [last])) ∧
        (drain fuel first).state.source.position = bytes.length) ∧
    ∀ {σ : Type} [ByteSource σ] {source : Metered σ} {config : Config} {memory bound : Nat}
      {first buffer : Buffer (Metered σ)}, openWith config memory source = .ok first →
      config.limit = some bound → Used first buffer → ∀ call : Call, call.IsRead → ∀ requested,
        (call.perform buffer).outcome = .error (.allocationFailure requested) →
        (call.perform buffer).state.window.consumed = bound →
        requested = Size.double bound ∧
          ∃ byte, Recovers bound byte (call.perform buffer).state := by
  constructor
  · intro bytes bound capacity memory first fits granted opened fuel enough
    have stands : StandsAt bytes (some bound) 0 0 first := ⟨0, tracks_of_openWith granted opened⟩
    obtain ⟨front, last, chunks, drains⟩ :=
      drain_leads fits stands.bound_pos (Nat.zero_le _) List.drop_zero enough
    obtain ⟨outcome, left⟩ := drains first stands
    exact ⟨front, last, chunks, outcome, left.position_eq⟩
  · intro σ _ source config memory bound first buffer opened limit used call reads requested fails
      filled
    obtain ⟨same, byte, refusing⟩ :=
      refusing_of_read (used.bounded opened) limit reads fails filled
    exact ⟨same, byte, refusing.recovers⟩

/-- Five bytes come in chunks of two. The same bytes behind a record of polls: two are read and the
third is refused; one is given back and the other discarded, and the reads that follow yield the one
that was given back and the refused one. -/
theorem recovery_loses_nothing_of_five :
    let bytes : List UInt8 := [1, 2, 3, 4, 5]
    let slice : Buffer Slice := ⟨Window.empty 1 (some 2) (1 <<< 48), .ofList bytes⟩
    let first : Buffer (Metered Slice) :=
      ⟨Window.empty 1 (some 2) (1 <<< 48), .ofSource (.ofList bytes)⟩
    let buffer := (performAll [.next, .next] first).state
    let refused := (Call.next.perform buffer).state
    let taken := (Call.dump.perform (performAll [.back] refused).state).state
    openWith ⟨1, some 2⟩ (1 <<< 48) (Slice.ofList bytes) = .ok slice ∧
      openWith ⟨1, some 2⟩ (1 <<< 48) (Metered.ofSource (Slice.ofList bytes)) = .ok first ∧
      (∃ front last, Chunks 2 bytes front last ∧
        (drain 6 slice).outcome = .ok (some (front ++ [last])) ∧
        (drain 6 slice).state.source.position = 5) ∧
      (Call.next.perform buffer).outcome = .error (.allocationFailure 4) ∧
      (performAll [.next, .peek] refused).state = refused ∧
      (performAll [.next, .next] taken).outcome =
        .ok [.ok (.next (.byte 2)), .ok (.next (.byte 3))] := by
  intro bytes slice first buffer refused taken
  have opened : openWith ⟨1, some 2⟩ (1 <<< 48) (Slice.ofList bytes) = .ok slice := rfl
  have metered : openWith ⟨1, some 2⟩ (1 <<< 48) (Metered.ofSource (Slice.ofList bytes)) =
      .ok first := rfl
  have granted : GrantsGrowth (1 <<< 48) (some 2) bytes.length :=
    grantsGrowth_of_lt _ (by decide)
  have used : Used first buffer := (Used.unused.called .next).called .next
  have fails : (Call.next.perform buffer).outcome = .error (.allocationFailure 4) := rfl
  have drains := recovery_loses_nothing.1 (by decide) granted opened 6 (by decide)
  obtain ⟨-, byte, recovers⟩ :=
    recovery_loses_nothing.2 metered rfl used .next trivial 4 fails rfl
  have held : byte = 3 := (Option.some.inj recovers.held).symm
  subst held
  have stays := (recovers.stays [.next, .peek] (by simp [Call.IsRead])).2
  have resumes := (recovers.resumes 1 (by decide)).2 .dump trivial .done rfl 2 (Nat.le_refl 2)
  exact ⟨opened, metered, drains, fails, stays, resumes⟩

end Lexing.Buffer
