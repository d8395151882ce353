import Lexing.Proofs.Source.Ends

/-!
# The stream of a source

Whatever a source answers between them, the bytes that it hands out come in one order. A source
streams given bytes if it never hands out others (`Streams`). A script does so with the bytes that it
lists (`Script.streams`), and bytes in memory with those that are left (`Slice.streams`).
-/

set_option autoImplicit false

namespace Lexing

def bytesAmong (answers : List (Except Fault Next)) : List UInt8 :=
  answers.filterMap fun
    | .ok next => next.byte?
    | .error _ => none

theorem bytesAmong_byteAnswers (bytes : List UInt8) : bytesAmong (byteAnswers bytes) = bytes := by
  rw [bytesAmong, byteAnswers, List.filterMap_map]
  exact List.filterMap_some

theorem bytesAmong_ends (ends : Nat) : bytesAmong (List.replicate ends (.ok .eos)) = [] := by
  rw [bytesAmong, List.filterMap_replicate_of_none rfl]

variable {σ : Type} [ByteSource σ]

namespace ByteSource

/-- Whether so many bytes at most, and these in order, come of all polls. Ends and faults may come
between them, and bytes after an end. -/
def Streams (bytes : List UInt8) (source : σ) : Prop :=
  ∀ polls, bytesAmong (answers source polls) <+: bytes

variable {bytes : List UInt8} {source after : σ}

/-- A byte that is handed out is the first of those to come. -/
theorem Streams.of_byte {byte : UInt8} (streams : Streams bytes source)
    (answer : poll source = (.ok (.byte byte), after)) :
    ∃ rest, bytes = byte :: rest ∧ Streams rest after := by
  have told (polls : Nat) :
      bytesAmong (answers source (polls + 1)) = byte :: bytesAmong (answers after polls) := by
    rw [answers, answer]
    rfl
  obtain ⟨rest, whole⟩ := streams 1
  rw [told 0, List.cons_append] at whole
  refine ⟨_, whole.symm, fun polls => ?_⟩
  have begins := streams (polls + 1)
  rw [told polls, ← whole] at begins
  exact (List.cons_prefix_cons.1 begins).2

/-- An answer that tells of no byte leaves all bytes to come. -/
theorem Streams.of_other {answer : Except Fault Next} (streams : Streams bytes source)
    (answered : poll source = (answer, after)) (nothing : tellsNoByte answer = true) :
    Streams bytes after := by
  intro polls
  have begins := streams (polls + 1)
  rw [answers, answered] at begins
  rcases answer with fault | byte | _
  · exact begins
  · cases nothing
  · exact begins

end ByteSource

open ByteSource (Streams)

theorem Script.streams (script : Script) : Streams (bytesAmong script.answers) script := by
  intro polls
  rw [script.answers_eq, bytesAmong, List.filterMap_append]
  change _ ++ bytesAmong _ <+: _
  rw [bytesAmong_ends, List.append_nil]
  exact (List.take_prefix polls script.answers).filterMap _

theorem Slice.streams (slice : Slice) : Streams slice.remaining slice := by
  intro polls
  have listed : slice.Listed ⟨byteAnswers slice.remaining⟩ := ⟨0, (List.append_nil _).symm⟩
  rw [ByteSource.answers_eq Slice.listed_answersAlike polls listed]
  have streams := Script.streams ⟨byteAnswers slice.remaining⟩ polls
  rwa [bytesAmong_byteAnswers] at streams

end Lexing
