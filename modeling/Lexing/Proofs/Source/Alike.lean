import Lexing.Source.Answers
import Lexing.Source.Metered
import Lexing.Source.ReadAhead
import Lexing.Source.Slice

/-!
# Sources that answer alike

Sources of different kinds answer alike when they are related in a way that every poll keeps, with
the same answer on both sides. What is proved of one kind of source then holds of the other.
-/

set_option autoImplicit false

namespace Lexing

variable {σ τ υ : Type} [ByteSource σ] [ByteSource τ] [ByteSource υ]

def AnswersAlike (related : σ → τ → Prop) : Prop :=
  ∀ left right, related left right →
    (ByteSource.poll left).1 = (ByteSource.poll right).1 ∧
      related (ByteSource.poll left).2 (ByteSource.poll right).2

/-- Two sources answer alike if a third one answers like both. -/
theorem AnswersAlike.comp {first : σ → τ → Prop} {second : τ → υ → Prop}
    (one : AnswersAlike first) (two : AnswersAlike second) :
    AnswersAlike fun left right => ∃ between, first left between ∧ second between right := by
  rintro left right ⟨between, near, far⟩
  obtain ⟨answer, near⟩ := one left between near
  obtain ⟨same, far⟩ := two between right far
  exact ⟨answer.trans same, _, near, far⟩

namespace Metered

structure Alike (related : σ → τ → Prop) (left : Metered σ) (right : Metered τ) : Prop where
  source : related left.source right.source
  polls : left.polls = right.polls
  delivered : left.delivered = right.delivered

theorem answersAlike {related : σ → τ → Prop} (alike : AnswersAlike related) :
    AnswersAlike (Alike related) := by
  rintro ⟨left, polls, delivered⟩ ⟨right, count, bytes⟩ ⟨source, polled, given⟩
  obtain ⟨answer, after⟩ := alike left right source
  simp only at polled given
  subst polled given
  simp only [ByteSource.poll, Metered.poll] at answer after ⊢
  generalize ByteSource.poll left = first at answer after ⊢
  generalize ByteSource.poll right = second at answer after ⊢
  obtain ⟨found, left⟩ := first
  obtain ⟨same, right⟩ := second
  simp only at answer after
  subst answer
  rcases found with fault | byte | _
  · exact ⟨rfl, after, rfl, rfl⟩
  · exact ⟨rfl, after, rfl, rfl⟩
  · exact ⟨rfl, after, rfl, rfl⟩

end Metered

abbrev byteAnswers (bytes : List UInt8) : List (Except Fault Next) :=
  bytes.map fun byte => .ok (.byte byte)

namespace Reader

/-- What a read that is tried again while it is interrupted takes off the answers of a reader: those
of a block of bytes, or one that tells of none. Past the last answer nothing is left to take. -/
inductive Takes (reader after : Reader) : Except Fault (List UInt8) → Prop
  | block {byte : UInt8} {rest : List UInt8} :
    reader.toScript.answers = byteAnswers (byte :: rest) ++ after.toScript.answers →
      Takes reader after (.ok (byte :: rest))
  | nothing : reader.toScript.answers = .ok .eos :: after.toScript.answers →
      Takes reader after (.ok [])
  | ended : reader.toScript.answers = [] → after.toScript.answers = [] → Takes reader after (.ok [])
  | fault {cause : Fault} : reader.toScript.answers = .error cause :: after.toScript.answers →
      Takes reader after (.error cause)

theorem Takes.of_answers_eq {before reader after : Reader} {outcome : Except Fault (List UInt8)}
    (takes : Takes reader after outcome)
    (same : before.toScript.answers = reader.toScript.answers) : Takes before after outcome := by
  cases takes with
  | block answers => exact .block (same.trans answers)
  | nothing answers => exact .nothing (same.trans answers)
  | ended answers none => exact .ended (same.trans answers) none
  | fault answers => exact .fault (same.trans answers)

/-- Delivering takes the answers of what is delivered. -/
theorem deliver_takes {size : Nat} {bytes : List UInt8} (positive : 0 < size)
    (some_byte : bytes ≠ []) (events : List Delivery) (reader : Reader) {before : Reader}
    (foretold : before.toScript.answers = byteAnswers bytes ++ events.flatMap Delivery.answers) :
    Takes before (reader.deliver size bytes events).2 (reader.deliver size bytes events).1 := by
  cases bytes with
  | nil => exact absurd rfl some_byte
  | cons byte rest =>
    cases size with
    | zero => cases positive
    | succ size =>
      refine .block (foretold.trans ?_)
      rw [deliver, toScript, ← List.append_assoc, ← List.map_append, List.cons_append,
        List.drop_succ_cons, List.take_append_drop]

/-- A read that delivers takes an answer, or finds none to take. -/
theorem read_takes {size : Nat} {reader after : Reader} {bytes : List UInt8} (positive : 0 < size)
    (read : reader.read size = (.ok bytes, after)) : Takes reader after (.ok bytes) := by
  obtain ⟨events, unread, calls, delivered⟩ := reader
  rcases unread with _ | ⟨byte, rest⟩
  · rcases events with _ | ⟨_ | _ | cause, events⟩
    · cases read
      simp only [List.take_nil]
      exact .ended rfl (by simp [toScript])
    next bytes =>
      rcases bytes with _ | ⟨byte, rest⟩
      · cases read
        simp only [List.take_nil]
        exact .nothing (by simp [toScript, Delivery.answers])
      · let before : Reader := ⟨.data (byte :: rest) :: events, [], calls, delivered⟩
        have foretold : before.toScript.answers =
            byteAnswers (byte :: rest) ++ events.flatMap Delivery.answers := rfl
        have took := deliver_takes positive (List.cons_ne_nil byte rest) events before foretold
        rwa [show deliver .. = _ from read] at took
    · cases read
      simp only [List.take_nil]
      exact .nothing (by simp [toScript, Delivery.answers])
    · cases read
  · let before : Reader := ⟨events, byte :: rest, calls, delivered⟩
    have foretold : before.toScript.answers =
        byteAnswers (byte :: rest) ++ events.flatMap Delivery.answers := rfl
    have took := deliver_takes positive (List.cons_ne_nil byte rest) events before foretold
    rwa [show deliver .. = _ from read] at took

/-- A fault takes an answer, unless the read is to be tried again. -/
theorem answers_of_read_error {size : Nat} {reader after : Reader} {cause : Fault}
    (read : reader.read size = (.error cause, after)) :
    reader.toScript.answers = (Delivery.fault cause).answers ++ after.toScript.answers := by
  obtain ⟨events, unread, calls, delivered⟩ := reader
  rcases unread with _ | ⟨byte, rest⟩
  · rcases events with _ | ⟨_ | _ | cause, events⟩
    · cases read
    · cases read
    · cases read
    · cases read
      rfl
  · cases read

theorem readThrough_takes {size : Nat} (positive : 0 < size) (reader : Reader) :
    Takes reader (reader.readThrough size).2 (reader.readThrough size).1 := by
  fun_induction readThrough size reader with
  | case1 reader bytes after read => exact read_takes positive read
  | case2 reader cause after read transient ih =>
    have foretold := answers_of_read_error read
    rw [Delivery.answers, if_pos transient, List.nil_append] at foretold
    exact ih.of_answers_eq foretold
  | case3 reader cause after read final =>
    have foretold := answers_of_read_error read
    rw [Delivery.answers, if_neg final] at foretold
    exact .fault foretold

end Reader

/-- The script lists what is read ahead and then what the reader answers. -/
structure ReadAhead.Foretold (script : Script) (source : ReadAhead) : Prop where
  positive : 0 < source.size
  answers : script.answers = byteAnswers source.ahead ++ source.reader.toScript.answers

/-- Read byte by byte, a block reader answers like the script of its answers. -/
theorem ReadAhead.foretold_answersAlike : AnswersAlike ReadAhead.Foretold := by
  rintro ⟨answers⟩ ⟨reader, ahead, size⟩ ⟨positive, foretold⟩
  simp only at positive foretold
  subst foretold
  cases ahead with
  | cons byte rest => exact ⟨rfl, positive, rfl⟩
  | nil =>
    have takes := reader.readThrough_takes positive
    simp only [ByteSource.poll, poll, List.map_nil, List.nil_append]
    generalize reader.readThrough size = result at takes ⊢
    obtain ⟨outcome, after⟩ := result
    simp only at takes
    cases takes with
    | block answers =>
      rw [answers]
      exact ⟨rfl, positive, rfl⟩
    | nothing answers =>
      rw [answers]
      exact ⟨rfl, positive, rfl⟩
    | ended answers none =>
      rw [answers]
      exact ⟨rfl, positive, by simp [none, Script.poll]⟩
    | fault answers =>
      rw [answers]
      exact ⟨rfl, positive, rfl⟩

/-- The script lists the bytes that are left, and ends after them. -/
def Slice.Listed (slice : Slice) (script : Script) : Prop :=
  ∃ ends, script.answers = byteAnswers slice.remaining ++ List.replicate ends (.ok .eos)

/-- Bytes in memory answer like the script that lists them. -/
theorem Slice.listed_answersAlike : AnswersAlike Slice.Listed := by
  rintro ⟨position, remaining⟩ ⟨answers⟩ ⟨ends, listed⟩
  simp only at listed
  subst listed
  cases remaining with
  | cons byte rest => exact ⟨rfl, ends, rfl⟩
  | nil =>
    cases ends with
    | zero => exact ⟨rfl, 0, rfl⟩
    | succ ends => exact ⟨rfl, ends, rfl⟩

/-- A device that delivers these bytes in blocks and is then at its end. It may be interrupted at
any time. -/
inductive Delivers : List Delivery → List UInt8 → Prop
  | ended : Delivers [] []
  | finished {deliveries : List Delivery} : Delivers deliveries [] →
      Delivers (.finish :: deliveries) []
  | block {byte : UInt8} {rest bytes : List UInt8} {deliveries : List Delivery} :
      Delivers deliveries bytes →
        Delivers (.data (byte :: rest) :: deliveries) (byte :: rest ++ bytes)
  | interrupted {cause : Fault} {bytes : List UInt8} {deliveries : List Delivery} :
      cause.isTransient = true → Delivers deliveries bytes →
        Delivers (.fault cause :: deliveries) bytes

/-- Its answers are the bytes, and the end for ever after. -/
theorem Delivers.answers {deliveries : List Delivery} {bytes : List UInt8}
    (delivers : Delivers deliveries bytes) :
    ∃ ends, deliveries.flatMap Delivery.answers =
      byteAnswers bytes ++ List.replicate ends (.ok .eos) := by
  induction delivers with
  | ended => exact ⟨0, rfl⟩
  | finished _ ih =>
    obtain ⟨ends, answers⟩ := ih
    refine ⟨ends + 1, ?_⟩
    rw [List.flatMap_cons, answers]
    rfl
  | block _ ih =>
    obtain ⟨ends, answers⟩ := ih
    refine ⟨ends, ?_⟩
    rw [List.flatMap_cons, answers, ← List.append_assoc, Delivery.answers, ← List.map_append]
  | interrupted transient _ ih =>
    obtain ⟨ends, answers⟩ := ih
    refine ⟨ends, ?_⟩
    rw [List.flatMap_cons, answers, Delivery.answers, if_pos transient, List.nil_append]

def Delivering (slice : Slice) (source : ReadAhead) : Prop :=
  ∃ script, slice.Listed script ∧ ReadAhead.Foretold script source

theorem delivering_answersAlike : AnswersAlike Delivering :=
  Slice.listed_answersAlike.comp ReadAhead.foretold_answersAlike

theorem Delivers.delivering {deliveries : List Delivery} {bytes : List UInt8} {size : Nat}
    (delivers : Delivers deliveries bytes) (positive : 0 < size) :
    Delivering (.ofList bytes) (.ofReader size (.ofEvents deliveries)) := by
  obtain ⟨ends, answers⟩ := delivers.answers
  exact ⟨⟨deliveries.flatMap Delivery.answers⟩, ⟨ends, answers⟩, positive, rfl⟩

end Lexing
