import Lexing.Proofs.Source.Alike

/-!
# Sources at their end

A source keeps its end if, once a poll was answered by the end of the stream, all later ones are
(`KeepsEnd`). Whether it does can be read off its answers, so sources that answer alike keep their
ends alike. Bytes in memory keep their end. A block reader that is read ahead of does so exactly if
nothing but ends comes after an end among the answers that it gives byte by byte, or, where no byte
is asked for at a time, among those before the first byte (`ReadAhead.keepsEnd_iff`).
-/

set_option autoImplicit false

namespace Lexing

variable {σ τ : Type} [ByteSource σ] [ByteSource τ]

namespace ByteSource

def answers : σ → Nat → List (Except Fault Next)
  | _, 0 => []
  | source, polls + 1 => (poll source).1 :: answers (poll source).2 polls

/-- Whether an answer may come after another: after an end only an end may. -/
def MayFollow (earlier later : Except Fault Next) : Prop :=
  earlier = .ok .eos → later = .ok .eos

def KeepsEnd (source : σ) : Prop := ∀ polls, (answers source polls).Pairwise MayFollow

def AtEnd (source : σ) : Prop := ∀ polls, ∀ answer ∈ answers source polls, answer = .ok .eos

theorem KeepsEnd.poll {source : σ} (keeps : KeepsEnd source) :
    KeepsEnd (ByteSource.poll source).2 :=
  fun polls => (List.pairwise_cons.1 (keeps (polls + 1))).2

/-- A source that keeps its end is at its end after it has reported it. -/
theorem KeepsEnd.atEnd {source after : σ} (keeps : KeepsEnd source)
    (ended : ByteSource.poll source = (.ok .eos, after)) : AtEnd after := by
  intro polls answer member
  have ordered := keeps (polls + 1)
  rw [answers, ended] at ordered
  exact (List.pairwise_cons.1 ordered).1 answer member rfl

theorem AtEnd.answer {source : σ} (ended : AtEnd source) :
    (ByteSource.poll source).1 = .ok .eos :=
  ended 1 _ List.mem_cons_self

theorem AtEnd.poll {source : σ} (ended : AtEnd source) : AtEnd (ByteSource.poll source).2 :=
  fun polls answer member => ended (polls + 1) answer (List.mem_cons_of_mem _ member)

theorem answers_length (source : σ) (polls : Nat) : (answers source polls).length = polls := by
  induction polls generalizing source with
  | zero => rfl
  | succ polls ih => rw [answers, List.length_cons, ih]

/-- The answers of a source at its end are ends. -/
theorem AtEnd.answers_eq {source : σ} (ended : AtEnd source) (polls : Nat) :
    answers source polls = List.replicate polls (.ok .eos) := by
  have ends := List.eq_replicate_of_mem (ended polls)
  rwa [answers_length] at ends

/-- So are those of one that keeps its end and answers by it first. -/
theorem KeepsEnd.answers_eq {source : σ} (keeps : KeepsEnd source)
    (first : answers source 1 = [.ok .eos]) (polls : Nat) :
    answers source polls = List.replicate polls (.ok .eos) := by
  cases polls with
  | zero => rfl
  | succ polls =>
    obtain ⟨ended, -⟩ := List.cons.inj first
    have after := (keeps.atEnd (Prod.ext ended rfl)).answers_eq polls
    rw [answers, after, ended, List.replicate_succ]

/-- Related sources have the same answers. -/
theorem answers_eq {related : σ → τ → Prop} (alike : AnswersAlike related) (polls : Nat) {left : σ}
    {right : τ} (sources : related left right) : answers left polls = answers right polls := by
  induction polls generalizing left right with
  | zero => rfl
  | succ polls ih =>
    obtain ⟨answer, after⟩ := alike left right sources
    rw [answers, answers, answer, ih after]

theorem keepsEnd_congr {related : σ → τ → Prop} (alike : AnswersAlike related) {left : σ}
    {right : τ} (sources : related left right) : KeepsEnd left ↔ KeepsEnd right := by
  constructor
  · intro keeps polls
    rw [← answers_eq alike polls sources]
    exact keeps polls
  · intro keeps polls
    rw [answers_eq alike polls sources]
    exact keeps polls

end ByteSource

open ByteSource (KeepsEnd MayFollow)

/-- A script answers by its list, and by ends after it. -/
theorem Script.answers_eq (script : Script) (polls : Nat) :
    ByteSource.answers script polls =
      script.answers.take polls ++
        List.replicate (polls - script.answers.length) (.ok .eos) := by
  obtain ⟨answers⟩ := script
  induction polls generalizing answers with
  | zero => simp [ByteSource.answers]
  | succ polls ih =>
    cases answers with
    | nil => simp [ByteSource.answers, ByteSource.poll, poll, ih, List.replicate_succ]
    | cons answer rest => simp [ByteSource.answers, ByteSource.poll, poll, ih]

theorem Script.keepsEnd_iff (script : Script) :
    KeepsEnd script ↔ script.answers.Pairwise MayFollow := by
  constructor
  · intro keeps
    have ordered := keeps script.answers.length
    rwa [script.answers_eq, List.take_length, Nat.sub_self, List.replicate_zero,
      List.append_nil] at ordered
  · intro ordered polls
    rw [script.answers_eq, List.pairwise_append]
    refine ⟨ordered.sublist (List.take_sublist _ _), ?_, ?_⟩
    · exact List.pairwise_replicate.2 (Or.inr id)
    · intro earlier _ later member _
      exact List.eq_of_mem_replicate member

/-- No byte is an end. -/
theorem byteAnswers_pairwise (bytes : List UInt8) : (byteAnswers bytes).Pairwise MayFollow := by
  rw [byteAnswers, List.pairwise_map]
  exact List.pairwise_of_forall fun _ _ ended => nomatch ended

theorem Slice.keepsEnd (slice : Slice) : KeepsEnd slice := by
  have listed : slice.Listed ⟨byteAnswers slice.remaining⟩ := ⟨0, (List.append_nil _).symm⟩
  rw [ByteSource.keepsEnd_congr Slice.listed_answersAlike listed, Script.keepsEnd_iff]
  exact byteAnswers_pairwise _

/-- A source that is forwarded answers as it does by itself. -/
theorem Metered.forwards_answersAlike :
    AnswersAlike fun (source : σ) (metered : Metered σ) => metered.source = source := by
  rintro _ ⟨source, polls, delivered⟩ rfl
  change (ByteSource.poll source).1 = (poll ⟨source, polls, delivered⟩).1 ∧
    (poll ⟨source, polls, delivered⟩).2.source = (ByteSource.poll source).2
  simp only [poll]
  rcases ByteSource.poll source with ⟨fault | byte | _, after⟩
  · exact ⟨rfl, rfl⟩
  · exact ⟨rfl, rfl⟩
  · exact ⟨rfl, rfl⟩

theorem Metered.keepsEnd_iff (metered : Metered σ) :
    KeepsEnd metered ↔ KeepsEnd metered.source :=
  (ByteSource.keepsEnd_congr forwards_answersAlike rfl).symm

def tellsNoByte : Except Fault Next → Bool
  | .ok (.byte _) => false
  | _ => true

namespace Reader

def unproductive (reader : Reader) : List (Except Fault Next) :=
  reader.toScript.answers.takeWhile tellsNoByte

/-- What a read that asks for no byte takes off the answers of a reader. It does not get past the
first byte: there it finds nothing time and again. -/
inductive Skims (reader after : Reader) : Except Fault (List UInt8) → Prop
  | nothing : reader.unproductive = .ok .eos :: after.unproductive → Skims reader after (.ok [])
  | stuck : reader.unproductive = [] → after.unproductive = [] → Skims reader after (.ok [])
  | fault {cause : Fault} : reader.unproductive = .error cause :: after.unproductive →
      Skims reader after (.error cause)

theorem unproductive_of_unread {reader : Reader} (unread : reader.unread ≠ []) :
    reader.unproductive = [] := by
  obtain ⟨events, _ | ⟨byte, rest⟩, calls, delivered⟩ := reader
  · exact absurd rfl unread
  · rfl

theorem read_zero_skims {reader after : Reader} {bytes : List UInt8}
    (read : reader.read 0 = (.ok bytes, after)) : Skims reader after (.ok bytes) := by
  obtain ⟨events, unread, calls, delivered⟩ := reader
  rcases unread with _ | ⟨byte, rest⟩
  · rcases events with _ | ⟨_ | _ | cause, events⟩
    · cases read
      exact .stuck rfl rfl
    next bytes =>
      cases read
      cases bytes with
      | nil => exact .nothing rfl
      | cons byte rest => exact .stuck rfl (unproductive_of_unread (List.cons_ne_nil byte rest))
    · cases read
      exact .nothing rfl
    · cases read
  · cases read
    exact .stuck rfl (unproductive_of_unread (List.cons_ne_nil byte rest))

theorem readThrough_zero_skims (reader : Reader) :
    Skims reader (reader.readThrough 0).2 (reader.readThrough 0).1 := by
  fun_induction readThrough 0 reader with
  | case1 reader bytes after read => exact read_zero_skims read
  | case2 reader cause after read transient ih =>
    have same : reader.unproductive = after.unproductive := by
      rw [unproductive, answers_of_read_error read, Delivery.answers, if_pos transient]
      rfl
    generalize after.readThrough 0 = result at ih ⊢
    obtain ⟨outcome, last⟩ := result
    simp only at ih ⊢
    cases ih with
    | nothing answers => exact .nothing (same.trans answers)
    | stuck answers none => exact .stuck (same.trans answers) none
    | fault answers => exact .fault (same.trans answers)
  | case3 reader cause after read final =>
    refine .fault ?_
    rw [unproductive, answers_of_read_error read, Delivery.answers, if_neg final]
    rfl

end Reader

/-- The script lists what is answered where no byte is asked for at a time. -/
structure ReadAhead.Stalled (script : Script) (source : ReadAhead) : Prop where
  size : source.size = 0
  ahead : source.ahead = []
  answers : script.answers = source.reader.unproductive

/-- A source that asks for no byte at a time answers by what its reader does up to the first
byte, and by ends from there on. -/
theorem ReadAhead.stalled_answersAlike : AnswersAlike ReadAhead.Stalled := by
  rintro ⟨answers⟩ ⟨reader, ahead, size⟩ ⟨rfl, rfl, listed⟩
  simp only at listed
  subst listed
  have skims := reader.readThrough_zero_skims
  simp only [ByteSource.poll, poll]
  generalize reader.readThrough 0 = result at skims ⊢
  obtain ⟨outcome, after⟩ := result
  simp only at skims
  cases skims with
  | nothing answers =>
    rw [answers]
    exact ⟨rfl, rfl, rfl, rfl⟩
  | stuck answers none =>
    rw [answers]
    exact ⟨rfl, rfl, rfl, none.symm⟩
  | fault answers =>
    rw [answers]
    exact ⟨rfl, rfl, rfl, rfl⟩

/-- Reading ahead of a reader keeps the end exactly if nothing but ends comes after an end among the
answers that the reader gives byte by byte. Where no byte is asked for at a time, only those before
the first byte count. -/
theorem ReadAhead.keepsEnd_iff (size : Nat) (reader : Reader) :
    KeepsEnd (ReadAhead.ofReader size reader) ↔
      (if size = 0 then reader.unproductive else reader.toScript.answers).Pairwise MayFollow := by
  by_cases none : size = 0
  · subst none
    have stalled : Stalled ⟨reader.unproductive⟩ (ofReader 0 reader) := ⟨rfl, rfl, rfl⟩
    rw [← ByteSource.keepsEnd_congr stalled_answersAlike stalled, Script.keepsEnd_iff, if_pos rfl]
  · have foretold : Foretold reader.toScript (ofReader size reader) := ⟨Nat.pos_of_ne_zero none, rfl⟩
    rw [← ByteSource.keepsEnd_congr foretold_answersAlike foretold, Script.keepsEnd_iff,
      if_neg none]

end Lexing
