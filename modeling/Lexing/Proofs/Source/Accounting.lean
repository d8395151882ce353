import Mathlib.Data.List.Basic
import Mathlib.Data.List.Forall2
import Lexing.Proofs.Source.Flattening
import Lexing.Source.Rewrap

/-!
# What becomes of the bytes of a reader

All bytes that a reader has delivered to sources that read ahead of it, one after the other, are
accounted for: they were handed out, or lost when the source was changed, or are still ahead
(`use_accounts`). A source never has as many bytes ahead as it asks for at a time
(`use_ahead_le`), since every block that is read has its first byte handed out at once. The reader
is called only by a poll that finds nothing ahead, and then until a call is not interrupted
(`Reader.readThrough_interrupted`).
-/

set_option autoImplicit false

namespace Lexing

namespace Reader

inductive Interrupted (size : Nat) : Nat → Reader → Reader → Prop
  | none {reader : Reader} : Interrupted size 0 reader reader
  | one {count : Nat} {reader between after : Reader} {cause : Fault} :
    reader.read size = (.error cause, between) → cause.isTransient = true →
      Interrupted size count between after → Interrupted size (count + 1) reader after

def block : Except Fault (List UInt8) → List UInt8
  | .ok bytes => bytes
  | .error _ => []

theorem deliver_delivers (size : Nat) (bytes : List UInt8) (events : List Delivery)
    (reader : Reader) :
    (reader.deliver size bytes events).2.delivered.toList =
        reader.delivered.toList ++ block (reader.deliver size bytes events).1 ∧
      (block (reader.deliver size bytes events).1).length ≤ size := by
  refine ⟨by simp [deliver, block], ?_⟩
  simp only [deliver, block, List.length_take]
  exact Nat.min_le_left _ _

/-- A read gets at most as many bytes as it asks for, and these are delivered. -/
theorem read_delivers (size : Nat) (reader : Reader) :
    (reader.read size).2.delivered.toList =
        reader.delivered.toList ++ block (reader.read size).1 ∧
      (block (reader.read size).1).length ≤ size := by
  unfold read
  split
  · exact deliver_delivers _ _ _ _
  · exact deliver_delivers _ _ _ _
  · exact deliver_delivers _ _ _ _
  · exact deliver_delivers _ _ _ _
  · simp [block]

/-- So does one that is tried again while it is interrupted. -/
theorem readThrough_delivers (size : Nat) (reader : Reader) :
    (reader.readThrough size).2.delivered.toList =
        reader.delivered.toList ++ block (reader.readThrough size).1 ∧
      (block (reader.readThrough size).1).length ≤ size := by
  fun_induction readThrough size reader with
  | case1 reader bytes after read =>
    have delivers := read_delivers size reader
    rwa [read] at delivers
  | case2 reader cause after read transient ih =>
    obtain ⟨delivers, -⟩ := read_delivers size reader
    rw [read] at delivers
    simp only [block, List.append_nil] at delivers
    rwa [delivers] at ih
  | case3 reader cause after read final =>
    have delivers := read_delivers size reader
    rwa [read] at delivers

/-- Reading through is one read behind those that are interrupted, and this one is not. -/
theorem readThrough_interrupted (size : Nat) (reader : Reader) :
    ∃ last, Interrupted size reader.interruptions reader last ∧
      last.read size = reader.readThrough size ∧
      ∀ cause, (reader.readThrough size).1 = .error cause → cause.isTransient = false := by
  fun_induction readThrough size reader with
  | case1 reader bytes after read =>
    refine ⟨reader, ?_, read, ?_⟩
    · rw [(interruptions_of_read_ok read).1]
      exact .none
    · intro cause fails
      cases fails
  | case2 reader cause after read transient ih =>
    obtain ⟨last, interrupted, others⟩ := ih
    refine ⟨last, ?_, others⟩
    rw [(interruptions_of_read_error read).1, if_pos transient]
    exact .one read transient interrupted
  | case3 reader cause after read final =>
    refine ⟨reader, ?_, read, ?_⟩
    · rw [(interruptions_of_read_error read).1, if_neg final]
      exact .none
    · intro other fails
      cases fails
      simpa using final

end Reader

namespace ReadAhead

open Reader (Interrupted)

structure CallsReader (source : ReadAhead) : Prop where
  /-- Not by any use where something is left of the last block. -/
  ahead : source.ahead ≠ [] → ∀ next, (source.use next).2.reader = source.reader
  /-- Not where it is taken back. -/
  rewrap : ∀ size, (source.use (.rewrap size)).2.reader = source.reader
  /-- By a poll where nothing is left: some calls are interrupted, and one is made after them that
  is not. -/
  poll : source.ahead = [] → ∃ interruptions last outcome,
    Interrupted source.size interruptions source.reader last ∧
      last.read source.size = (outcome, (source.use .poll).2.reader) ∧
      (∀ cause, outcome = .error cause → cause.isTransient = false) ∧
      (source.use .poll).2.reader.calls = source.reader.calls + interruptions + 1

/-- A poll that finds nothing ahead reads. -/
theorem poll_reader_of_none {source : ReadAhead} (none : source.ahead = []) :
    source.poll.2.reader = (source.reader.readThrough source.size).2 := by
  obtain ⟨reader, ahead, size⟩ := source
  simp only at none
  subst none
  simp only [poll]
  rcases reader.readThrough size with ⟨_ | _ | ⟨byte, rest⟩, after⟩
  · rfl
  · rfl
  · rfl

theorem callsReader (source : ReadAhead) : CallsReader source where
  ahead some next := by
    obtain ⟨reader, _ | ⟨byte, rest⟩, size⟩ := source
    · exact absurd rfl some
    · cases next with
      | poll => rfl
      | rewrap size => rfl
  rewrap size := rfl
  poll none := by
    obtain ⟨last, interrupted, read, final⟩ :=
      source.reader.readThrough_interrupted source.size
    have reader : (source.use .poll).2.reader = _ := poll_reader_of_none none
    have calls := poll_calls source
    rw [if_pos none, ← Nat.add_assoc] at calls
    exact ⟨_, last, _, interrupted, read.trans (Prod.ext rfl reader.symm), final, calls⟩

/-- A poll asks for as many bytes at a time as before. -/
theorem poll_size (source : ReadAhead) : source.poll.2.size = source.size := by
  obtain ⟨reader, ahead, size⟩ := source
  cases ahead with
  | cons byte rest => rfl
  | nil =>
    simp only [poll]
    rcases reader.readThrough size with ⟨_ | _ | ⟨byte, rest⟩, after⟩
    · rfl
    · rfl
    · rfl

/-- What was ahead and what a use has the reader deliver are what leaves the source by it and what
is ahead afterwards. -/
theorem use_accounts (source : ReadAhead) (next : Use) :
    ∃ fresh, (source.use next).2.reader.delivered.toList = source.reader.delivered.toList ++ fresh ∧
      source.ahead ++ fresh = (source.use next).1.bytes ++ (source.use next).2.ahead := by
  cases next with
  | rewrap size =>
    refine ⟨[], (List.append_nil _).symm, ?_⟩
    simp [use, ofReader, Effect.bytes, Effect.handedOut, Effect.dropped?]
  | poll =>
    obtain ⟨reader, ahead, size⟩ := source
    cases ahead with
    | cons byte rest =>
      refine ⟨[], (List.append_nil _).symm, ?_⟩
      simp [use, poll, Effect.bytes, Effect.handedOut, Effect.dropped?, Next.byte?]
    | nil =>
      obtain ⟨delivered, -⟩ := reader.readThrough_delivers size
      simp only [use, poll]
      generalize reader.readThrough size = result at delivered ⊢
      rcases result with ⟨fault | _ | ⟨byte, rest⟩, after⟩
      · exact ⟨[], delivered, rfl⟩
      · exact ⟨[], delivered, rfl⟩
      · exact ⟨byte :: rest, delivered, rfl⟩

/-- Fewer bytes are ahead after a use than are asked for at a time. -/
theorem use_ahead_le {source : ReadAhead} (fewer : source.ahead.length ≤ source.size - 1)
    (next : Use) :
    (source.use next).2.ahead.length ≤ (source.use next).2.size - 1 := by
  cases next with
  | rewrap size => exact Nat.zero_le _
  | poll =>
    obtain ⟨reader, ahead, size⟩ := source
    cases ahead with
    | cons byte rest => exact Nat.le_of_succ_le fewer
    | nil =>
      obtain ⟨-, atMost⟩ := reader.readThrough_delivers size
      simp only [use, poll]
      generalize reader.readThrough size = result at atMost ⊢
      rcases result with ⟨fault | _ | ⟨byte, rest⟩, after⟩
      · exact Nat.zero_le _
      · exact Nat.zero_le _
      · exact Nat.le_sub_one_of_lt atMost

/-- Uses in any number account for the bytes. -/
theorem useAll_accounts (uses : List Use) (source : ReadAhead) :
    ∃ fresh, (source.useAll uses).2.reader.delivered.toList =
        source.reader.delivered.toList ++ fresh ∧
      source.ahead ++ fresh =
        (source.useAll uses).1.flatMap Effect.bytes ++ (source.useAll uses).2.ahead := by
  induction uses generalizing source with
  | nil => exact ⟨[], by simp [useAll]⟩
  | cons next others ih =>
    obtain ⟨first, delivered, bytes⟩ := source.use_accounts next
    obtain ⟨second, following, rest⟩ := ih (source.use next).2
    refine ⟨first ++ second, ?_, ?_⟩
    · exact (following.trans (congrArg (· ++ second) delivered)).trans (List.append_assoc ..)
    · calc source.ahead ++ (first ++ second)
          = (source.ahead ++ first) ++ second := (List.append_assoc ..).symm
        _ = (source.use next).1.bytes ++ ((source.use next).2.ahead ++ second) := by
          rw [bytes, List.append_assoc]
        _ = _ := by rw [rest]; simp [useAll]

/-- What one source loses, and what the last one has ahead, are fewer bytes than that source asked
for at a time. -/
theorem useAll_bounds (uses : List Use) {source : ReadAhead}
    (fewer : source.ahead.length ≤ source.size - 1) :
    List.Forall₂ (fun size bytes => bytes.length ≤ size - 1)
      (source.size :: uses.filterMap Use.size?)
      ((source.useAll uses).1.filterMap Effect.dropped? ++ [(source.useAll uses).2.ahead]) := by
  induction uses generalizing source with
  | nil => exact .cons fewer .nil
  | cons next others ih =>
    have rest := ih (use_ahead_le fewer next)
    cases next with
    | poll => rwa [show (source.use .poll).2.size = source.size from source.poll_size] at rest
    | rewrap size => exact .cons fewer rest

/-- Where one byte is asked for at a time, none is left to be lost. -/
theorem eq_nil_of_bounds {sizes : List Nat} {segments : List (List UInt8)}
    (bounds : List.Forall₂ (fun size bytes => bytes.length ≤ size - 1) sizes segments)
    (ones : ∀ size ∈ sizes, size = 1) : ∀ bytes ∈ segments, bytes = [] := by
  induction bounds with
  | nil => nofun
  | cons fewer _ ih =>
    obtain ⟨one, others⟩ := List.forall_mem_cons.1 ones
    rw [one] at fewer
    exact List.forall_mem_cons.2 ⟨List.eq_nil_of_length_eq_zero (Nat.le_zero.1 fewer), ih others⟩

/-- What leaves a source that loses nothing is what it hands out. -/
theorem Effect.bytes_eq_handedOut {effect : Effect}
    (nothing : ∀ bytes, effect.dropped? = some bytes → bytes = []) :
    effect.bytes = effect.handedOut := by
  cases effect with
  | answered answer => exact List.append_nil _
  | dropped bytes =>
    rw [nothing bytes rfl]
    rfl

/-- The bytes of a reader are accounted for, however it is read ahead of.

Over any reader, however often it was taken back and read ahead of anew, and with so many bytes at a
time as may be: what was handed out, what was lost at each change and what is ahead now are, in
order, the bytes that the reader has delivered. Each source has always had fewer bytes ahead than it
asked for at a time, so nothing is lost where that is one byte. The reader is called only by a poll
that finds nothing ahead: once for each interruption that the poll comes upon, and once more. -/
theorem reader_accounted_for (size : Nat) (events : List Delivery) (uses : List Use) :
    let sizes := size :: uses.filterMap Use.size?
    let (effects, last) := useAll uses (ofReader size (.ofEvents events))
    effects.flatMap Effect.bytes ++ last.ahead = last.reader.delivered.toList ∧
      List.Forall₂ (fun size bytes => bytes.length ≤ size - 1) sizes
        (effects.filterMap Effect.dropped? ++ [last.ahead]) ∧
      ((∀ size ∈ sizes, size = 1) →
        effects.flatMap Effect.handedOut = last.reader.delivered.toList) ∧
      CallsReader last := by
  intro sizes
  obtain ⟨fresh, delivered, bytes⟩ := useAll_accounts uses (ofReader size (.ofEvents events))
  have none : (ofReader size (.ofEvents events)).ahead.length ≤
      (ofReader size (.ofEvents events)).size - 1 := Nat.zero_le _
  have bounds := useAll_bounds uses none
  have whole := bytes.symm.trans delivered.symm
  refine ⟨whole, bounds, ?_, callsReader _⟩
  intro ones
  have nothing := eq_nil_of_bounds bounds ones
  obtain ⟨lost, ahead⟩ := List.forall_mem_append.1 nothing
  rw [List.forall_mem_singleton.1 ahead, List.append_nil] at whole
  rw [← whole]
  refine List.flatMap_congr fun effect member => ?_
  refine (Effect.bytes_eq_handedOut fun bytes dropped => ?_).symm
  exact lost bytes (List.mem_filterMap.2 ⟨effect, member, dropped⟩)

/-- Three bytes are read for one poll, and two of them are lost. -/
example :
    let reader : Reader := .ofEvents [.fault ⟨"Interrupted", ""⟩, .data [1, 2, 3, 4]]
    let (effects, last) := useAll [.poll, .rewrap 2, .poll] (ofReader 3 reader)
    effects.map Effect.bytes = [[1], [2, 3], [4]] ∧ last.ahead = [] ∧ last.reader.calls = 3 := by
  decide +kernel

end ReadAhead

end Lexing
