import Lexing.Proofs.Source.Ends

/-!
# Readers, flattened

What a block reader will do, flattened to single answers, is what reading ahead of it answers poll
by poll: the bytes of each block one by one, an end for each read that finds nothing, nothing for
an interruption and a fault for any other, and ends from there on. The size of the blocks does not
show, nor where the reader's own blocks begin and end, unless no byte is asked for at a time.

The two parts are joined by a script (`ReadAhead.answers_eq`): the reader is followed by what each
read takes off its answers, once for blocks of some size and once for blocks of none.
-/

set_option autoImplicit false

namespace Lexing

/-- An event that bears no byte gives only answers that tell of none. -/
theorem Delivery.answers_tellsNoByte {event : Delivery} (bare : event.bearsByte = false) :
    ∀ answer ∈ event.answers, tellsNoByte answer = true := by
  intro answer member
  cases event with
  | data bytes =>
    cases bytes with
    | nil =>
      rw [List.mem_singleton.1 member]
      rfl
    | cons byte rest => cases bare
  | finish =>
    rw [List.mem_singleton.1 member]
    rfl
  | fault cause =>
    change answer ∈ if cause.isTransient then [] else [.error cause] at member
    split at member
    · cases member
    · rw [List.mem_singleton.1 member]
      rfl

namespace Reader

/-- The answers before the first byte are those of the events before the first that bears one. -/
theorem unproductive_ofEvents (events : List Delivery) :
    (ofEvents events).unproductive = Delivery.flattened 0 events := by
  change (events.flatMap Delivery.answers).takeWhile tellsNoByte =
    (events.takeWhile (!·.bearsByte)).flatMap Delivery.answers
  induction events with
  | nil => rfl
  | cons event events ih =>
    rw [List.flatMap_cons, List.takeWhile_cons]
    cases bare : event.bearsByte with
    | false =>
      rw [List.takeWhile_append_of_pos (Delivery.answers_tellsNoByte bare), ih]
      simp
    | true =>
      obtain (_ | ⟨byte, rest⟩) | _ | cause := event
      · cases bare
      · rfl
      · cases bare
      · cases bare

theorem interruptions_of_read_ok {size : Nat} {reader after : Reader} {bytes : List UInt8}
    (read : reader.read size = (.ok bytes, after)) :
    reader.interruptions = 0 ∧ after.calls = reader.calls + 1 := by
  obtain ⟨events, unread, calls, delivered⟩ := reader
  rcases unread with _ | ⟨byte, rest⟩
  · rcases events with _ | ⟨_ | _ | cause, events⟩
    · cases read
      exact ⟨rfl, rfl⟩
    · cases read
      exact ⟨rfl, rfl⟩
    · cases read
      exact ⟨rfl, rfl⟩
    · cases read
  · cases read
    exact ⟨rfl, rfl⟩

theorem interruptions_of_read_error {size : Nat} {reader after : Reader} {cause : Fault}
    (read : reader.read size = (.error cause, after)) :
    reader.interruptions = (if cause.isTransient then after.interruptions + 1 else 0) ∧
      after.calls = reader.calls + 1 := by
  obtain ⟨events, unread, calls, delivered⟩ := reader
  rcases unread with _ | ⟨byte, rest⟩
  · rcases events with _ | ⟨_ | _ | cause, events⟩
    · cases read
    · cases read
    · cases read
    · cases read
      refine ⟨?_, rfl⟩
      change (List.takeWhile Delivery.interrupts (.fault cause :: events)).length =
        if cause.isTransient then (events.takeWhile Delivery.interrupts).length + 1 else 0
      rw [List.takeWhile_cons, Delivery.interrupts]
      split
      · exact List.length_cons
      · rfl
  · cases read

/-- Reading through reads once more than it is interrupted. -/
theorem readThrough_calls (size : Nat) (reader : Reader) :
    (reader.readThrough size).2.calls = reader.calls + reader.interruptions + 1 := by
  fun_induction readThrough size reader with
  | case1 reader bytes after read =>
    obtain ⟨none, counted⟩ := interruptions_of_read_ok read
    rw [none, counted]
  | case2 reader cause after read transient ih =>
    obtain ⟨one, counted⟩ := interruptions_of_read_error read
    rw [if_pos transient] at one
    omega
  | case3 reader cause after read final =>
    obtain ⟨none, counted⟩ := interruptions_of_read_error read
    rw [if_neg final] at none
    rw [none, counted]

end Reader

/-- A poll reads only where nothing is left of the last block, and then once more than it is
interrupted. -/
theorem ReadAhead.poll_calls (source : ReadAhead) :
    (ByteSource.poll source).2.reader.calls = source.reader.calls +
      if source.ahead = [] then source.reader.interruptions + 1 else 0 := by
  obtain ⟨reader, ahead, size⟩ := source
  cases ahead with
  | cons byte rest => rfl
  | nil =>
    have counted := reader.readThrough_calls size
    simp only [ByteSource.poll, poll, if_pos]
    rw [← Nat.add_assoc, ← counted]
    rcases reader.readThrough size with ⟨_ | _ | ⟨byte, rest⟩, after⟩
    · rfl
    · rfl
    · rfl

/-- Reading ahead answers like the script of the flattened events, whatever the size. -/
theorem ReadAhead.answers_eq (size : Nat) (events : List Delivery) (polls : Nat) :
    ByteSource.answers (ofReader size (.ofEvents events)) polls =
      ByteSource.answers (⟨Delivery.flattened size events⟩ : Script) polls := by
  by_cases none : size = 0
  · subst none
    rw [← Reader.unproductive_ofEvents]
    exact (ByteSource.answers_eq stalled_answersAlike polls ⟨rfl, rfl, rfl⟩).symm
  · have whole : Delivery.flattened size events = (Reader.ofEvents events).toScript.answers := by
      rw [Delivery.flattened, if_neg none]
      rfl
    rw [whole]
    exact (ByteSource.answers_eq foretold_answersAlike polls ⟨Nat.pos_of_ne_zero none, rfl⟩).symm

/-- No byte is ever handed out where none is asked for at a time. -/
theorem ReadAhead.tellsNoByte_of_size_zero (events : List Delivery) (polls : Nat) :
    ∀ answer ∈ ByteSource.answers (ofReader 0 (.ofEvents events)) polls,
      tellsNoByte answer = true := by
  intro answer member
  rw [answers_eq, Script.answers_eq, List.mem_append] at member
  rcases member with foretold | ended
  · obtain ⟨event, earlier, given⟩ := List.mem_flatMap.1 (List.mem_of_mem_take foretold)
    have bare := List.all_eq_true.1 List.all_takeWhile event earlier
    exact Delivery.answers_tellsNoByte (by simpa using bare) answer given
  · rw [List.eq_of_mem_replicate ended]
    rfl

/-- Poll by poll, reading ahead of a device gives its events flattened to answers, and ends for ever
after them. No byte ever comes where none is asked for at a time. Every poll comes back: it reads
only where nothing is left of the last block, and then once for each interruption in front and once
more. -/
theorem ReadAhead.flattens_reader (size : Nat) (events : List Delivery) :
    (∀ polls, ByteSource.answers (ofReader size (.ofEvents events)) polls =
      (Delivery.flattened size events).take polls ++
        List.replicate (polls - (Delivery.flattened size events).length) (.ok .eos)) ∧
    (∀ polls, ∀ answer ∈ ByteSource.answers (ofReader 0 (.ofEvents events)) polls,
      tellsNoByte answer = true) ∧
    ∀ source : ReadAhead, (ByteSource.poll source).2.reader.calls = source.reader.calls +
      if source.ahead = [] then source.reader.interruptions + 1 else 0 := by
  refine ⟨?_, tellsNoByte_of_size_zero events, poll_calls⟩
  intro polls
  rw [answers_eq, Script.answers_eq]

end Lexing
