import Lexing.Buffer.Look
import Lexing.Proofs.Machine.Failures
import Lexing.Proofs.Machine.Glances

/-!
# Reading first and looking first come to the same

Reading a byte and giving it back if it is not accepted does what looking at it and then reading it
does (`nextIf_eq_takeIf`), and so does reading on while bytes are accepted (`eatFrom_eq_takeFrom`):
the read after a look is one of the lookahead, which changes nothing else and reports nothing. Where
either stops before a byte, that byte is the first of the lookahead, and no byte got lost or doubled
on the way (`LeftUnread`).
-/

set_option autoImplicit false

namespace Lexing.Buffer

variable {σ : Type}

/-- A byte behind the bytes that were read is left for the next read. -/
structure LeftUnread [ByteSource σ] (bytes : List UInt8) (byte : UInt8)
    (before after : Buffer (Metered σ)) : Prop where
  token : after.window.pending.toList = before.window.pending.toList ++ bytes
  lookahead : ∃ more, after.window.lookahead.toList = byte :: more
  /-- All that was to be read, together with what the source has delivered since, is what was read,
  the byte, and what is to be read after it. -/
  once : ∃ fresh rest, after.source.delivered.toList = before.source.delivered.toList ++ fresh ∧
    before.window.ahead ++ fresh = bytes ++ byte :: rest ∧ after.window.ahead = byte :: rest
  /-- The next read yields it and leaves the source alone. -/
  read : next after = ⟨.ok (.byte byte), ⟨after.window.advance, after.source⟩, #[]⟩

/-- These bytes were read, all of them accepted, and a look at what follows ended it: an end of the
stream, or a byte that is not accepted. -/
inductive Stops [ByteSource σ] (accepts : UInt8 → Bool) (bytes : List UInt8)
    (before after : Buffer (Metered σ)) : Prop
  | ended {last : Buffer (Metered σ)} {events : Array Event} (eats : Eats accepts before bytes last)
      (saw : peek last = ⟨.ok .eos, after, events⟩) : Stops accepts bytes before after
  | refused {last : Buffer (Metered σ)} {events : Array Event} {byte : UInt8}
      (eats : Eats accepts before bytes last)
      (saw : peek last = ⟨.ok (.byte byte), after, events⟩) (refuses : accepts byte = false)
      (unread : LeftUnread bytes byte before after) : Stops accepts bytes before after

section Looking

variable [ByteSource σ] {accepts : UInt8 → Bool} {buffer after : Buffer σ} {events : Array Event}

/-- Reading a byte if it is accepted is looking at it and reading it if it is. -/
theorem nextIf_eq_takeIf (accepts : UInt8 → Bool) (formed : buffer.window.WellFormed) :
    nextIf accepts buffer = takeIf accepts buffer := by
  have again (byte : UInt8) (saw : (peek buffer).outcome = .ok (.byte byte)) :=
    next_of_peek formed saw
  rw [nextIf_eq accepts formed, takeIf, Operation.bind_apply]
  rw [peek_eq formed] at again ⊢
  rcases read : next buffer with ⟨error | byte | _, after, events⟩
  · rfl
  · rw [read] at again
    obtain ⟨-, replayed, -⟩ := again byte rfl
    by_cases accepted : accepts byte = true
    · simp only [if_pos accepted, Operation.bind_apply, replayed, Operation.pure_apply,
        Result.after, Array.append_empty]
    · simp only [if_neg accepted, Operation.pure_apply, Result.after, Array.append_empty]
  · simp only [Operation.pure_apply, Result.after, Array.append_empty]

/-- Both loops read and report the same. -/
theorem eatFrom_eq_takeFrom (accepts : UInt8 → Bool) (count : Nat) (log : Array Event)
    (formed : buffer.window.WellFormed) :
    eatFrom accepts count log buffer = takeFrom accepts count log buffer := by
  fun_induction eatFrom accepts count log buffer with
  | case1 count log buffer byte after events result ih =>
    have kept := nextIf_keeps_wellFormed accepts buffer formed
    rw [result] at kept
    rw [nextIf_eq_takeIf accepts formed] at result
    rw [takeFrom, result]
    exact ih kept
  | case2 count log buffer after events result =>
    rw [nextIf_eq_takeIf accepts formed] at result
    rw [takeFrom, result]
  | case3 count log buffer error after events result =>
    rw [nextIf_eq_takeIf accepts formed] at result
    rw [takeFrom, result]

/-- A byte is not read if a look at it, or at an end, says so, and the look is all that is done. -/
theorem peek_of_nextIf_none (formed : buffer.window.WellFormed)
    (result : nextIf accepts buffer = ⟨.ok none, after, events⟩) :
    peek buffer = ⟨.ok .eos, after, events⟩ ∨
      ∃ byte, peek buffer = ⟨.ok (.byte byte), after, events⟩ ∧ accepts byte = false := by
  rw [nextIf_eq accepts formed] at result
  rw [peek_eq formed]
  rcases read : next buffer with ⟨error | byte | _, between, reported⟩
  · rw [read] at result
    cases result
  · rw [read] at result
    by_cases accepted : accepts byte = true
    · simp only [if_pos accepted] at result
      cases result
    · simp only [if_neg accepted] at result
      cases result
      exact Or.inr ⟨byte, rfl, Bool.eq_false_iff.2 accepted⟩
  · rw [read] at result
    cases result
    exact Or.inl rfl

/-- Reading on stops behind the bytes that it took, where it reads one more and does not take it. -/
theorem eatFrom_stops {count total : Nat} {log : Array Event} (formed : buffer.window.WellFormed)
    (stops : eatFrom accepts count log buffer = ⟨.ok total, after, events⟩) :
    ∃ bytes last reported, Eats accepts buffer bytes last ∧ total = count + bytes.length ∧
      nextIf accepts last = ⟨.ok none, after, reported⟩ := by
  fun_induction eatFrom accepts count log buffer with
  | case1 count log buffer byte between reported result ih =>
    have kept := nextIf_keeps_wellFormed accepts buffer formed
    rw [result] at kept
    obtain ⟨bytes, last, told, eats, number, stopped⟩ := ih kept stops
    obtain ⟨accepted, read⟩ := next_of_nextIf_some formed result
    refine ⟨byte :: bytes, last, told, .one accepted read eats, ?_, stopped⟩
    rw [number, List.length_cons, Nat.add_right_comm, Nat.add_assoc]
  | case2 count log buffer between reported result =>
    cases stops
    exact ⟨[], buffer, reported, .none, rfl, result⟩
  | case3 count log buffer cause between reported result => cases stops

end Looking

section Counting

variable [ByteSource σ] {accepts : UInt8 → Bool} {bytes : List UInt8}
  {buffer last after : Buffer (Metered σ)} {events : Array Event}

omit [ByteSource σ] in
/-- Where nothing was discarded, what was ahead and what was delivered since is either taken into
the token or ahead now. -/
theorem Conserved.ahead_eq {origin discarded fresh : List UInt8}
    (before : Conserved origin discarded buffer) (behind : Conserved origin discarded after)
    (delivers : after.source.delivered.toList = buffer.source.delivered.toList ++ fresh)
    (token : after.window.pending.toList = buffer.window.pending.toList ++ bytes) :
    buffer.window.ahead ++ fresh = bytes ++ after.window.ahead := by
  rw [← before.bytes, ← behind.bytes, ← Window.pending_append_lookahead,
    ← Window.pending_append_lookahead, token] at delivers
  simpa [Window.ahead, List.append_assoc] using delivers.symm

/-- A look at a byte leaves it as the first of the lookahead. -/
theorem ahead_of_peek {byte : UInt8} (formed : last.window.WellFormed)
    (saw : peek last = ⟨.ok (.byte byte), after, events⟩) :
    after.window.WellFormed ∧ after.window.pending.toList = last.window.pending.toList ∧
      after.window.stored[after.window.consumed]? = some byte := by
  have kept := peek_keeps next_keeps_wellFormed back_keeps_wellFormed last formed
  rw [saw] at kept
  obtain ⟨between, read, rfl⟩ := peek_byte saw
  have stored := (next_keeps_wellFormed last formed).consumed_le
  rw [read] at stored
  have token := (next_extends_token formed read).1
  exact ⟨kept, (Window.ahead_of_retreat stored token).2.1,
    (Window.advance_of_retreat stored token).1⟩

/-- A byte that a look has ended the reading at is left unread. -/
theorem leftUnread_of_peek {origin discarded : List UInt8} {byte : UInt8}
    (before : Conserved origin discarded buffer) (behind : Conserved origin discarded after)
    (delivers : ∃ fresh, after.source.delivered.toList = buffer.source.delivered.toList ++ fresh)
    (eats : Eats accepts buffer bytes last)
    (saw : peek last = ⟨.ok (.byte byte), after, events⟩) :
    LeftUnread bytes byte buffer after := by
  have formed := eats.keeps next_keeps_wellFormed before.formed
  obtain ⟨kept, same, ahead⟩ := ahead_of_peek formed saw
  have token := same.trans (eats.extends_token before.formed).1
  obtain ⟨fresh, delivered⟩ := delivers
  have first := Window.ahead_of_stored ahead
  refine ⟨token, ⟨_, Window.lookahead_of_stored ahead⟩,
    ⟨fresh, after.window.advance.ahead, delivered, ?_, first⟩, ?_⟩
  · rw [before.ahead_eq behind delivered token, first]
  · exact (ReadsTo.replayed ahead).next_eq kept

/-- A call that discards nothing, takes bytes and then tries one more that it does not take. -/
theorem stops_of_call {origin discarded : List UInt8}
    (conserved : Conserved origin discarded buffer) (call : Call) (nothing : call.discards buffer = [])
    (leaves : (call.perform buffer).state = after) (eats : Eats accepts buffer bytes last)
    (result : nextIf accepts last = ⟨.ok none, after, events⟩) :
    Stops accepts bytes buffer after := by
  have behind := perform_conserved call conserved
  have delivers := perform_delivers conserved.formed call
  rw [nothing, List.append_nil, leaves] at behind
  rw [leaves] at delivers
  have formed := eats.keeps next_keeps_wellFormed conserved.formed
  rcases peek_of_nextIf_none formed result with saw | ⟨byte, saw, refuses⟩
  · exact .ended eats saw
  · exact .refused eats saw refuses (leftUnread_of_peek conserved behind delivers eats saw)

end Counting

section Use

variable [ByteSource σ] {source : Metered σ} {config : Config} {memory : Nat}
  {first buffer : Buffer (Metered σ)}

/-- Reading first and looking first come to the same.

However a buffer over any source has been used, reading a byte if it is accepted is looking at it
and, if it is accepted, reading it; and reading while bytes are accepted is looking and reading by
turns. Outcomes are the same, whether they are failures or not, and so are the buffers that are
left, the sources with their records of polls, and the reports. Where reading stops without a
failure it has taken the bytes that it counts, and the next look saw an end or a byte that is not
accepted. That byte is left as the first of the lookahead; it is once in the stream, behind the
bytes that were taken, and the next read yields it without a poll. -/
theorem reading_is_looking_first (opened : openWith config memory source = .ok first)
    (used : Used first buffer) (accepts : UInt8 → Bool) :
    nextIf accepts buffer = takeIf accepts buffer ∧
      eatWhile accepts buffer = takeWhile accepts buffer ∧
      ((nextIf accepts buffer).outcome = .ok none →
        Stops accepts [] buffer (nextIf accepts buffer).state) ∧
      ∀ count, (eatWhile accepts buffer).outcome = .ok count → ∃ bytes, bytes.length = count ∧
        Stops accepts bytes buffer (eatWhile accepts buffer).state := by
  have formed := (used.bounded opened).formed
  obtain ⟨discarded, conserved⟩ := used.conserved opened
  refine ⟨nextIf_eq_takeIf accepts formed, eatFrom_eq_takeFrom accepts 0 #[] formed, ?_, ?_⟩
  · intro stopped
    obtain ⟨after, events, result⟩ := Result.eq_of_outcome stopped
    have leaves : ((Call.nextIf accepts).perform buffer).state = after := by
      rw [Call.perform, Operation.map_apply, result]
      rfl
    rw [result]
    exact stops_of_call conserved (.nextIf accepts) rfl leaves .none result
  · intro count stopped
    obtain ⟨after, events, result⟩ := Result.eq_of_outcome stopped
    have leaves : ((Call.eatWhile accepts).perform buffer).state = after := by
      rw [Call.perform, Operation.map_apply, result]
      rfl
    obtain ⟨bytes, last, reported, eats, number, ended⟩ := eatFrom_stops formed result
    have length : bytes.length = count := by omega
    rw [result]
    exact ⟨bytes, length, stops_of_call conserved (.eatWhile accepts) rfl leaves eats ended⟩

end Use

/-- An end is behind, and a fault that ended the eating before. The byte that ends this one fills
the window up to its ceiling and is left in it. -/
theorem reading_is_looking_first_full :
    let fault : Fault := ⟨"Other", "unplugged"⟩
    let script : Script := ⟨[.ok (.byte 97), .ok .eos, .ok (.byte 97), .error fault,
      .ok (.byte 97), .ok (.byte 98)]⟩
    let first : Buffer (Metered Script) := ⟨Window.empty 1 (some 4) (1 <<< 48), .ofSource script⟩
    let buffer := (performAll [.next, .next, .eatWhile (· == 97)] first).state
    openWith ⟨1, some 4⟩ (1 <<< 48) (.ofSource script) = .ok first ∧ Used first buffer ∧
      buffer.window.consumed = 2 ∧ buffer.source.polls = 4 ∧
      (eatWhile (· == 97) buffer).outcome = .ok 1 ∧
      eatWhile (· == 97) buffer = takeWhile (· == 97) buffer ∧
      ∃ bytes, bytes.length = 1 ∧
        Stops (· == 97) bytes buffer (eatWhile (· == 97) buffer).state := by
  intro fault script first buffer
  have opened : openWith ⟨1, some 4⟩ (1 <<< 48) (.ofSource script) = .ok first := rfl
  have used : Used first buffer := Used.unused.performAll _
  have counted : (eatWhile (· == 97) buffer).outcome.toOption = some 1 := by decide +kernel
  have stopped : (eatWhile (· == 97) buffer).outcome = .ok 1 := by
    cases outcome : (eatWhile (· == 97) buffer).outcome with
    | error error =>
      rw [outcome] at counted
      cases counted
    | ok count =>
      rw [outcome] at counted
      cases counted
      rfl
  obtain ⟨-, same, -, stops⟩ := reading_is_looking_first opened used (· == 97)
  exact ⟨opened, used, by decide +kernel, by decide +kernel, stopped, same, stops 1 stopped⟩

end Lexing.Buffer
