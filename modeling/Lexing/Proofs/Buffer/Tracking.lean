import Lexing.Buffer.Offsets
import Lexing.Proofs.Buffer.Invariant
import Lexing.Source.Slice

/-!
# Buffers over bytes in memory follow their offsets

A buffer over bytes in memory does what three offsets into the bytes do. `Tracks` ties the two
together: the bytes from the start of the token on are what is stored, what is held and what the
source still has. Every operation keeps it and has the same outcome on both sides
(`perform_agrees`).

Growth is assumed to be granted. It is asked for only when the capacity is used up by bytes that
were read, so memory for twice the bytes is enough, and for the ceiling where that is less.
-/

set_option autoImplicit false

namespace Lexing

open Result (Agree)

/-- Whether memory suffices for what growth asks for while so many bytes are read: at most twice as
much, and never more than the ceiling. -/
def GrantsGrowth (memory : Nat) (limit : Option Nat) (bytes : Nat) : Prop :=
  ∀ size, size ≤ 2 * bytes → (∀ bound, limit = some bound → size ≤ bound) → size < memory

theorem grantsGrowth_of_lt {memory bytes : Nat} (limit : Option Nat) (enough : 2 * bytes < memory) :
    GrantsGrowth memory limit bytes :=
  fun _ within _ => Nat.lt_of_le_of_lt within enough

/-- Growth is granted to a window that stores no more than so many bytes. -/
theorem GrantsGrowth.roomy_or_full {window : Window} {bytes : Nat} (formed : window.WellFormed)
    (fits : bytes < Size.max) (granted : GrantsGrowth window.memory window.limit bytes)
    (stored : window.available ≤ bytes) (used : window.consumed = window.available) :
    window.Roomy ∨ window.Full := by
  by_cases room : window.consumed < window.capacity
  · exact Or.inl (Or.inl room)
  · have capacity := formed.available_le
    have target := window.growthTarget_le_double
    refine Window.roomy_or_full formed (by omega) (granted _ (by omega) ?_)
    exact fun bound present => Window.growthTarget_le_limit present

/-- Where the buffer stands in the bytes is where the offsets say it does. -/
structure Tracks (bytes : List UInt8) (limit : Option Nat) (buffer : Buffer Slice)
    (offsets : Offsets) : Prop where
  formed : buffer.window.WellFormed
  limit : buffer.window.limit = limit
  granted : GrantsGrowth buffer.window.memory buffer.window.limit bytes.length
  consumed : buffer.window.consumed = offsets.consumed
  start : buffer.window.start = offsets.start.toUInt64
  start_le : offsets.start ≤ bytes.length
  /-- What is stored, held and not yet handed out are the bytes from the start of the token on. -/
  ahead : bytes.drop offsets.start =
    buffer.window.stored.toList ++ buffer.window.held.toList ++ buffer.source.remaining
  fetched : offsets.start + buffer.window.available + buffer.window.held.toList.length =
    offsets.fetched
  position : buffer.source.position = offsets.fetched

namespace Tracks

variable {bytes : List UInt8} {limit : Option Nat} {buffer : Buffer Slice} {offsets : Offsets}

theorem getElem?_eq (tracks : Tracks bytes limit buffer offsets) :
    bytes[offsets.start + offsets.consumed]? =
      (buffer.window.stored.toList ++ buffer.window.held.toList ++
        buffer.source.remaining)[buffer.window.consumed]? := by
  rw [← tracks.ahead, List.getElem?_drop, tracks.consumed]

theorem fetched_le (tracks : Tracks bytes limit buffer offsets) :
    offsets.fetched ≤ bytes.length := by
  have lengths := congrArg List.length tracks.ahead
  have fetched := tracks.fetched
  have start := tracks.start_le
  simp only [List.length_drop, List.length_append, Array.length_toList] at lengths
  simp only [Window.available] at fetched
  omega

theorem start_toNat (fits : bytes.length < Size.max)
    (tracks : Tracks bytes limit buffer offsets) :
    buffer.window.start.toNat = offsets.start := by
  have within := tracks.start_le
  rw [tracks.start]
  exact Size.toNat_toUInt64 (by omega)

theorem pending_eq (tracks : Tracks bytes limit buffer offsets) :
    buffer.window.pending.toList = offsets.pending bytes := by
  have stored : buffer.window.consumed ≤ buffer.window.stored.toList.length := by
    simpa [Window.available] using tracks.formed.consumed_le
  rw [Window.pending_toList, Offsets.pending, tracks.ahead, ← tracks.consumed, List.append_assoc,
    List.take_append_of_le_length stored]

theorem getElem?_of_stored (tracks : Tracks bytes limit buffer offsets) {byte : UInt8}
    (stored : buffer.window.stored[buffer.window.consumed]? = some byte) :
    bytes[offsets.start + offsets.consumed]? = some byte := by
  have below := (Array.getElem?_eq_some_iff.1 stored).1
  rw [tracks.getElem?_eq, List.append_assoc, List.getElem?_append_left (by simpa using below)]
  simpa using stored

theorem getElem?_of_held (tracks : Tracks bytes limit buffer offsets) {byte : UInt8}
    (used : buffer.window.consumed = buffer.window.available)
    (held : buffer.window.held = some byte) :
    bytes[offsets.start + offsets.consumed]? = some byte := by
  rw [tracks.getElem?_eq, held, used]
  simp [Window.available]

theorem getElem?_of_unheld (tracks : Tracks bytes limit buffer offsets)
    (used : buffer.window.consumed = buffer.window.available)
    (unheld : buffer.window.held = none) :
    bytes[offsets.start + offsets.consumed]? = buffer.source.remaining.head? := by
  rw [tracks.getElem?_eq, unheld, used, List.head?_eq_getElem?, Option.toList_none,
    List.append_nil, List.getElem?_append_right (by simp [Window.available])]
  simp [Window.available]

/-- Where the next byte is stored, it was fetched before. -/
theorem lt_fetched_of_stored (tracks : Tracks bytes limit buffer offsets)
    (below : buffer.window.consumed < buffer.window.available) :
    offsets.start + offsets.consumed < offsets.fetched := by
  have fetched := tracks.fetched
  have consumed := tracks.consumed
  omega

theorem fetched_of_held (tracks : Tracks bytes limit buffer offsets) {byte : UInt8}
    (used : buffer.window.consumed = buffer.window.available)
    (held : buffer.window.held = some byte) :
    offsets.fetched = offsets.start + offsets.consumed + 1 := by
  have fetched := tracks.fetched
  have consumed := tracks.consumed
  simp only [held, Option.toList_some, List.length_singleton] at fetched
  omega

/-- Where nothing is stored or held for the next read, all that was fetched is used. -/
theorem fetched_of_unheld (tracks : Tracks bytes limit buffer offsets)
    (used : buffer.window.consumed = buffer.window.available)
    (unheld : buffer.window.held = none) :
    offsets.fetched = offsets.start + offsets.consumed := by
  have fetched := tracks.fetched
  have consumed := tracks.consumed
  simp only [unheld, Option.toList_none, List.length_nil] at fetched
  omega

/-- Growth is never refused: it is asked for only where the bytes read fill the capacity. -/
theorem roomy_or_full (fits : bytes.length < Size.max)
    (tracks : Tracks bytes limit buffer offsets)
    (used : buffer.window.consumed = buffer.window.available) :
    buffer.window.Roomy ∨ buffer.window.Full := by
  have lengths := congrArg List.length tracks.ahead
  simp only [List.length_drop, List.length_append, Array.length_toList] at lengths
  refine GrantsGrowth.roomy_or_full tracks.formed fits tracks.granted ?_ used
  simp only [Window.available]
  omega

end Tracks

/-- How bytes in memory answer a poll. -/
theorem Slice.poll_cases {source after : Slice} {answer : Except Fault Next}
    (polled : ByteSource.poll source = (answer, after)) :
    (source.remaining = [] ∧ answer = .ok .eos ∧ after = source) ∨
      ∃ byte rest, source.remaining = byte :: rest ∧ answer = .ok (.byte byte) ∧
        after = ⟨source.position + 1, rest⟩ := by
  obtain ⟨position, remaining⟩ := source
  cases remaining with
  | nil =>
    cases polled
    exact Or.inl ⟨rfl, rfl, rfl⟩
  | cons byte rest =>
    cases polled
    exact Or.inr ⟨byte, rest, rfl, rfl, rfl⟩

namespace Offsets

variable {bytes : List UInt8} {limit : Option Nat}

theorem next_eq_eos {offsets : Offsets}
    (ended : bytes[offsets.start + offsets.consumed]? = none) :
    next bytes limit offsets =
      ⟨.ok .eos, { offsets with fetched := max offsets.fetched bytes.length }, #[]⟩ := by
  obtain ⟨start, consumed, fetched⟩ := offsets
  have last := List.getElem?_eq_none_iff.1 ended
  simp only at ended last
  simp only [next, ended, Nat.min_eq_left (Nat.le_succ_of_le last)]

theorem next_eq_byte {offsets : Offsets} {byte : UInt8}
    (there : bytes[offsets.start + offsets.consumed]? = some byte)
    (below : limit ≠ some offsets.consumed) :
    next bytes limit offsets =
      ⟨.ok (.byte byte), ⟨offsets.start, offsets.consumed + 1,
        max offsets.fetched (offsets.start + offsets.consumed + 1)⟩, #[]⟩ := by
  obtain ⟨start, consumed, fetched⟩ := offsets
  have within := (List.getElem?_eq_some_iff.1 there).1
  simp only at there below within
  simp only [next, there, if_neg below, Nat.min_eq_right (Nat.succ_le_of_lt within)]

theorem next_eq_refusal {offsets : Offsets} {byte : UInt8}
    (there : bytes[offsets.start + offsets.consumed]? = some byte)
    (full : limit = some offsets.consumed) :
    next bytes limit offsets =
      ⟨.error (.allocationFailure (Size.double offsets.consumed)),
        { offsets with
          fetched := max offsets.fetched (offsets.start + offsets.consumed + 1) }, #[]⟩ := by
  obtain ⟨start, consumed, fetched⟩ := offsets
  have within := (List.getElem?_eq_some_iff.1 there).1
  simp only at there full within
  simp only [next, there, if_pos full, Nat.min_eq_right (Nat.succ_le_of_lt within)]

end Offsets

namespace Buffer

variable {bytes : List UInt8} {limit : Option Nat} {buffer : Buffer Slice} {offsets : Offsets}

/-- Nothing is shown of the events: the offsets report none. -/
abbrev unseen : Event → Bool := fun _ => false

theorem filter_unseen (events : List Event) : events.filter unseen = [] :=
  List.filter_eq_nil_iff.2 fun _ _ => Bool.false_ne_true

/-- A read does what the offsets say, at the ceiling as well. -/
theorem next_agrees (fits : bytes.length < Size.max) (tracks : Tracks bytes limit buffer offsets) :
    Agree (Tracks bytes limit) unseen (next buffer) (Offsets.next bytes limit offsets) := by
  have formed := next_keeps_wellFormed buffer tracks.formed
  have step := next_readsTo tracks.formed
  generalize next buffer = result at formed step ⊢
  cases step with
  | @replayed window source byte stored =>
    have below : window.consumed < window.available := (Array.getElem?_eq_some_iff.1 stored).1
    have room := Nat.lt_of_lt_of_le below tracks.formed.available_le
    have unlimited := Window.limit_ne_of_roomy tracks.formed (Or.inl room)
    rw [tracks.limit, tracks.consumed] at unlimited
    rw [Offsets.next_eq_byte (tracks.getElem?_of_stored stored) unlimited,
      Nat.max_eq_left (tracks.lt_fetched_of_stored below)]
    exact ⟨rfl, { tracks with formed, consumed := congrArg (· + 1) tracks.consumed }, rfl⟩
  | cramped used tight below refusal =>
    exact absurd (tracks.roomy_or_full fits used) (fun able => able.elim tight below)
  | @released window source byte used room held =>
    have unlimited := Window.limit_ne_of_roomy tracks.formed (Or.inl room)
    rw [tracks.limit, tracks.consumed] at unlimited
    have fetched := tracks.fetched_of_held used held
    rw [Offsets.next_eq_byte (tracks.getElem?_of_held used held) unlimited,
      Nat.max_eq_left (Nat.le_of_eq fetched.symm)]
    refine ⟨rfl, { tracks with
      formed, consumed := congrArg (· + 1) tracks.consumed, ahead := ?_, fetched := ?_ }, rfl⟩
    · rw [tracks.ahead, held]
      simp [Window.append]
    · have consumed : window.consumed = offsets.consumed := tracks.consumed
      simp only [Window.append, Window.available, Array.size_push, Option.toList_none,
        List.length_nil] at used ⊢
      omega
  | @refusedAgain window source byte used full held =>
    have limited := full.limit_eq
    rw [tracks.limit, tracks.consumed] at limited
    have fetched := tracks.fetched_of_held used held
    have capacity : window.capacity = offsets.consumed := full.1.symm.trans tracks.consumed
    rw [Offsets.next_eq_refusal (tracks.getElem?_of_held used held) limited,
      Nat.max_eq_left (Nat.le_of_eq fetched.symm)]
    exact ⟨by rw [capacity], tracks, filter_unseen _⟩
  | @stored window source after byte used roomy unheld answer =>
    have unlimited := Window.limit_ne_of_roomy tracks.formed roomy
    rw [tracks.limit, tracks.consumed] at unlimited
    have there := tracks.getElem?_of_unheld used unheld
    have fetched := tracks.fetched_of_unheld used unheld
    obtain ⟨-, ended, -⟩ | ⟨found, rest, remaining, same, rfl⟩ := Slice.poll_cases answer
    · cases ended
    cases same
    rw [remaining, List.head?_cons] at there
    rw [Offsets.next_eq_byte there unlimited, Nat.max_eq_right (by omega)]
    refine ⟨rfl, { tracks with
      formed
      limit := by simpa [Window.append] using tracks.limit
      granted := by simpa [Window.append] using tracks.granted
      consumed := by simpa [Window.append] using tracks.consumed
      start := by simpa [Window.append] using tracks.start
      ahead := ?_
      fetched := ?_
      position := ?_ }, filter_unseen _⟩
    · rw [tracks.ahead, remaining, unheld]
      simp [Window.append, unheld]
    · have consumed : window.consumed = offsets.consumed := tracks.consumed
      simp only [Window.append, Window.available, Array.size_push, Window.widened_stored,
        Window.widened_held, unheld, Option.toList_none, List.length_nil] at used ⊢
      omega
    · rw [← fetched, ← tracks.position]
  | @refused window source after byte used full unheld answer =>
    have limited := full.limit_eq
    rw [tracks.limit, tracks.consumed] at limited
    have there := tracks.getElem?_of_unheld used unheld
    have fetched := tracks.fetched_of_unheld used unheld
    obtain ⟨-, ended, -⟩ | ⟨found, rest, remaining, same, rfl⟩ := Slice.poll_cases answer
    · cases ended
    cases same
    rw [remaining, List.head?_cons] at there
    have capacity : window.capacity = offsets.consumed := full.1.symm.trans tracks.consumed
    rw [Offsets.next_eq_refusal there limited, Nat.max_eq_right (by omega)]
    refine ⟨by rw [capacity], { tracks with
      formed, ahead := ?_, fetched := ?_, position := ?_ }, filter_unseen _⟩
    · rw [tracks.ahead, remaining, unheld]
      simp
    · have consumed : window.consumed = offsets.consumed := tracks.consumed
      simp only [Window.available, Option.toList_some, List.length_singleton] at used ⊢
      omega
    · rw [← fetched, ← tracks.position]
  | @ended window source after used able unheld answer =>
    have there := tracks.getElem?_of_unheld used unheld
    have fetched := tracks.fetched_of_unheld used unheld
    obtain ⟨remaining, -, rfl⟩ | ⟨found, rest, -, same, -⟩ := Slice.poll_cases answer
    · rw [remaining, List.head?_nil] at there
      have last := List.getElem?_eq_none_iff.1 there
      rw [Offsets.next_eq_eos there, Nat.max_eq_left (by omega)]
      exact ⟨rfl, { tracks with
        formed
        limit := by simpa using tracks.limit
        granted := by simpa using tracks.granted
        consumed := by simpa using tracks.consumed
        start := by simpa using tracks.start
        ahead := by simpa using tracks.ahead
        fetched := by simpa [Window.available] using tracks.fetched }, filter_unseen _⟩
    · cases same
  | failed used able unheld answer =>
    obtain ⟨-, same, -⟩ | ⟨_, _, -, same, -⟩ := Slice.poll_cases answer
    · cases same
    · cases same

end Buffer

end Lexing
