import Lexing.Proofs.Buffer.History
import Lexing.Proofs.Buffer.Looking
import Lexing.Proofs.Text.Utf8
import Lexing.Source.Metered
import Lexing.Source.Script

/-!
# Bytes are conserved

No byte that a source delivers is lost, duplicated or put out of order by a buffer: what was
discarded, what is stored and what is held are together what was delivered. The source is asked
only by reads that find nothing stored and nothing held.

`Conserved` is the invariant. It is kept by the three primitives, hence by every call
(`perform_conserved`) and every list of calls (`performAll_conserved`).
-/

set_option autoImplicit false

namespace Lexing.Buffer

open Operation (Keeps)

variable {σ : Type}

/-- Before the buffer was opened the source had delivered `origin`; since then `discarded` went
through the buffer. -/
structure Conserved (origin discarded : List UInt8) (buffer : Buffer (Metered σ)) : Prop where
  formed : buffer.window.WellFormed
  bytes : origin ++ discarded ++ buffer.window.stored.toList ++ buffer.window.held.toList =
    buffer.source.delivered.toList
  start : buffer.window.start = discarded.length.toUInt64

theorem back_keeps_conserved (origin discarded : List UInt8) :
    Keeps (Conserved (σ := σ) origin discarded) back := by
  intro buffer conserved
  have formed := back_keeps_wellFormed buffer conserved.formed
  rw [back_state] at formed ⊢
  exact ⟨formed, conserved.bytes, conserved.start⟩

/-- The pending token goes from the stored bytes to the discarded ones. -/
theorem discard_conserved {origin discarded : List UInt8} {window : Window} {source : Metered σ}
    (conserved : Conserved origin discarded ⟨window, source⟩) :
    Conserved origin (discarded ++ window.pending.toList) ⟨window.discard, source⟩ := by
  have formed := dump_keeps_wellFormed _ conserved.formed
  rw [dump_eq conserved.formed.consumed_le] at formed
  obtain ⟨⟨stored, -, -, -, -, -⟩, bytes, start⟩ := conserved
  refine ⟨formed, ?_, ?_⟩
  · rw [← bytes, ← window.pending_append_lookahead]
    simp [Window.discard]
  · simp only [Window.discard] at start ⊢
    rw [start, List.length_append, Window.length_pending stored]
    simp [UInt64.ofNat_add]

theorem Conserved.offset_eq {origin discarded : List UInt8} {buffer : Buffer (Metered σ)}
    (conserved : Conserved origin discarded buffer) :
    buffer.window.offset = (discarded.length + buffer.window.consumed).toUInt64 := by
  simp [Window.offset, conserved.start, UInt64.ofNat_add]

/-- A read that asks stands at the end of what was delivered. -/
theorem Conserved.offset_of_asks {origin discarded : List UInt8} {buffer : Buffer (Metered σ)}
    (conserved : Conserved origin discarded buffer) (asks : buffer.Asks) :
    buffer.window.offset = (buffer.source.delivered.size - origin.length).toUInt64 := by
  obtain ⟨used, unheld, -⟩ := asks
  have lengths := congrArg List.length conserved.bytes
  simp only [unheld, Option.toList_none, List.length_append, List.length_nil,
    Array.length_toList] at lengths
  rw [conserved.offset_eq, used]
  congr 1
  simp only [Window.available]
  omega

/-- How often a source that had been polled `polls` times was asked by the reads since, and that
bytes were conserved wherever one of them was attempted. -/
structure Asked (origin : List UInt8) (polls : Nat) (reads : List (Buffer (Metered σ)))
    (buffer : Buffer (Metered σ)) : Prop where
  conserved : ∃ discarded, Conserved origin discarded buffer
  polls : buffer.source.polls = polls + reads.countP (·.Asks)
  reads : ∀ read ∈ reads, ∃ discarded, Conserved origin discarded read

variable {origin : List UInt8} {polls : Nat} {reads : List (Buffer (Metered σ))}

theorem back_keeps_asked : Keeps (Asked (σ := σ) origin polls reads) back := by
  rintro buffer ⟨⟨discarded, conserved⟩, polled, before⟩
  have kept := back_keeps_conserved origin discarded buffer conserved
  rw [back_state] at kept ⊢
  exact ⟨⟨discarded, kept⟩, polled, before⟩

/-- Calls that discard leave the source alone. -/
theorem dump_keeps_asked : Keeps (Asked (σ := σ) origin polls reads) dump := by
  rintro ⟨window, source⟩ ⟨⟨discarded, conserved⟩, polled, before⟩
  rw [dump_eq conserved.formed.consumed_le]
  exact ⟨⟨_, discard_conserved conserved⟩, polled, before⟩

section Calls

variable [ByteSource σ]

/-- How the record of a source changes by a poll. -/
theorem poll_eq {source after : Metered σ} {answer : Except Fault Next}
    (polled : ByteSource.poll source = (answer, after)) :
    after.polls = source.polls + 1 ∧
      after.delivered.toList =
        source.delivered.toList ++ match answer with
          | .ok (.byte byte) => [byte]
          | _ => [] := by
  obtain ⟨source, polls, delivered⟩ := source
  simp only [ByteSource.poll, Metered.poll] at polled
  split at polled <;> cases polled <;> simp

/-- A call adds to what the source has delivered. -/
theorem perform_delivers {buffer : Buffer (Metered σ)} (formed : buffer.window.WellFormed) (call : Call) :
    ∃ fresh, (call.perform buffer).state.source.delivered.toList =
      buffer.source.delivered.toList ++ fresh := by
  have polling (source : Metered σ)
      (grown : ∃ fresh, source.delivered.toList = buffer.source.delivered.toList ++ fresh) :
      ∃ fresh, (ByteSource.poll source).2.delivered.toList =
        buffer.source.delivered.toList ++ fresh := by
    obtain ⟨fresh, same⟩ := grown
    rcases polled : ByteSource.poll source with ⟨answer, after⟩
    rw [(poll_eq polled).2, same, List.append_assoc]
    exact ⟨_, rfl⟩
  exact (perform_keeps_source polling call buffer ⟨formed, [], (List.append_nil _).symm⟩).2

theorem next_keeps_conserved (origin discarded : List UInt8) :
    Keeps (Conserved (σ := σ) origin discarded) next := by
  intro buffer conserved
  have formed := next_keeps_wellFormed buffer conserved.formed
  have step := next_readsTo conserved.formed
  obtain ⟨-, bytes, start⟩ := conserved
  generalize next buffer = result at formed step ⊢
  cases step with
  | replayed ahead => exact ⟨formed, bytes, start⟩
  | cramped used tight below refusal => exact ⟨formed, bytes, start⟩
  | released used room held =>
    refine ⟨formed, ?_, start⟩
    simp only [held, Option.toList_some] at bytes
    simpa [Window.append] using bytes
  | refusedAgain used full held => exact ⟨formed, bytes, start⟩
  | stored used roomy unheld answer =>
    refine ⟨formed, ?_, by simpa [Window.append] using start⟩
    simp only [unheld, Option.toList_none, List.append_nil] at bytes
    rw [(poll_eq answer).2, ← bytes]
    simp [Window.append, unheld]
  | refused used full unheld answer =>
    refine ⟨formed, ?_, start⟩
    simp only [unheld, Option.toList_none, List.append_nil] at bytes
    rw [(poll_eq answer).2, ← bytes]
    rfl
  | ended used able unheld answer =>
    refine ⟨formed, ?_, by simpa using start⟩
    rw [(poll_eq answer).2, ← bytes]
    simp
  | failed used able unheld answer =>
    refine ⟨formed, ?_, by simpa using start⟩
    rw [(poll_eq answer).2, ← bytes]
    simp

/-- A call adds what it discards to what was discarded before, whether it fails or not. -/
theorem perform_conserved (call : Call) {origin discarded : List UInt8}
    {buffer : Buffer (Metered σ)} (conserved : Conserved origin discarded buffer) :
    Conserved origin (discarded ++ call.discards buffer) (call.perform buffer).state := by
  have reading (discarded : List UInt8) := next_keeps_conserved (σ := σ) origin discarded
  have giving (discarded : List UInt8) := back_keeps_conserved (σ := σ) origin discarded
  induction call generalizing discarded buffer with
  | next =>
    rw [Call.discards, List.append_nil]
    exact (reading _).map _ conserved
  | peek =>
    rw [Call.discards, List.append_nil]
    exact (peek_keeps (reading _) (giving _)).map _ conserved
  | back =>
    rw [Call.discards, List.append_nil]
    exact Keeps.bind (giving _) (fun _ => Keeps.pure _) _ conserved
  | nextIf accepts =>
    rw [Call.discards, List.append_nil]
    exact (nextIf_keeps accepts (reading _) (giving _)).map _ conserved
  | eatWhile accepts =>
    rw [Call.discards, List.append_nil]
    rw [Call.perform, Operation.map_apply]
    exact eatFrom_keeps (nextIf_keeps accepts (reading _) (giving _)) 0 #[] _ conserved
  | dump =>
    obtain ⟨window, source⟩ := buffer
    have dumped := dump_eq conserved.formed.consumed_le source
    simp only [Call.discards, Call.perform, Operation.bind_apply, dumped]
    exact discard_conserved conserved
  | skip =>
    obtain ⟨window, source⟩ := buffer
    have skipped := skip_eq conserved.formed.consumed_le source
    simp only [Call.discards, Call.perform, Operation.map_apply, skipped]
    exact discard_conserved conserved
  | emit =>
    obtain ⟨window, source⟩ := buffer
    have emitted := emit_eq conserved.formed source
    simp only [Call.discards, Call.perform, Operation.map_apply, emitted]
    exact discard_conserved conserved
  | emitText =>
    obtain ⟨window, source⟩ := buffer
    have emitted := emitText_eq conserved.formed source
    simp only [Call.discards, Call.perform, Operation.map_apply]
    rw [emitted]
    cases decoded : Utf8.decode window.pending with
    | error malformation => simpa [Result.map] using conserved
    | ok text =>
      have encoded := Utf8.decode_eq_ok_iff.1 decoded
      simp only [Result.map, encoded]
      exact discard_conserved conserved
  | times count call ih =>
    rw [discards_times, times_state]
    refine along_invariant _ (fun copy member discarded buffer conserved => ?_) conserved
    rw [List.eq_of_mem_replicate member]
    exact ih conserved

theorem performAll_conserved (calls : List Call) {origin discarded : List UInt8}
    {buffer : Buffer (Metered σ)} (conserved : Conserved origin discarded buffer) :
    Conserved origin (discarded ++ along Call.discards calls buffer)
      (performAll calls buffer).state :=
  along_invariant calls (fun call _ _ _ held => perform_conserved call held) conserved

/-- A read asks the source at most once, and only where nothing is stored or held for it. -/
theorem next_polls {buffer : Buffer (Metered σ)} (formed : buffer.window.WellFormed) :
    (next buffer).state.source.polls = buffer.source.polls + if buffer.Asks then 1 else 0 := by
  have step := next_readsTo formed
  generalize next buffer = result at step ⊢
  cases step with
  | @replayed window source byte ahead =>
    have below : window.consumed < window.available := (Array.getElem?_eq_some_iff.1 ahead).1
    rw [if_neg fun asks => Nat.ne_of_lt below asks.1]
    rfl
  | cramped used tight below refusal =>
    rw [if_neg fun asks => asks.2.2.elim tight below]
    rfl
  | released used room held =>
    rw [if_neg fun asks => Option.some_ne_none _ (held.symm.trans asks.2.1)]
    rfl
  | refusedAgain used full held =>
    rw [if_neg fun asks => Option.some_ne_none _ (held.symm.trans asks.2.1)]
    rfl
  | stored used roomy unheld answer =>
    rw [if_pos ⟨used, unheld, Or.inl roomy⟩]
    exact (poll_eq answer).1
  | refused used full unheld answer =>
    rw [if_pos ⟨used, unheld, Or.inr full⟩]
    exact (poll_eq answer).1
  | ended used able unheld answer =>
    rw [if_pos ⟨used, unheld, able⟩]
    exact (poll_eq answer).1
  | failed used able unheld answer =>
    rw [if_pos ⟨used, unheld, able⟩]
    exact (poll_eq answer).1

theorem next_asked {buffer : Buffer (Metered σ)} (asked : Asked origin polls reads buffer) :
    Asked origin polls (reads ++ [buffer]) (next buffer).state := by
  obtain ⟨⟨discarded, conserved⟩, polled, before⟩ := asked
  refine ⟨⟨discarded, next_keeps_conserved origin discarded buffer conserved⟩, ?_, ?_⟩
  · rw [next_polls conserved.formed, polled, List.countP_append, List.countP_singleton]
    simp only [decide_eq_true_eq, Nat.add_assoc]
  · intro read member
    rcases List.mem_append.1 member with earlier | last
    · exact before read earlier
    · rw [List.mem_singleton.1 last]
      exact ⟨discarded, conserved⟩

theorem perform_asked (call : Call) {buffer : Buffer (Metered σ)}
    (asked : Asked origin polls reads buffer) :
    Asked origin polls (reads ++ call.attempts buffer) (call.perform buffer).state :=
  perform_attempts (Asked origin polls) (fun _ _ => next_asked) (fun _ => back_keeps_asked)
    (fun _ => dump_keeps_asked) call asked

theorem performAll_asked (calls : List Call) {buffer : Buffer (Metered σ)}
    (asked : Asked origin polls reads buffer) :
    Asked origin polls (reads ++ along Call.attempts calls buffer)
      (performAll calls buffer).state :=
  along_invariant calls (fun call _ _ _ held => perform_asked call held) asked

/-- What a buffer over `source` has made of what the source delivered since, when `discarded` went
through it and a read was attempted at each of `reads`. -/
structure Balanced (source : Metered σ) (discarded : List UInt8)
    (reads : List (Buffer (Metered σ))) (buffer : Buffer (Metered σ)) : Prop where
  /-- The bytes discarded, stored and held are those delivered, in order. -/
  bytes : source.delivered.toList ++
      (discarded ++ buffer.window.stored.toList ++ buffer.window.held.toList) =
    buffer.source.delivered.toList
  /-- The token starts after what was discarded, counted in 64 bits. -/
  start : buffer.window.start = discarded.length.toUInt64
  offset : buffer.window.offset = (discarded.length + buffer.window.consumed).toUInt64
  /-- The source was polled once by each read that asks, and by nothing else. -/
  polls : buffer.source.polls = source.polls + reads.countP (·.Asks)
  /-- Only reads at the end of what was delivered ask. -/
  asks : ∀ read ∈ reads, read.Asks →
    read.window.offset = (read.source.delivered.size - source.delivered.size).toUInt64

theorem performAll_balanced {source : Metered σ} {config : Config} {memory : Nat}
    {buffer : Buffer (Metered σ)} (opened : openWith config memory source = .ok buffer)
    (calls : List Call) :
    Balanced source (along Call.discards calls buffer) (along Call.attempts calls buffer)
      (performAll calls buffer).state := by
  obtain ⟨empty, formed⟩ := openWith_eq_ok opened
  have fresh : Conserved source.delivered.toList [] buffer := by
    refine ⟨formed, ?_, ?_⟩
    · simp [empty, Window.empty]
    · simp [empty, Window.empty]
  have asked : Asked source.delivered.toList source.polls [] buffer :=
    ⟨⟨[], fresh⟩, by simp [empty], fun _ member => nomatch member⟩
  have conserved := performAll_conserved calls fresh
  have reads := performAll_asked calls asked
  simp only [List.nil_append] at conserved reads
  refine ⟨?_, conserved.start, conserved.offset_eq, reads.polls, ?_⟩
  · simpa only [List.append_assoc] using conserved.bytes
  · intro read member asks
    obtain ⟨discarded, conserved⟩ := reads.reads read member
    simpa using conserved.offset_of_asks asks

/-- Bytes are conserved from a source through a buffer. When the source is taken back, exactly the
stored and the held bytes are lost: a buffer opened over it continues behind them. -/
theorem bytes_conserved {source : Metered σ} {config : Config} {memory : Nat}
    {buffer : Buffer (Metered σ)} (opened : openWith config memory source = .ok buffer)
    (calls : List Call) :
    let after := (performAll calls buffer).state
    Balanced source (along Call.discards calls buffer) (along Call.attempts calls buffer) after ∧
      ∀ (config : Config) (memory : Nat) (reopened : Buffer (Metered σ)) (later : List Call),
        openWith config memory after.source = .ok reopened →
          let last := (performAll later reopened).state
          Balanced after.source (along Call.discards later reopened)
              (along Call.attempts later reopened) last ∧
            source.delivered.toList ++
                (along Call.discards calls buffer ++
                  (after.window.stored.toList ++ after.window.held.toList) ++
                  along Call.discards later reopened ++
                  last.window.stored.toList ++ last.window.held.toList) =
              last.source.delivered.toList := by
  have first := performAll_balanced opened calls
  refine ⟨first, fun config memory reopened later reopening => ?_⟩
  have second := performAll_balanced reopening later
  refine ⟨second, ?_⟩
  rw [← second.bytes, ← first.bytes]
  simp only [List.append_assoc]

end Calls

def faulty : Metered Script :=
  .ofSource ⟨[.ok (.byte 97), .error ⟨"Other", "late"⟩, .ok (.byte 98), .ok (.byte 99)]⟩

/-- Two bytes fit, the third is refused, one is given back and the other emitted. -/
def refusal : List Call := [.next, .next, .next, .next, .back, .emit, .next]

theorem bytes_conserved_refusal :
    openWith ⟨1, some 2⟩ 3 faulty = .ok ⟨Window.empty 1 (some 2) 3, faulty⟩ ∧
      along Call.discards refusal ⟨Window.empty 1 (some 2) 3, faulty⟩ = [97] ∧
      Balanced faulty (along Call.discards refusal ⟨Window.empty 1 (some 2) 3, faulty⟩)
        (along Call.attempts refusal ⟨Window.empty 1 (some 2) 3, faulty⟩)
        (performAll refusal ⟨Window.empty 1 (some 2) 3, faulty⟩).state := by
  have opened : openWith ⟨1, some 2⟩ 3 faulty = .ok ⟨Window.empty 1 (some 2) 3, faulty⟩ := rfl
  exact ⟨opened, by decide, (bytes_conserved opened refusal).1⟩

end Lexing.Buffer
