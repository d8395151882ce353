import Lexing.Proofs.Buffer.Alike
import Lexing.Proofs.Buffer.Bounds
import Lexing.Source.Script

/-!
# The log of a buffer

The events that a buffer reports tell its capacity and where its token starts. Read from the first
on (`Told.after`), each is true of what the ones before it have told: growth starts from the present
capacity and doubles it up to the ceiling, a discarded token moves the start by its length, and a
token that is handed out ends where the next one starts.

What each call reports can also be told from what it has done, without the log (`Call.account`):
from its outcome, from the buffers that it has met and from the one that it leaves. `log_faithful`
says that both hold of every list of calls.
-/

set_option autoImplicit false

namespace Lexing

open Operation (Follows)

variable {σ : Type} {config : Config} {memory : Nat} {limit : Option Nat}

structure Told where
  capacity : Nat
  /-- Where the pending token starts. -/
  start : UInt64
  deriving DecidableEq, Repr

namespace Told

def doubled (limit : Option Nat) (capacity : Nat) : Nat :=
  limit.elim (2 * capacity) (min (2 * capacity))

/-- What is told with one more event, unless the event is not true. Only a buffer is told of, so no
event of a machine is. -/
def add (limit : Option Nat) (told : Told) : Event → Option Told
  | .grew before after =>
    if before = told.capacity ∧ before < after ∧ after = doubled limit before then
      some { told with capacity := after }
    else none
  | .dumped discarded _ offset =>
    if 0 < discarded ∧ offset = told.start + discarded.toUInt64 then
      some { told with start := offset }
    else none
  | .emitted length start => if start + length.toUInt64 = told.start then some told else none
  | .refused capacity offset =>
    if limit = some capacity ∧ told.capacity = capacity ∧
        offset = told.start + capacity.toUInt64 then
      some told
    else none
  | .backupUnderflow offset => if offset = told.start then some told else none
  | .cannotGrow .. | .started .. | .step .. | .halted .. => none

def after (limit : Option Nat) (told : Told) (log : List Event) : Option Told :=
  log.foldlM (add limit) told

theorem after_append (told : Told) (log more : List Event) :
    told.after limit (log ++ more) = (told.after limit log).bind (·.after limit more) :=
  List.foldlM_append

theorem after_singleton (told : Told) (event : Event) :
    told.after limit [event] = told.add limit event := by
  simp [after]

end Told

namespace Window

def told (window : Window) : Told := ⟨window.capacity, window.start⟩

/-- A capacity that is granted is not the largest size, so nothing but the ceiling cuts doubling
off. -/
theorem growthTarget_eq_doubled {window : Window} (below : window.growthTarget < Size.max) :
    window.growthTarget = Told.doubled window.limit window.capacity := by
  unfold growthTarget Size.double at below ⊢
  cases present : window.limit with
  | none =>
    simp only [present, Told.doubled, Option.elim_none] at below ⊢
    omega
  | some bound =>
    simp only [present, Told.doubled, Option.elim_some] at below ⊢
    omega

theorem growth_of_growable {window : Window} (full : ¬ window.consumed < window.capacity)
    (growable : window.Growable) :
    window.growth = #[.grew window.capacity window.growthTarget] := by
  refine if_neg ?_
  simp [full, growable.1]

/-- The room that is made for a read is what the capacity has grown by. -/
theorem growth_toList {window : Window} (formed : window.WellFormed) (able : window.Able) :
    window.growth.toList =
      if window.widened.capacity = window.capacity then []
      else [.grew window.capacity window.widened.capacity] := by
  rcases able with roomy | full
  · by_cases room : window.consumed < window.capacity
    · rw [growth_of_lt room, widened_of_lt room, if_pos rfl]
    · have growable : window.Growable := roomy.resolve_left room
      have larger := growable.2.1
      rw [growth_of_growable room growable, widened_of_growable room growable]
      simp only
      rw [if_neg (by omega)]
  · rw [growth_of_full formed full, widened_of_full formed full, if_pos rfl]

/-- Room that is made is told of truly. -/
theorem told_growth {window : Window} (formed : window.WellFormed) (sizes : window.memory ≤ Size.max)
    (able : window.Able) :
    window.told.after window.limit window.growth.toList = some window.widened.told := by
  rcases able with roomy | full
  · by_cases room : window.consumed < window.capacity
    · rw [growth_of_lt room, widened_of_lt room]
      rfl
    · have growable : window.Growable := roomy.resolve_left room
      have ⟨_, larger, granted⟩ := growable
      have target : window.growthTarget = Told.doubled window.limit window.capacity :=
        growthTarget_eq_doubled (by omega)
      rw [growth_of_growable room growable, widened_of_growable room growable,
        Told.after_singleton]
      exact if_pos ⟨rfl, larger, target⟩
  · rw [growth_of_full formed full, widened_of_full formed full]
    rfl

/-- A byte that is refused follows a token as long as the capacity. -/
theorem Full.offset_eq {window : Window} (full : window.Full) :
    window.offset = window.start + window.capacity.toUInt64 := by
  rw [offset, full.1]

theorem told_dump (window : Window) :
    window.told.after limit window.dumpEvents.toList = some window.discard.told := by
  by_cases empty : window.consumed = 0
  · simp [dumpEvents, empty, Told.after, told, discard]
  · rw [dumpEvents, if_neg empty, Told.after_singleton]
    exact if_pos ⟨Nat.pos_of_ne_zero empty, rfl⟩

end Window

namespace Buffer

def dumpAccount (buffer after : Buffer σ) : List Event :=
  if buffer.window.consumed = 0 then []
  else [.dumped buffer.window.consumed after.window.available after.window.start]

/-- What a read is to report: nothing where it reads the lookahead again, and else the growth that
has come of it and the refusal of a byte at the ceiling. An end of the stream, a fault and memory
that is refused are not reported. -/
def readAccount [ByteSource σ] (limit : Option Nat) (buffer : Buffer σ) : List Event :=
  if buffer.window.consumed < buffer.window.available then []
  else
    (if (next buffer).state.window.capacity = buffer.window.capacity then []
      else [.grew buffer.window.capacity (next buffer).state.window.capacity]) ++
    match (next buffer).outcome with
    | .error (.allocationFailure _) =>
      if limit = some buffer.window.consumed then
        [.refused buffer.window.consumed buffer.window.offset]
      else []
    | _ => []

end Buffer

variable [ByteSource σ]

/-- What a call is to report. A token that is handed out is reported once, after the report that it
was discarded if it is not empty; nothing is reported of one that cannot be handed out. -/
def Call.account (limit : Option Nat) : Call → Buffer σ → List Event
  | .next, buffer | .peek, buffer | .nextIf _, buffer => buffer.readAccount limit
  | .eatWhile accepts, buffer =>
    (Buffer.eatAttempts accepts buffer).flatMap (Buffer.readAccount limit)
  | .back, buffer =>
    match (Buffer.back buffer).outcome with
    | .ok _ => []
    | .error _ => [.backupUnderflow buffer.window.start]
  | .dump, buffer => buffer.dumpAccount (Buffer.dump buffer).state
  | .skip, buffer => buffer.dumpAccount (Buffer.skip buffer).state
  | .emit, buffer =>
    match Buffer.emit buffer with
    | ⟨.ok _, after, _⟩ =>
      buffer.dumpAccount after ++ [.emitted buffer.window.consumed buffer.window.start]
    | ⟨.error _, _, _⟩ => []
  | .emitText, buffer =>
    match Buffer.emitText buffer with
    | ⟨.ok _, after, _⟩ =>
      buffer.dumpAccount after ++ [.emitted buffer.window.consumed buffer.window.start]
    | ⟨.error _, _, _⟩ => []
  | .times count call, buffer =>
    Buffer.along (fun _ => call.account limit) (.replicate count call) buffer

namespace Buffer

variable {buffer : Buffer σ}

omit [ByteSource σ] in
/-- Memory that is refused is not told of, if no more is granted than there are sizes. -/
theorem Bounded.cramped_events {window : Window} {source : σ} {error : LexError} {after : Buffer σ}
    {events : Array Event} (bounded : Bounded config memory ⟨window, source⟩)
    (sizes : memory ≤ Size.max) (tight : ¬ window.Roomy) (below : ¬ window.Full)
    (refusal : grow ⟨window, source⟩ = ⟨.error error, after, events⟩) : events = #[] := by
  have stored : window.consumed ≤ window.available := bounded.formed.consumed_le
  have fits : window.available ≤ window.capacity := bounded.formed.available_le
  have filled : window.consumed = window.capacity := by
    have room : ¬ window.consumed < window.capacity := fun room => tight (Or.inl room)
    omega
  have larger := bounded.larger sizes fun ceiling => below ⟨filled, ceiling⟩
  exact grow_refusal_events larger refusal

/-- A read reports what it is to report. -/
theorem next_events (bounded : Bounded config memory buffer) (sizes : memory ≤ Size.max) :
    (next buffer).events.toList = buffer.readAccount config.limit := by
  have formed := bounded.formed
  rw [readAccount, ← bounded.limit]
  have step := next_readsTo formed
  generalize next buffer = result at step ⊢
  -- whether lookahead is read again is decided by where the read stands
  have unstored {window : Window} (used : window.consumed = window.available) :
      ¬ window.consumed < window.available := by omega
  cases step with
  | replayed ahead =>
    have below := (Array.getElem?_eq_some_iff.1 ahead).1
    exact (if_pos below).symm
  | cramped used tight below refusal =>
    have ceiling := mt (Window.full_iff formed).2 below
    rw [bounded.cramped_events sizes tight below refusal, if_neg (unstored used)]
    simp only at ceiling
    simp only [if_neg ceiling, if_true, List.append_nil]
  | released used room held =>
    rw [if_neg (unstored used)]
    simp [Window.append]
  | refusedAgain used full held =>
    have ceiling := full.limit_eq
    rw [if_neg (unstored used)]
    simp [ceiling, full.1]
  | stored used roomy unheld answer =>
    rw [if_neg (unstored used), Window.growth_toList formed (Or.inl roomy)]
    simp [Window.append]
  | refused used full unheld answer =>
    have ceiling := full.limit_eq
    rw [if_neg (unstored used)]
    simp [ceiling, full.1]
  | ended used able unheld answer =>
    rw [if_neg (unstored used), Window.growth_toList formed able]
    simp
  | failed used able unheld answer =>
    rw [if_neg (unstored used), Window.growth_toList formed able]
    simp

theorem peek_events (formed : buffer.window.WellFormed) :
    (peek buffer).events = (next buffer).events := by
  rw [peek_eq formed]
  rcases next buffer with ⟨error | byte | _, after, events⟩
  · rfl
  · rfl
  · rfl

theorem nextIf_events (accepts : UInt8 → Bool) (formed : buffer.window.WellFormed) :
    (nextIf accepts buffer).events = (next buffer).events := by
  rw [nextIf_eq accepts formed]
  rcases next buffer with ⟨error | byte | _, after, events⟩
  · rfl
  · by_cases accepted : accepts byte = true
    · simp only [if_pos accepted]
    · simp only [if_neg accepted]
  · rfl

/-- Reading on reports what each of its reads is to report. -/
theorem eatWhile_events (accepts : UInt8 → Bool) (bounded : Bounded config memory buffer)
    (sizes : memory ≤ Size.max) :
    (eatWhile accepts buffer).events.toList =
      (eatAttempts accepts buffer).flatMap (readAccount config.limit) := by
  induction room : buffer.window.roomLeft using Nat.strongRecOn generalizing buffer with
  | _ room ih =>
    subst room
    have kept := nextIf_keeps accepts next_keeps_bounded back_keeps_bounded buffer bounded
    have reported := nextIf_events accepts bounded.formed
    have account := next_events bounded sizes
    rw [eatAttempts_eq, List.flatMap_cons, ← account, ← reported]
    rcases result : nextIf accepts buffer with ⟨error | _ | byte, after, events⟩
    · rw [eatWhile_of_error result]
      simp
    · rw [eatWhile_of_none result]
      simp
    · rw [result] at kept
      rw [eatWhile_of_some result]
      simp only [Result.after, Result.map, Array.toList_append]
      rw [ih _ (roomLeft_lt_of_nextIf result) kept rfl]

/-- What the calls of a list report is what each of them does. -/
theorem performAll_events (calls : List Call) (buffer : Buffer σ) :
    (performAll calls buffer).events.toList = along Call.reports calls buffer := by
  induction calls generalizing buffer with
  | nil => rfl
  | cons call calls ih =>
    rw [performAll_cons, along_cons, ← ih]
    simp only [Result.after, Result.map, Call.reports, Array.toList_append]

/-- Where each call reports what it is to report, so do all. -/
theorem along_reports (calls : List Call)
    (each : ∀ call ∈ calls, ∀ buffer : Buffer σ, Bounded config memory buffer →
      call.reports buffer = call.account config.limit buffer)
    (bounded : Bounded config memory buffer) :
    along Call.reports calls buffer = along (Call.account config.limit) calls buffer := by
  induction calls generalizing buffer with
  | nil => rfl
  | cons call calls ih =>
    have kept := perform_keeps_bounded call buffer bounded
    rw [along_cons, along_cons, each call List.mem_cons_self buffer bounded,
      ih (fun call member => each call (List.mem_cons_of_mem _ member)) kept]

omit [ByteSource σ] in
theorem dumpEvents_toList (window : Window) (source after : σ) :
    window.dumpEvents.toList = dumpAccount ⟨window, source⟩ ⟨window.discard, after⟩ := by
  unfold Window.dumpEvents dumpAccount
  split
  · rfl
  · rfl

/-- Every call reports what it is to report. -/
theorem reports_eq_account (call : Call) (bounded : Bounded config memory buffer)
    (sizes : memory ≤ Size.max) : call.reports buffer = call.account config.limit buffer := by
  have formed := bounded.formed
  induction call generalizing buffer with
  | next =>
    rw [Call.reports, Call.perform, Operation.map_apply]
    exact next_events bounded sizes
  | peek =>
    rw [Call.reports, Call.perform, Operation.map_apply]
    exact (congrArg Array.toList (peek_events formed)).trans (next_events bounded sizes)
  | nextIf accepts =>
    rw [Call.reports, Call.perform, Operation.map_apply]
    exact (congrArg Array.toList (nextIf_events accepts formed)).trans (next_events bounded sizes)
  | eatWhile accepts =>
    rw [Call.reports, Call.perform, Operation.map_apply]
    exact eatWhile_events accepts bounded sizes
  | back =>
    rw [Call.reports, Call.perform, Call.account, Operation.bind_apply]
    by_cases none : buffer.window.consumed = 0
    · rw [back_of_none none]
    · rw [back_of_pending none]
      rfl
  | dump =>
    obtain ⟨window, source⟩ := buffer
    rw [Call.reports, Call.perform, Call.account, Operation.bind_apply, dump_eq formed.consumed_le,
      ← dumpEvents_toList]
    exact congrArg Array.toList (Array.append_empty ..)
  | skip =>
    obtain ⟨window, source⟩ := buffer
    rw [Call.reports, Call.perform, Call.account, Operation.map_apply, skip_eq formed.consumed_le,
      ← dumpEvents_toList]
    rfl
  | emit =>
    obtain ⟨window, source⟩ := buffer
    rw [Call.reports, Call.perform, Call.account, Operation.map_apply, emit_eq formed]
    simp only [Result.map, Array.toList_push, dumpEvents_toList window source source]
  | emitText =>
    obtain ⟨window, source⟩ := buffer
    rw [Call.reports, Call.perform, Call.account, Operation.map_apply, emitText_eq formed]
    cases Utf8.decode window.pending with
    | error malformation => rfl
    | ok text =>
      simp only [Result.map, Array.toList_push, dumpEvents_toList window source source]
  | times count call ih =>
    rw [Call.reports, Call.perform, Operation.map_apply, times_perform, Call.account,
      along_replicate]
    refine (performAll_events _ buffer).trans (along_reports _ ?_ bounded)
    intro copy member between within
    rw [List.eq_of_mem_replicate member]
    exact ih within within.formed

/-- The bounds, and a log that tells of the buffer truly from when it was opened. -/
structure Chronicled (config : Config) (memory : Nat) (log : List Event)
    (buffer : Buffer σ) : Prop where
  bounded : Bounded config memory buffer
  told : Told.after config.limit ⟨config.initial, 0⟩ log = some buffer.window.told

omit [ByteSource σ] in
theorem Chronicled.add {log : List Event} {after : Buffer σ} {events : Array Event}
    (chronicled : Chronicled config memory log buffer) (kept : Bounded config memory after)
    (more : buffer.window.told.after config.limit events.toList = some after.window.told) :
    Chronicled config memory (log ++ events.toList) after := by
  refine ⟨kept, ?_⟩
  rw [Told.after_append, chronicled.told]
  exact more

omit [ByteSource σ] in
theorem back_chronicled : Follows (Chronicled config memory) (back (σ := σ)) := by
  intro log buffer chronicled
  refine chronicled.add (back_keeps_bounded buffer chronicled.bounded) ?_
  by_cases none : buffer.window.consumed = 0
  · rw [back_of_none none, Told.after_singleton]
    exact if_pos rfl
  · rw [back_of_pending none]
    rfl

omit [ByteSource σ] in
theorem dump_chronicled : Follows (Chronicled config memory) (dump (σ := σ)) := by
  rintro log ⟨window, source⟩ chronicled
  refine chronicled.add (dump_keeps_bounded _ chronicled.bounded) ?_
  rw [dump_eq chronicled.bounded.formed.consumed_le]
  exact window.told_dump

omit [ByteSource σ] in
theorem emit_chronicled : Follows (Chronicled config memory) (emit (σ := σ)) := by
  rintro log ⟨window, source⟩ chronicled
  refine chronicled.add (emit_keeps dump_keeps_bounded _ chronicled.bounded) ?_
  rw [emit_eq chronicled.bounded.formed, Array.toList_push, Told.after_append, window.told_dump,
    Option.bind_some, Told.after_singleton]
  -- the token ends where the next one starts
  exact if_pos rfl

theorem next_chronicled (sizes : memory ≤ Size.max) :
    Follows (Chronicled config memory) (next (σ := σ)) := by
  intro log buffer chronicled
  have bounded := chronicled.bounded
  have formed := bounded.formed
  have granted : buffer.window.memory ≤ Size.max := bounded.memory ▸ sizes
  refine chronicled.add (next_keeps_bounded buffer bounded) ?_
  rw [← bounded.limit]
  have step := next_readsTo formed
  generalize next buffer = result at step ⊢
  cases step with
  | replayed ahead => rfl
  | cramped used tight below refusal =>
    rw [bounded.cramped_events sizes tight below refusal]
    rfl
  | released used room held => rfl
  | refusedAgain used full held =>
    rw [Told.after_singleton]
    exact if_pos ⟨full.2, rfl, full.offset_eq⟩
  | stored used roomy unheld answer => exact Window.told_growth formed granted (Or.inl roomy)
  | refused used full unheld answer =>
    rw [Told.after_singleton]
    exact if_pos ⟨full.2, rfl, full.offset_eq⟩
  | ended used able unheld answer => exact Window.told_growth formed granted able
  | failed used able unheld answer => exact Window.told_growth formed granted able

/-- The log of a buffer tells the truth, if no more memory is granted than there are sizes. Read
from the configuration on, every event is true of what the earlier ones tell, and all of them tell
the present capacity and the present start of the token. And they are, call by call, what the calls
are to report by what they have done. -/
theorem log_faithful {source : σ} {first : Buffer σ} (sizes : memory ≤ Size.max)
    (opened : openWith config memory source = .ok first) (calls : List Call) :
    Told.after config.limit ⟨config.initial, 0⟩ (performAll calls first).events.toList =
        some ⟨(performAll calls first).state.window.capacity,
          (performAll calls first).state.window.start⟩ ∧
      (performAll calls first).events.toList = along (Call.account config.limit) calls first := by
  have bounded := openWith_bounded opened
  have fresh : Chronicled config memory [] first := by
    refine ⟨bounded, ?_⟩
    rw [(openWith_eq_ok opened).1]
    rfl
  have follows (call : Call) : Follows (Chronicled config memory) (call.perform (σ := σ)) :=
    call.perform_follows (next_chronicled sizes) back_chronicled dump_chronicled emit_chronicled
  have chronicled : Chronicled config memory ([] ++ along Call.reports calls first)
      (performAll calls first).state :=
    along_invariant calls (fun call _ log buffer holds => follows call log buffer holds) fresh
  rw [performAll_events]
  refine ⟨chronicled.told, ?_⟩
  exact along_reports calls (fun call _ buffer within => reports_eq_account call within sizes) bounded

/-- A token of no bytes, a byte that cannot be given back, growth, a refused byte and two tokens, of
which the second begins with lookahead. The fault between them and the end are not told of. -/
theorem log_faithful_refusal :
    let source : Script :=
      ⟨[.ok (.byte 97), .ok (.byte 98), .ok (.byte 99), .error ⟨"Other", "late"⟩]⟩
    let first : Buffer Script := ⟨Window.empty 1 (some 2) (1 <<< 48), source⟩
    let calls : List Call :=
      [.emit, .back, .next, .next, .next, .back, .emit, .next, .next, .next, .emit, .next]
    let log := (performAll calls first).events.toList
    openWith ⟨1, some 2⟩ (1 <<< 48) source = .ok first ∧
      log = [.emitted 0 0, .backupUnderflow 0, .grew 1 2, .refused 2 2, .dumped 1 1 1,
        .emitted 1 0, .dumped 2 0 3, .emitted 2 1] ∧
      Told.after (some 2) ⟨1, 0⟩ log = some ⟨2, 3⟩ := by
  intro source first calls log
  have opened : openWith ⟨1, some 2⟩ (1 <<< 48) source = .ok first := rfl
  have told := (log_faithful (by decide) opened calls).1
  have last : (performAll calls first).state.window.told = ⟨2, 3⟩ := by decide +kernel
  exact ⟨opened, by decide +kernel, told.trans (congrArg some last)⟩

end Buffer

end Lexing
