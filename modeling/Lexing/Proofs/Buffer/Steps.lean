import Lexing.Buffer.Call
import Lexing.Proofs.Operation

/-!
# What one step of a buffer can do

Three primitives move a buffer: a read, giving a byte back and discarding the pending token. All
other operations are made of them. Here each is told completely, on windows that are well formed:

* `ReadsTo` lists everything that a read can do, failures included, and `readsTo_iff` says that
  the list is right and complete;
* `dump_eq`, `skip_eq`, `emit_eq` and `emitText_eq` are the operations that discard, in closed form;
* `Call.perform_keeps` carries a property of the three primitives over to every call.

Well-formed windows are opened and stay well formed (`openWith_eq_ok`, `perform_keeps_wellFormed`).
-/

set_option autoImplicit false

namespace Lexing

/-- The pending token is stored, what is stored fits, the capacity is within its limit and was
granted, and a byte is held only beside a window that has reached its limit. -/
structure Window.WellFormed (window : Window) : Prop where
  consumed_le : window.consumed ≤ window.available
  available_le : window.available ≤ window.capacity
  capacity_pos : 0 < window.capacity
  capacity_le : ∀ limit, window.limit = some limit → window.capacity ≤ limit
  held_full : window.held.isSome → window.limit = some window.capacity
  granted : window.capacity < window.memory

namespace Window

/-- Whether the window can grow: its ceiling leaves room, and the room is granted. -/
def Growable (window : Window) : Prop :=
  window.atCeiling = false ∧ window.capacity < window.growthTarget ∧
    window.growthTarget < window.memory

/-- Whether a read finds room for a byte or can make it. -/
def Roomy (window : Window) : Prop := window.consumed < window.capacity ∨ window.Growable

/-- Whether the pending token fills the window up to its ceiling. -/
def Full (window : Window) : Prop :=
  window.consumed = window.capacity ∧ window.limit = some window.capacity

/-- The window as a read leaves it room for a byte. At the ceiling there is none to be had. -/
def widened (window : Window) : Window :=
  if window.consumed < window.capacity ∨ window.atCeiling = true then window
  else { window with capacity := window.growthTarget }

def growth (window : Window) : Array Event :=
  if window.consumed < window.capacity ∨ window.atCeiling = true then #[]
  else #[.grew window.capacity window.growthTarget]

def dumpEvents (window : Window) : Array Event :=
  if window.consumed = 0 then #[]
  else #[.dumped window.consumed window.discard.available window.discard.start]

theorem atCeiling_iff {window : Window} (formed : window.WellFormed) :
    window.atCeiling = true ↔ window.limit = some window.capacity := by
  unfold atCeiling
  cases ceiling : window.limit with
  | none => simp
  | some limit =>
    have bound := formed.capacity_le limit ceiling
    simp only [decide_eq_true_eq, Option.some.injEq]
    omega

theorem pending_toList (window : Window) :
    window.pending.toList = window.stored.toList.take window.consumed := by
  simp [pending]

theorem lookahead_toList (window : Window) :
    window.lookahead.toList = window.stored.toList.drop window.consumed := by
  rw [lookahead, Array.toList_extract, List.extract_eq_take_drop]
  exact List.take_of_length_le (by simp)

/-- The stored bytes are the pending token and the lookahead. -/
theorem pending_append_lookahead (window : Window) :
    window.pending.toList ++ window.lookahead.toList = window.stored.toList := by
  rw [pending_toList, lookahead_toList, List.take_append_drop]

theorem length_pending {window : Window} (stored : window.consumed ≤ window.available) :
    window.pending.toList.length = window.consumed := by
  rw [pending_toList, List.length_take]
  exact Nat.min_eq_left stored

theorem stored_getElem?_eq_none {window : Window} (used : window.consumed = window.available) :
    window.stored[window.consumed]? = none :=
  Array.getElem?_eq_none (Nat.le_of_eq used.symm)

theorem widened_of_lt {window : Window} (room : window.consumed < window.capacity) :
    window.widened = window := if_pos (Or.inl room)

theorem widened_of_full {window : Window} (formed : window.WellFormed) (full : window.Full) :
    window.widened = window := if_pos (Or.inr ((atCeiling_iff formed).2 full.2))

theorem growth_of_lt {window : Window} (room : window.consumed < window.capacity) :
    window.growth = #[] := if_pos (Or.inl room)

theorem growth_of_full {window : Window} (formed : window.WellFormed) (full : window.Full) :
    window.growth = #[] := if_pos (Or.inr ((atCeiling_iff formed).2 full.2))

@[simp] theorem widened_stored (window : Window) : window.widened.stored = window.stored := by
  unfold widened; split <;> rfl

@[simp] theorem widened_consumed (window : Window) :
    window.widened.consumed = window.consumed := by
  unfold widened; split <;> rfl

@[simp] theorem widened_limit (window : Window) : window.widened.limit = window.limit := by
  unfold widened; split <;> rfl

@[simp] theorem widened_memory (window : Window) : window.widened.memory = window.memory := by
  unfold widened; split <;> rfl

@[simp] theorem widened_start (window : Window) : window.widened.start = window.start := by
  unfold widened; split <;> rfl

@[simp] theorem widened_held (window : Window) : window.widened.held = window.held := by
  unfold widened; split <;> rfl

end Window

namespace Buffer

variable {σ : Type}

/-- Where nothing is pending, giving a byte back fails and leaves the same window. -/
theorem back_state (buffer : Buffer σ) :
    (back buffer).state = ⟨buffer.window.retreat, buffer.source⟩ := by
  obtain ⟨window, source⟩ := buffer
  by_cases empty : window.consumed = 0
  · simp [back, empty, Window.retreat]
    rw [← empty]
  · simp only [back, if_neg empty]

/-- A token is pending or not: discarding it is one closed step. -/
theorem dump_eq {window : Window} (stored : window.consumed ≤ window.available) (source : σ) :
    dump ⟨window, source⟩ = ⟨.ok (), ⟨window.discard, source⟩, window.dumpEvents⟩ := by
  have kept : ¬ window.available < window.consumed := by omega
  by_cases empty : window.consumed = 0
  · have same : window.discard = window := by
      obtain ⟨bytes, consumed, capacity, limit, memory, start, held⟩ := window
      simp only at empty
      subst empty
      simp [Window.discard, Window.lookahead]
    simp only [dump, if_neg kept, if_pos empty, Window.dumpEvents, same]
  · simp only [dump, if_neg kept, if_neg empty, Window.dumpEvents]

theorem skip_eq {window : Window} (stored : window.consumed ≤ window.available) (source : σ) :
    skip ⟨window, source⟩ =
      ⟨.ok window.consumed, ⟨window.discard, source⟩, window.dumpEvents⟩ := by
  simp only [skip, Operation.bind_apply, Operation.get_apply, dump_eq stored, Result.after,
    Operation.pure_apply, Array.append_empty, Array.empty_append]

theorem reserve_eq {window : Window} {bytes : Nat} (granted : bytes < window.memory) (source : σ) :
    reserve bytes ⟨window, source⟩ = ⟨.ok (), ⟨window, source⟩, #[]⟩ := by
  simp [reserve, Operation.bind_apply, Operation.get_apply, Window.grants, granted,
    Operation.pure_apply, Result.after]

theorem emit_eq {window : Window} (formed : window.WellFormed) (source : σ) :
    emit ⟨window, source⟩ =
      ⟨.ok window.pending, ⟨window.discard, source⟩,
        window.dumpEvents.push (.emitted window.consumed window.start)⟩ := by
  have stored := formed.consumed_le
  have granted : window.consumed < window.memory := by
    have fits := formed.available_le
    have capacity := formed.granted
    omega
  have start : window.discard.start - window.consumed.toUInt64 = window.start := by
    simp [Window.discard]
  simp only [emit, Operation.bind_apply, Operation.get_apply, reserve_eq granted, dump_eq stored,
    Operation.note, Operation.pure_apply, Result.after, start, Array.empty_append,
    Array.append_empty, Array.push_eq_append]

/-- A token that is text is handed out like one of bytes; one that is not stays. -/
theorem emitText_eq {window : Window} (formed : window.WellFormed) (source : σ) :
    emitText ⟨window, source⟩ =
      match Utf8.decode window.pending with
      | .error malformation =>
        ⟨.error (.copyFailure window.consumed malformation), ⟨window, source⟩, #[]⟩
      | .ok text =>
        ⟨.ok text, ⟨window.discard, source⟩,
          window.dumpEvents.push (.emitted window.consumed window.start)⟩ := by
  simp only [emitText, Operation.bind_apply, Operation.get_apply, Result.after_empty]
  cases Utf8.decode window.pending with
  | error malformation => rfl
  | ok text =>
    have discarded : (Functor.discard emit : BufferM σ PUnit) ⟨window, source⟩ =
        (emit ⟨window, source⟩).map fun _ => ⟨⟩ := Operation.map_apply _ _ _
    simp only [Operation.bind_apply, discarded, emit_eq formed, Result.map, Except.map,
      Result.after, Operation.pure_apply, Array.append_empty]

/-- Everything that a read can do to a buffer. The stored lookahead comes first; without it, a held
byte comes before the source is asked. -/
inductive ReadsTo [ByteSource σ] : Buffer σ → Result LexError (Buffer σ) Next → Prop
  /-- The lookahead is read again. -/
  | replayed {window : Window} {source : σ} {byte : UInt8}
      (ahead : window.stored[window.consumed]? = some byte) :
      ReadsTo ⟨window, source⟩ ⟨.ok (.byte byte), ⟨window.advance, source⟩, #[]⟩
  /-- There is no room, and none is granted. -/
  | cramped {window : Window} {source : σ} {requested : Nat} {events : Array Event}
      (used : window.consumed = window.available) (tight : ¬ window.Roomy) (below : ¬ window.Full)
      (refusal : grow ⟨window, source⟩ =
        ⟨.error (.allocationFailure requested), ⟨window, source⟩, events⟩) :
      ReadsTo ⟨window, source⟩ ⟨.error (.allocationFailure requested), ⟨window, source⟩, events⟩
  /-- The held byte is stored. -/
  | released {window : Window} {source : σ} {byte : UInt8}
      (used : window.consumed = window.available) (room : window.consumed < window.capacity)
      (held : window.held = some byte) :
      ReadsTo ⟨window, source⟩
        ⟨.ok (.byte byte), ⟨{ window with held := none }.append byte, source⟩, #[]⟩
  /-- The held byte is refused again. -/
  | refusedAgain {window : Window} {source : σ} {byte : UInt8}
      (used : window.consumed = window.available) (full : window.Full)
      (held : window.held = some byte) :
      ReadsTo ⟨window, source⟩
        ⟨.error (.allocationFailure (Size.double window.capacity)), ⟨window, source⟩,
          #[.refused window.capacity window.offset]⟩
  /-- A fresh byte is stored. -/
  | stored {window : Window} {source after : σ} {byte : UInt8}
      (used : window.consumed = window.available) (roomy : window.Roomy)
      (unheld : window.held = none) (answer : ByteSource.poll source = (.ok (.byte byte), after)) :
      ReadsTo ⟨window, source⟩
        ⟨.ok (.byte byte), ⟨window.widened.append byte, after⟩, window.growth⟩
  /-- A fresh byte is refused and held. -/
  | refused {window : Window} {source after : σ} {byte : UInt8}
      (used : window.consumed = window.available) (full : window.Full)
      (unheld : window.held = none) (answer : ByteSource.poll source = (.ok (.byte byte), after)) :
      ReadsTo ⟨window, source⟩
        ⟨.error (.allocationFailure (Size.double window.capacity)),
          ⟨{ window with held := some byte }, after⟩, #[.refused window.capacity window.offset]⟩
  /-- The source is at its end. -/
  | ended {window : Window} {source after : σ}
      (used : window.consumed = window.available) (able : window.Roomy ∨ window.Full)
      (unheld : window.held = none) (answer : ByteSource.poll source = (.ok .eos, after)) :
      ReadsTo ⟨window, source⟩ ⟨.ok .eos, ⟨window.widened, after⟩, window.growth⟩
  /-- The source reports a fault. -/
  | failed {window : Window} {source after : σ} {fault : Fault}
      (used : window.consumed = window.available) (able : window.Roomy ∨ window.Full)
      (unheld : window.held = none) (answer : ByteSource.poll source = (.error fault, after)) :
      ReadsTo ⟨window, source⟩ ⟨.error (.source fault), ⟨window.widened, after⟩, window.growth⟩

/-- A growable window grows to what a read leaves it. -/
theorem grow_eq_widened {window : Window} (full : ¬ window.consumed < window.capacity)
    (growable : window.Growable) (source : σ) :
    grow ⟨window, source⟩ = ⟨.ok (), ⟨window.widened, source⟩, window.growth⟩ := by
  obtain ⟨below, larger, granted⟩ := growable
  have grows : ¬ window.growthTarget ≤ window.capacity := by omega
  have widens : ¬ (window.consumed < window.capacity ∨ window.atCeiling = true) := by
    simp [full, below]
  simp only [grow, if_neg grows, Window.grants, granted, decide_true, if_true, Window.widened,
    Window.growth, if_neg widens]

/-- A window that is below its ceiling and not growable is left as it is. -/
theorem grow_refusal {window : Window} (below : window.atCeiling = false)
    (tight : ¬ window.Growable) (source : σ) :
    ∃ requested events, grow ⟨window, source⟩ =
      ⟨.error (.allocationFailure requested), ⟨window, source⟩, events⟩ := by
  by_cases larger : window.growthTarget ≤ window.capacity
  · exact ⟨_, _, if_pos larger⟩
  · have refused : ¬ window.growthTarget < window.memory := fun granted =>
      tight ⟨below, by omega, granted⟩
    refine ⟨window.growthTarget, #[], ?_⟩
    simp only [grow, if_neg larger, Window.grants, refused, decide_false, Bool.false_eq_true,
      if_false]

section Reading

variable [ByteSource σ]

/-- Where there is room or room can be made, a read makes it and then reads. -/
theorem next_eq_of_roomy {window : Window} (roomy : window.Roomy) (source : σ) :
    next ⟨window, source⟩ = (read ⟨window.widened, source⟩).after window.growth := by
  by_cases room : window.consumed < window.capacity
  · simp only [next, if_pos room, Window.widened_of_lt room, Window.growth_of_lt room,
      Result.after_empty]
  · have growable : window.Growable := roomy.resolve_left room
    simp only [next, if_neg room, growable.1, Operation.bind, grow_eq_widened room growable,
      Bool.false_eq_true, if_false]

theorem next_eq_of_full {window : Window} (formed : window.WellFormed) (full : window.Full)
    (source : σ) : next ⟨window, source⟩ = readAtCeiling ⟨window, source⟩ := by
  have used : ¬ window.consumed < window.capacity := by have := full.1; omega
  simp only [next, if_neg used, (Window.atCeiling_iff formed).2 full.2, if_true]

/-- The list is right. -/
theorem ReadsTo.next_eq {window : Window} {source : σ} {result : Result LexError (Buffer σ) Next}
    (formed : window.WellFormed) (reads : ReadsTo ⟨window, source⟩ result) :
    next ⟨window, source⟩ = result := by
  cases reads with
  | replayed ahead =>
    have below := (Array.getElem?_eq_some_iff.1 ahead).1
    have fits := formed.available_le
    have room : window.consumed < window.capacity := Nat.lt_of_lt_of_le below fits
    simp only [next, if_pos room, read, ahead]
  | cramped used tight below refusal =>
    have room : ¬ window.consumed < window.capacity := fun room => tight (Or.inl room)
    have ceiling : ¬ window.atCeiling = true := by
      intro ceiling
      have fits := formed.available_le
      exact below ⟨by omega, (Window.atCeiling_iff formed).1 ceiling⟩
    simp only [next, if_neg room, if_neg ceiling, Operation.bind, refusal]
  | released used room held =>
    simp only [next, if_pos room, read, Window.stored_getElem?_eq_none used, pull, held]
  | refusedAgain used full held =>
    rw [next_eq_of_full formed full]
    obtain ⟨bytes, consumed, capacity, limit, memory, start, beside⟩ := window
    simp only at held
    simp only [readAtCeiling, pull, held, Window.offset, List.push_toArray, List.nil_append]
  | stored used roomy unheld answer =>
    rw [next_eq_of_roomy roomy]
    simp only [read, Window.widened_stored, Window.widened_consumed,
      Window.stored_getElem?_eq_none used, pull, Window.widened_held, unheld, answer, Result.after,
      Array.append_empty]
  | refused used full unheld answer =>
    rw [next_eq_of_full formed full]
    simp only [readAtCeiling, pull, unheld, answer, List.push_toArray, List.nil_append]
  | ended used able unheld answer =>
    rcases able with roomy | full
    · rw [next_eq_of_roomy roomy]
      simp only [read, Window.widened_stored, Window.widened_consumed,
        Window.stored_getElem?_eq_none used, pull, Window.widened_held, unheld, answer,
        Result.after, Array.append_empty]
    · rw [next_eq_of_full formed full, Window.widened_of_full formed full,
        Window.growth_of_full formed full]
      simp only [readAtCeiling, pull, unheld, answer]
  | failed used able unheld answer =>
    rcases able with roomy | full
    · rw [next_eq_of_roomy roomy]
      simp only [read, Window.widened_stored, Window.widened_consumed,
        Window.stored_getElem?_eq_none used, pull, Window.widened_held, unheld, answer,
        Result.after, Array.append_empty]
    · rw [next_eq_of_full formed full, Window.widened_of_full formed full,
        Window.growth_of_full formed full]
      simp only [readAtCeiling, pull, unheld, answer]

/-- The list is complete. -/
theorem next_readsTo {buffer : Buffer σ} (formed : buffer.window.WellFormed) :
    ReadsTo buffer (next buffer) := by
  obtain ⟨window, source⟩ := buffer
  suffices listed : ∃ result, ReadsTo ⟨window, source⟩ result by
    obtain ⟨result, reads⟩ := listed
    rwa [ReadsTo.next_eq formed reads]
  cases ahead : window.stored[window.consumed]? with
  | some byte => exact ⟨_, .replayed ahead⟩
  | none =>
    have used : window.consumed = window.available :=
      Nat.le_antisymm formed.consumed_le (Array.getElem?_eq_none_iff.1 ahead)
    by_cases able : window.Roomy ∨ window.Full
    · cases held : window.held with
      | some byte =>
        by_cases room : window.consumed < window.capacity
        · exact ⟨_, .released used room held⟩
        · have fits : window.available ≤ window.capacity := formed.available_le
          have limit := formed.held_full (by simp [held])
          exact ⟨_, .refusedAgain used ⟨by omega, limit⟩ held⟩
      | none =>
        rcases answer : ByteSource.poll source with ⟨fault | byte | _, after⟩
        · exact ⟨_, .failed used able held answer⟩
        · rcases able with roomy | full
          · exact ⟨_, .stored used roomy held answer⟩
          · exact ⟨_, .refused used full held answer⟩
        · exact ⟨_, .ended used able held answer⟩
    · have tight : ¬ window.Roomy := fun roomy => able (Or.inl roomy)
      have below : ¬ window.Full := fun full => able (Or.inr full)
      have fits : window.available ≤ window.capacity := formed.available_le
      have ceiling : window.atCeiling = false := by
        rw [Bool.eq_false_iff]
        intro ceiling
        have room : ¬ window.consumed < window.capacity := fun room => tight (Or.inl room)
        exact below ⟨by omega, (Window.atCeiling_iff formed).1 ceiling⟩
      obtain ⟨requested, events, refusal⟩ :=
        grow_refusal ceiling (fun growable => tight (Or.inr growable)) source
      exact ⟨_, .cramped used tight below refusal⟩

theorem readsTo_iff {buffer : Buffer σ} {result : Result LexError (Buffer σ) Next}
    (formed : buffer.window.WellFormed) : ReadsTo buffer result ↔ next buffer = result :=
  ⟨ReadsTo.next_eq formed, fun same => same ▸ next_readsTo formed⟩

end Reading

end Buffer

end Lexing
