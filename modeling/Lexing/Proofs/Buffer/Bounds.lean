import Lexing.Proofs.Buffer.History
import Lexing.Proofs.Buffer.Log
import Lexing.Proofs.Buffer.Looking

/-!
# Cursors, capacity and growth stay in bounds

The cursors of a buffer stay behind each other, and its capacity between what its configuration
asks for at first and the ceiling that it sets (`Bounded.within`). Growth, where it is reported,
leads to a larger capacity within the ceiling, and it is never found that there is none to grow to
(`reports_within`).
-/

set_option autoImplicit false

namespace Lexing

open Operation (Keeps Follows)

variable {σ : Type} {config : Config} {memory : Nat}

/-- Whether growth that is reported leads to a larger capacity within the ceiling. That there was
no larger capacity to grow to is not to be reported. -/
def Event.GrowsWithin (limit : Option Nat) : Event → Prop
  | .grew before after => before < after ∧ ∀ bound, limit = some bound → after ≤ bound
  | .cannotGrow _ _ => False
  | _ => True

namespace Window

structure CursorsWithin (config : Config) (window : Window) : Prop where
  consumed : window.consumed ≤ window.available
  available : window.available ≤ window.capacity
  positive : 1 ≤ config.initial
  initial : config.initial ≤ window.capacity
  ceiling : ∀ limit, config.limit = some limit → window.capacity ≤ limit
  /-- A byte is held only at the ceiling. -/
  held : window.held.isSome → config.limit = some window.capacity

/-- The room that is made for a byte is within the ceiling. -/
theorem growth_within {window : Window} (formed : window.WellFormed)
    (able : window.Roomy ∨ window.Full) :
    ∀ event ∈ window.growth.toList, event.GrowsWithin window.limit := by
  rcases able with roomy | full
  · by_cases room : window.consumed < window.capacity
    · rw [growth_of_lt room]
      nofun
    · have growable : window.Growable := roomy.resolve_left room
      have grown : window.growth = #[.grew window.capacity window.growthTarget] := by
        simp [growth, room, growable.1]
      intro event member
      rw [grown, List.mem_singleton] at member
      rw [member]
      exact ⟨growable.2.1, fun bound limit => growthTarget_le_limit limit⟩
  · rw [growth_of_full formed full]
    nofun

theorem dumpEvents_within (window : Window) (limit : Option Nat) :
    ∀ event ∈ window.dumpEvents.toList, event.GrowsWithin limit := by
  intro event member
  unfold dumpEvents at member
  split at member
  · cases member
  · rw [List.mem_singleton] at member
    rw [member]
    trivial

end Window

namespace Buffer

structure Bounded (config : Config) (memory : Nat) (buffer : Buffer σ) : Prop where
  formed : buffer.window.WellFormed
  positive : 0 < config.initial
  initial : config.initial ≤ buffer.window.capacity
  limit : buffer.window.limit = config.limit
  memory : buffer.window.memory = memory

theorem openWith_bounded {source : σ} {first : Buffer σ}
    (opened : openWith config memory source = .ok first) : Bounded config memory first := by
  obtain ⟨rfl, formed⟩ := openWith_eq_ok opened
  exact ⟨formed, formed.capacity_pos, Nat.le_refl _, rfl, rfl⟩

section Standing

variable {buffer : Buffer σ}

/-- The bounds that a buffer sets for itself. -/
theorem bounded_self (formed : buffer.window.WellFormed) :
    Bounded ⟨buffer.window.capacity, buffer.window.limit⟩ buffer.window.memory buffer :=
  ⟨formed, formed.capacity_pos, Nat.le_refl _, rfl, rfl⟩

theorem Bounded.within (bounded : Bounded config memory buffer) :
    buffer.window.CursorsWithin config where
  consumed := bounded.formed.consumed_le
  available := bounded.formed.available_le
  positive := bounded.positive
  initial := bounded.initial
  ceiling limit present := bounded.formed.capacity_le limit (bounded.limit.trans present)
  held held := bounded.limit.symm.trans (bounded.formed.held_full held)

/-- Below the ceiling there is a larger capacity, if no more memory than there are sizes is
granted. -/
theorem Bounded.larger (bounded : Bounded config memory buffer) (sizes : memory ≤ Size.max)
    (ceiling : buffer.window.limit ≠ some buffer.window.capacity) :
    buffer.window.capacity < buffer.window.growthTarget := by
  have granted := bounded.formed.granted
  rw [bounded.memory] at granted
  exact Window.capacity_lt_growthTarget bounded.formed (by omega) ceiling

end Standing

theorem back_keeps_bounded : Keeps (Bounded config memory) (back (σ := σ)) := by
  intro buffer bounded
  have kept := back_keeps_wellFormed buffer bounded.formed
  rw [back_state] at kept ⊢
  exact { bounded with formed := kept }

theorem dump_keeps_bounded : Keeps (Bounded config memory) (dump (σ := σ)) := by
  rintro ⟨window, source⟩ bounded
  have kept := dump_keeps_wellFormed _ bounded.formed
  rw [dump_eq bounded.formed.consumed_le] at kept ⊢
  exact { bounded with formed := kept }

/-- Where there is a larger capacity to grow to, growth that is refused is not reported. -/
theorem grow_refusal_events {window : Window} {source : σ} {error : LexError} {after : Buffer σ}
    {events : Array Event} (larger : window.capacity < window.growthTarget)
    (refusal : grow ⟨window, source⟩ = ⟨.error error, after, events⟩) : events = #[] := by
  have grows : ¬ window.growthTarget ≤ window.capacity := by omega
  simp only [grow, if_neg grows] at refusal
  split at refusal
  · cases refusal
  · cases refusal
    rfl

/-- The bounds, and all that was reported of growth. -/
structure GrowthReported (config : Config) (memory : Nat) (log : List Event)
    (buffer : Buffer σ) : Prop where
  bounded : Bounded config memory buffer
  log : ∀ event ∈ log, event.GrowsWithin config.limit

theorem GrowthReported.add {log : List Event} {buffer after : Buffer σ} {events : Array Event}
    (reported : GrowthReported config memory log buffer) (kept : Bounded config memory after)
    (more : ∀ event ∈ events.toList, event.GrowsWithin config.limit) :
    GrowthReported config memory (log ++ events.toList) after :=
  ⟨kept, List.forall_mem_append.2 ⟨reported.log, more⟩⟩

theorem back_follows : Follows (GrowthReported config memory) (back (σ := σ)) := by
  intro log buffer reported
  refine reported.add (back_keeps_bounded buffer reported.bounded) ?_
  by_cases none : buffer.window.consumed = 0
  · rw [back_of_none none]
    intro event member
    rw [List.mem_singleton] at member
    rw [member]
    trivial
  · rw [back_of_pending none]
    nofun

theorem dump_follows : Follows (GrowthReported config memory) (dump (σ := σ)) := by
  rintro log ⟨window, source⟩ reported
  refine reported.add (dump_keeps_bounded _ reported.bounded) ?_
  rw [dump_eq reported.bounded.formed.consumed_le]
  exact window.dumpEvents_within config.limit

theorem emit_follows : Follows (GrowthReported config memory) (emit (σ := σ)) := by
  rintro log ⟨window, source⟩ reported
  refine reported.add (emit_keeps dump_keeps_bounded _ reported.bounded) ?_
  rw [emit_eq reported.bounded.formed]
  intro event member
  rw [Array.toList_push] at member
  rcases List.mem_append.1 member with dumped | emitted
  · exact window.dumpEvents_within config.limit event dumped
  · rw [List.mem_singleton.1 emitted]
    trivial

section Reading

variable [ByteSource σ]

theorem next_keeps_bounded : Keeps (Bounded config memory) (next (σ := σ)) := by
  rintro ⟨window, source⟩ ⟨formed, positive, initial, limit, available⟩
  have kept := next_keeps_wellFormed ⟨window, source⟩ formed
  have step := next_readsTo formed
  have larger (able : window.Roomy ∨ window.Full) : config.initial ≤ window.widened.capacity :=
    Nat.le_trans initial (Window.capacity_le_widened formed able)
  have ceiling := window.widened_limit.trans limit
  have granted := window.widened_memory.trans available
  generalize next ⟨window, source⟩ = result at kept step ⊢
  cases step with
  | replayed ahead => exact ⟨kept, positive, initial, limit, available⟩
  | cramped used tight below refusal => exact ⟨kept, positive, initial, limit, available⟩
  | released used room held => exact ⟨kept, positive, initial, limit, available⟩
  | refusedAgain used full held => exact ⟨kept, positive, initial, limit, available⟩
  | stored used roomy unheld answer =>
    exact ⟨kept, positive, larger (Or.inl roomy), ceiling, granted⟩
  | refused used full unheld answer => exact ⟨kept, positive, initial, limit, available⟩
  | ended used able unheld answer => exact ⟨kept, positive, larger able, ceiling, granted⟩
  | failed used able unheld answer => exact ⟨kept, positive, larger able, ceiling, granted⟩

theorem perform_keeps_bounded (call : Call) :
    Keeps (Bounded config memory) (call.perform (σ := σ)) :=
  call.perform_keeps next_keeps_bounded back_keeps_bounded dump_keeps_bounded

theorem next_follows (sizes : memory ≤ Size.max) :
    Follows (GrowthReported config memory) (next (σ := σ)) := by
  intro log buffer reported
  refine reported.add (next_keeps_bounded buffer reported.bounded) ?_
  have bounded := reported.bounded
  have step := next_readsTo bounded.formed
  rw [← bounded.limit]
  generalize next buffer = result at step ⊢
  cases step with
  | replayed ahead => nofun
  | @cramped window source requested events used tight below refusal =>
    -- below the ceiling there is a larger capacity, so it was the memory that was refused
    have fits := bounded.formed.available_le
    have filled : window.consumed = window.capacity := by
      have room : ¬ window.consumed < window.capacity := fun room => tight (Or.inl room)
      simp only at fits
      omega
    have larger := bounded.larger sizes fun ceiling => below ⟨filled, ceiling⟩
    rw [grow_refusal_events larger refusal]
    nofun
  | released used room held => nofun
  | refusedAgain used full held =>
    intro event member
    rw [List.mem_singleton.1 member]
    trivial
  | stored used roomy unheld answer => exact Window.growth_within bounded.formed (Or.inl roomy)
  | refused used full unheld answer =>
    intro event member
    rw [List.mem_singleton.1 member]
    trivial
  | ended used able unheld answer => exact Window.growth_within bounded.formed able
  | failed used able unheld answer => exact Window.growth_within bounded.formed able

/-- All growth that calls report is within the ceiling. -/
theorem reports_within {buffer : Buffer σ} (bounded : Bounded config memory buffer)
    (sizes : memory ≤ Size.max) (call : Call) :
    ∀ event ∈ call.reports buffer, event.GrowsWithin config.limit := by
  have follows : Follows (GrowthReported config memory) (call.perform (σ := σ)) :=
    call.perform_follows (next_follows sizes) back_follows dump_follows emit_follows
  exact (follows [] buffer ⟨bounded, nofun⟩).log

end Reading

end Buffer

end Lexing
