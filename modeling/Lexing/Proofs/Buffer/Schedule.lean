import Mathlib.Algebra.Group.Nat.Defs
import Mathlib.Order.Bounds.Basic
import Lexing.Proofs.Buffer.Answers
import Lexing.Proofs.Buffer.Ledger

/-!
# The schedule of capacities

The capacity of a buffer is told by its configuration and by how long its token would have become in
the longest of all the reads that were attempted (`depth`), whatever these reads were answered. It
starts as the configuration sets it and is doubled, up to the ceiling, for the first read that needs
more (`LeastFor`). Of one read this is `next_capacity`; `Scheduled` carries it through the calls.
-/

set_option autoImplicit false

namespace Lexing

open Operation (Keeps)

variable {σ : Type} {config : Config} {memory : Nat}

namespace Config

def cut (config : Config) (size : Nat) : Nat := config.limit.elim size (min size)

/-- The capacities that doubling leads to. -/
def capacities (config : Config) : Set Nat :=
  {capacity | ∃ doublings, capacity = config.cut (2 ^ doublings * config.initial)}

/-- The least of these that has room for so many bytes, or else is the ceiling. -/
def LeastFor (config : Config) (depth capacity : Nat) : Prop :=
  IsLeast {capacity ∈ config.capacities | config.cut depth ≤ capacity} capacity

theorem cut_of_none {size : Nat} (limit : config.limit = none) : config.cut size = size := by
  rw [cut, limit, Option.elim_none]

theorem cut_of_some {size bound : Nat} (limit : config.limit = some bound) :
    config.cut size = min size bound := by
  rw [cut, limit, Option.elim_some]

theorem cut_le (config : Config) (size : Nat) : config.cut size ≤ size := by
  cases limit : config.limit with
  | none => exact Nat.le_of_eq (cut_of_none limit)
  | some bound => exact cut_of_some limit ▸ Nat.min_le_left _ _

theorem cut_le_limit {bound : Nat} (limit : config.limit = some bound) (size : Nat) :
    config.cut size ≤ bound := cut_of_some limit ▸ Nat.min_le_right _ _

theorem cut_mono (config : Config) {less more : Nat} (le : less ≤ more) :
    config.cut less ≤ config.cut more := by
  cases limit : config.limit with
  | none => rwa [cut_of_none limit, cut_of_none limit]
  | some bound =>
    rw [cut_of_some limit, cut_of_some limit]
    omega

/-- A size that is not the ceiling was not cut off. -/
theorem cut_eq_self {size : Nat} (below : config.limit ≠ some (config.cut size)) :
    config.cut size = size := by
  cases limit : config.limit with
  | none => exact cut_of_none limit
  | some bound =>
    rw [cut_of_some limit] at below ⊢
    rw [limit] at below
    have other : bound ≠ min size bound := fun same => below (congrArg some same)
    omega

/-- Below the ceiling there is room for one byte more. -/
theorem lt_cut_succ {size : Nat} (within : ∀ bound, config.limit = some bound → size ≤ bound)
    (below : config.limit ≠ some size) : size < config.cut (size + 1) := by
  cases limit : config.limit with
  | none => exact cut_of_none limit ▸ Nat.lt_succ_self size
  | some bound =>
    have bounded := within bound limit
    have other : bound ≠ size := fun same => below (limit.trans (congrArg some same))
    rw [cut_of_some limit]
    omega

theorem cut_two_mul_le (config : Config) (size : Nat) :
    config.cut (2 * size) ≤ 2 * config.cut size := by
  cases limit : config.limit with
  | none => rw [cut_of_none limit, cut_of_none limit]
  | some bound =>
    rw [cut_of_some limit, cut_of_some limit]
    omega

theorem two_pow_succ_mul (doublings : Nat) :
    2 ^ (doublings + 1) * config.initial = 2 * (2 ^ doublings * config.initial) := by
  rw [Nat.pow_succ', Nat.mul_assoc]

namespace LeastFor

variable {depth capacity : Nat}

/-- Before any read the capacity is the initial one. -/
theorem start (within : ∀ bound, config.limit = some bound → config.initial ≤ bound) :
    config.LeastFor 0 config.initial := by
  have uncut : config.cut config.initial = config.initial := by
    cases limit : config.limit with
    | none => exact cut_of_none limit
    | some bound => exact cut_of_some limit ▸ Nat.min_eq_left (within bound limit)
  refine ⟨⟨⟨0, ?_⟩, Nat.le_trans (config.cut_le 0) (Nat.zero_le _)⟩, ?_⟩
  · rw [Nat.pow_zero, Nat.one_mul, uncut]
  · rintro other ⟨⟨doublings, rfl⟩, -⟩
    have more : config.initial ≤ 2 ^ doublings * config.initial :=
      Nat.le_mul_of_pos_left _ (Nat.two_pow_pos doublings)
    calc config.initial = config.cut config.initial := uncut.symm
      _ ≤ _ := config.cut_mono more

theorem enough (least : config.LeastFor depth capacity) : config.cut depth ≤ capacity := least.1.2

/-- A capacity that is enough for one read more is still the least one. -/
theorem keep {more : Nat} (least : config.LeastFor depth capacity)
    (fits : config.cut more ≤ capacity) : config.LeastFor (max depth more) capacity := by
  refine ⟨⟨least.1.1, ?_⟩, ?_⟩
  · rcases Nat.le_total depth more with longer | shorter
    · rwa [Nat.max_eq_right longer]
    · rw [Nat.max_eq_left shorter]
      exact least.enough
  · rintro other ⟨doubled, wide⟩
    exact least.2 ⟨doubled, Nat.le_trans (config.cut_mono (Nat.le_max_left _ _)) wide⟩

/-- Where the token has filled it below the ceiling, twice the capacity is the next one. -/
theorem double (least : config.LeastFor depth capacity) (positive : 0 < capacity)
    (within : ∀ bound, config.limit = some bound → capacity ≤ bound)
    (below : config.limit ≠ some capacity) :
    config.LeastFor (max depth (capacity + 1)) (config.cut (2 * capacity)) := by
  obtain ⟨⟨⟨doublings, reached⟩, enough⟩, -⟩ := least
  have uncut : capacity = 2 ^ doublings * config.initial := by
    rw [reached] at below ⊢
    exact cut_eq_self below
  have longer := lt_cut_succ within below
  have wider : config.cut (capacity + 1) ≤ config.cut (2 * capacity) :=
    config.cut_mono (by omega)
  refine ⟨⟨⟨doublings + 1, ?_⟩, ?_⟩, ?_⟩
  · rw [two_pow_succ_mul, ← uncut]
  · rcases Nat.le_total depth (capacity + 1) with shorter | deeper
    · rwa [Nat.max_eq_right shorter]
    · rw [Nat.max_eq_left deeper]
      omega
  · rintro other ⟨⟨others, rfl⟩, wide⟩
    -- a capacity that has room for one byte more has been doubled more often
    have room := Nat.le_trans (config.cut_mono (Nat.le_max_right depth _)) wide
    have cut := config.cut_le (2 ^ others * config.initial)
    have larger : 2 ^ doublings * config.initial < 2 ^ others * config.initial := by omega
    have more : doublings < others :=
      (Nat.pow_lt_pow_iff_right Nat.one_lt_two).1 (Nat.lt_of_mul_lt_mul_right larger)
    have scaled : 2 * capacity ≤ 2 ^ others * config.initial := by
      rw [uncut, ← two_pow_succ_mul]
      exact Nat.mul_le_mul_right _ (Nat.pow_le_pow_right Nat.two_pos more)
    exact config.cut_mono scaled

/-- The least capacity that is enough is less than twice what asks for it. -/
theorem lt_two_mul (least : config.LeastFor depth capacity) (positive : 0 < config.initial) :
    capacity < 2 * max config.initial depth := by
  obtain ⟨⟨⟨doublings, rfl⟩, -⟩, lower⟩ := least
  induction doublings with
  | zero =>
    have cut := config.cut_le (2 ^ 0 * config.initial)
    omega
  | succ doublings ih =>
    rw [two_pow_succ_mul] at lower ⊢
    have step := config.cut_two_mul_le (2 ^ doublings * config.initial)
    by_cases wide : config.cut depth ≤ config.cut (2 ^ doublings * config.initial)
    · have less := lower ⟨⟨doublings, rfl⟩, wide⟩
      have same : config.cut (2 * (2 ^ doublings * config.initial)) =
          config.cut (2 ^ doublings * config.initial) :=
        Nat.le_antisymm less (config.cut_mono (by omega))
      rw [same] at lower ⊢
      exact ih lower
    · have cut := config.cut_le depth
      omega

end LeastFor

end Config

/-- A read that is not refused growth leaves the capacity, or doubles one that is used up. -/
theorem Window.widened_capacity {window : Window} (formed : window.WellFormed)
    (sizes : window.memory ≤ Size.max) (able : window.Able) :
    window.widened.capacity =
      if window.consumed < window.capacity then window.capacity
      else Told.doubled window.limit window.capacity := by
  by_cases room : window.consumed < window.capacity
  · rw [widened_of_lt room, if_pos room]
  · rw [if_neg room]
    rcases able with roomy | full
    · have growable : window.Growable := roomy.resolve_left room
      have granted := growable.2.2
      rw [widened_of_growable room growable]
      exact growthTarget_eq_doubled (by omega)
    · rw [widened_of_full formed full, full.2, Told.doubled, Option.elim_some]
      omega

namespace Buffer

/-- How long the token would have become in the longest of these reads, had each yielded a byte. -/
def depth (reads : List (Buffer σ)) : Nat := (reads.map (·.window.consumed + 1)).foldl max 0

theorem depth_concat (reads : List (Buffer σ)) (read : Buffer σ) :
    depth (reads ++ [read]) = max (depth reads) (read.window.consumed + 1) := by
  rw [depth, List.map_append, List.foldl_append]
  rfl

/-- The bounds, then and at each read that was attempted, and that the capacity is the least one for
these reads, if none of them was refused growth. -/
structure Scheduled (config : Config) (memory : Nat) (reads : List (Buffer σ))
    (buffer : Buffer σ) : Prop where
  bounded : Bounded config memory buffer
  before : ∀ read ∈ reads, Bounded config memory read
  least : (∀ read ∈ reads, read.window.Able) → config.LeastFor (depth reads) buffer.window.capacity

theorem back_keeps_scheduled (reads : List (Buffer σ)) :
    Keeps (Scheduled config memory reads) (back (σ := σ)) := by
  intro buffer scheduled
  have kept := back_keeps_bounded buffer scheduled.bounded
  rw [back_state] at kept ⊢
  exact { scheduled with bounded := kept }

theorem dump_keeps_scheduled (reads : List (Buffer σ)) :
    Keeps (Scheduled config memory reads) (dump (σ := σ)) := by
  rintro ⟨window, source⟩ scheduled
  have kept := dump_keeps_bounded _ scheduled.bounded
  rw [dump_eq scheduled.bounded.formed.consumed_le] at kept ⊢
  exact { scheduled with bounded := kept }

variable [ByteSource σ] {buffer : Buffer σ}

/-- What a read makes of the capacity does not depend on what it is answered. -/
theorem next_capacity (bounded : Bounded config memory buffer) (sizes : memory ≤ Size.max)
    (able : buffer.window.Able) :
    (next buffer).state.window.capacity =
      if buffer.window.consumed < buffer.window.capacity then buffer.window.capacity
      else config.cut (2 * buffer.window.capacity) := by
  obtain ⟨answer, receives⟩ := next_receives bounded.formed able
  rw [receives.widens.capacity,
    Window.widened_capacity bounded.formed (bounded.memory.symm ▸ sizes) able, bounded.limit]
  rfl

theorem next_scheduled (sizes : memory ≤ Size.max) {reads : List (Buffer σ)}
    (scheduled : Scheduled config memory reads buffer) :
    Scheduled config memory (reads ++ [buffer]) (next buffer).state := by
  have bounded := scheduled.bounded
  have here : ∀ read ∈ [buffer], Bounded config memory read := List.forall_mem_singleton.2 bounded
  refine ⟨next_keeps_bounded buffer bounded,
    List.forall_mem_append.2 ⟨scheduled.before, here⟩, fun able => ?_⟩
  obtain ⟨before, now⟩ := List.forall_mem_append.1 able
  have least := scheduled.least before
  have within := bounded.within
  have able : buffer.window.Able := now buffer List.mem_cons_self
  rw [next_capacity bounded sizes able, depth_concat]
  by_cases room : buffer.window.consumed < buffer.window.capacity
  · rw [if_pos room]
    exact least.keep (Nat.le_trans (config.cut_le _) room)
  · have stored := within.consumed
    have fits := within.available
    have filled : buffer.window.consumed = buffer.window.capacity := by omega
    rw [if_neg room, filled]
    by_cases ceiling : config.limit = some buffer.window.capacity
    · have same : config.cut (2 * buffer.window.capacity) = buffer.window.capacity := by
        rw [Config.cut_of_some ceiling]
        omega
      rw [same]
      exact least.keep (Config.cut_le_limit ceiling _)
    · exact least.double bounded.formed.capacity_pos within.ceiling ceiling

theorem performAll_scheduled {source : σ} {first : Buffer σ} (sizes : memory ≤ Size.max)
    (opened : openWith config memory source = .ok first) (calls : List Call) :
    Scheduled config memory (along Call.attempts calls first) (performAll calls first).state := by
  have bounded := openWith_bounded opened
  have fresh : Scheduled config memory [] first := by
    refine ⟨bounded, nofun, fun _ => ?_⟩
    obtain ⟨rfl, -⟩ := openWith_eq_ok opened
    exact .start bounded.within.ceiling
  have each (call : Call) (reads : List (Buffer σ)) (buffer : Buffer σ)
      (scheduled : Scheduled config memory reads buffer) :
      Scheduled config memory (reads ++ call.attempts buffer) (call.perform buffer).state :=
    perform_attempts (Scheduled config memory) (fun _ _ => next_scheduled sizes)
      back_keeps_scheduled dump_keeps_scheduled call scheduled
  exact along_invariant calls (fun call _ => each call) fresh

/-- A call that attempts no read leaves the capacity. -/
theorem perform_capacity_of_unread (formed : buffer.window.WellFormed) (call : Call)
    (unread : call.attempts buffer = []) :
    (call.perform buffer).state.window.capacity = buffer.window.capacity := by
  let same (after : Buffer σ) : Prop :=
    after.window.WellFormed ∧ after.window.capacity = buffer.window.capacity
  have giving : Keeps same (back (σ := σ)) := by
    rintro after ⟨formed, unchanged⟩
    have kept := back_keeps_wellFormed after formed
    rw [back_state] at kept ⊢
    exact ⟨kept, unchanged⟩
  have discarding : Keeps same (dump (σ := σ)) := by
    rintro ⟨window, source⟩ ⟨formed, unchanged⟩
    rw [dump_eq formed.consumed_le]
    exact ⟨formed.discard, unchanged⟩
  exact (perform_of_unread giving discarding call unread ⟨formed, rfl⟩).2

/-- The capacity keeps to its schedule.

Over any source and after any calls, if no read was refused growth, the capacity is the least of
those that doubling leads to, cut off at the ceiling, that has room for the longest token that a
read asked for, or is the ceiling: the initial one if none was attempted. So it is at most the
ceiling and less than twice what is asked for. It is never less later, and calls that attempt no
read leave it. A read doubles it, up to the ceiling, if the token has used it up, and else leaves it,
whatever source there is. No more memory than there are sizes is granted, so nothing but the ceiling
cuts off. -/
theorem capacity_scheduled {source : σ} {first : Buffer σ} (sizes : memory ≤ Size.max)
    (opened : openWith config memory source = .ok first) (calls : List Call)
    (granted : ∀ read ∈ along Call.attempts calls first, read.window.Able) :
    let reads := along Call.attempts calls first
    let last := (performAll calls first).state
    config.LeastFor (depth reads) last.window.capacity ∧
      (reads = [] → last.window.capacity = config.initial) ∧
      (∀ bound, config.limit = some bound → last.window.capacity ≤ bound) ∧
      last.window.capacity < 2 * max config.initial (depth reads) ∧
      (∀ later, last.window.capacity ≤ (performAll later last).state.window.capacity) ∧
      (∀ call : Call, call.attempts last = [] →
        (call.perform last).state.window.capacity = last.window.capacity) ∧
      ∀ read ∈ reads, ∀ {τ : Type} [ByteSource τ] (other : τ),
        (next ⟨read.window, other⟩).state.window.capacity =
          if read.window.consumed < read.window.capacity then read.window.capacity
          else config.cut (2 * read.window.capacity) := by
  intro reads last
  obtain ⟨bounded, within, leastIf⟩ := performAll_scheduled sizes opened calls
  have least := leastIf granted
  refine ⟨least, ?_, bounded.within.ceiling, least.lt_two_mul bounded.positive, ?_, ?_, ?_⟩
  · intro none
    have start : config.LeastFor 0 config.initial :=
      .start fun bound limit => Nat.le_trans bounded.initial (bounded.within.ceiling bound limit)
    rw [show along Call.attempts calls first = [] from none] at least
    exact IsLeast.unique least start
  · intro later
    have kept := performAll_keeps later (fun call _ => perform_keeps_bounded call) last
      (bounded_self bounded.formed)
    exact kept.initial
  · exact fun call => perform_capacity_of_unread bounded.formed call
  · intro read member τ _ other
    have there : Bounded config memory (⟨read.window, other⟩ : Buffer τ) :=
      { within read member with }
    exact next_capacity there sizes (granted read member)

/-- A fault comes when room was made for a byte, the end when the ceiling has been reached; and then
a token was handed out. -/
theorem capacity_scheduled_clipped :
    let source : Script := ⟨[.ok (.byte 97), .error ⟨"Other", "late"⟩, .ok (.byte 98)]⟩
    let first : Buffer Script := ⟨Window.empty 1 (some 3) (1 <<< 48), source⟩
    let calls : List Call := [.next, .next, .next, .peek, .emit, .peek]
    let reads := along Call.attempts calls first
    let last := (performAll calls first).state
    openWith ⟨1, some 3⟩ (1 <<< 48) source = .ok first ∧ (∀ read ∈ reads, read.window.Able) ∧
      reads.map (·.window.capacity) = [1, 1, 2, 2, 3] ∧ depth reads = 3 ∧
      last.window.capacity = 3 ∧ Config.LeastFor ⟨1, some 3⟩ 3 3 := by
  intro source first calls reads last
  have opened : openWith ⟨1, some 3⟩ (1 <<< 48) source = .ok first := rfl
  have granted : ∀ read ∈ reads, read.window.Able := by decide +kernel
  have deepest : depth reads = 3 := by decide +kernel
  have capacity : last.window.capacity = 3 := by decide +kernel
  have least := (capacity_scheduled (by decide) opened calls granted).1
  simp only [reads, last] at deepest capacity
  rw [deepest, capacity] at least
  exact ⟨opened, granted, by decide +kernel, deepest, capacity, least⟩

end Buffer

end Lexing
