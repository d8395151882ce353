import Lexing.Proofs.Buffer.Agreement

/-!
# Buffers that differ in their configuration

Two buffers are alike when they stand at the same place of the same source and differ in capacity,
ceiling and memory only. Of these a read depends on one thing: whether its token is as long as the
ceiling (`Window.full_iff`). So calls on buffers that are alike have the same outcomes, read the
source alike and leave buffers that are alike, as long as no read is refused growth and none comes
upon a byte at the lower of two different ceilings (`perform_alike`).
-/

set_option autoImplicit false

namespace Lexing

open Result (Agree)

variable {σ : Type}

namespace Window

/-- Whether a read is not refused growth: it finds room for a byte, or makes it, or stands at the
ceiling. -/
def Able (window : Window) : Prop := window.Roomy ∨ window.Full

instance (window : Window) : Decidable window.Able := inferInstanceAs (Decidable (_ ∨ _))

theorem full_iff {window : Window} (formed : window.WellFormed) :
    window.Full ↔ window.limit = some window.consumed := by
  constructor
  · exact Full.limit_eq
  · intro limit
    have bound := formed.capacity_le _ limit
    have stored := formed.consumed_le
    have fits := formed.available_le
    have same : window.consumed = window.capacity := by omega
    exact ⟨same, same ▸ limit⟩

/-- Beside a held byte room is found, not made. -/
theorem Roomy.lt_of_held {window : Window} (formed : window.WellFormed) (roomy : window.Roomy)
    {byte : UInt8} (held : window.held = some byte) : window.consumed < window.capacity := by
  refine roomy.resolve_right fun growable => ?_
  have ceiling := (atCeiling_iff formed).2 (formed.held_full (held ▸ rfl))
  rw [growable.1] at ceiling
  cases ceiling

/-- Of two ceilings, the one that a token of some length reaches and goes on below the other is
the lower one. -/
theorem merge_limits {window other : Window} (formed : other.WellFormed)
    (consumed : window.consumed = other.consumed) (limit : window.limit = some window.consumed) :
    window.limit.merge min other.limit = some window.consumed := by
  have stored := formed.consumed_le
  have fits := formed.available_le
  cases present : other.limit with
  | none => rw [Option.merge_none_right, limit]
  | some bound =>
    have within := formed.capacity_le bound present
    rw [limit, Option.merge_some_some, Nat.min_eq_left (by omega)]

end Window

def apartFromGrowth : Event → Bool
  | .grew .. => false
  | _ => true

theorem Window.filter_growth (window : Window) :
    window.growth.toList.filter apartFromGrowth = [] := by
  unfold Window.growth
  split <;> rfl

namespace Buffer

/-- The same place of the same source, under configurations with these ceilings. Under different
ceilings no byte is held: none was refused. -/
structure Alike (first second : Option Nat) (left right : Buffer σ) : Prop where
  leftFormed : left.window.WellFormed
  rightFormed : right.window.WellFormed
  leftLimit : left.window.limit = first
  rightLimit : right.window.limit = second
  stored : left.window.stored = right.window.stored
  consumed : left.window.consumed = right.window.consumed
  start : left.window.start = right.window.start
  held : left.window.held = right.window.held
  source : left.source = right.source
  unheld : first ≠ second → left.window.held = none

section Standing

variable {first second : Option Nat} {left right : Buffer σ}

theorem Alike.used (alike : Alike first second left right)
    (used : left.window.consumed = left.window.available) :
    right.window.consumed = right.window.available := by
  rw [← alike.consumed, used, Window.available, Window.available, alike.stored]

theorem Alike.offset (alike : Alike first second left right) :
    left.window.offset = right.window.offset := by
  rw [Window.offset, Window.offset, alike.start, alike.consumed]

theorem Alike.widened {window other : Window} {source : σ}
    (alike : Alike first second ⟨window, source⟩ ⟨other, source⟩) (leftAble : window.Able)
    (rightAble : other.Able) (after : σ) :
    Alike first second ⟨window.widened, after⟩ ⟨other.widened, after⟩ where
  leftFormed := Window.widened_wellFormed alike.leftFormed leftAble
  rightFormed := Window.widened_wellFormed alike.rightFormed rightAble
  leftLimit := window.widened_limit.trans alike.leftLimit
  rightLimit := other.widened_limit.trans alike.rightLimit
  stored := by simpa using alike.stored
  consumed := by simpa using alike.consumed
  start := by simpa using alike.start
  held := by simpa using alike.held
  source := rfl
  unheld := by simpa using alike.unheld

theorem Alike.pending (alike : Alike first second left right) :
    left.window.pending = right.window.pending := by
  rw [Window.pending, Window.pending, alike.stored, alike.consumed]

theorem Alike.lookahead (alike : Alike first second left right) :
    left.window.lookahead = right.window.lookahead := by
  rw [Window.lookahead, Window.lookahead, alike.stored, alike.consumed]

theorem Alike.discard (alike : Alike first second left right) :
    Alike first second ⟨left.window.discard, left.source⟩ ⟨right.window.discard, right.source⟩ :=
  { alike with
    leftFormed := alike.leftFormed.discard
    rightFormed := alike.rightFormed.discard
    stored := alike.lookahead
    consumed := rfl
    start := alike.offset }

theorem Alike.dumpEvents (alike : Alike first second left right) :
    left.window.dumpEvents = right.window.dumpEvents := by
  have available : left.window.discard.available = right.window.discard.available :=
    congrArg Array.size alike.lookahead
  have start : left.window.discard.start = right.window.discard.start := alike.offset
  rw [Window.dumpEvents, Window.dumpEvents, alike.consumed, available, start]

theorem back_alike (alike : Alike first second left right) :
    Agree (Alike first second) apartFromGrowth (back left) (back right) := by
  have leftFormed := back_keeps_wellFormed left alike.leftFormed
  have rightFormed := back_keeps_wellFormed right alike.rightFormed
  have consumed := alike.consumed
  have start := alike.start
  obtain ⟨window, source⟩ := left
  obtain ⟨other, origin⟩ := right
  simp only at consumed start
  by_cases empty : window.consumed = 0
  · rw [back, back, if_pos empty, if_pos (consumed.symm.trans empty)]
    exact ⟨rfl, alike, by rw [start]⟩
  · have pending : ¬ other.consumed = 0 := fun none => empty (consumed.trans none)
    rw [back, if_neg empty] at leftFormed ⊢
    rw [back, if_neg pending] at rightFormed ⊢
    exact ⟨rfl, { alike with
      leftFormed, rightFormed, consumed := congrArg (· - 1) alike.consumed }, rfl⟩

theorem dump_alike (alike : Alike first second left right) :
    Agree (Alike first second) apartFromGrowth (dump left) (dump right) := by
  rw [dump_eq alike.leftFormed.consumed_le, dump_eq alike.rightFormed.consumed_le,
    alike.dumpEvents]
  exact ⟨rfl, alike.discard, rfl⟩

theorem skip_alike (alike : Alike first second left right) :
    Agree (Alike first second) apartFromGrowth (skip left) (skip right) := by
  rw [skip_eq alike.leftFormed.consumed_le, skip_eq alike.rightFormed.consumed_le,
    alike.dumpEvents]
  exact ⟨congrArg Except.ok alike.consumed, alike.discard, rfl⟩

theorem emit_alike (alike : Alike first second left right) :
    Agree (Alike first second) apartFromGrowth (emit left) (emit right) := by
  rw [emit_eq alike.leftFormed, emit_eq alike.rightFormed, alike.dumpEvents, alike.consumed,
    alike.start]
  exact ⟨congrArg Except.ok alike.pending, alike.discard, rfl⟩

theorem emitText_alike (alike : Alike first second left right) :
    Agree (Alike first second) apartFromGrowth (emitText left) (emitText right) := by
  rw [emitText_eq alike.leftFormed, emitText_eq alike.rightFormed, alike.dumpEvents,
    alike.consumed, alike.start, alike.pending]
  cases Utf8.decode right.window.pending with
  | error malformation => exact ⟨rfl, alike, rfl⟩
  | ok text => exact ⟨rfl, alike.discard, rfl⟩

end Standing

/-- Whether a read comes upon a byte: one of the lookahead, the held one or one of the source. -/
def hasByte [ByteSource σ] (buffer : Buffer σ) : Bool :=
  match (read buffer).outcome with
  | .ok (.byte _) => true
  | _ => false

/-- Whether a read comes upon a byte with so many bytes pending. -/
def Meets [ByteSource σ] (ceiling : Nat) (buffer : Buffer σ) : Prop :=
  buffer.window.consumed = ceiling ∧ buffer.hasByte = true

instance [ByteSource σ] (ceiling : Nat) (buffer : Buffer σ) : Decidable (buffer.Meets ceiling) :=
  inferInstanceAs (Decidable (_ ∧ _))

section Reading

variable [ByteSource σ] {first second : Option Nat} {left right : Buffer σ}

theorem hasByte_of_poll {window : Window} {source after : σ} {byte : UInt8}
    (used : window.consumed = window.available) (unheld : window.held = none)
    (answer : ByteSource.poll source = (.ok (.byte byte), after)) :
    hasByte ⟨window, source⟩ = true := by
  simp only [hasByte, read, pull, Window.stored_getElem?_eq_none used, unheld, answer]

theorem hasByte_of_held {window : Window} {source : σ} {byte : UInt8}
    (used : window.consumed = window.available) (held : window.held = some byte) :
    hasByte ⟨window, source⟩ = true := by
  simp only [hasByte, read, pull, Window.stored_getElem?_eq_none used, held]

/-- Reads under two ceilings that nothing tells apart: none is refused growth, and where the
ceilings differ none of the first comes upon a byte at the lower one. -/
structure Untold (first second : Option Nat) (lefts rights : List (Buffer σ)) : Prop where
  leftAble : ∀ read ∈ lefts, read.window.Able
  rightAble : ∀ read ∈ rights, read.window.Able
  apart : first ≠ second → ∀ ceiling, first.merge min second = some ceiling →
    ∀ read ∈ lefts, ¬ read.Meets ceiling

theorem Untold.append {lefts rights moreLeft moreRight : List (Buffer σ)}
    (untold : Untold first second (lefts ++ moreLeft) (rights ++ moreRight)) :
    Untold first second lefts rights ∧ Untold first second moreLeft moreRight := by
  obtain ⟨leftAble, rightAble, apart⟩ := untold
  simp only [List.forall_mem_append] at leftAble rightAble apart
  exact ⟨⟨leftAble.1, rightAble.1, fun differ ceiling lower => (apart differ ceiling lower).1⟩,
    ⟨leftAble.2, rightAble.2, fun differ ceiling lower => (apart differ ceiling lower).2⟩⟩

theorem Untold.cons {lefts rights : List (Buffer σ)}
    (untold : Untold first second (left :: lefts) (right :: rights)) :
    Untold first second [left] [right] ∧ Untold first second lefts rights :=
  Untold.append (show Untold first second ([left] ++ lefts) ([right] ++ rights) from untold)

/-- Where a read comes upon a byte, both buffers are full at their ceilings or neither is. -/
theorem Alike.full_iff (alike : Alike first second left right)
    (untold : Untold first second [left] [right]) (byte : left.hasByte = true) :
    left.window.Full ↔ right.window.Full := by
  have apart := untold.apart
  rw [Window.full_iff alike.leftFormed, Window.full_iff alike.rightFormed, alike.consumed]
  by_cases same : first = second
  · rw [alike.leftLimit, alike.rightLimit, same]
  · constructor
    · intro limit
      have lower := Window.merge_limits alike.rightFormed alike.consumed (alike.consumed ▸ limit)
      rw [alike.leftLimit, alike.rightLimit] at lower
      exact absurd ⟨rfl, byte⟩ (apart same _ lower left (List.mem_singleton_self left))
    · intro limit
      have lower := Window.merge_limits alike.leftFormed alike.consumed.symm limit
      rw [alike.leftLimit, alike.rightLimit, (Option.commutative_merge min).comm] at lower
      exact absurd ⟨alike.consumed, byte⟩ (apart same _ lower left (List.mem_singleton_self left))

/-- Reads of buffers that are alike do the same, growth apart. -/
theorem next_alike (alike : Alike first second left right)
    (untold : Untold first second [left] [right]) :
    Agree (Alike first second) apartFromGrowth (next left) (next right) := by
  have leftFormed := next_keeps_wellFormed left alike.leftFormed
  have rightFormed := next_keeps_wellFormed right alike.rightFormed
  have step := next_readsTo alike.leftFormed
  have able : right.window.Able := untold.rightAble right (List.mem_singleton_self right)
  have full := alike.full_iff untold
  obtain ⟨other, origin⟩ := right
  have rest : left.source = origin := alike.source
  subst rest
  generalize next left = result at leftFormed step ⊢
  cases step with
  | @replayed window source byte ahead =>
    have behind : other.stored[other.consumed]? = some byte := by
      rw [← alike.stored, ← alike.consumed]
      exact ahead
    rw [(ReadsTo.replayed behind).next_eq alike.rightFormed] at rightFormed ⊢
    exact ⟨rfl, { alike with
      leftFormed, rightFormed, consumed := congrArg (· + 1) alike.consumed }, rfl⟩
  | cramped used tight below refusal =>
    exact absurd (untold.leftAble _ (List.mem_singleton_self _)) (fun able => able.elim tight below)
  | @released window source byte used room held =>
    have tight : ¬ other.Full := fun filled =>
      Nat.ne_of_lt room (((full (hasByte_of_held used held)).2 filled).1)
    have roomy : other.Roomy := able.resolve_right tight
    have behind : other.held = some byte := alike.held.symm.trans held
    have step : ReadsTo ⟨other, source⟩ _ :=
      .released (alike.used used) (roomy.lt_of_held alike.rightFormed behind) behind
    rw [step.next_eq alike.rightFormed] at rightFormed ⊢
    exact ⟨rfl, { alike with
      leftFormed
      rightFormed
      stored := congrArg (·.push byte) alike.stored
      consumed := congrArg (· + 1) alike.consumed
      held := rfl
      unheld := fun _ => rfl }, rfl⟩
  | @refusedAgain window source byte used filled held =>
    have filled' : other.Full := (full (hasByte_of_held used held)).1 filled
    have step : ReadsTo ⟨other, source⟩ _ :=
      .refusedAgain (alike.used used) filled' (alike.held.symm.trans held)
    have capacity : window.capacity = other.capacity :=
      filled.1.symm.trans (alike.consumed.trans filled'.1)
    have offset : window.offset = other.offset := alike.offset
    rw [step.next_eq alike.rightFormed]
    exact ⟨by rw [capacity], alike, by rw [capacity, offset]⟩
  | @stored window source after byte used roomy unheld answer =>
    have tight : ¬ other.Full := fun filled =>
      Window.limit_ne_of_roomy alike.leftFormed roomy
        ((full (hasByte_of_poll used unheld answer)).2 filled).limit_eq
    have step : ReadsTo ⟨other, source⟩ _ :=
      .stored (alike.used used) (able.resolve_right tight) (alike.held.symm.trans unheld) answer
    rw [step.next_eq alike.rightFormed] at rightFormed ⊢
    have widened := alike.widened (Or.inl roomy) able after
    exact ⟨rfl, { widened with
      leftFormed
      rightFormed
      stored := congrArg (·.push byte) widened.stored
      consumed := congrArg (· + 1) widened.consumed },
      by rw [Window.filter_growth, Window.filter_growth]⟩
  | @refused window source after byte used filled unheld answer =>
    have filled' : other.Full := (full (hasByte_of_poll used unheld answer)).1 filled
    have step : ReadsTo ⟨other, source⟩ _ :=
      .refused (alike.used used) filled' (alike.held.symm.trans unheld) answer
    have capacity : window.capacity = other.capacity :=
      filled.1.symm.trans (alike.consumed.trans filled'.1)
    have offset : window.offset = other.offset := alike.offset
    have same : first = second := by
      rw [← alike.leftLimit, ← alike.rightLimit, filled.limit_eq, filled'.limit_eq, alike.consumed]
    rw [step.next_eq alike.rightFormed] at rightFormed ⊢
    exact ⟨by rw [capacity], { alike with
      leftFormed
      rightFormed
      held := rfl
      source := rfl
      unheld := fun differ => absurd same differ }, by rw [capacity, offset]⟩
  | @ended window source after used able' unheld answer =>
    have step : ReadsTo ⟨other, source⟩ _ :=
      .ended (alike.used used) able (alike.held.symm.trans unheld) answer
    rw [step.next_eq alike.rightFormed]
    exact ⟨rfl, alike.widened able' able after,
      by rw [Window.filter_growth, Window.filter_growth]⟩
  | @failed window source after fault used able' unheld answer =>
    have step : ReadsTo ⟨other, source⟩ _ :=
      .failed (alike.used used) able (alike.held.symm.trans unheld) answer
    rw [step.next_eq alike.rightFormed]
    exact ⟨rfl, alike.widened able' able after,
      by rw [Window.filter_growth, Window.filter_growth]⟩

theorem peek_alike (alike : Alike first second left right)
    (untold : Untold first second [left] [right]) :
    Agree (Alike first second) apartFromGrowth (peek left) (peek right) :=
  peek_agree (next_alike alike untold) fun _ _ => back_alike

theorem nextIf_alike (accepts : UInt8 → Bool) (alike : Alike first second left right)
    (untold : Untold first second [left] [right]) :
    Agree (Alike first second) apartFromGrowth (nextIf accepts left) (nextIf accepts right) :=
  nextIf_agree accepts (next_alike alike untold) fun _ _ => back_alike

/-- Reading on is as alike as each of its reads. -/
theorem eatFrom_alike (accepts : UInt8 → Bool) (alike : Alike first second left right)
    (untold : Untold first second (eatAttempts accepts left) (eatAttempts accepts right)) :
    Agree (Alike first second) apartFromGrowth (eatFrom accepts 0 #[] left)
      (eatFrom accepts 0 #[] right) := by
  have taking (left right : Buffer σ) (holds : Alike first second left right ∧
      Untold first second (eatAttempts accepts left) (eatAttempts accepts right)) :
      Agree (Alike first second) apartFromGrowth (nextIf accepts left) (nextIf accepts right) := by
    obtain ⟨alike, untold⟩ := holds
    rw [eatAttempts_eq, eatAttempts_eq accepts right] at untold
    exact nextIf_alike accepts alike untold.cons.1
  refine eatFrom_agree accepts taking ?_ 0 rfl ⟨alike, untold⟩
  rintro left right byte after events ⟨alike, untold⟩ result
  rw [eatAttempts_eq, eatAttempts_eq accepts right] at untold
  obtain ⟨one, others⟩ := untold.cons
  have taken := nextIf_alike accepts alike one
  rw [result] at taken others
  obtain ⟨state, more, same, alike, -⟩ := taken.right_eq
  rw [same] at others ⊢
  exact ⟨alike, others⟩

/-- Copies of a call are as alike as each of them. -/
theorem times_alike {call : Call}
    (each : ∀ left right : Buffer σ, Alike first second left right →
      Untold first second (call.attempts left) (call.attempts right) →
      Agree (Alike first second) apartFromGrowth (call.perform left) (call.perform right))
    (count : Nat) (alike : Alike first second left right)
    (untold : Untold first second (along Call.attempts (.replicate count call) left)
      (along Call.attempts (.replicate count call) right)) :
    Agree (Alike first second) apartFromGrowth
      (Operation.times (call.perform (σ := σ)) count left)
      (Operation.times (call.perform (σ := σ)) count right) := by
  induction count generalizing left right with
  | zero => exact .pure alike
  | succ count ih =>
    rw [List.replicate_succ, along_cons, along_cons] at untold
    obtain ⟨one, others⟩ := untold.append
    have done := each left right alike one
    refine done.attempt.bind_at fun outcome => ?_
    exact (ih done.state others).bind fun outcomes left right alike => .pure alike

/-- A call does the same to buffers that are alike, growth apart, if nothing tells its reads
apart. -/
theorem perform_alike (call : Call) (alike : Alike first second left right)
    (untold : Untold first second (call.attempts left) (call.attempts right)) :
    Agree (Alike first second) apartFromGrowth (call.perform left) (call.perform right) := by
  induction call generalizing left right with
  | next => exact (next_alike alike untold).map
  | peek => exact (peek_alike alike untold).map
  | back => exact (back_alike alike).bind fun _ left right alike => .pure alike
  | dump => exact (dump_alike alike).bind fun _ left right alike => .pure alike
  | skip => exact (skip_alike alike).map
  | emit => exact (emit_alike alike).map
  | emitText => exact (emitText_alike alike).map
  | nextIf accepts => exact (nextIf_alike accepts alike untold).map
  | eatWhile accepts => exact Agree.map (eatFrom_alike accepts alike untold)
  | times count call ih =>
    rw [attempts_times, attempts_times] at untold
    exact (times_alike (fun _ _ => ih) count alike untold).map

end Reading

end Buffer

end Lexing
