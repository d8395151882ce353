import Lexing.Proofs.Buffer.Alike
import Lexing.Proofs.Buffer.Bounds
import Lexing.Proofs.Buffer.Stream

/-!
# Buffers that differ in capacity

Two buffers at the same place of the same source, under the same ceiling and with the same memory,
may differ in capacity, where they started from different ones. Over a stream of given bytes, as
long as growth is granted, nothing but growth tells them apart: every operation agrees on them and
leaves buffers that differ in capacity at most (`Abreast`).
-/

set_option autoImplicit false

namespace Lexing.Buffer

open Operation (Keeps)
open Result (Agree)

variable {σ : Type} {limit : Option Nat} {memory : Nat}

def SameButCapacity (left right : Buffer σ) : Prop :=
  { left with window := { left.window with capacity := right.window.capacity } } = right

theorem SameButCapacity.refl (buffer : Buffer σ) : SameButCapacity buffer buffer := rfl

theorem SameButCapacity.eq {left right : Buffer σ} (same : SameButCapacity left right)
    (capacity : left.window.capacity = right.window.capacity) : left = right := by
  rw [SameButCapacity, ← capacity] at same
  exact same

variable [ByteSource σ] {bytes : List UInt8}

/-- The buffer works on the bytes, and requests for `memory` bytes or more are refused. -/
def Supplied (bytes : List UInt8) (limit : Option Nat) (memory : Nat) (buffer : Buffer σ) : Prop :=
  (∃ start, Carries bytes limit start buffer) ∧ buffer.window.memory = memory

/-- The same place of the same source, with as much memory, under the same ceiling. -/
structure Abreast (bytes : List UInt8) (limit : Option Nat) (memory : Nat) (left right : Buffer σ) :
    Prop where
  alike : Alike limit limit left right
  left : Supplied bytes limit memory left
  right : Supplied bytes limit memory right

section Standing

variable {left right buffer : Buffer σ}

theorem Abreast.sameButCapacity (abreast : Abreast bytes limit memory left right) :
    SameButCapacity left right := by
  have alike := abreast.alike
  have granted := abreast.left.2.trans abreast.right.2.symm
  have ceiling := alike.leftLimit.trans alike.rightLimit.symm
  obtain ⟨⟨stored, consumed, capacity, limit, memory, start, held⟩, source⟩ := left
  obtain ⟨⟨_, _, _, _, _, _, _⟩, _⟩ := right
  obtain ⟨-, -, -, -, rfl, rfl, rfl, rfl, rfl, -⟩ := alike
  cases ceiling
  cases granted
  rfl

theorem abreast_of_sameButCapacity (same : SameButCapacity left right)
    (suppliedLeft : Supplied bytes limit memory left)
    (suppliedRight : Supplied bytes limit memory right) : Abreast bytes limit memory left right := by
  obtain ⟨start, carries⟩ := suppliedLeft.1
  obtain ⟨other, carries'⟩ := suppliedRight.1
  refine ⟨?_, suppliedLeft, suppliedRight⟩
  exact {
    leftFormed := carries.formed
    rightFormed := carries'.formed
    leftLimit := carries.limit
    rightLimit := carries'.limit
    stored := congrArg (fun buffer => buffer.window.stored) same
    consumed := congrArg (fun buffer => buffer.window.consumed) same
    start := congrArg (fun buffer => buffer.window.start) same
    held := congrArg (fun buffer => buffer.window.held) same
    source := congrArg (fun buffer => buffer.source) same
    unheld := fun differ => absurd rfl differ }

/-- No read on the bytes is refused growth. -/
theorem Supplied.able (fits : bytes.length < Size.max) (supplied : Supplied bytes limit memory buffer) :
    buffer.window.Able := by
  obtain ⟨⟨start, carries⟩, -⟩ := supplied
  by_cases used : buffer.window.consumed = buffer.window.available
  · exact carries.roomy_or_full fits used
  · have stored := carries.formed.consumed_le
    have within := carries.formed.available_le
    exact Or.inl (Or.inl (by omega))

/-- Nothing is untold of reads on the bytes under one ceiling. -/
theorem untold_of_supplied (fits : bytes.length < Size.max) {lefts rights : List (Buffer σ)}
    (suppliedLeft : ∀ read ∈ lefts, Supplied bytes limit memory read)
    (suppliedRight : ∀ read ∈ rights, Supplied bytes limit memory read) :
    Untold limit limit lefts rights :=
  ⟨fun read member => (suppliedLeft read member).able fits,
    fun read member => (suppliedRight read member).able fits, fun differ => absurd rfl differ⟩

end Standing

section Keeping

/-- What keeps the place in the bytes and the configuration keeps a buffer supplied. -/
theorem supplied_of_carries {α : Type} {operation : BufferM σ α}
    (carried : Keeps (fun buffer => ∃ start, Carries bytes limit start buffer) operation)
    (bounded : ∀ config, Keeps (Bounded config memory) operation) :
    Keeps (Supplied bytes limit memory) operation := by
  rintro buffer ⟨carries, rfl⟩
  obtain ⟨start, here⟩ := carries
  exact ⟨carried buffer ⟨start, here⟩, (bounded _ buffer (bounded_self here.formed)).memory⟩

theorem back_supplied : Keeps (Supplied bytes limit memory) (back (σ := σ)) :=
  supplied_of_carries back_carries fun _ => back_keeps_bounded

theorem dump_supplied : Keeps (Supplied bytes limit memory) (dump (σ := σ)) :=
  supplied_of_carries dump_carries fun _ => dump_keeps_bounded

variable (fits : bytes.length < Size.max)

include fits

theorem next_supplied : Keeps (Supplied bytes limit memory) (next (σ := σ)) :=
  supplied_of_carries (next_carries fits) fun _ => next_keeps_bounded

theorem eatAttempts_supplied (accepts : UInt8 → Bool) {buffer : Buffer σ}
    (supplied : Supplied bytes limit memory buffer) :
    ∀ read ∈ eatAttempts accepts buffer, Supplied bytes limit memory read :=
  attempts_of_keeps (next_supplied fits) back_supplied dump_supplied (.eatWhile accepts) supplied

end Keeping

section Operating

variable {α : Type} {left right : Buffer σ}

/-- An operation that agrees on buffers that are alike, and that keeps them supplied, agrees on them
with what supplies them. -/
theorem Abreast.agree {operation : BufferM σ α} (abreast : Abreast bytes limit memory left right)
    (agree : Agree (Alike limit limit) apartFromGrowth (operation left) (operation right))
    (keeps : Keeps (Supplied bytes limit memory) operation) :
    Agree (Abreast bytes limit memory) apartFromGrowth (operation left) (operation right) :=
  ⟨agree.outcome, ⟨agree.state, keeps left abreast.left, keeps right abreast.right⟩, agree.events⟩

variable (abreast : Abreast bytes limit memory left right)

include abreast

theorem back_abreast : Agree (Abreast bytes limit memory) apartFromGrowth (back left) (back right) :=
  abreast.agree (back_alike abreast.alike) back_supplied

theorem skip_abreast : Agree (Abreast bytes limit memory) apartFromGrowth (skip left) (skip right) :=
  abreast.agree (skip_alike abreast.alike) (skip_keeps dump_supplied)

theorem emitText_abreast :
    Agree (Abreast bytes limit memory) apartFromGrowth (emitText left) (emitText right) :=
  abreast.agree (emitText_alike abreast.alike) (emitText_keeps dump_supplied)

variable (fits : bytes.length < Size.max)

include fits

theorem Abreast.untold : Untold limit limit [left] [right] :=
  untold_of_supplied fits (List.forall_mem_singleton.2 abreast.left)
    (List.forall_mem_singleton.2 abreast.right)

theorem next_abreast : Agree (Abreast bytes limit memory) apartFromGrowth (next left) (next right) :=
  abreast.agree (next_alike abreast.alike (abreast.untold fits)) (next_supplied fits)

theorem peek_abreast : Agree (Abreast bytes limit memory) apartFromGrowth (peek left) (peek right) :=
  abreast.agree (peek_alike abreast.alike (abreast.untold fits))
    (peek_keeps (next_supplied fits) back_supplied)

theorem nextIf_abreast (accepts : UInt8 → Bool) :
    Agree (Abreast bytes limit memory) apartFromGrowth (nextIf accepts left)
      (nextIf accepts right) :=
  abreast.agree (nextIf_alike accepts abreast.alike (abreast.untold fits))
    (nextIf_keeps accepts (next_supplied fits) back_supplied)

theorem eatWhile_abreast (accepts : UInt8 → Bool) :
    Agree (Abreast bytes limit memory) apartFromGrowth (eatWhile accepts left)
      (eatWhile accepts right) := by
  have untold : Untold limit limit (eatAttempts accepts left) (eatAttempts accepts right) :=
    untold_of_supplied fits (eatAttempts_supplied fits accepts abreast.left)
      (eatAttempts_supplied fits accepts abreast.right)
  refine abreast.agree (eatFrom_alike accepts abreast.alike untold) ?_
  have taking : Keeps (Supplied bytes limit memory) (nextIf (σ := σ) accepts) :=
    nextIf_keeps accepts (next_supplied fits) back_supplied
  exact fun buffer supplied => eatFrom_keeps taking 0 #[] buffer supplied

end Operating

end Lexing.Buffer
