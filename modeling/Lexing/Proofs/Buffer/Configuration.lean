import Lexing.Proofs.Buffer.Alike
import Lexing.Source.Metered
import Lexing.Source.Script

/-!
# What the configuration shows

A client that sees outcomes and positions, but not the capacity, cannot tell configurations apart
that have the same ceiling, nor others before it comes to the lower of two ceilings with a byte to
be had (`configuration_unobservable`). This is of buffers that are alike when they are opened, and
of calls that leave them so.
-/

set_option autoImplicit false

namespace Lexing.Buffer

open Result (Agree)

variable {σ : Type}

/-- Buffers opened over the same source are alike. -/
theorem alike_of_openWith {source : σ} {first second : Config} {memory other : Nat}
    {left right : Buffer σ} (openedLeft : openWith first memory source = .ok left)
    (openedRight : openWith second other source = .ok right) :
    Alike first.limit second.limit left right := by
  obtain ⟨rfl, leftFormed⟩ := openWith_eq_ok openedLeft
  obtain ⟨rfl, rightFormed⟩ := openWith_eq_ok openedRight
  exact {
    leftFormed
    rightFormed
    leftLimit := rfl
    rightLimit := rfl
    stored := rfl
    consumed := rfl
    start := rfl
    held := rfl
    source := rfl
    unheld := fun _ => rfl }

section Serving

variable [ByteSource σ] {first second : Option Nat} {left right : Buffer σ}

/-- What a client does to buffers that are alike is alike, if nothing tells its reads apart. -/
theorem serve_alike (client : Client) (count : Nat) (alike : Alike first second left right)
    (untold : Untold first second (served Call.attempts client left count)
      (served Call.attempts client right count)) :
    (serve client left count).1 = (serve client right count).1 ∧
      Alike first second (serve client left count).2 (serve client right count).2 ∧
      (served Call.reports client left count).filter apartFromGrowth =
        (served Call.reports client right count).filter apartFromGrowth := by
  induction count with
  | zero => exact ⟨rfl, alike, rfl⟩
  | succ count ih =>
    obtain ⟨before, now⟩ := untold.append
    obtain ⟨seen, between, events⟩ := ih before
    simp only [serve, served, observe_eq] at now ⊢
    rw [seen] at now ⊢
    generalize (serve client right count).1 = observations at now ⊢
    have done := perform_alike _ between now
    have pending := done.state.pending
    have available : Window.available _ = Window.available _ :=
      congrArg Array.size done.state.stored
    refine ⟨?_, done.state, ?_⟩
    · rw [done.outcome, pending, available, done.state.start]
    · rw [List.filter_append, List.filter_append, events]
      exact congrArg _ done.events

end Serving

/-- Whatever a source answers and whatever a client does that is told all but the capacity: under
two configurations it sees the same, and the buffers come to stand at the same place of the same
source, with the same count of polls and the same bytes delivered. They differ in what the
configuration sets, the capacity and the events of growth. This holds for good where the ceilings
are the same, and else up to the first read that comes upon a byte with as many bytes pending as the
lower ceiling. Of growth it is assumed that no read is refused it. -/
theorem configuration_unobservable [ByteSource σ] {source : Metered σ} {first second : Config}
    {memory other : Nat} {left right : Buffer (Metered σ)}
    (openedLeft : openWith first memory source = .ok left)
    (openedRight : openWith second other source = .ok right) (client : Client) (count : Nat)
    (leftAble : ∀ read ∈ served Call.attempts client left count, read.window.Able)
    (rightAble : ∀ read ∈ served Call.attempts client right count, read.window.Able)
    (apart : first.limit = second.limit ∨
      ∀ ceiling, first.limit.merge min second.limit = some ceiling →
        ∀ read ∈ served Call.attempts client left count, ¬ read.Meets ceiling) :
    let one := serve client left count
    let two := serve client right count
    one.1 = two.1 ∧
      one.2.window = { two.2.window with
        capacity := one.2.window.capacity
        limit := one.2.window.limit
        memory := one.2.window.memory } ∧
      one.2.source = two.2.source ∧
      (served Call.reports client left count).filter apartFromGrowth =
        (served Call.reports client right count).filter apartFromGrowth := by
  have untold : Untold first.limit second.limit (served Call.attempts client left count)
      (served Call.attempts client right count) :=
    ⟨leftAble, rightAble, fun differ => apart.resolve_left differ⟩
  obtain ⟨seen, alike, events⟩ :=
    serve_alike client count (alike_of_openWith openedLeft openedRight) untold
  refine ⟨seen, ?_, alike.source, events⟩
  have stored := alike.stored
  have consumed := alike.consumed
  have start := alike.start
  have held := alike.held
  simp only [← stored, ← consumed, ← start, ← held]

/-- Two bytes with a fault between them, and a third. -/
def interrupted : Metered Script :=
  .ofSource ⟨[.ok (.byte 97), .error ⟨"Other", "late"⟩, .ok (.byte 98), .ok (.byte 99)]⟩

/-- Reads up to a ceiling of two, hands out what is there and looks further. -/
def cautious : Client := fun seen => [.next, .next, .next, .emit, .peek].getD seen.length .skip

theorem configuration_unobservable_cautious :
    openWith ⟨1, none⟩ 9 interrupted = .ok ⟨Window.empty 1 none 9, interrupted⟩ ∧
      openWith ⟨2, some 2⟩ 3 interrupted = .ok ⟨Window.empty 2 (some 2) 3, interrupted⟩ ∧
      (serve cautious ⟨Window.empty 1 none 9, interrupted⟩ 6).1 =
        (serve cautious ⟨Window.empty 2 (some 2) 3, interrupted⟩ 6).1 := by
  have opened : openWith ⟨1, none⟩ 9 interrupted = .ok ⟨Window.empty 1 none 9, interrupted⟩ := rfl
  have limited : openWith ⟨2, some 2⟩ 3 interrupted =
      .ok ⟨Window.empty 2 (some 2) 3, interrupted⟩ := rfl
  have clear : ∀ ceiling, (none : Option Nat).merge min (some 2) = some ceiling →
      ∀ read ∈ served Call.attempts cautious ⟨Window.empty 1 none 9, interrupted⟩ 6,
        ¬ read.Meets ceiling := by
    intro ceiling lower
    cases lower
    decide
  exact ⟨opened, limited, (configuration_unobservable opened limited cautious 6 (by decide)
    (by decide) (Or.inr clear)).1⟩

end Lexing.Buffer
