import Lexing.Machine.Drive
import Lexing.Proofs.Operation

/-!
# Agreement of machines

Two machines with the same states, each on sessions of its own kind, agree when each of their steps
does: then so do their runs, the lexers that drive them and everything that is done with these
(`Machine.runFrom_agree`, `Lexer.useAll_agree`). Runs that come to no end agree as well: neither
yields anything.
-/

set_option autoImplicit false

namespace Lexing

open Result (Agree)

variable {σ τ S C D ε : Type}

/-- Machines whose steps agree on sessions that are related, and that stand at the same offset. -/
structure Machine.Agrees (related : Session σ C → Session τ D → Prop) (shown : Event → Bool)
    (one : Machine σ S C ε) (two : Machine τ S D ε) : Prop where
  offset : ∀ left right, related left right → left.offset = right.offset
  step : ∀ state left right, related left right →
    Agree related shown (one state left) (two state right)

namespace Machine

variable {related : Session σ C → Session τ D → Prop} {shown : Event → Bool}
  {one : Machine σ S C ε} {two : Machine τ S D ε}

theorem runFrom_agree (agrees : Agrees related shown one two) (fuel steps : Nat)
    {log other : Array Event} (logs : log.toList.filter shown = other.toList.filter shown)
    (state : S) {left : Session σ C} {right : Session τ D} (sessions : related left right) :
    Option.Rel (Agree related shown) (one.runFrom fuel steps log state left)
      (two.runFrom fuel steps other state right) := by
  induction fuel generalizing steps log other state left right with
  | zero => exact .none
  | succ fuel ih =>
    have taken := agrees.step state left right sessions
    have offset := agrees.offset left right sessions
    rw [runFrom, runFrom, offset]
    have announced : (log.push (.step (steps + 1) right.offset)).toList.filter shown =
        (other.push (.step (steps + 1) right.offset)).toList.filter shown := by
      rw [Array.push_eq_append, Array.push_eq_append]
      exact Agree.append_events logs rfl
    generalize one state left = result at taken ⊢
    obtain ⟨outcome, after, events⟩ := result
    obtain ⟨behind, more, same, sessions, reported⟩ := taken.right_eq
    have reports := Agree.append_events announced reported
    rw [same]
    rcases outcome with error | next | _
    · exact .some ⟨rfl, sessions, reports⟩
    · exact ih (steps + 1) reports next sessions
    · refine .some ⟨rfl, sessions, ?_⟩
      simp only [Array.push_eq_append, agrees.offset after behind sessions] at reports ⊢
      exact Agree.append_events reports rfl

theorem runFor_agree (agrees : Agrees related shown one two) (fuel : Nat) (initial : S)
    {left : Session σ C} {right : Session τ D} (sessions : related left right) :
    Option.Rel (Agree related shown) (one.runFor fuel initial left)
      (two.runFor fuel initial right) := by
  rw [runFor, runFor, agrees.offset left right sessions]
  exact runFrom_agree agrees fuel 0 rfl initial sessions

end Machine

namespace Lexer

/-- Lexers in the same state after as many steps, in sessions that are related. -/
structure Over (related : Session σ C → Session τ D → Prop) (left : Lexer σ S C)
    (right : Lexer τ S D) : Prop where
  session : related left.session right.session
  state : left.state = right.state
  steps : left.steps = right.steps

variable {related : Session σ C → Session τ D → Prop} {shown : Event → Bool}
  {one : Machine σ S C ε} {two : Machine τ S D ε} {left : Lexer σ S C} {right : Lexer τ S D}

theorem step_agree (agrees : Machine.Agrees related shown one two)
    (lexers : Over related left right) :
    Agree (Over related) shown (step one left) (step two right) := by
  obtain ⟨session, state, steps⟩ := left
  obtain ⟨other, _, _⟩ := right
  obtain ⟨sessions, rfl, rfl⟩ := lexers
  cases state with
  | none => exact ⟨rfl, ⟨sessions, rfl, rfl⟩, rfl⟩
  | some state =>
    have taken := agrees.step state session other sessions
    simp only [step, agrees.offset session other sessions]
    generalize one state session = result at taken ⊢
    obtain ⟨outcome, after, events⟩ := result
    obtain ⟨behind, more, same, sessions, reported⟩ := taken.right_eq
    have announced : #[Event.step (steps + 1) other.offset].toList.filter shown = _ := rfl
    have reports := Agree.append_events announced reported
    rw [same]
    rcases outcome with error | next | _
    · exact ⟨rfl, ⟨sessions, rfl, rfl⟩, reports⟩
    · exact ⟨rfl, ⟨sessions, rfl, rfl⟩, reports⟩
    · refine ⟨rfl, ⟨sessions, rfl, rfl⟩, ?_⟩
      simp only [Array.push_eq_append]
      exact Agree.append_events reports rfl

theorem runFrom_agree (agrees : Machine.Agrees related shown one two) (fuel : Nat)
    {log other : Array Event} (logs : log.toList.filter shown = other.toList.filter shown)
    (lexers : Over related left right) :
    Option.Rel (Agree (Over related) shown) (runFrom one fuel log left)
      (runFrom two fuel other right) := by
  induction fuel generalizing log other left right with
  | zero => exact .none
  | succ fuel ih =>
    have taken := step_agree agrees lexers
    rw [runFrom, runFrom]
    generalize step one left = result at taken ⊢
    obtain ⟨outcome, after, events⟩ := result
    obtain ⟨behind, more, same, lexers, reported⟩ := taken.right_eq
    have reports := Agree.append_events logs reported
    rw [same]
    -- a step that failed, one that halted and one after which the run goes on
    rcases outcome with error | _ | _
    · exact .some ⟨rfl, lexers, reports⟩
    · exact .some ⟨congrArg Except.ok lexers.steps, lexers, reports⟩
    · exact ih reports lexers

section Uses

variable [ByteSource σ] [ByteSource τ]

/-- The same reply, lexers that are related and the same events among those that are shown. -/
structure UsedAlike {α : Type} (related : Session σ C → Session τ D → Prop) (shown : Event → Bool)
    (left : α × Lexer σ S C × Array Event) (right : α × Lexer τ S D × Array Event) : Prop where
  reply : left.1 = right.1
  lexer : Over related left.2.1 right.2.1
  events : left.2.2.toList.filter shown = right.2.2.toList.filter shown

/-- What is done to lexers agrees if single calls on their buffers do, which leave the contexts
alone. -/
theorem use_agree (agrees : Machine.Agrees related shown one two)
    (calling : ∀ (call : Call) (left : Lexer σ S C) (right : Lexer τ S D), Over related left right →
      Agree (Over related) shown (onBuffer call.perform left) (onBuffer call.perform right))
    (fuel : Nat) (use : Use) (lexers : Over related left right) :
    Option.Rel (UsedAlike related shown) (left.use one fuel use) (right.use two fuel use) := by
  cases use with
  | step =>
    have taken := step_agree agrees lexers
    exact .some ⟨congrArg Reply.stepped taken.outcome, taken.state, taken.events⟩
  | run =>
    have ran := runFrom_agree agrees fuel (rfl : #[].toList.filter shown = _) lexers
    simp only [Lexer.use, runFor]
    generalize runFrom one fuel #[] left = first at ran ⊢
    generalize runFrom two fuel #[] right = second at ran ⊢
    cases ran with
    | none => exact .none
    | some ran => exact .some ⟨congrArg Reply.ran ran.outcome, ran.state, ran.events⟩
  | call call =>
    have called := calling call left right lexers
    exact .some ⟨congrArg Reply.called called.outcome, called.state, called.events⟩

theorem useAll_agree (agrees : Machine.Agrees related shown one two)
    (calling : ∀ (call : Call) (left : Lexer σ S C) (right : Lexer τ S D), Over related left right →
      Agree (Over related) shown (onBuffer call.perform left) (onBuffer call.perform right))
    (fuel : Nat) (uses : List Use) (lexers : Over related left right) :
    Option.Rel (UsedAlike related shown) (useAll one fuel uses left)
      (useAll two fuel uses right) := by
  induction uses generalizing left right with
  | nil => exact .some ⟨rfl, lexers, rfl⟩
  | cons use uses ih =>
    have used := use_agree agrees calling fuel use lexers
    rw [useAll, useAll]
    generalize left.use one fuel use = first at used ⊢
    generalize right.use two fuel use = second at used ⊢
    cases used with
    | none => exact .none
    | @some first second used =>
      obtain ⟨reply, left, events⟩ := first
      obtain ⟨same, right, more⟩ := second
      obtain ⟨replies, lexers, reported⟩ := used
      have rest := ih lexers
      simp only at replies lexers reported rest ⊢
      subst replies
      simp only [Option.bind_eq_bind, Option.bind_some]
      generalize useAll one fuel uses left = first at rest ⊢
      generalize useAll two fuel uses right = second at rest ⊢
      cases rest with
      | none => exact .none
      | some rest =>
        exact .some ⟨congrArg _ rest.reply, rest.lexer, Agree.append_events reported rest.events⟩

end Uses

end Lexer

end Lexing
