import Lexing.Proofs.Buffer.Agreement
import Lexing.Proofs.Source.Alike

/-!
# Buffers over sources that answer alike

A buffer asks its source for answers and knows nothing else of it. So the same window over sources
that answer alike stays the same window over such sources, whatever calls are performed, with the
same outcomes and the same events (`perform_coupled`).
-/

set_option autoImplicit false

namespace Lexing

open Result (Agree)

abbrev everyEvent (_ : Event) : Bool := true

theorem Result.Agree.events_eq {ε S T α : Type} {related : S → T → Prop} {left : Result ε S α}
    {right : Result ε T α} (agree : Agree related everyEvent left right) :
    left.events = right.events := by
  have all (events : List Event) : events.filter everyEvent = events :=
    List.filter_eq_self.2 fun _ _ => rfl
  rw [← Array.toList_inj, ← all left.events.toList, agree.events, all]

namespace Buffer

variable {σ τ : Type}

/-- The same window on related sources. -/
structure Coupled (related : σ → τ → Prop) (left : Buffer σ) (right : Buffer τ) : Prop where
  window : left.window = right.window
  source : related left.source right.source

variable {related : σ → τ → Prop} {left : Buffer σ} {right : Buffer τ}

theorem grow_coupled (coupled : Coupled related left right) :
    Agree (Coupled related) everyEvent (grow left) (grow right) := by
  obtain ⟨window, source⟩ := left
  obtain ⟨other, origin⟩ := right
  obtain ⟨rfl, sources⟩ := coupled
  simp only [grow]
  split
  · exact ⟨rfl, ⟨rfl, sources⟩, rfl⟩
  · split
    · exact ⟨rfl, ⟨rfl, sources⟩, rfl⟩
    · exact ⟨rfl, ⟨rfl, sources⟩, rfl⟩

theorem back_coupled (coupled : Coupled related left right) :
    Agree (Coupled related) everyEvent (back left) (back right) := by
  obtain ⟨window, source⟩ := left
  obtain ⟨other, origin⟩ := right
  obtain ⟨rfl, sources⟩ := coupled
  simp only [back]
  split
  · exact ⟨rfl, ⟨rfl, sources⟩, rfl⟩
  · exact ⟨rfl, ⟨rfl, sources⟩, rfl⟩

theorem dump_coupled (coupled : Coupled related left right) :
    Agree (Coupled related) everyEvent (dump left) (dump right) := by
  obtain ⟨window, source⟩ := left
  obtain ⟨other, origin⟩ := right
  obtain ⟨rfl, sources⟩ := coupled
  simp only [dump]
  split
  · exact ⟨rfl, ⟨rfl, sources⟩, rfl⟩
  · split
    · exact ⟨rfl, ⟨rfl, sources⟩, rfl⟩
    · exact ⟨rfl, ⟨rfl, sources⟩, rfl⟩

theorem skip_coupled (coupled : Coupled related left right) :
    Agree (Coupled related) everyEvent (skip left) (skip right) := by
  refine Agree.get_bind ?_
  refine (dump_coupled coupled).bind fun _ left right after => ?_
  rw [coupled.window]
  exact .pure after

theorem reserve_coupled (bytes : Nat) (coupled : Coupled related left right) :
    Agree (Coupled related) everyEvent (reserve bytes left) (reserve bytes right) := by
  refine Agree.get_bind ?_
  rw [coupled.window]
  cases right.window.grants bytes with
  | true => exact .pure coupled
  | false => exact ⟨rfl, coupled, rfl⟩

theorem emit_coupled (coupled : Coupled related left right) :
    Agree (Coupled related) everyEvent (emit left) (emit right) := by
  refine Agree.get_bind ?_
  rw [coupled.window]
  refine (reserve_coupled _ coupled).bind fun _ left right coupled => ?_
  refine (dump_coupled coupled).bind fun _ left right coupled => ?_
  refine Agree.get_bind ?_
  rw [coupled.window]
  exact Agree.bind ⟨rfl, coupled, rfl⟩ fun _ left right coupled => .pure coupled

theorem emitText_coupled (coupled : Coupled related left right) :
    Agree (Coupled related) everyEvent (emitText left) (emitText right) := by
  refine Agree.get_bind ?_
  rw [coupled.window]
  cases Utf8.decode right.window.pending with
  | error malformation => exact ⟨rfl, coupled, rfl⟩
  | ok text => exact (emit_coupled coupled).map.bind fun _ left right coupled => .pure coupled

section Reading

variable [ByteSource σ] [ByteSource τ]

theorem pull_coupled (alike : AnswersAlike related) (coupled : Coupled related left right) :
    Agree (Coupled related) everyEvent (pull left) (pull right) := by
  obtain ⟨window, source⟩ := left
  obtain ⟨other, origin⟩ := right
  obtain ⟨rfl, sources⟩ := coupled
  simp only at sources
  cases held : window.held with
  | some byte =>
    simp only [pull, held]
    exact ⟨rfl, ⟨rfl, sources⟩, rfl⟩
  | none =>
    obtain ⟨same, after⟩ := alike source origin sources
    simp only [pull, held]
    generalize ByteSource.poll source = one at same after ⊢
    generalize ByteSource.poll origin = two at same after ⊢
    obtain ⟨answer, source⟩ := one
    obtain ⟨other, origin⟩ := two
    simp only at same after
    subst same
    cases answer with
    | ok next => exact ⟨rfl, ⟨rfl, after⟩, rfl⟩
    | error fault => exact ⟨rfl, ⟨rfl, after⟩, rfl⟩

theorem read_coupled (alike : AnswersAlike related) (coupled : Coupled related left right) :
    Agree (Coupled related) everyEvent (read left) (read right) := by
  have pulled := pull_coupled alike coupled
  obtain ⟨window, source⟩ := left
  obtain ⟨other, origin⟩ := right
  obtain ⟨rfl, sources⟩ := coupled
  simp only [read]
  cases window.stored[window.consumed]? with
  | some byte => exact ⟨rfl, ⟨rfl, sources⟩, rfl⟩
  | none =>
    generalize pull ⟨window, source⟩ = one at pulled ⊢
    obtain ⟨answer, ⟨window, source⟩, events⟩ := one
    obtain ⟨⟨other, origin⟩, more, same, ⟨rfl, sources⟩, shown⟩ := pulled.right_eq
    rw [same]
    rcases answer with error | byte | _
    · exact ⟨rfl, ⟨rfl, sources⟩, shown⟩
    · exact ⟨rfl, ⟨rfl, sources⟩, shown⟩
    · exact ⟨rfl, ⟨rfl, sources⟩, shown⟩

theorem readAtCeiling_coupled (alike : AnswersAlike related)
    (coupled : Coupled related left right) :
    Agree (Coupled related) everyEvent (readAtCeiling left) (readAtCeiling right) := by
  have pulled := pull_coupled alike coupled
  simp only [readAtCeiling]
  generalize pull left = one at pulled ⊢
  obtain ⟨answer, ⟨window, source⟩, events⟩ := one
  obtain ⟨⟨other, origin⟩, more, same, ⟨rfl, sources⟩, shown⟩ := pulled.right_eq
  rw [same]
  rcases answer with error | byte | _
  · exact ⟨rfl, ⟨rfl, sources⟩, shown⟩
  · refine ⟨rfl, ⟨rfl, sources⟩, ?_⟩
    simp only [Array.push_eq_append]
    exact Agree.append_events shown rfl
  · exact ⟨rfl, ⟨rfl, sources⟩, shown⟩

theorem next_coupled (alike : AnswersAlike related) (coupled : Coupled related left right) :
    Agree (Coupled related) everyEvent (next left) (next right) := by
  simp only [next, coupled.window]
  split
  · exact read_coupled alike coupled
  · split
    · exact readAtCeiling_coupled alike coupled
    · exact (grow_coupled coupled).bind fun _ left right coupled => read_coupled alike coupled

/-- A call does the same to the same window on sources that answer alike. -/
theorem perform_coupled (alike : AnswersAlike related) (call : Call) {left : Buffer σ}
    {right : Buffer τ} (coupled : Coupled related left right) :
    Agree (Coupled related) everyEvent (call.perform left) (call.perform right) :=
  perform_agree (fun _ _ => next_coupled alike) (fun _ _ => back_coupled) (fun _ _ => dump_coupled)
    (fun _ _ => skip_coupled) (fun _ _ => emit_coupled) (fun _ _ => emitText_coupled) call coupled

/-- A client is told the same of both and leaves them coupled. -/
theorem serve_coupled (alike : AnswersAlike related) (client : Client) (count : Nat)
    (coupled : Coupled related left right) :
    (serve client left count).1 = (serve client right count).1 ∧
      Coupled related (serve client left count).2 (serve client right count).2 ∧
      served Call.reports client left count = served Call.reports client right count := by
  induction count with
  | zero => exact ⟨rfl, coupled, rfl⟩
  | succ count ih =>
    obtain ⟨seen, between, events⟩ := ih
    simp only [serve, served, observe_eq] at seen between ⊢
    rw [seen]
    have done := perform_coupled alike (client (serve client right count).1) between
    have reports : Call.reports _ _ = Call.reports _ _ := congrArg Array.toList done.events_eq
    refine ⟨?_, done.state, by rw [events, reports]⟩
    rw [done.outcome, done.state.window]

end Reading

end Buffer

end Lexing
