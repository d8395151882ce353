import Lexing.Machine.Reach
import Lexing.Proofs.Operation

/-!
# What calls keep, machines keep

A property that the steps of a machine keep is kept by its runs and by the lexers that drive it.
The steps of a grammar keep every property of the buffer that calls keep. So what calls keep is
kept however a buffer is used (`Buffer.Used.keeps`).
-/

set_option autoImplicit false

namespace Lexing

open Operation (Keeps)

variable {σ S C ε α : Type}

namespace Machine

variable {machine : Machine σ S C ε} {property : Session σ C → Prop}

theorem runFrom_keeps (each : ∀ state, Keeps property (machine state)) {fuel steps : Nat}
    {log : Array Event} {state : S} {session : Session σ C} {result : Result ε (Session σ C) Nat}
    (ran : machine.runFrom fuel steps log state session = some result) (holds : property session) :
    property result.state := by
  induction fuel generalizing steps log state session with
  | zero => cases ran
  | succ fuel ih =>
    have taken := each state session holds
    rw [runFrom] at ran
    generalize machine state session = step at taken ran
    obtain ⟨error | next | _, between, events⟩ := step
    · cases ran
      exact taken
    · exact ih ran taken
    · cases ran
      exact taken

end Machine

namespace Lexer

variable {machine : Machine σ S C ε} {property : Session σ C → Prop}

theorem step_keeps (each : ∀ state, Keeps property (machine state)) :
    Keeps (fun lexer => property lexer.session) (step machine) := by
  rintro ⟨session, state, steps⟩ holds
  cases state with
  | none => exact holds
  | some state =>
    have taken := each state session holds
    simp only [step]
    generalize machine state session = result at taken ⊢
    obtain ⟨error | next | _, between, events⟩ := result
    · exact taken
    · exact taken
    · exact taken

theorem runFrom_keeps (each : ∀ state, Keeps property (machine state)) {fuel : Nat}
    {log : Array Event} {lexer : Lexer σ S C} {result : Result ε (Lexer σ S C) Nat}
    (ran : runFrom machine fuel log lexer = some result) (holds : property lexer.session) :
    property result.state.session := by
  induction fuel generalizing log lexer with
  | zero => cases ran
  | succ fuel ih =>
    have taken := step_keeps each lexer holds
    rw [runFrom] at ran
    generalize step machine lexer = result at taken ran
    obtain ⟨error | _ | _, between, events⟩ := result
    · cases ran
      exact taken
    · cases ran
      exact taken
    · exact ih ran taken

variable [ByteSource σ]

/-- What steps and calls keep, every use of a lexer keeps. -/
theorem useAll_keeps (each : ∀ state, Keeps property (machine state))
    (calling : ∀ call : Call,
      Keeps (fun lexer : Lexer σ S C => property lexer.session) (onBuffer call.perform))
    {fuel : Nat} {uses : List Use} {lexer after : Lexer σ S C} {replies : List (Reply ε)}
    {events : Array Event} (used : useAll machine fuel uses lexer = some (replies, after, events))
    (holds : property lexer.session) : property after.session := by
  induction uses generalizing lexer replies events with
  | nil =>
    cases used
    exact holds
  | cons use uses ih =>
    rw [useAll] at used
    obtain ⟨⟨reply, between, first⟩, one, used⟩ := Option.bind_eq_some_iff.1 used
    obtain ⟨⟨rest, last, more⟩, others, used⟩ := Option.bind_eq_some_iff.1 used
    cases used
    refine ih others ?_
    cases use with
    | step =>
      cases one
      exact step_keeps each lexer holds
    | run =>
      obtain ⟨result, ran, same⟩ := Option.map_eq_some_iff.1 one
      cases same
      exact runFrom_keeps each ran holds
    | call call =>
      cases one
      exact calling call lexer holds

end Lexer

variable [ByteSource σ] {property : Buffer σ → Prop}

/-- A program reaches the buffer through calls only. -/
theorem Program.perform_keeps (calling : ∀ call : Call, Keeps property (call.perform (σ := σ)))
    (program : Program C ε α) :
    Keeps (fun session : Session σ C => property session.buffer) program.perform := by
  intro session holds
  induction program generalizing session with
  | done outcome => exact holds
  | look rest ih => exact ih _ _ session holds
  | store context rest ih => exact ih _ holds
  | call made rest ih =>
    obtain ⟨buffer, context⟩ := session
    have performed := calling made buffer holds
    simp only [perform]
    generalize made.perform buffer = result at performed ⊢
    obtain ⟨outcome, after, events⟩ := result
    exact ih outcome ⟨after, context⟩ performed

/-- What every call keeps holds of a buffer in use if it held of the first one. -/
theorem Buffer.Used.keeps (calling : ∀ call : Call, Keeps property (call.perform (σ := σ)))
    {first buffer : Buffer σ} (used : Used first buffer) (holds : property first) :
    property buffer := by
  induction used with
  | unused => exact holds
  | called call _ ih => exact calling call _ ih
  | performed program _ ih => exact program.perform_keeps calling _ ih
  | ran grammar ran _ ih =>
    exact Machine.runFrom_keeps (fun state => (grammar state).perform_keeps calling) ran ih
  | lexed grammar used _ ih =>
    refine Lexer.useAll_keeps (fun state => (grammar state).perform_keeps calling) ?_ used ih
    exact fun call lexer holds => calling call _ holds

end Lexing
