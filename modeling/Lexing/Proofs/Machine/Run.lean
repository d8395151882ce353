import Lexing.Machine.Lexer
import Lexing.Proofs.Operation

/-!
# Sessions and runs

What is known of a buffer operation is known of it in a session, where the context stays as it is.
A run goes on after a step that proceeds and ends with a step that halts or fails.
-/

set_option autoImplicit false

namespace Lexing

open Operation (Leads Ensures)

variable {σ S C ε α : Type}

namespace Session

def Has (buffers : Buffer σ → Prop) (context : C) (session : Session σ C) : Prop :=
  buffers session.buffer ∧ session.context = context

variable {before after : Buffer σ → Prop} {context : C}

theorem onBuffer_leads [FromLexError ε] {operation : BufferM σ α} {outcome : Except LexError α}
    (leads : Leads before operation outcome after) :
    Leads (Has before context) (onBuffer operation : SessionM σ C ε α)
      (outcome.mapError FromLexError.ofLexError) (Has after context) := by
  rintro ⟨buffer, found⟩ ⟨held, same⟩
  obtain ⟨yields, left⟩ := leads buffer held
  unfold onBuffer
  simp only
  generalize operation buffer = result at yields left ⊢
  obtain ⟨yielded, state, events⟩ := result
  simp only at yields left
  subst yields
  cases yielded with
  | error error => exact ⟨rfl, left, same⟩
  | ok value => exact ⟨rfl, left, same⟩

theorem onBuffer_ensures [FromLexError ε] {operation : BufferM σ α}
    {between : α → Buffer σ → Prop} {stopping : LexError → Buffer σ → Prop}
    {failing : ε → Session σ C → Prop} (ensures : Ensures before operation between stopping)
    (fails : ∀ cause session, Has (stopping cause) context session →
      failing (FromLexError.ofLexError cause) session) :
    Ensures (Has before context) (onBuffer operation : SessionM σ C ε α)
      (fun value => Has (between value) context) failing := by
  rintro ⟨buffer, found⟩ ⟨held, same⟩
  have taken := ensures buffer held
  unfold onBuffer
  simp only
  generalize operation buffer = result at taken ⊢
  obtain ⟨cause | value, left, events⟩ := result
  · exact fails cause ⟨left, found⟩ ⟨taken, same⟩
  · exact ⟨taken, same⟩

theorem modifyContext_leads (change : C → C) :
    Leads (Has before context) (modifyContext change : SessionM σ C ε Unit) (.ok ())
      (Has before (change context)) :=
  fun _ held => ⟨rfl, held.1, congrArg change held.2⟩

end Session

namespace Machine

variable {machine : Machine σ S C ε} {fuel steps : Nat} {log : Array Event} {state : S}
  {session : Session σ C}

theorem runFrom_of_proceed {next : S}
    (proceeds : (machine state session).outcome = .ok (.proceed next)) :
    machine.runFrom (fuel + 1) steps log state session =
      machine.runFrom fuel (steps + 1)
        (log.push (.step (steps + 1) session.offset) ++ (machine state session).events) next
        (machine state session).state := by
  rw [runFrom]
  generalize machine state session = result at proceeds ⊢
  obtain ⟨_, left, events⟩ := result
  simp only at proceeds
  subst proceeds
  rfl

theorem runFrom_of_halt (halts : (machine state session).outcome = .ok .halt) :
    ∃ events, machine.runFrom (fuel + 1) steps log state session =
      some ⟨.ok (steps + 1), (machine state session).state, events⟩ := by
  rw [runFrom]
  generalize machine state session = result at halts ⊢
  obtain ⟨_, left, events⟩ := result
  simp only at halts
  subst halts
  exact ⟨_, rfl⟩

theorem runFrom_of_error {error : ε} (fails : (machine state session).outcome = .error error) :
    ∃ events, machine.runFrom (fuel + 1) steps log state session =
      some ⟨.error error, (machine state session).state, events⟩ := by
  rw [runFrom]
  generalize machine state session = result at fails ⊢
  obtain ⟨_, left, events⟩ := result
  simp only at fails
  subst fails
  exact ⟨_, rfl⟩

end Machine

end Lexing
