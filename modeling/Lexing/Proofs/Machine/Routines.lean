import Lexing.Machine.Basic
import Lexing.Proofs.Operation

/-!
# Machines under other names

A machine whose states are the states of another one under other names, and whose steps are the
steps of that one, runs like it: the same fuel suffices, and everything that comes of a run is the
same (`Machine.runFor_rename`).
-/

set_option autoImplicit false

namespace Lexing

variable {σ S T C ε : Type}

def Transition.map (name : S → T) : Transition S → Transition T
  | .proceed next => .proceed (name next)
  | .halt => .halt

namespace Machine

/-- Each state of the first machine is a state of the second one under another name. -/
def Renames (name : S → T) (one : Machine σ S C ε) (two : Machine σ T C ε) : Prop :=
  ∀ state, two (name state) = Transition.map name <$> one state

variable {name : S → T} {one : Machine σ S C ε} {two : Machine σ T C ε}

theorem runFrom_rename (renames : Renames name one two) (fuel steps : Nat) (log : Array Event)
    (state : S) (session : Session σ C) :
    two.runFrom fuel steps log (name state) session = one.runFrom fuel steps log state session := by
  induction fuel generalizing steps log state session with
  | zero => rfl
  | succ fuel ih =>
    rw [runFrom, runFrom, renames state, Operation.map_apply]
    rcases one state session with ⟨error | next | _, after, events⟩
    · rfl
    · exact ih _ _ next after
    · rfl

theorem runFor_rename (renames : Renames name one two) (fuel : Nat) (initial : S)
    (session : Session σ C) :
    two.runFor fuel (name initial) session = one.runFor fuel initial session :=
  runFrom_rename renames fuel 0 _ initial session

end Machine

end Lexing
