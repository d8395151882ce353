import Lexing.Source.Basic

/-!
# Scripted sources

A source whose answers are listed in advance: bytes, ends and faults in any order. It need not
stay at an end it has reported, so it can show what a buffer makes of sources that misbehave.
-/

set_option autoImplicit false

namespace Lexing

/-- Answers to the polls to come. Past the last one the stream has ended. -/
structure Script where
  answers : List (Except Fault Next)

namespace Script

def poll : Script → Except Fault Next × Script
  | ⟨[]⟩ => (.ok .eos, ⟨[]⟩)
  | ⟨answer :: rest⟩ => (answer, ⟨rest⟩)

instance : ByteSource Script := ⟨poll⟩

def isFault : Except Fault Next → Bool
  | .ok _ => false
  | .error _ => true

def withoutFaults (script : Script) : Script :=
  ⟨script.answers.filter fun answer => !isFault answer⟩

end Script

end Lexing
