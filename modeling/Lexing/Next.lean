/-!
# What a read yields

A read that does not fail yields a byte or the end of the stream. Both have a raw code, for
callers that compare integers: a byte is its value and the end is `-1`.

Models `Next` and `EOS` from the module `error` of `lexkit_core`.
-/

set_option autoImplicit false

namespace Lexing

inductive Next where
  | byte (value : UInt8)
  | eos
  deriving DecidableEq, Repr, Inhabited

namespace Next

def eosCode : Int := -1

def byte? : Next → Option UInt8
  | .byte value => some value
  | .eos => none

def isEos : Next → Bool
  | .byte _ => false
  | .eos => true

/-- The raw code: a byte from 0 to 255, or `eosCode`. -/
def code : Next → Int
  | .byte value => value.toNat
  | .eos => eosCode

def ofByte? : Option UInt8 → Next
  | some value => .byte value
  | none => .eos

@[simp] theorem byte?_ofByte? (value? : Option UInt8) : (ofByte? value?).byte? = value? := by
  cases value? <;> rfl

@[simp] theorem ofByte?_byte? (next : Next) : ofByte? next.byte? = next := by
  cases next <;> rfl

end Next

end Lexing
