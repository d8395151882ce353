import Lexing.Source.Basic

/-!
# Bytes in memory

A source over a list of bytes that counts how many it has handed out.

Models `SliceSource` from the module `source` of `lexkit_core`.
-/

set_option autoImplicit false

namespace Lexing

/-- Bytes in memory, read from the front. -/
structure Slice where
  /-- How many bytes were handed out. -/
  position : Nat
  /-- The bytes not yet handed out. -/
  remaining : List UInt8
  deriving DecidableEq, Repr, Inhabited

namespace Slice

def ofList (bytes : List UInt8) : Slice := ⟨0, bytes⟩

/-- A slice at its end stays there and counts nothing. -/
def poll : Slice → Except Fault Next × Slice
  | ⟨position, []⟩ => (.ok .eos, ⟨position, []⟩)
  | ⟨position, byte :: rest⟩ => (.ok (.byte byte), ⟨position + 1, rest⟩)

instance : ByteSource Slice := ⟨poll⟩

end Slice

end Lexing
