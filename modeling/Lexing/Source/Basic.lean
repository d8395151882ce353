import Lexing.Next

/-!
# Byte sources

A source hands out one byte per poll. A poll may also report the end of the stream or a fault of
the device behind it. Sources are values: a poll returns the source as it is afterwards, whatever
its answer was.

Models `ByteSource` from the module `source` of `lexkit_core`. Of a fault only the kind and the text
are kept.
-/

set_option autoImplicit false

namespace Lexing

/-- A failed read of the device behind a source. The set of kinds is open. -/
structure Fault where
  kind : String
  message : String
  deriving DecidableEq, Repr, Inhabited

/-- The kind of a read that was interrupted before it could deliver anything. -/
def Fault.interruptedKind : String := "Interrupted"

/-- Whether the same read may simply be tried again. -/
def Fault.isTransient (fault : Fault) : Bool :=
  fault.kind == interruptedKind

/-- A provider of bytes, polled for one at a time. -/
class ByteSource (σ : Type) where
  /-- The next byte, the end of the stream or a fault, and the source afterwards. -/
  poll : σ → Except Fault Next × σ

end Lexing
