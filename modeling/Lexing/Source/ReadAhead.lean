import Lexing.Source.Reader

/-!
# Reading ahead

A source over a block reader. It reads a block when it has no byte left and hands the bytes out
one by one. Interrupted reads are tried again.

Models `ReadSource` from the module `source` of `lexkit_core`: `new`, `with_capacity` and
`next_byte`. The buffered reader inside it is not part of `lexkit_core`: it is taken to read a block
of its size, and only when it has no byte left.
-/

set_option autoImplicit false

namespace Lexing

/-- A block reader and the bytes of its last block that were not handed out. -/
structure ReadAhead where
  reader : Reader
  ahead : List UInt8
  /-- How many bytes to ask for at a time. -/
  size : Nat
  deriving DecidableEq, Repr

namespace ReadAhead

def defaultSize : Nat := 8192

/-- Nothing read ahead. Bytes that another source over the same reader had read ahead stay lost. -/
def ofReader (size : Nat) (reader : Reader) : ReadAhead := ⟨reader, [], size⟩

/-- Reads a block only when none is left. An empty block is the end for this poll alone: the next
one asks the reader again. -/
def poll : ReadAhead → Except Fault Next × ReadAhead
  | ⟨reader, byte :: rest, size⟩ => (.ok (.byte byte), ⟨reader, rest, size⟩)
  | ⟨reader, [], size⟩ =>
    match reader.readThrough size with
    | (.ok (byte :: rest), reader) => (.ok (.byte byte), ⟨reader, rest, size⟩)
    | (.ok [], reader) => (.ok .eos, ⟨reader, [], size⟩)
    | (.error fault, reader) => (.error fault, ⟨reader, [], size⟩)

instance : ByteSource ReadAhead := ⟨poll⟩

end ReadAhead

end Lexing
