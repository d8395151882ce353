/-!
# Classes of bytes

The classes are those of ASCII: no byte above 127 is a letter, a digit or a space.
-/

set_option autoImplicit false

namespace Lexing

/-- A set of bytes that can be written down. -/
inductive ByteClass where
  | any
  | none
  | alpha
  | digit
  | alnum
  | space
  | oneOf (bytes : List UInt8)
  /-- From a least to a greatest number, both included. The bounds need not be bytes themselves:
  a range beyond 255 holds no byte. -/
  | range (low high : Int)
  | complement (bytes : ByteClass)
  deriving DecidableEq, Repr

namespace ByteClass

def isAlpha (byte : UInt8) : Bool :=
  (0x41 ≤ byte && byte ≤ 0x5A) || (0x61 ≤ byte && byte ≤ 0x7A)

def isDigit (byte : UInt8) : Bool := 0x30 ≤ byte && byte ≤ 0x39

def isAlnum (byte : UInt8) : Bool := isAlpha byte || isDigit byte

/-- Whether a byte is a space, a tab, a line feed, a form feed or a carriage return. A vertical
tab is not a space. -/
def isSpace (byte : UInt8) : Bool :=
  byte == 0x20 || byte == 0x09 || byte == 0x0A || byte == 0x0C || byte == 0x0D

def accepts : ByteClass → UInt8 → Bool
  | any, _ => true
  | none, _ => false
  | alpha, byte => isAlpha byte
  | digit, byte => isDigit byte
  | alnum, byte => isAlnum byte
  | space, byte => isSpace byte
  | oneOf bytes, byte => bytes.contains byte
  | range low high, byte => decide (low ≤ byte.toNat ∧ byte.toNat ≤ high)
  | complement bytes, byte => !bytes.accepts byte

end ByteClass

end Lexing
