/-!
# Hexadecimal text

Bytes written as two lower-case hexadecimal digits each.
-/

set_option autoImplicit false

namespace Lexing.Hex

/-- Two digits, also for small bytes. -/
def ofByte (byte : UInt8) : String :=
  String.ofList [Nat.digitChar (byte.toNat / 16), Nat.digitChar (byte.toNat % 16)]

def ofBytes (bytes : List UInt8) : String :=
  bytes.foldl (fun text byte => text ++ ofByte byte) ""

end Lexing.Hex
