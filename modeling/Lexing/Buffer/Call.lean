import Lexing.Buffer.Eat
import Lexing.Buffer.Token

/-!
# Buffer operations as data

A call names a buffer operation and a value is what a successful one yields, so that programs over
a buffer can be listed, stored in tables and repeated.
-/

set_option autoImplicit false

namespace Lexing

inductive Call where
  | next
  | peek
  | back
  | dump
  | skip
  | emit
  | emitText
  | nextIf (accepts : UInt8 → Bool)
  | eatWhile (accepts : UInt8 → Bool)
  /-- The same call so many times, whatever the outcomes. -/
  | times (count : Nat) (call : Call)

/-- What a successful buffer operation yields. -/
inductive Value where
  | done
  | next (next : Next)
  | length (bytes : Nat)
  | token (bytes : Array UInt8)
  | text (text : String)
  | taken (byte? : Option UInt8)
  | count (bytes : Nat)
  | outcomes (outcomes : List (Except LexError Value))

namespace Call

variable {σ : Type} [ByteSource σ]

def perform : Call → BufferM σ Value
  | .next => .next <$> Buffer.next
  | .peek => .next <$> Buffer.peek
  | .back => do Buffer.back; return .done
  | .dump => do Buffer.dump; return .done
  | .skip => .length <$> Buffer.skip
  | .emit => .token <$> Buffer.emit
  | .emitText => .text <$> Buffer.emitText
  | .nextIf accepts => .taken <$> Buffer.nextIf accepts
  | .eatWhile accepts => .count <$> Buffer.eatWhile accepts
  | .times count call => .outcomes <$> Operation.times call.perform count

end Call

end Lexing
