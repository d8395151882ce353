import Lexing.Source.Reader
import Lexing.Source.Script

/-!
# The answers of a block reader

Read byte by byte, a block reader gives a list of answers that can be told in advance from what it
will do, whatever the size of the blocks.
-/

set_option autoImplicit false

namespace Lexing

/-- The answers that an event gives: its bytes one by one, the end where there are none, and a
fault unless the read is only to be tried again. -/
def Delivery.answers : Delivery → List (Except Fault Next)
  | .data [] => [.ok .eos]
  | .data (byte :: rest) => (byte :: rest).map fun byte => .ok (.byte byte)
  | .finish => [.ok .eos]
  | .fault cause => if cause.isTransient then [] else [.error cause]

def Delivery.bearsByte : Delivery → Bool
  | .data (_ :: _) => true
  | _ => false

/-- Whether an event only has the read tried again. -/
def Delivery.interrupts : Delivery → Bool
  | .fault cause => cause.isTransient
  | _ => false

/-- The events flattened to answers, where so many bytes are asked for at a time. Where none are,
no read gets past the first event that bears a byte. -/
def Delivery.flattened (size : Nat) (events : List Delivery) : List (Except Fault Next) :=
  (if size = 0 then events.takeWhile (!·.bearsByte) else events).flatMap answers

/-- The answers that a reader gives when it is read byte by byte. -/
def Reader.toScript (reader : Reader) : Script :=
  ⟨reader.unread.map (fun byte => .ok (.byte byte)) ++ reader.events.flatMap Delivery.answers⟩

/-- How many reads in a row will be interrupted. -/
def Reader.interruptions (reader : Reader) : Nat :=
  match reader.unread with
  | [] => (reader.events.takeWhile Delivery.interrupts).length
  | _ :: _ => 0

end Lexing
