import Lexing.Source.ReadAhead

/-!
# Reading ahead of one reader again and again

The reader can be taken back from a source that reads ahead of it, and another source can be set up
over it. What the first one had read ahead is lost then. A poll and such a change of sources are uses
of the reader, and a list of them tells what becomes of its bytes.

Models `into_inner` and `with_capacity` of `ReadSource`, from the module `source` of `lexkit_core`,
between calls of `next_byte`.
-/

set_option autoImplicit false

namespace Lexing.ReadAhead

inductive Use where
  | poll
  /-- Its reader is taken back, and from there on so many bytes are asked for at a time. -/
  | rewrap (size : Nat)
  deriving DecidableEq, Repr

inductive Effect where
  | answered (answer : Except Fault Next)
  /-- These bytes had been read ahead and are lost. -/
  | dropped (bytes : List UInt8)

def use : Use → ReadAhead → Effect × ReadAhead
  | .poll, source =>
    let (answer, source) := source.poll
    (.answered answer, source)
  | .rewrap size, source => (.dropped source.ahead, ofReader size source.reader)

def useAll : List Use → ReadAhead → List Effect × ReadAhead
  | [], source => ([], source)
  | first :: others, source =>
    let (effect, source) := source.use first
    let (effects, source) := useAll others source
    (effect :: effects, source)

/-- How many bytes are asked for at a time from a use on, if it changes that. -/
def Use.size? : Use → Option Nat
  | .poll => none
  | .rewrap size => some size

/-- The bytes that are lost, where the source is changed. -/
def Effect.dropped? : Effect → Option (List UInt8)
  | .answered _ => none
  | .dropped bytes => some bytes

/-- The bytes that are handed out: one at most. -/
def Effect.handedOut : Effect → List UInt8
  | .answered (.ok next) => next.byte?.toList
  | .answered (.error _) => []
  | .dropped _ => []

/-- The bytes that leave the source, whether they are handed out or lost. -/
def Effect.bytes (effect : Effect) : List UInt8 :=
  effect.handedOut ++ effect.dropped?.getD []

end Lexing.ReadAhead
