/-!
# UTF-8 text

Bytes that are well-formed UTF-8 are a text. For bytes that are not, `Malformation` says where
they stop being one: the length of the longest well-formed part they begin with, and the length of
the sequence after it that no further byte can complete.
-/

set_option autoImplicit false

namespace Lexing.Utf8

/-- Where and how bytes fail to be UTF-8. -/
structure Malformation where
  /-- Length of the well-formed part before the first bad sequence. -/
  validUpTo : Nat
  /-- Length of the bad sequence, or `none` when the bytes end inside one that is good so far. -/
  errorLength : Option Nat
  deriving DecidableEq, Repr, Inhabited

/-- What must follow inside a character: so many continuation bytes, the first of them within
bounds that exclude overlong forms, surrogates and code points past the last one. -/
structure Continuation where
  count : Nat
  low : UInt8
  high : UInt8
  deriving DecidableEq, Repr

/-- What must follow a byte that begins a character, if it can begin one. -/
def continuation? (lead : UInt8) : Option Continuation :=
  if lead ≤ 0x7F then some ⟨0, 0x80, 0xBF⟩
  else if lead < 0xC2 then none
  else if lead ≤ 0xDF then some ⟨1, 0x80, 0xBF⟩
  else if lead = 0xE0 then some ⟨2, 0xA0, 0xBF⟩
  else if lead = 0xED then some ⟨2, 0x80, 0x9F⟩
  else if lead ≤ 0xEF then some ⟨2, 0x80, 0xBF⟩
  else if lead = 0xF0 then some ⟨3, 0x90, 0xBF⟩
  else if lead ≤ 0xF3 then some ⟨3, 0x80, 0xBF⟩
  else if lead = 0xF4 then some ⟨3, 0x80, 0x8F⟩
  else none

/-- How many of the leading bytes continue a character as they should. -/
def continued : Continuation → List UInt8 → Nat
  | _, [] => 0
  | ⟨count, low, high⟩, byte :: rest =>
    if 0 < count ∧ low ≤ byte ∧ byte ≤ high then 1 + continued ⟨count - 1, 0x80, 0xBF⟩ rest
    else 0

/-- Length of the sequence that the bytes begin with and that begins no character, or `none` when
more bytes could still make it one. -/
def badLength : List UInt8 → Option Nat
  | [] => none
  | lead :: rest =>
    match continuation? lead with
    | none => some 1
    | some continuation =>
      let good := continued continuation rest
      if good = rest.length then none else some (1 + good)

/-- The end of the longest run of whole characters that starts at `start`. -/
def wellFormedEnd (bytes : ByteArray) (start : Nat) : Nat :=
  if h : (bytes.utf8DecodeChar? start).isSome then
    wellFormedEnd bytes (start + ((bytes.utf8DecodeChar? start).get h).utf8Size)
  else start
termination_by bytes.size - start
decreasing_by
  have := ByteArray.lt_size_of_isSome_utf8DecodeChar? h
  have := ((bytes.utf8DecodeChar? start).get h).utf8Size_pos
  omega

def malformation (bytes : Array UInt8) : Malformation :=
  let validUpTo := wellFormedEnd ⟨bytes⟩ 0
  ⟨validUpTo, badLength (bytes.toList.drop validUpTo)⟩

def decode (bytes : Array UInt8) : Except Malformation String :=
  match String.fromUTF8? ⟨bytes⟩ with
  | some text => .ok text
  | none => .error (malformation bytes)

def Malformation.message (malformation : Malformation) : String :=
  match malformation.errorLength with
  | some length =>
    s!"invalid utf-8 sequence of {length} bytes from index {malformation.validUpTo}"
  | none => s!"incomplete utf-8 byte sequence from index {malformation.validUpTo}"

end Lexing.Utf8
