import Lexing.Grammar.Expression

/-!
# The segments of an expression

Bytes fall into white space and tokens, each as long as it can be, up to their end or to a byte at
which no token begins. `Lexeme` says which bytes are a token of a kind, and `lexemeLength` how many
of the leading bytes the longest one takes.
-/

set_option autoImplicit false

namespace Lexing.Expression

inductive Lexeme : Kind → List UInt8 → Prop where
  | ident {first : UInt8} {rest : List UInt8} :
    ByteClass.isAlpha first || first == '_'.toUInt8 → rest.all isWord →
      Lexeme .ident (first :: rest)
  | integer {digits : List UInt8} :
    digits ≠ [] → digits.all ByteClass.isDigit → Lexeme .number digits
  | decimal {digits fraction : List UInt8} :
    digits ≠ [] → digits.all ByteClass.isDigit → fraction ≠ [] →
      fraction.all ByteClass.isDigit → Lexeme .number (digits ++ '.'.toUInt8 :: fraction)
  | punct {byte : UInt8} : byte ∈ punctuation → Lexeme .punct [byte]
  | equality : Lexeme .punct ['='.toUInt8, '='.toUInt8]

def digitCount (bytes : List UInt8) : Nat := (bytes.takeWhile ByteClass.isDigit).length

/-- The digits after a point that follows the leading digits, if one does. -/
def fraction? (bytes : List UInt8) : Option Nat :=
  match bytes.drop (digitCount bytes) with
  | [] => none
  | byte :: rest => if byte == '.'.toUInt8 then some (digitCount rest) else none

def isEquality (bytes : List UInt8) : Bool := bytes.take 2 == ['='.toUInt8, '='.toUInt8]

/-- Length of the longest token of a kind that the bytes begin with. A point is part of a number
only together with digits after it. -/
def lexemeLength (kind : Kind) (bytes : List UInt8) : Nat :=
  match kind with
  | .ident => (bytes.takeWhile isWord).length
  | .number =>
    match fraction? bytes with
    | none | some 0 => digitCount bytes
    | some (digits + 1) => digitCount bytes + 1 + (digits + 1)
  | .punct => if isEquality bytes then 2 else 1

/-- How many bytes are pending when the last read of a token of a kind is made, if the bytes begin
with one. A number reads on through a point to find its digits, and an equals sign looks for
another. -/
def reach (kind : Kind) (bytes : List UInt8) : Nat :=
  match kind with
  | .ident => lexemeLength .ident bytes
  | .number =>
    match fraction? bytes with
    | none => digitCount bytes
    | some digits => digitCount bytes + 1 + digits
  | .punct => if bytes.head? = some '='.toUInt8 then 1 else 0

/-- A stretch of white space or a token. -/
structure Segment where
  start : Nat
  /-- The kind of a token; white space has none. -/
  kind : Option Kind
  bytes : List UInt8
  /-- How many bytes are pending when the last read of the segment is made. -/
  reach : Nat
  deriving DecidableEq, Repr

structure Segments where
  segments : List Segment
  /-- The byte at which no token begins and its offset, unless the bytes come to their end. -/
  stop : Option (UInt8 × Nat)
  deriving DecidableEq, Repr

def Segment.token? (segment : Segment) : Option Token :=
  segment.kind.map fun kind =>
    ⟨kind, String.ofList (segment.bytes.map fun byte => Char.ofNat byte.toNat),
      segment.start.toUInt64⟩

def Segments.tokens (segments : Segments) : List Token :=
  segments.segments.filterMap Segment.token?

/-- A token has at least one byte. -/
theorem lexemeLength_pos {kind : Kind} {byte : UInt8} (rest : List UInt8)
    (h : classify byte = some kind) : 0 < lexemeLength kind (byte :: rest) := by
  simp only [classify] at h
  split at h
  next first =>
    cases h
    have word : isWord byte = true := by
      simp only [isWord, ByteClass.isAlnum, Bool.or_eq_true] at first ⊢
      rcases first with letter | underscore
      · exact Or.inl (Or.inl letter)
      · exact Or.inr underscore
    simp [lexemeLength, word]
  next =>
    split at h
    next digit =>
      cases h
      have one : 0 < digitCount (byte :: rest) := by simp [digitCount, digit]
      simp only [lexemeLength]
      split <;> omega
    next =>
      split at h <;> cases h
      simp only [lexemeLength]
      split <;> omega

/-- The segments of bytes that start at an offset. -/
def segmentsFrom (offset : Nat) (bytes : List UInt8) : Segments :=
  let space := bytes.takeWhile ByteClass.isSpace
  let start := offset + space.length
  let gap : Segment := ⟨offset, none, space, space.length⟩
  match _ : bytes.dropWhile ByteClass.isSpace with
  | [] => ⟨[gap], none⟩
  | byte :: rest =>
    match _ : classify byte with
    | none => ⟨[gap], some (byte, start)⟩
    | some kind =>
      let length := lexemeLength kind (byte :: rest)
      let token : Segment :=
        ⟨start, some kind, (byte :: rest).take length, reach kind (byte :: rest)⟩
      let after := segmentsFrom (start + length) ((byte :: rest).drop length)
      ⟨gap :: token :: after.segments, after.stop⟩
termination_by bytes.length
decreasing_by
  have shorter := (List.dropWhile_suffix (l := bytes) ByteClass.isSpace).length_le
  have some_byte := lexemeLength_pos rest ‹classify byte = some kind›
  simp_all only [List.length_drop, List.length_cons]
  omega

def segments (bytes : List UInt8) : Segments := segmentsFrom 0 bytes

end Lexing.Expression
