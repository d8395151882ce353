import Lexing.ByteClass
import Lexing.Machine.Routine
import Lexing.Text.Hex

/-!
# The tokens of expressions

Names, numbers and punctuation with white space between them. The same grammar is written twice:
as a machine whose states are data, and as routines that name each other.

Models the grammar that `lexkit` is tested with: `classify`, `start`, `lex_ident`, `lex_number`,
`lex_punct` and `push`, the states `Lex`, and the routines `fn_start`, `fn_ident`, `fn_number` and
`fn_punct`.
-/

set_option autoImplicit false

namespace Lexing.Expression

open Session (onBuffer modifyContext)

inductive Kind where
  | ident
  | number
  | punct
  deriving DecidableEq, Repr

structure Token where
  kind : Kind
  text : String
  start : UInt64
  deriving DecidableEq, Repr

inductive Error where
  | lex (error : LexError)
  /-- No token begins with this byte. -/
  | unexpected (byte : UInt8) (offset : UInt64)
  deriving DecidableEq, Repr

instance : FromLexError Error := ⟨.lex⟩

def Error.message : Error → String
  | lex error => error.message
  | unexpected byte offset => s!"unexpected byte 0x{Hex.ofByte byte} at offset {offset}"

def isWord (byte : UInt8) : Bool := ByteClass.isAlnum byte || byte == '_'.toUInt8

/-- The punctuation of one byte. -/
def punctuation : List UInt8 :=
  ['+', '-', '*', '/', '=', '(', ')', ';', '.'].map Char.toUInt8

def classify (byte : UInt8) : Option Kind :=
  if ByteClass.isAlpha byte || byte == '_'.toUInt8 then some .ident
  else if ByteClass.isDigit byte then some .number
  else if punctuation.contains byte then some .punct
  else none

def deliver {σ : Type} (kind : Kind) : SessionM σ (Array Token) Error Unit := do
  let start := (← get).buffer.window.start
  let text ← onBuffer Buffer.emitText
  modifyContext (·.push ⟨kind, text, start⟩)

section Scanning

variable {σ : Type} [ByteSource σ]

/-- Skips white space and says which kind of token comes next, if one does. -/
def scanStart : SessionM σ (Array Token) Error (Option Kind) := do
  let _ ← onBuffer (Buffer.eatWhile ByteClass.isSpace)
  let _ ← onBuffer Buffer.skip
  match ← onBuffer Buffer.peek with
  | .eos => return none
  | .byte byte =>
    match classify byte with
    | some kind => return some kind
    | none => throw (.unexpected byte (← get).offset)

def scanIdent : BufferM σ Unit := do
  let _ ← Buffer.eatWhile isWord

/-- Reads digits, and a point with the digits after it. A point without digits after it is given
back. -/
def scanNumber : BufferM σ Unit := do
  let _ ← Buffer.eatWhile ByteClass.isDigit
  if (← Buffer.nextIf (· == '.'.toUInt8)).isSome then
    if (← Buffer.eatWhile ByteClass.isDigit) = 0 then
      Buffer.back

/-- Reads one byte, and another if both are equals signs. -/
def scanPunct : BufferM σ Unit := do
  if (← Buffer.next) = .byte '='.toUInt8 then
    let _ ← Buffer.nextIf (· == '='.toUInt8)

def scan : Kind → BufferM σ Unit
  | .ident => scanIdent
  | .number => scanNumber
  | .punct => scanPunct

inductive State where
  | start
  | token (kind : Kind)
  deriving DecidableEq, Repr

/-- The grammar as a machine whose states are data. -/
def machine : Machine σ State (Array Token) Error
  | .start => do return .ofOption ((← scanStart).map .token)
  | .token kind => do
    onBuffer (scan kind)
    deliver kind
    return .proceed .start

inductive Routine where
  | start
  | ident
  | number
  | punct
  deriving DecidableEq, Repr

def Routine.ofKind : Kind → Routine
  | .ident => .ident
  | .number => .number
  | .punct => .punct

/-- The grammar as routines that name each other. -/
def routine : Routine → SessionM σ (Array Token) Error (Option Routine)
  | .start => do return (← scanStart).map Routine.ofKind
  | .ident => do
    onBuffer scanIdent
    deliver .ident
    return some .start
  | .number => do
    onBuffer scanNumber
    deliver .number
    return some .start
  | .punct => do
    onBuffer scanPunct
    deliver .punct
    return some .start

def routineMachine : Machine σ Routine (Array Token) Error := .ofRoutines routine

end Scanning

end Lexing.Expression
