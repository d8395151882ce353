import Lexing.Config
import Lexing.Source.Basic
import Lexing.Text.Utf8

/-!
# Failures of buffer operations

Each failure has a wording, the wordings of what caused it, and a raw code. The codes are distinct
and below the code of the end of the stream, so that one integer tells the outcome of a read.

Models `LexError` and `LexErrorKind` from the module `error` of `lexkit_core`.
-/

set_option autoImplicit false

namespace Lexing

inductive LexError where
  /-- Storage of this size could not be obtained. -/
  | allocationFailure (requested : Nat)
  /-- A byte that was only to be looked at could not be given back. -/
  | peekBackup
  /-- There was no pending byte to give back. -/
  | backupUnderflow
  /-- The pending token is longer than what is stored. -/
  | moveFailure (consumed available : Nat)
  /-- The pending token is not text. -/
  | copyFailure (length : Nat) (malformation : Utf8.Malformation)
  /-- The source reported a fault. -/
  | source (fault : Fault)
  /-- The construction parameters were rejected. -/
  | config (error : ConfigError)
  deriving DecidableEq, Repr

/-- A failure without its details. -/
inductive LexErrorKind where
  | allocationFailure
  | peekBackup
  | backupUnderflow
  | moveFailure
  | copyFailure
  | source
  | config
  deriving DecidableEq, Repr

namespace LexErrorKind

/-- Every kind, by descending code. -/
def all : List LexErrorKind :=
  [allocationFailure, peekBackup, backupUnderflow, moveFailure, copyFailure, source, config]

def code : LexErrorKind → Int
  | allocationFailure => -2
  | peekBackup => -3
  | backupUnderflow => -4
  | moveFailure => -5
  | copyFailure => -6
  | source => -7
  | config => -8

theorem mem_all (kind : LexErrorKind) : kind ∈ all := by
  cases kind <;> simp [all]

theorem code_lt_eosCode (kind : LexErrorKind) : kind.code < Next.eosCode := by
  cases kind <;> decide

end LexErrorKind

namespace LexError

def kind : LexError → LexErrorKind
  | allocationFailure _ => .allocationFailure
  | peekBackup => .peekBackup
  | backupUnderflow => .backupUnderflow
  | moveFailure _ _ => .moveFailure
  | copyFailure _ _ => .copyFailure
  | source _ => .source
  | config _ => .config

def code (error : LexError) : Int := error.kind.code

/-- The wording of a failure. A rejected configuration speaks for itself. -/
def message : LexError → String
  | allocationFailure requested => s!"lex buffer allocation of {requested} bytes failed"
  | peekBackup => "peek could not back up the byte it read"
  | backupUnderflow => "cannot back up: nothing consumed since the last emit or dump"
  | moveFailure consumed available =>
    s!"cannot dump: consumed ({consumed}) exceeds available ({available})"
  | copyFailure length _ => s!"pending token of {length} bytes is not valid UTF-8"
  | source _ => "byte source read failed"
  | config error => error.message

/-- The wordings of what caused a failure, the nearest cause first. -/
def causes : LexError → List String
  | copyFailure _ malformation => [malformation.message]
  | source fault => [fault.message]
  | _ => []

end LexError

end Lexing
