import Lexing.Source.Basic

/-!
# Metered sources

Any source, forwarded unchanged, with a record of how often it was polled and what it delivered.

Models the `ByteSource` that a borrowed source is, from the module `source` of `lexkit_core`. The
record is what an observer of its calls could write down.
-/

set_option autoImplicit false

namespace Lexing

/-- A source and its record. -/
structure Metered (σ : Type) where
  source : σ
  polls : Nat
  /-- The bytes delivered so far. -/
  delivered : Array UInt8
  deriving DecidableEq, Repr

namespace Metered

variable {σ : Type}

def ofSource (source : σ) : Metered σ := ⟨source, 0, #[]⟩

/-- Every poll is forwarded and counts, whatever its answer. -/
def poll [ByteSource σ] : Metered σ → Except Fault Next × Metered σ
  | ⟨source, polls, delivered⟩ =>
    match ByteSource.poll source with
    | (.ok (.byte byte), source) => (.ok (.byte byte), ⟨source, polls + 1, delivered.push byte⟩)
    | (.ok .eos, source) => (.ok .eos, ⟨source, polls + 1, delivered⟩)
    | (.error fault, source) => (.error fault, ⟨source, polls + 1, delivered⟩)

instance [ByteSource σ] : ByteSource (Metered σ) := ⟨poll⟩

end Metered

end Lexing
