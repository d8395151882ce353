/-!
# Buffer configuration

How much storage a buffer starts with and where its growth stops.

Models `LexConfig`, `ConfigError` and `DEFAULT_CAPACITY` from the module `config` of `lexkit_core`.
-/

set_option autoImplicit false

namespace Lexing

structure Config where
  /-- Capacity allocated up front. -/
  initial : Nat
  /-- Ceiling for growth, if there is one. -/
  limit : Option Nat
  deriving DecidableEq, Repr

inductive ConfigError where
  | zeroCapacity
  | capacityExceedsLimit (capacity limit : Nat)
  deriving DecidableEq, Repr

namespace Config

/-- Initial capacity where none is asked for: one cache line. -/
def defaultCapacity : Nat := 64

def standard : Config := ⟨defaultCapacity, none⟩

/-- A buffer needs room for a byte, and its ceiling must leave room for the initial capacity. A
zero capacity is reported before a ceiling that is too low. -/
def validate (config : Config) : Except ConfigError Unit :=
  if config.initial = 0 then .error .zeroCapacity
  else match config.limit with
    | some limit =>
      if limit < config.initial then .error (.capacityExceedsLimit config.initial limit)
      else .ok ()
    | none => .ok ()

end Config

def ConfigError.message : ConfigError → String
  | .zeroCapacity => "initial capacity must be non-zero"
  | .capacityExceedsLimit capacity limit =>
    s!"initial capacity {capacity} exceeds maximum capacity {limit}"

end Lexing
