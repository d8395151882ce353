import Lexing.Buffer.Call

/-!
# Buffers as offsets

What a buffer over bytes in memory does can be told without storage, growth or a held byte: three
offsets into the bytes are enough. The operations here are those of buffers on that much smaller
state, under the same names.
-/

set_option autoImplicit false

namespace Lexing

/-- Where a reader of given bytes stands. -/
structure Offsets where
  /-- Where the pending token starts. -/
  start : Nat
  /-- Length of the pending token. -/
  consumed : Nat
  /-- How many bytes were fetched, be it for a read that gave them back or was refused. -/
  fetched : Nat
  deriving DecidableEq, Repr

namespace Offsets

def zero : Offsets := ⟨0, 0, 0⟩

def pending (bytes : List UInt8) (offsets : Offsets) : List UInt8 :=
  (bytes.drop offsets.start).take offsets.consumed

section Reading

variable (bytes : List UInt8) (limit : Option Nat)

/-- Reads the byte after the pending token. A token as long as the limit takes no further byte. -/
def next : Operation LexError Offsets Next := fun ⟨start, consumed, fetched⟩ =>
  let fetched := max fetched (min bytes.length (start + consumed + 1))
  match bytes[start + consumed]? with
  | none => ⟨.ok .eos, ⟨start, consumed, fetched⟩, #[]⟩
  | some byte =>
    if limit = some consumed then
      ⟨.error (.allocationFailure (Size.double consumed)), ⟨start, consumed, fetched⟩, #[]⟩
    else ⟨.ok (.byte byte), ⟨start, consumed + 1, fetched⟩, #[]⟩

def back : Operation LexError Offsets Unit := fun ⟨start, consumed, fetched⟩ =>
  if consumed = 0 then ⟨.error .backupUnderflow, ⟨start, consumed, fetched⟩, #[]⟩
  else ⟨.ok (), ⟨start, consumed - 1, fetched⟩, #[]⟩

/-- Fetches the next byte without taking it. -/
def peek : Operation LexError Offsets Next := fun offsets =>
  match next bytes limit offsets with
  | ⟨outcome, after, events⟩ => ⟨outcome, { after with consumed := offsets.consumed }, events⟩

def nextIf (accepts : UInt8 → Bool) : Operation LexError Offsets (Option UInt8) := fun offsets =>
  match next bytes limit offsets with
  | ⟨.ok (.byte byte), after, events⟩ =>
    if accepts byte then ⟨.ok (some byte), after, events⟩
    else ⟨.ok none, { after with consumed := offsets.consumed }, events⟩
  | ⟨.ok .eos, after, events⟩ => ⟨.ok none, after, events⟩
  | ⟨.error error, after, events⟩ => ⟨.error error, after, events⟩

/-- A byte that is taken is one of the bytes, and the pending token gets longer by it. -/
theorem taken_of_nextIf {accepts : UInt8 → Bool} {offsets after : Offsets} {byte : UInt8}
    {events : Array Event}
    (h : nextIf bytes limit accepts offsets = ⟨.ok (some byte), after, events⟩) :
    offsets.start + offsets.consumed < bytes.length ∧ after.start = offsets.start ∧
      after.consumed = offsets.consumed + 1 := by
  simp only [nextIf, next] at h
  split at h
  next found result =>
    split at h
    next =>
      cases h
      split at result
      next => cases result
      next there =>
        have below := (List.getElem?_eq_some_iff.1 there).1
        split at result <;> cases result
        exact ⟨below, rfl, rfl⟩
    next => cases h
  next => cases h
  next => cases h

/-- Takes bytes while they are accepted, having counted some already. -/
def eatFrom (accepts : UInt8 → Bool) (count : Nat) (offsets : Offsets) :
    Result LexError Offsets Nat :=
  match _ : nextIf bytes limit accepts offsets with
  | ⟨.ok (some _), after, _⟩ => eatFrom accepts (count + 1) after
  | ⟨.ok none, after, _⟩ => ⟨.ok count, after, #[]⟩
  | ⟨.error error, after, _⟩ => ⟨.error error, after, #[]⟩
termination_by bytes.length - (offsets.start + offsets.consumed)
decreasing_by
  have taken := taken_of_nextIf bytes limit ‹nextIf bytes limit accepts offsets = _›
  omega

def eatWhile (accepts : UInt8 → Bool) : Operation LexError Offsets Nat := fun offsets =>
  eatFrom bytes limit accepts 0 offsets

end Reading

def dump : Operation LexError Offsets Unit := fun ⟨start, consumed, fetched⟩ =>
  ⟨.ok (), ⟨start + consumed, 0, fetched⟩, #[]⟩

def skip : Operation LexError Offsets Nat := do
  let length := (← get).consumed
  dump
  return length

def emit (bytes : List UInt8) : Operation LexError Offsets (Array UInt8) := do
  let token := (← get).pending bytes
  dump
  return token.toArray

def emitText (bytes : List UInt8) : Operation LexError Offsets String := do
  let offsets ← get
  match Utf8.decode (offsets.pending bytes).toArray with
  | .error malformation => throw (.copyFailure offsets.consumed malformation)
  | .ok text =>
    dump
    return text

def perform (bytes : List UInt8) (limit : Option Nat) : Call → Operation LexError Offsets Value
  | .next => .next <$> next bytes limit
  | .peek => .next <$> peek bytes limit
  | .back => do back; return .done
  | .dump => do dump; return .done
  | .skip => .length <$> skip
  | .emit => .token <$> emit bytes
  | .emitText => .text <$> emitText bytes
  | .nextIf accepts => .taken <$> nextIf bytes limit accepts
  | .eatWhile accepts => .count <$> eatWhile bytes limit accepts
  | .times count call => .outcomes <$> Operation.times (perform bytes limit call) count

end Offsets

end Lexing
