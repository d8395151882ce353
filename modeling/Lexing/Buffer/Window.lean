import Lexing.Size

/-!
# The window of a buffer

A buffer sees a stretch of its stream through a window:

    stored:  [ pending token | lookahead ]  room
             0          consumed      available   capacity

The pending token is what was read since the last token was taken. The lookahead was read and then
given back; it is read again before anything else. A window that is full may grow, up to its limit.
A byte that arrives at a window that is full at its limit is held beside it.

Models the fields of `LexBuffer` other than its source, from the module `buffer` of `lexkit_core`,
with `pending`, `available`, `is_empty`, `offset` and `at_ceiling`. The allocator is a bound on the
requests that it grants.
-/

set_option autoImplicit false

namespace Lexing

/-- The stored part of a stream and where it stands in it. -/
structure Window where
  /-- The pending token and the lookahead after it. -/
  stored : Array UInt8
  /-- Length of the pending token. -/
  consumed : Nat
  /-- How many bytes may be stored. -/
  capacity : Nat
  /-- Ceiling for the capacity, if there is one. -/
  limit : Option Nat
  /-- Requests for this many bytes of memory or more are refused. -/
  memory : Nat
  /-- Offset in the stream of the first byte stored, counted in 64 bits. -/
  start : UInt64
  /-- A byte that did not fit; in the stream it follows the stored ones. -/
  held : Option UInt8
  deriving DecidableEq, Repr

namespace Window

def empty (capacity : Nat) (limit : Option Nat) (memory : Nat) : Window :=
  ⟨#[], 0, capacity, limit, memory, 0, none⟩

def pending (window : Window) : Array UInt8 :=
  window.stored.extract 0 window.consumed

/-- The bytes to be read again. -/
def lookahead (window : Window) : Array UInt8 :=
  window.stored.extract window.consumed window.stored.size

def available (window : Window) : Nat := window.stored.size

def isEmpty (window : Window) : Bool := window.consumed == 0

/-- Offset in the stream of the byte to be read next. -/
def offset (window : Window) : UInt64 := window.start + window.consumed.toUInt64

def grants (window : Window) (bytes : Nat) : Bool := decide (bytes < window.memory)

def atCeiling (window : Window) : Bool :=
  match window.limit with
  | some limit => decide (limit ≤ window.capacity)
  | none => false

/-- The capacity to grow to: twice the present one, cut off at the ceiling. -/
def growthTarget (window : Window) : Nat :=
  match window.limit with
  | some limit => min (Size.double window.capacity) limit
  | none => Size.double window.capacity

/-- Takes the first byte of the lookahead into the pending token. -/
def advance (window : Window) : Window :=
  { window with consumed := window.consumed + 1 }

/-- Stores a fresh byte as the last one of the pending token. -/
def append (window : Window) (byte : UInt8) : Window :=
  { window with stored := window.stored.push byte, consumed := window.consumed + 1 }

def retreat (window : Window) : Window :=
  { window with consumed := window.consumed - 1 }

/-- Forgets the pending token and moves the lookahead to the front. -/
def discard (window : Window) : Window :=
  { window with
    stored := window.lookahead
    consumed := 0
    start := window.start + window.consumed.toUInt64 }

/-- How many more bytes could be read before a window must be full for good: the room left at the
largest capacity, and the growth left until then. -/
def roomLeft (window : Window) : Nat :=
  (max Size.max window.capacity - window.consumed) + (Size.max - window.capacity)

theorem growthTarget_le_max (window : Window) : window.growthTarget ≤ Size.max := by
  simp only [growthTarget, Size.double]
  split <;> omega

/-- Reading a byte where there is room for it uses up room. -/
theorem roomLeft_lt_of_consumed {before after : Window} (room : before.consumed < before.capacity)
    (consumed : after.consumed = before.consumed + 1)
    (capacity : after.capacity = before.capacity) : after.roomLeft < before.roomLeft := by
  simp only [roomLeft, consumed, capacity]
  omega

/-- Growing first and then reading a byte uses up room as well. -/
theorem roomLeft_lt_of_grown {before after : Window}
    (grown : before.capacity < before.growthTarget)
    (consumed : after.consumed = before.consumed + 1)
    (capacity : after.capacity = before.growthTarget) : after.roomLeft < before.roomLeft := by
  have bound := before.growthTarget_le_max
  simp only [roomLeft, consumed, capacity]
  omega

end Window

end Lexing
