import Lexing.Source.Basic

/-!
# Block readers

A device that is read in blocks: a read asks for at most so many bytes and gets some of them, none
at an end, or a fault. What the device will do is a list of events; a block of data that a read
does not take whole stays for the reads after it.
-/

set_option autoImplicit false

namespace Lexing

/-- What a device does when it is read and has no data left over. -/
inductive Delivery where
  | data (bytes : List UInt8)
  | finish
  | fault (fault : Fault)
  deriving DecidableEq, Repr

structure Reader where
  /-- What it will do. Past the last event it is at its end. -/
  events : List Delivery
  /-- Data of the event under way that was not read yet. -/
  unread : List UInt8
  /-- How many times it was read. -/
  calls : Nat
  /-- All bytes it has delivered. -/
  delivered : Array UInt8
  deriving DecidableEq, Repr

namespace Reader

def ofEvents (events : List Delivery) : Reader := ⟨events, [], 0, #[]⟩

/-- Delivers as many of the bytes as fit and keeps the others. -/
def deliver (size : Nat) (bytes : List UInt8) (events : List Delivery) (reader : Reader) :
    Except Fault (List UInt8) × Reader :=
  (.ok (bytes.take size),
    { events, unread := bytes.drop size, calls := reader.calls + 1,
      delivered := reader.delivered ++ bytes.take size })

/-- Reads at most `size` bytes. No bytes at all means the end, for now. -/
def read (size : Nat) (reader : Reader) : Except Fault (List UInt8) × Reader :=
  match reader.unread, reader.events with
  | byte :: rest, events => reader.deliver size (byte :: rest) events
  | [], .data bytes :: events => reader.deliver size bytes events
  | [], .finish :: events => reader.deliver size [] events
  | [], [] => reader.deliver size [] []
  | [], .fault fault :: events => (.error fault, { reader with events, calls := reader.calls + 1 })

/-- A fault uses up an event. -/
theorem events_length_of_read_error {size : Nat} {reader after : Reader} {fault : Fault}
    (h : reader.read size = (.error fault, after)) :
    after.events.length < reader.events.length := by
  unfold read at h
  split at h <;> simp_all [deliver]
  next => simp [← h.2]

/-- Reads until a read is not interrupted. -/
def readThrough (size : Nat) (reader : Reader) : Except Fault (List UInt8) × Reader :=
  match _ : reader.read size with
  | (.ok bytes, after) => (.ok bytes, after)
  | (.error fault, after) =>
    if fault.isTransient then after.readThrough size else (.error fault, after)
termination_by reader.events.length
decreasing_by exact events_length_of_read_error ‹reader.read size = _›

end Reader

end Lexing
