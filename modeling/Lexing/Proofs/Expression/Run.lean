import Lexing.Proofs.Expression.Munch
import Lexing.Proofs.Expression.Scan

/-!
# Runs of the expression machine

Over bytes in memory and without a ceiling, a run of the machine takes two steps for each token of
the maximal munch, one before it and one through it, and a last one that finds the end or a byte
at which no token begins (`runFrom_of_munches`).
-/

set_option autoImplicit false

namespace Lexing.Expression

open Buffer (StandsAt)
open Operation (Leads)
open Session (Has)
open Machine (runFrom_of_proceed runFrom_of_halt runFrom_of_error)

variable {bytes : List UInt8}

theorem clear_none (input : List UInt8) (last : Nat) : Clear none input last :=
  fun _ _ _ same => nomatch same

/-- A run ends after so many steps where the bytes end, and fails where they stop before: at a byte
that is neither white space nor the first of a token, with the buffer standing there. -/
def EndsAt (bytes : List UInt8) (steps : Nat)
    (result : Result Error (Session Slice (Array Token)) Nat) : Option (UInt8 × Nat) → Prop
  | none => result.outcome = .ok steps
  | some (byte, offset) =>
    result.outcome = .error (.unexpected byte offset.toUInt64) ∧ bytes[offset]? = some byte ∧
      classify byte = none ∧ ByteClass.isSpace byte = false ∧
      StandsAt bytes none offset 0 result.state.buffer

/-- A run follows the maximal munch of what is ahead. -/
theorem runFrom_of_munches (fits : bytes.length < Size.max) {offset : Nat} {rest : List UInt8}
    {tokens : List Token} {stop : Option (UInt8 × Nat)} (munches : Munches offset rest tokens stop)
    {fuel : Nat} {session : Session Slice (Array Token)} {out : Array Token}
    (ahead : bytes.drop offset = rest) (stands : Has (StandsAt bytes none offset 0) out session)
    (enough : 2 * tokens.length < fuel) (steps : Nat) (log : Array Event) :
    ∃ result, machine.runFrom fuel steps log .start session = some result ∧
      result.state.context.toList = out.toList ++ tokens ∧
      EndsAt bytes (steps + (2 * tokens.length + 1)) result stop := by
  induction munches generalizing fuel steps log session out with
  | ends blank =>
    obtain ⟨outcome, left⟩ :=
      start_leads_halt fits ahead blank (clear_none _ _) session stands
    obtain ⟨more, rfl⟩ := Nat.exists_eq_add_of_lt enough
    obtain ⟨events, ended⟩ := runFrom_of_halt outcome
    exact ⟨_, ended, by rw [left.2, List.append_nil], rfl⟩
  | @stops offset space rest byte blank solid nothing =>
    have unclassified := classify_eq_none nothing
    have there := getElem?_behind ahead
    obtain ⟨outcome, left⟩ :=
      start_leads_error fits ahead blank solid unclassified (clear_none _ _) session stands
    obtain ⟨more, rfl⟩ := Nat.exists_eq_add_of_lt enough
    obtain ⟨events, ended⟩ := runFrom_of_error outcome
    exact ⟨_, ended, by rw [left.2, List.append_nil], rfl, there, unclassified, solid, left.1⟩
  | @takes offset space lexeme rest kind text tokens stop blank taken longest encoded further ih =>
    have begins := drop_of_drop ahead space.length
    rw [List.drop_left] at begins
    have behind := drop_of_drop begins lexeme.length
    rw [List.drop_left] at behind
    have leads : Leads (Has (StandsAt bytes none offset 0) out) (machine .start)
        (.ok (.proceed (.token kind)))
        (Has (StandsAt bytes none (offset + space.length) 0) out) := by
      obtain ⟨byte, more, rfl⟩ := List.exists_cons_of_ne_nil taken.ne_nil
      exact start_leads_token fits ahead blank taken.classify_head (clear_none _ _)
    obtain ⟨found, between⟩ := leads session stands
    obtain ⟨delivered, left⟩ :=
      token_leads fits begins taken longest encoded (clear_none _ _) _ between
    rw [List.length_cons] at enough
    obtain ⟨more, rfl⟩ : ∃ more, fuel = more + 2 := ⟨fuel - 2, by omega⟩
    rw [runFrom_of_proceed found, runFrom_of_proceed delivered]
    have fewer : 2 * tokens.length < more := by omega
    obtain ⟨result, run, delivers, outcome⟩ := ih behind left fewer (steps + 1 + 1) _
    have taken : steps + 1 + 1 + (2 * tokens.length + 1) =
        steps + (2 * (tokens.length + 1) + 1) := by
      omega
    rw [taken] at outcome
    refine ⟨result, run, ?_, outcome⟩
    rw [delivers, Array.toList_push, List.append_assoc, List.singleton_append]

/-- Over bytes in memory, whatever the initial capacity, a run without a ceiling halts or stops at
a byte. What it delivers is the one maximal munch of the bytes. It halts after two steps for each
token and one more; or it fails with the byte at which no token begins and its offset, and leaves
the buffer there with nothing pending. -/
theorem run_munches {capacity memory : Nat} {buffer : Buffer Slice}
    (fits : 2 * bytes.length < Size.max) (granted : 2 * bytes.length < memory)
    (opened : Buffer.openWith ⟨capacity, none⟩ memory (Slice.ofList bytes) = .ok buffer) :
    ∃ result, machine.run .start ⟨buffer, #[]⟩ = some result ∧
      (∀ tokens stop, Munches 0 bytes tokens stop ↔
        tokens = result.state.context.toList ∧ stop = (segments bytes).stop) ∧
      match (segments bytes).stop with
      | none => result.outcome = .ok (2 * result.state.context.size + 1)
      | some (byte, offset) =>
        result.outcome = .error (.unexpected byte offset.toUInt64) ∧ bytes[offset]? = some byte ∧
          classify byte = none ∧ ByteClass.isSpace byte = false ∧
          result.state.buffer.window.consumed = 0 ∧
          result.state.buffer.window.start.toNat = offset ∧
          (Buffer.next result.state.buffer).outcome = .ok (.byte byte) := by
  have inside : bytes.length < Size.max := by omega
  have munches := munches_segmentsFrom 0 bytes
  have few := munches.length_le
  have stands : Has (StandsAt bytes none 0 0) (#[] : Array Token) ⟨buffer, #[]⟩ :=
    ⟨⟨0, Buffer.tracks_of_openWith (grantsGrowth_of_lt none granted) opened⟩, rfl⟩
  obtain ⟨result, run, delivers, outcome⟩ :=
    runFrom_of_munches inside munches List.drop_zero stands
      (Nat.lt_of_le_of_lt (Nat.mul_le_mul_left 2 few) fits) 0 #[.started _]
  rw [List.nil_append] at delivers
  have delivered : (segmentsFrom 0 bytes).tokens.length = result.state.context.size := by
    rw [← delivers, Array.length_toList]
  refine ⟨result, run, fun tokens stop => ?_, ?_⟩
  · rw [delivers]
    exact munches_iff
  · rw [delivered, Nat.zero_add] at outcome
    unfold segments
    cases last : (segmentsFrom 0 bytes).stop with
    | none =>
      rw [last] at outcome
      exact outcome
    | some stop =>
      rw [last] at outcome
      obtain ⟨byte, offset⟩ := stop
      obtain ⟨failed, there, unclassified, solid, fetched, tracks⟩ := outcome
      have unlimited : (none : Option Nat) ≠ some 0 := nofun
      have reads := Buffer.next_leads_byte inside there unlimited _ ⟨fetched, tracks⟩
      exact ⟨failed, there, unclassified, solid, tracks.consumed, tracks.start_toNat inside,
        reads.1⟩

/-- A name, an equals sign, a number whose point is given back, and a byte that begins nothing. -/
def assignment : List UInt8 := [0x78, 0x3D, 0x31, 0x2E, 0x24]

theorem run_munches_assignment :
    Buffer.openWith ⟨1, none⟩ 11 (Slice.ofList assignment) =
        .ok ⟨Window.empty 1 none 11, Slice.ofList assignment⟩ ∧
      ∃ result : Result Error (Session Slice (Array Token)) Nat,
        machine.run .start ⟨⟨Window.empty 1 none 11, Slice.ofList assignment⟩, #[]⟩ = some result ∧
          result.state.context.toList =
            [⟨.ident, "x", 0⟩, ⟨.punct, "=", 1⟩, ⟨.number, "1", 2⟩, ⟨.punct, ".", 3⟩] ∧
          result.outcome = .error (.unexpected 0x24 4) := by
  have opened : Buffer.openWith ⟨1, none⟩ 11 (Slice.ofList assignment) =
      .ok ⟨Window.empty 1 none 11, Slice.ofList assignment⟩ := rfl
  have tokens : (segments assignment).tokens =
      [⟨.ident, "x", 0⟩, ⟨.punct, "=", 1⟩, ⟨.number, "1", 2⟩, ⟨.punct, ".", 3⟩] := by decide +kernel
  have stop : (segments assignment).stop = some (0x24, 4) := by decide +kernel
  obtain ⟨result, run, munches, ends⟩ := run_munches (by decide) (by decide) opened
  have delivers := ((munches _ _).1 (munches_segmentsFrom 0 assignment)).1
  rw [stop] at ends
  exact ⟨opened, result, run, delivers.symm.trans tokens, ends.1⟩

end Lexing.Expression
