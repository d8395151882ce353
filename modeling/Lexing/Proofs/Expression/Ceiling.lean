import Lexing.Proofs.Buffer.Ceiling
import Lexing.Proofs.Expression.Run

/-!
# Expressions under a ceiling

A ceiling that is lower than what is pending at the last read of a segment makes the run fail there,
if there are bytes to get that far (`Segment.overruns`). What counts is how far the machine looks,
not how long the token is. All segments before the first such one are delivered as they are without
a ceiling, and so is everything if there is none.
-/

set_option autoImplicit false

namespace Lexing.Expression

open Buffer (StandsAt RefusedAt)
open Operation (Leads)
open Session (Has onBuffer_leads)
open Machine (runFrom_of_proceed runFrom_of_halt runFrom_of_error)

variable {bytes : List UInt8} {limit : Option Nat} {bound start offset : Nat} {byte : UInt8}
  {rest : List UInt8} {kind : Kind} {out : Array Token}

/-- Whether a read of a segment finds as many bytes pending as the limit and another byte behind
them, among so many bytes in all. -/
def Segment.overruns (limit : Option Nat) (length : Nat) (segment : Segment) : Bool :=
  limit.any fun bound => bound ≤ segment.reach && segment.start + bound < length

theorem Segment.overruns_some {length : Nat} {segment : Segment} :
    segment.overruns (some bound) length = true ↔
      bound ≤ segment.reach ∧ segment.start + bound < length := by
  simp [overruns]

/-- A segment that does not overrun meets the limit at no read. -/
theorem clear_of_overruns (segment : Segment) {input : List UInt8}
    (ahead : bytes.drop segment.start = input)
    (within : segment.overruns limit bytes.length = false) : Clear limit input segment.reach := by
  rintro count upto inside rfl
  rw [← ahead, List.length_drop] at inside
  have exceeds : segment.overruns (some count) bytes.length = true :=
    Segment.overruns_some.2 ⟨upto, by omega⟩
  rw [within] at exceeds
  cases exceeds

/-- A segment that overruns has a limit, which its last read does not go below. -/
theorem bound_of_overruns (segment : Segment) {input : List UInt8}
    (ahead : bytes.drop segment.start = input)
    (exceeds : segment.overruns limit bytes.length = true) :
    ∃ bound, limit = some bound ∧ bound ≤ segment.reach ∧ bound < input.length := by
  cases limit with
  | none => cases exceeds
  | some bound =>
    obtain ⟨upto, inside⟩ := Segment.overruns_some.1 exceeds
    rw [← ahead, List.length_drop]
    exact ⟨bound, rfl, upto, by omega⟩

/-- Eating from the start of a token on. -/
theorem eatWhile_leads_overrun (fits : bytes.length < Size.max) (accepts : UInt8 → Bool)
    {input : List UInt8} (ahead : bytes.drop start = input)
    (upto : bound ≤ (input.takeWhile accepts).length) (inside : bound < input.length) :
    Leads (StandsAt bytes (some bound) start 0) (Buffer.eatWhile accepts)
      (.error (.allocationFailure (Size.double bound))) (RefusedAt bytes bound start) :=
  Buffer.eatWhile_leads_refused fits accepts (drop_of_drop ahead 0) (Nat.zero_add bound) upto inside

/-- Behind a point as many digits are read as a number has, before any is given back. -/
theorem fraction_leads_refused (fits : bytes.length < Size.max) {length room : Nat}
    {behind : List UInt8} (point : bytes[start + length]? = some '.'.toUInt8)
    (further : bytes.drop (start + (length + 1)) = behind) (filled : length + 1 + room = bound)
    (upto : room ≤ digitCount behind) (inside : room < behind.length) :
    Leads (StandsAt bytes (some bound) start length)
      (do
        if (← Buffer.nextIf (· == '.'.toUInt8)).isSome then
          if (← Buffer.eatWhile ByteClass.isDigit) = 0 then Buffer.back : BufferM Slice Unit)
      (.error (.allocationFailure (Size.double bound))) (RefusedAt bytes bound start) := by
  have below : some bound ≠ some length := by
    rintro ⟨⟩
    omega
  have takes : Leads (StandsAt bytes (some bound) start length)
      (Buffer.nextIf (· == '.'.toUInt8)) (.ok (some '.'.toUInt8))
      (StandsAt bytes (some bound) start (length + 1)) :=
    Buffer.nextIf_leads_some fits point (beq_self_eq_true _) below
  have eats := Buffer.eatWhile_leads_refused fits ByteClass.isDigit further filled upto inside
  exact takes.bind eats.bind_error

section Scanning

variable (fits : bytes.length < Size.max) (ahead : bytes.drop start = byte :: rest)
  (inside : bound < (byte :: rest).length)

include fits ahead inside

theorem scanIdent_leads_refused (upto : bound ≤ reach .ident (byte :: rest)) :
    Leads (StandsAt bytes (some bound) start 0) scanIdent
      (.error (.allocationFailure (Size.double bound))) (RefusedAt bytes bound start) :=
  (eatWhile_leads_overrun fits isWord ahead upto inside).bind_error

/-- The digits are refused, or the point, or the digits behind it: even those of a token that ends
before the point. -/
theorem scanNumber_leads_refused (upto : bound ≤ reach .number (byte :: rest)) :
    Leads (StandsAt bytes (some bound) start 0) scanNumber
      (.error (.allocationFailure (Size.double bound))) (RefusedAt bytes bound start) := by
  by_cases short : bound ≤ digitCount (byte :: rest)
  · exact (eatWhile_leads_overrun fits ByteClass.isDigit ahead short inside).bind_error
  · simp only [reach] at upto
    cases found : fraction? (byte :: rest) with
    | none =>
      rw [found] at upto
      exact absurd upto short
    | some count =>
      rw [found] at upto
      simp only at upto
      obtain ⟨behind, point, further, length, rfl⟩ := point_of_fraction? ahead found
      -- the ceiling is not met before the point has been taken
      have clear : Clear (some bound) (byte :: rest) (digitCount (byte :: rest)) := by
        rintro count within - ⟨⟩
        exact short within
      obtain ⟨room, filled⟩ : ∃ room, digitCount (byte :: rest) + 1 + room = bound :=
        ⟨bound - (digitCount (byte :: rest) + 1), by omega⟩
      have digits := eatWhile_leads_of_clear fits ByteClass.isDigit ahead clear (Nat.le_refl _)
      refine digits.bind (fraction_leads_refused fits point further filled ?_ ?_)
      · omega
      · omega

/-- Only a look for a second equals sign comes to a ceiling. -/
theorem scanPunct_leads_refused (positive : 0 < bound)
    (upto : bound ≤ reach .punct (byte :: rest)) :
    Leads (StandsAt bytes (some bound) start 0) scanPunct
      (.error (.allocationFailure (Size.double bound))) (RefusedAt bytes bound start) := by
  simp only [reach, List.head?_cons, Option.some.injEq] at upto
  split at upto
  next equals =>
    obtain rfl : bound = 1 := Nat.le_antisymm upto positive
    have there : bytes[start + 0]? = some byte := getElem?_of_drop ahead 0
    obtain ⟨second, more, rfl⟩ :=
      List.exists_cons_of_length_pos (Nat.lt_of_succ_lt_succ inside)
    have follows : bytes[start + 1]? = some second := getElem?_of_drop ahead 1
    have below : some 1 ≠ some 0 := by decide
    refine (Buffer.next_leads_byte fits there below).bind ?_
    rw [equals, if_pos rfl]
    exact (Buffer.nextIf_leads_refused fits (· == '='.toUInt8) follows).bind_error
  next => exact absurd (Nat.lt_of_lt_of_le positive upto) (Nat.lt_irrefl 0)

/-- Scanning a token fails if as many bytes as the ceiling are pending at its last read or before,
and a byte follows them. -/
theorem scan_leads_refused (positive : 0 < bound) (upto : bound ≤ reach kind (byte :: rest)) :
    Leads (StandsAt bytes (some bound) start 0) (scan kind)
      (.error (.allocationFailure (Size.double bound))) (RefusedAt bytes bound start) := by
  cases kind with
  | ident => exact scanIdent_leads_refused fits ahead inside upto
  | number => exact scanNumber_leads_refused fits ahead inside upto
  | punct => exact scanPunct_leads_refused fits ahead inside positive upto

end Scanning

section Steps

variable (fits : bytes.length < Size.max)

include fits

/-- White space that reaches the ceiling is refused like a token. -/
theorem start_leads_refused (ahead : bytes.drop offset = rest)
    (upto : bound ≤ (rest.takeWhile ByteClass.isSpace).length) (inside : bound < rest.length) :
    Leads (Has (StandsAt bytes (some bound) offset 0) out) (machine .start)
      (.error (.lex (.allocationFailure (Size.double bound))))
      (Has (RefusedAt bytes bound offset) out) :=
  have eats := eatWhile_leads_overrun fits ByteClass.isSpace ahead upto inside
  (onBuffer_leads eats).bind_error.bind_error

theorem token_leads_refused (ahead : bytes.drop start = byte :: rest) (positive : 0 < bound)
    (upto : bound ≤ reach kind (byte :: rest)) (inside : bound < (byte :: rest).length) :
    Leads (Has (StandsAt bytes (some bound) start 0) out) (machine (.token kind))
      (.error (.lex (.allocationFailure (Size.double bound))))
      (Has (RefusedAt bytes bound start) out) :=
  (onBuffer_leads (scan_leads_refused fits ahead inside positive upto)).bind_error

/-- A step at a token that has room delivers the longest lexeme there. -/
theorem token_leads_segment (ahead : bytes.drop start = byte :: rest)
    (classified : classify byte = some kind)
    (clear : Clear limit (byte :: rest) (reach kind (byte :: rest))) :
    let length := lexemeLength kind (byte :: rest)
    Leads (Has (StandsAt bytes limit start 0) out) (machine (.token kind)) (.ok (.proceed .start))
      (Has (StandsAt bytes limit (start + length) 0)
        (out.push ⟨kind, String.ofList (((byte :: rest).take length).map fun byte =>
          Char.ofNat byte.toNat), start.toUInt64⟩)) := by
  intro length
  have taken : Lexeme kind ((byte :: rest).take length) := lexeme_take classified rest
  have encoded : (String.ofList (((byte :: rest).take length).map fun byte =>
      Char.ofNat byte.toNat)).toUTF8.data.toList = (bytes.drop start).take length := by
    rw [ahead, Utf8.decode_eq_ok_iff.1 taken.decode]
  exact (onBuffer_leads (scan_leads fits ahead clear)).bind
    ((deliver_leads encoded).bind (.pure _))

end Steps

/-- How a run ends that overruns nowhere: after two steps for each token and one more, or at the
byte at which no token begins. -/
def Segments.outcome (parts : Segments) (steps : Nat) : Except Error Nat :=
  match parts.stop with
  | none => .ok (steps + (2 * parts.tokens.length + 1))
  | some (byte, offset) => .error (.unexpected byte offset.toUInt64)

/-- What a run comes to that has these segments before it. -/
structure Meets (bytes : List UInt8) (limit : Option Nat) (steps : Nat) (out : List Token)
    (parts : Segments) (result : Result Error (Session Slice (Array Token)) Nat) : Prop where
  /-- If no segment overruns, all tokens are delivered. -/
  whole : parts.segments.find? (·.overruns limit bytes.length) = none →
    result.outcome = parts.outcome steps ∧ result.state.context.toList = out ++ parts.tokens
  /-- At the first segment that overruns the run fails, with the tokens before it delivered. -/
  short : ∀ segment, parts.segments.find? (·.overruns limit bytes.length) = some segment →
    ∃ bound, limit = some bound ∧
      result.outcome = .error (.lex (.allocationFailure (Size.double bound))) ∧
      result.state.context.toList =
        out ++ (parts.segments.takeWhile (!·.overruns limit bytes.length)).filterMap
          Segment.token? ∧
      RefusedAt bytes bound segment.start result.state.buffer

section Meeting

variable {steps : Nat} {tokens : List Token} {segment : Segment} {later : List Segment}
  {stop : Option (UInt8 × Nat)} {result : Result Error (Session Slice (Array Token)) Nat}

/-- Nothing is left, and all has been delivered. -/
theorem Meets.ended (outcome : result.outcome = Segments.outcome ⟨[], stop⟩ steps)
    (delivered : result.state.context.toList = tokens) :
    Meets bytes limit steps tokens ⟨[], stop⟩ result := by
  constructor
  · intro _
    exact ⟨outcome, delivered.trans (List.append_nil tokens).symm⟩
  · exact nofun

theorem Meets.refused (exceeds : segment.overruns (some bound) bytes.length = true)
    (outcome : result.outcome = .error (.lex (.allocationFailure (Size.double bound))))
    (delivered : result.state.context.toList = tokens)
    (refused : RefusedAt bytes bound segment.start result.state.buffer) :
    Meets bytes (some bound) steps tokens ⟨segment :: later, stop⟩ result := by
  have first : (segment :: later).find? (·.overruns (some bound) bytes.length) = some segment :=
    List.find?_cons_of_pos exceeds
  constructor
  · intro none
    cases first.symm.trans none
  · intro found same
    cases first.symm.trans same
    refine ⟨bound, rfl, outcome, ?_, refused⟩
    simp [delivered, exceeds]

/-- A segment that does not overrun is passed, and delivered if it is a token. -/
theorem Meets.cons (within : segment.overruns limit bytes.length = false)
    (meets : Meets bytes limit (steps + 2 * segment.token?.toList.length)
      (tokens ++ segment.token?.toList) ⟨later, stop⟩ result) :
    Meets bytes limit steps tokens ⟨segment :: later, stop⟩ result := by
  have more : (segment :: later).filterMap Segment.token? =
      segment.token?.toList ++ later.filterMap Segment.token? := by
    cases found : segment.token? with
    | none => simp [found]
    | some token => simp [found]
  constructor
  · intro none
    rw [List.find?_cons_of_neg (by simp [within])] at none
    obtain ⟨outcome, delivered⟩ := meets.whole none
    refine ⟨?_, ?_⟩
    · rw [outcome]
      cases stop with
      | none =>
        simp only [Segments.outcome, Segments.tokens, more, List.length_append]
        congr 1
        omega
      | some last => rfl
    · rw [delivered, Segments.tokens, Segments.tokens, more, List.append_assoc]
  · intro first found
    rw [List.find?_cons_of_neg (by simp [within])] at found
    obtain ⟨bound, same, outcome, delivered, refused⟩ := meets.short first found
    refine ⟨bound, same, outcome, ?_, refused⟩
    rw [delivered]
    cases kind : segment.token? with
    | none => simp [within, kind]
    | some token => simp [within, kind]

/-- White space that does not overrun is passed. -/
theorem Meets.skip (blank : segment.token? = none)
    (within : segment.overruns limit bytes.length = false)
    (meets : Meets bytes limit steps tokens ⟨later, stop⟩ result) :
    Meets bytes limit steps tokens ⟨segment :: later, stop⟩ result := by
  apply Meets.cons within
  rw [blank, Option.toList_none, List.append_nil]
  exact meets

end Meeting

/-- White space that overruns is the end of a run, whatever comes after it. -/
theorem runFrom_of_space_overruns (fits : bytes.length < Size.max)
    {session : Session Slice (Array Token)} (ahead : bytes.drop offset = rest)
    (stands : Has (StandsAt bytes limit offset 0) out session) (gap : Segment)
    (starts : gap.start = offset)
    (reaches : gap.reach = (rest.takeWhile ByteClass.isSpace).length)
    (exceeds : gap.overruns limit bytes.length = true) (later : List Segment)
    (stop : Option (UInt8 × Nat)) (fuel steps : Nat) (log : Array Event) :
    ∃ result, machine.runFrom (fuel + 1) steps log .start session = some result ∧
      Meets bytes limit steps out.toList ⟨gap :: later, stop⟩ result := by
  obtain rfl := starts
  obtain ⟨bound, rfl, upto, inside⟩ := bound_of_overruns gap ahead exceeds
  rw [reaches] at upto
  obtain ⟨failed, refused⟩ := start_leads_refused fits ahead upto inside session stands
  obtain ⟨events, ended⟩ := runFrom_of_error failed
  exact ⟨_, ended, .refused exceeds rfl (congrArg Array.toList refused.2) refused.1⟩

/-- A run follows the segments of what is ahead, up to the first one that overruns. -/
theorem runFrom_meets (fits : bytes.length < Size.max) (offset : Nat) (rest : List UInt8) :
    bytes.drop offset = rest → ∀ (out : Array Token) (session : Session Slice (Array Token)),
      Has (StandsAt bytes limit offset 0) out session →
      ∀ fuel, 2 * (segmentsFrom offset rest).tokens.length < fuel → ∀ steps log,
        ∃ result, machine.runFrom fuel steps log .start session = some result ∧
          Meets bytes limit steps out.toList (segmentsFrom offset rest) result := by
  fun_induction segmentsFrom offset rest with
  | case1 offset rest space gap nothing =>
    intro ahead out session stands fuel enough steps log
    obtain ⟨more, rfl⟩ := Nat.exists_eq_add_of_lt enough
    cases atGap : gap.overruns limit bytes.length with
    | true =>
      exact runFrom_of_space_overruns fits ahead stands gap rfl rfl atGap _ _ _ _ _
    | false =>
      rw [← List.takeWhile_append_dropWhile (p := ByteClass.isSpace) (l := rest), nothing,
        List.append_nil] at ahead
      have clear := clear_of_overruns gap ahead atGap
      obtain ⟨halted, left⟩ :=
        start_leads_halt fits ahead List.all_takeWhile clear session stands
      obtain ⟨events, ended⟩ := runFrom_of_halt halted
      exact ⟨_, ended, .skip rfl atGap (.ended rfl (congrArg Array.toList left.2))⟩
  | case2 offset rest space start gap byte more behind unclassified =>
    intro ahead out session stands fuel enough steps log
    obtain ⟨fuel, rfl⟩ := Nat.exists_eq_add_of_lt enough
    cases atGap : gap.overruns limit bytes.length with
    | true =>
      exact runFrom_of_space_overruns fits ahead stands gap rfl rfl atGap _ _ _ _ _
    | false =>
      have solid : ByteClass.isSpace byte = false := by
        have first := List.head?_dropWhile_not ByteClass.isSpace rest
        rw [behind] at first
        simpa using first
      rw [← List.takeWhile_append_dropWhile (p := ByteClass.isSpace) (l := rest), behind] at ahead
      have clear := clear_of_overruns gap ahead atGap
      obtain ⟨failed, left⟩ :=
        start_leads_error fits ahead List.all_takeWhile solid unclassified clear session stands
      obtain ⟨events, ended⟩ := runFrom_of_error failed
      exact ⟨_, ended, .skip rfl atGap (.ended rfl (congrArg Array.toList left.2))⟩
  | case3 offset rest space start gap byte more behind kind classified length token after ih =>
    intro ahead out session stands fuel enough steps log
    have taken : (Segments.tokens ⟨gap :: token :: after.segments, after.stop⟩).length =
        after.tokens.length + 1 := rfl
    rw [taken] at enough
    obtain ⟨fuel, rfl⟩ : ∃ more, fuel = more + 2 := ⟨fuel - 2, by omega⟩
    cases atGap : gap.overruns limit bytes.length with
    | true =>
      exact runFrom_of_space_overruns fits ahead stands gap rfl rfl atGap _ _ _ _ _
    | false =>
      rw [← List.takeWhile_append_dropWhile (p := ByteClass.isSpace) (l := rest), behind] at ahead
      have begins : bytes.drop start = byte :: more := by
        rw [drop_of_drop ahead, List.drop_left]
      have clear := clear_of_overruns gap ahead atGap
      obtain ⟨found, between⟩ :=
        start_leads_token fits ahead List.all_takeWhile classified clear session stands
      rw [runFrom_of_proceed found]
      cases atToken : token.overruns limit bytes.length with
      | true =>
        obtain ⟨bound, rfl, upto, inside⟩ := bound_of_overruns token begins atToken
        have positive := between.1.bound_pos
        obtain ⟨failed, refused⟩ :=
          token_leads_refused fits begins positive upto inside _ between
        obtain ⟨events, ended⟩ := runFrom_of_error failed
        refine ⟨_, ended, .skip rfl atGap (.refused atToken rfl ?_ refused.1)⟩
        exact congrArg Array.toList refused.2
      | false =>
        have clear := clear_of_overruns token begins atToken
        obtain ⟨delivered, left⟩ :=
          token_leads_segment fits begins classified clear _ between
        rw [runFrom_of_proceed delivered]
        have further := drop_of_drop begins length
        have fewer : 2 * after.tokens.length < fuel := by omega
        obtain ⟨result, ran, meets⟩ := ih further _ _ left fuel fewer (steps + 2) _
        rw [Array.toList_push] at meets
        exact ⟨result, ran, .skip rfl atGap (.cons atToken meets)⟩

/-- A run over bytes in memory follows their segments. -/
theorem run_meets {capacity memory : Nat} {buffer : Buffer Slice}
    (fits : 2 * bytes.length < Size.max) (granted : 2 * bytes.length < memory)
    (opened : Buffer.openWith ⟨capacity, limit⟩ memory (Slice.ofList bytes) = .ok buffer) :
    ∃ result, machine.run .start ⟨buffer, #[]⟩ = some result ∧
      Meets bytes limit 0 [] (segments bytes) result := by
  have inside : bytes.length < Size.max := by omega
  have few := (munches_segmentsFrom 0 bytes).length_le
  have enough := Nat.lt_of_le_of_lt (Nat.mul_le_mul_left 2 few) fits
  have stands : Has (StandsAt bytes limit 0 0) (#[] : Array Token) ⟨buffer, #[]⟩ :=
    ⟨⟨0, Buffer.tracks_of_openWith (grantsGrowth_of_lt limit granted) opened⟩, rfl⟩
  exact runFrom_meets inside 0 bytes List.drop_zero _ _ stands _ enough 0 _

/-- Over bytes in memory, with any initial capacity, a ceiling changes a run only at a segment that
overruns it. If none does, the run yields and delivers what it does without a ceiling. Else it fails
at the first such segment: the tokens before it are delivered, and the pending token starts with it
and fills all there is room for. The byte behind is held and is the first one that is read when the
token has been taken. -/
theorem run_under_ceiling {capacity other memory : Nat} {buffer unlimited : Buffer Slice}
    (fits : 2 * bytes.length < Size.max) (granted : 2 * bytes.length < memory)
    (opened : Buffer.openWith ⟨capacity, some bound⟩ memory (Slice.ofList bytes) = .ok buffer)
    (free : Buffer.openWith ⟨other, none⟩ memory (Slice.ofList bytes) = .ok unlimited) :
    let parts := segments bytes
    let overruns := Segment.overruns (some bound) bytes.length
    ∃ result whole, machine.run .start ⟨buffer, #[]⟩ = some result ∧
      machine.run .start ⟨unlimited, #[]⟩ = some whole ∧
      whole.outcome = parts.outcome 0 ∧ whole.state.context.toList = parts.tokens ∧
      match parts.segments.find? overruns with
      | none => result.outcome = whole.outcome ∧ result.state.context = whole.state.context
      | some segment =>
        result.outcome = .error (.lex (.allocationFailure (2 * bound))) ∧
          result.state.context.toList =
            (parts.segments.takeWhile (!overruns ·)).filterMap Segment.token? ∧
          result.state.buffer.window.start.toNat = segment.start ∧
          result.state.buffer.window.consumed = bound ∧
          result.state.buffer.window.available = bound ∧
          ∃ byte, bytes[segment.start + bound]? = some byte ∧
            result.state.buffer.window.held = some byte ∧
            (Buffer.next (Buffer.emit result.state.buffer).state).outcome = .ok (.byte byte) := by
  intro parts overruns
  have inside : bytes.length < Size.max := by omega
  obtain ⟨result, ran, meets⟩ := run_meets fits granted opened
  obtain ⟨whole, ranFree, meetsFree⟩ := run_meets fits granted free
  have never : parts.segments.find? (·.overruns none bytes.length) = none :=
    List.find?_eq_none.2 fun _ _ => nofun
  obtain ⟨outcome, context⟩ := meetsFree.whole never
  refine ⟨result, whole, ran, ranFree, outcome, context, ?_⟩
  cases first : parts.segments.find? overruns with
  | none =>
    obtain ⟨same, delivered⟩ := meets.whole first
    exact ⟨same.trans outcome.symm, Array.toList_inj.1 (delivered.trans context.symm)⟩
  | some segment =>
    obtain ⟨_, ⟨⟩, failed, delivered, refused⟩ := meets.short segment first
    obtain ⟨byte, held, there⟩ := refused.held_eq
    have released := refused.next_after inside (Buffer.emit_leads rfl)
    rw [refused.double_eq fits] at failed
    rw [there] at released
    refine ⟨failed, delivered, ?_, refused.standsAt.consumed_eq, refused.available_eq, byte, there,
      held, released⟩
    exact refused.start_toNat inside

/-- A name, an equals sign and a number whose point is given back, and a sign behind. -/
def tightSum : List UInt8 := [0x78, 0x3D, 0x31, 0x32, 0x2E, 0x2B]

/-- The number is shorter than the ceiling; but with the point it is as long, and the sign that the
look for a digit comes to is refused. -/
theorem run_under_ceiling_tightSum :
    Buffer.openWith ⟨1, some 3⟩ 13 (Slice.ofList tightSum) =
        .ok ⟨Window.empty 1 (some 3) 13, Slice.ofList tightSum⟩ ∧
      Buffer.openWith ⟨1, none⟩ 13 (Slice.ofList tightSum) =
        .ok ⟨Window.empty 1 none 13, Slice.ofList tightSum⟩ ∧
      ∃ result : Result Error (Session Slice (Array Token)) Nat,
        machine.run .start ⟨⟨Window.empty 1 (some 3) 13, Slice.ofList tightSum⟩, #[]⟩ =
          some result ∧
          result.outcome = .error (.lex (.allocationFailure 6)) ∧
          result.state.context.toList = [⟨.ident, "x", 0⟩, ⟨.punct, "=", 1⟩] ∧
          result.state.buffer.window.start.toNat = 2 ∧
          result.state.buffer.window.held = some 0x2B := by
  have opened : Buffer.openWith ⟨1, some 3⟩ 13 (Slice.ofList tightSum) =
      .ok ⟨Window.empty 1 (some 3) 13, Slice.ofList tightSum⟩ := rfl
  have free : Buffer.openWith ⟨1, none⟩ 13 (Slice.ofList tightSum) =
      .ok ⟨Window.empty 1 none 13, Slice.ofList tightSum⟩ := rfl
  have first : (segments tightSum).segments.find? (Segment.overruns (some 3) 6) =
      some ⟨2, some .number, [0x31, 0x32], 3⟩ := by decide +kernel
  have before : ((segments tightSum).segments.takeWhile
      (!Segment.overruns (some 3) 6 ·)).filterMap Segment.token? =
      [⟨.ident, "x", 0⟩, ⟨.punct, "=", 1⟩] := by decide +kernel
  obtain ⟨result, whole, ran, -, -, -, ends⟩ :=
    run_under_ceiling (by decide) (by decide) opened free
  have same : tightSum.length = 6 := rfl
  rw [same, first] at ends
  obtain ⟨outcome, context, starts, -, -, byte, there, held, -⟩ := ends
  cases there
  exact ⟨opened, free, result, ran, outcome, context.trans before, starts, held⟩

end Lexing.Expression
