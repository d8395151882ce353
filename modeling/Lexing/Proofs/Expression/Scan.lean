import Lexing.Proofs.Buffer.Place
import Lexing.Proofs.Expression.Lexeme
import Lexing.Proofs.Machine.Run

/-!
# Steps of the expression machine

Over bytes in memory, a step at white space goes to the byte after it, and a step at a token takes
as many bytes as the longest lexeme there has. What was looked at beyond is left to the next step.
-/

set_option autoImplicit false

namespace Lexing.Expression

open Buffer (StandsAt)
open Operation (Leads)

variable {bytes : List UInt8} {limit : Option Nat} {start : Nat} {byte : UInt8}
  {rest space : List UInt8} {kind : Kind}

/-- The byte so many bytes behind where `bytes` was cut. -/
theorem getElem?_of_drop {input : List UInt8} (ahead : bytes.drop start = input) (count : Nat) :
    bytes[start + count]? = input[count]? := by
  rw [← ahead, List.getElem?_drop]

/-- The byte behind a stretch of where `bytes` was cut. -/
theorem getElem?_behind (ahead : bytes.drop start = space ++ byte :: rest) :
    bytes[start + space.length]? = some byte := by
  rw [getElem?_of_drop ahead, List.getElem?_append_right (Nat.le_refl _), Nat.sub_self]
  rfl

theorem drop_of_drop {input : List UInt8} (ahead : bytes.drop start = input) (count : Nat) :
    bytes.drop (start + count) = input.drop count := by
  rw [← ahead, List.drop_drop]

/-- Where a fraction is counted, a point follows the digits, and what is counted is behind it. -/
theorem point_of_fraction? {input : List UInt8} {count : Nat} (ahead : bytes.drop start = input)
    (found : fraction? input = some count) :
    ∃ behind, bytes[start + digitCount input]? = some '.'.toUInt8 ∧
      bytes.drop (start + (digitCount input + 1)) = behind ∧
      digitCount input + (behind.length + 1) = input.length ∧ digitCount behind = count := by
  obtain ⟨behind, point, counted⟩ := of_fraction? found
  refine ⟨behind, ?_, ?_, ?_, counted⟩
  · rw [getElem?_of_drop ahead, ← List.head?_drop, point, List.head?_cons]
  · rw [drop_of_drop ahead, ← List.drop_drop, point]
    rfl
  · have whole := congrArg List.length (List.take_append_drop (digitCount input) input)
    have inside : digitCount input ≤ input.length := (List.takeWhile_sublist _).length_le
    rw [List.length_append, List.length_take, Nat.min_eq_left inside, point] at whole
    exact whole

/-- Whether no read up to the last one of a token meets the limit at a byte. -/
def Clear (limit : Option Nat) (input : List UInt8) (last : Nat) : Prop :=
  ∀ count, count ≤ last → count < input.length → limit ≠ some count

section Scanning

variable (fits : bytes.length < Size.max)

include fits

theorem eatWhile_leads_of_clear (accepts : UInt8 → Bool) {input : List UInt8} {last : Nat}
    (ahead : bytes.drop start = input) (clear : Clear limit input last)
    (within : (input.takeWhile accepts).length ≤ last) :
    Leads (StandsAt bytes limit start 0) (Buffer.eatWhile accepts)
      (.ok (input.takeWhile accepts).length)
      (StandsAt bytes limit start (input.takeWhile accepts).length) := by
  have below : ∀ count ≤ (input.takeWhile accepts).length, count < input.length →
      limit ≠ some (0 + count) := by
    intro count upto inside
    rw [Nat.zero_add]
    exact clear count (Nat.le_trans upto within) inside
  have eats := Buffer.eatWhile_leads fits accepts (drop_of_drop ahead 0) below
  rwa [Nat.zero_add] at eats

/-- Behind so many bytes of a number a point is taken only for the digits behind it; without any it
is given back. -/
theorem fraction_leads {length : Nat} {behind : List UInt8}
    (point : bytes[start + length]? = some '.'.toUInt8)
    (further : bytes.drop (start + (length + 1)) = behind)
    (clear : ∀ count, count ≤ digitCount behind + 1 → count < behind.length + 1 →
      limit ≠ some (length + count)) :
    Leads (StandsAt bytes limit start length)
      (do
        if (← Buffer.nextIf (· == '.'.toUInt8)).isSome then
          if (← Buffer.eatWhile ByteClass.isDigit) = 0 then Buffer.back : BufferM Slice Unit)
      (.ok ())
      (StandsAt bytes limit start
        (match digitCount behind with
        | 0 => length
        | digits + 1 => length + 1 + (digits + 1))) := by
  have takes : Leads (StandsAt bytes limit start length) (Buffer.nextIf (· == '.'.toUInt8))
      (.ok (some '.'.toUInt8)) (StandsAt bytes limit start (length + 1)) :=
    Buffer.nextIf_leads_some fits point (beq_self_eq_true _)
      (clear 0 (Nat.zero_le _) (Nat.succ_pos _))
  have eats : Leads (StandsAt bytes limit start (length + 1)) (Buffer.eatWhile ByteClass.isDigit)
      (.ok (digitCount behind)) (StandsAt bytes limit start (length + 1 + digitCount behind)) :=
    Buffer.eatWhile_leads fits ByteClass.isDigit further fun count within inside => by
      rw [Nat.add_assoc, Nat.add_comm 1]
      exact clear (count + 1) (Nat.succ_le_succ within) (Nat.succ_lt_succ inside)
  refine takes.bind (eats.bind ?_)
  cases digitCount behind with
  | zero => exact Buffer.back_leads
  | succ digits => exact .pure ()

variable (ahead : bytes.drop start = byte :: rest)

include ahead

theorem scanIdent_leads (clear : Clear limit (byte :: rest) (reach .ident (byte :: rest))) :
    Leads (StandsAt bytes limit start 0) scanIdent (.ok ())
      (StandsAt bytes limit start (lexemeLength .ident (byte :: rest))) :=
  (eatWhile_leads_of_clear fits isWord ahead clear (Nat.le_refl _)).bind (.pure _)

theorem scanNumber_leads (clear : Clear limit (byte :: rest) (reach .number (byte :: rest))) :
    Leads (StandsAt bytes limit start 0) scanNumber (.ok ())
      (StandsAt bytes limit start (lexemeLength .number (byte :: rest))) := by
  simp only [reach, lexemeLength] at clear ⊢
  cases found : fraction? (byte :: rest) with
  | none =>
    simp only [found] at clear ⊢
    have missing := no_point_of_fraction? found
    have follows := getElem?_of_drop ahead (digitCount (byte :: rest))
    refine (eatWhile_leads_of_clear fits _ ahead clear (Nat.le_refl _)).bind ?_
    refine (Buffer.nextIf_leads_none fits fun other there => ?_).bind (.pure _)
    have same := follows.symm.trans there
    refine ⟨?_, clear _ (Nat.le_refl _) (List.getElem?_eq_some_iff.1 same).1⟩
    rw [beq_eq_false_iff_ne]
    rintro rfl
    exact missing same
  | some count =>
    obtain ⟨behind, point, further, length, rfl⟩ := point_of_fraction? ahead found
    simp only [found] at clear ⊢
    refine (eatWhile_leads_of_clear fits _ ahead clear ?_).bind ?_
    · exact Nat.le_trans (Nat.le_add_right _ 1) (Nat.le_add_right _ _)
    have fraction := fraction_leads fits point further fun count within inside =>
      clear (digitCount (byte :: rest) + count) (by omega) (by omega)
    cases digits : digitCount behind with
    | zero => rwa [digits] at fraction
    | succ more => rwa [digits] at fraction

/-- A second equals sign is looked for only behind a first one. -/
theorem scanPunct_leads (clear : Clear limit (byte :: rest) (reach .punct (byte :: rest))) :
    Leads (StandsAt bytes limit start 0) scanPunct (.ok ())
      (StandsAt bytes limit start (lexemeLength .punct (byte :: rest))) := by
  have there : bytes[start + 0]? = some byte := getElem?_of_drop ahead 0
  have follows : bytes[start + (0 + 1)]? = rest[0]? := getElem?_of_drop ahead 1
  have first : limit ≠ some 0 := clear 0 (Nat.zero_le _) (Nat.succ_pos _)
  refine (Buffer.next_leads_byte fits there first).bind ?_
  by_cases equals : byte = '='.toUInt8
  · subst equals
    have below : rest ≠ [] → limit ≠ some 1 := fun more =>
      clear 1 (Nat.le_refl 1) (Nat.succ_lt_succ (List.length_pos_iff.2 more))
    rw [if_pos rfl]
    by_cases double : rest.head? = some '='.toUInt8
    · obtain ⟨behind, rfl⟩ := List.head?_eq_some_iff.1 double
      have takes : Leads (StandsAt bytes limit start 1) (Buffer.nextIf (· == '='.toUInt8))
          (.ok (some '='.toUInt8)) (StandsAt bytes limit start 2) :=
        Buffer.nextIf_leads_some fits follows (beq_self_eq_true _) (below (List.cons_ne_nil _ _))
      exact takes.bind (.pure ())
    · have leaves : Leads (StandsAt bytes limit start 1) (Buffer.nextIf (· == '='.toUInt8))
          (.ok none) (StandsAt bytes limit start 1) := by
        refine Buffer.nextIf_leads_none fits fun other found => ?_
        have second := follows.symm.trans found
        refine ⟨?_, below ?_⟩
        · rw [beq_eq_false_iff_ne]
          rintro rfl
          exact double (List.head?_eq_getElem?.trans second)
        · rintro rfl
          cases second
      have single : lexemeLength .punct ('='.toUInt8 :: rest) = 1 :=
        if_neg fun both => double (isEquality_iff.1 both).2
      rw [single]
      exact leaves.bind (.pure ())
  · have single : lexemeLength .punct (byte :: rest) = 1 :=
      if_neg fun both => equals (isEquality_iff.1 both).1
    rw [single, if_neg fun same => equals (Next.byte.inj same)]
    exact .pure ()

/-- Scanning a token takes as many bytes as its longest lexeme has. -/
theorem scan_leads (clear : Clear limit (byte :: rest) (reach kind (byte :: rest))) :
    Leads (StandsAt bytes limit start 0) (scan kind) (.ok ())
      (StandsAt bytes limit start (lexemeLength kind (byte :: rest))) := by
  cases kind with
  | ident => exact scanIdent_leads fits ahead clear
  | number => exact scanNumber_leads fits ahead clear
  | punct => exact scanPunct_leads fits ahead clear

end Scanning

section Steps

open Session (Has onBuffer onBuffer_leads modifyContext_leads)

variable {offset : Nat} {out : Array Token}

/-- The pending token is delivered with its text and where it starts. -/
theorem deliver_leads {length : Nat} {text : String}
    (encoded : text.toUTF8.data.toList = (bytes.drop start).take length) :
    Leads (Has (StandsAt bytes limit start length) out) (deliver kind) (.ok ())
      (Has (StandsAt bytes limit (start + length) 0) (out.push ⟨kind, text, start.toUInt64⟩)) := by
  have decoded : Utf8.decode ((bytes.drop start).take length).toArray = .ok text :=
    Utf8.decode_eq_ok_iff.2 (by rw [← encoded])
  refine .get_bind fun session held => ?_
  have starts : session.buffer.window.start = start.toUInt64 := by
    obtain ⟨⟨fetched, tracks⟩, -⟩ := held
    exact tracks.start
  rw [starts]
  refine Leads.weaken ?_ fun state same => same ▸ held
  exact (onBuffer_leads (Buffer.emitText_leads decoded)).bind (modifyContext_leads _)

section Starting

variable (fits : bytes.length < Size.max)

include fits

theorem eatSpace_leads {input : List UInt8} (ahead : bytes.drop offset = input)
    (gap : input.takeWhile ByteClass.isSpace = space) (clear : Clear limit input space.length) :
    Leads (Has (StandsAt bytes limit offset 0) out)
      (onBuffer (Buffer.eatWhile ByteClass.isSpace) : SessionM Slice (Array Token) Error Nat)
      (.ok space.length) (Has (StandsAt bytes limit offset space.length) out) := by
  subst gap
  exact onBuffer_leads (eatWhile_leads_of_clear fits _ ahead clear (Nat.le_refl _))

theorem scanStart_leads_none (ahead : bytes.drop offset = space)
    (blank : space.all ByteClass.isSpace) (clear : Clear limit space space.length) :
    Leads (Has (StandsAt bytes limit offset 0) out) scanStart (.ok none)
      (Has (StandsAt bytes limit (offset + space.length) 0) out) := by
  have gap := (takeWhile_space_all blank).1
  have ended : bytes[offset + space.length + 0]? = none := by
    rw [Nat.add_zero, getElem?_of_drop ahead]
    exact List.getElem?_eq_none_iff.2 (Nat.le_refl _)
  refine (eatSpace_leads fits ahead gap clear).bind ((onBuffer_leads Buffer.skip_leads).bind ?_)
  exact (onBuffer_leads (Buffer.peek_leads_eos fits ended)).bind (.pure none)

theorem scanStart_leads_some (ahead : bytes.drop offset = space ++ byte :: rest)
    (blank : space.all ByteClass.isSpace) (classified : classify byte = some kind)
    (clear : Clear limit (space ++ byte :: rest) space.length) :
    Leads (Has (StandsAt bytes limit offset 0) out) scanStart (.ok (some kind))
      (Has (StandsAt bytes limit (offset + space.length) 0) out) := by
  have gap := (takeWhile_space blank (isSpace_of_classify classified) rest).1
  have there : bytes[offset + space.length + 0]? = some byte := getElem?_behind ahead
  have first : limit ≠ some 0 := clear 0 (Nat.zero_le _)
    (List.length_pos_iff.2 (List.append_ne_nil_of_right_ne_nil _ (List.cons_ne_nil _ _)))
  refine (eatSpace_leads fits ahead gap clear).bind ((onBuffer_leads Buffer.skip_leads).bind ?_)
  refine (onBuffer_leads (Buffer.peek_leads_byte fits there first)).bind ?_
  simp only [classified]
  exact .pure (some kind)

theorem scanStart_leads_error (ahead : bytes.drop offset = space ++ byte :: rest)
    (blank : space.all ByteClass.isSpace) (solid : ByteClass.isSpace byte = false)
    (unclassified : classify byte = none)
    (clear : Clear limit (space ++ byte :: rest) space.length) :
    Leads (Has (StandsAt bytes limit offset 0) out) scanStart
      (.error (.unexpected byte (offset + space.length).toUInt64))
      (Has (StandsAt bytes limit (offset + space.length) 0) out) := by
  have gap := (takeWhile_space blank solid rest).1
  have there : bytes[offset + space.length + 0]? = some byte := getElem?_behind ahead
  have first : limit ≠ some 0 := clear 0 (Nat.zero_le _)
    (List.length_pos_iff.2 (List.append_ne_nil_of_right_ne_nil _ (List.cons_ne_nil _ _)))
  refine (eatSpace_leads fits ahead gap clear).bind ((onBuffer_leads Buffer.skip_leads).bind ?_)
  refine (onBuffer_leads (Buffer.peek_leads_byte fits there first)).bind ?_
  simp only [unclassified]
  refine .get_bind fun session held => ?_
  have stands : session.offset = (offset + space.length).toUInt64 := by
    obtain ⟨⟨fetched, tracks⟩, -⟩ := held
    unfold Session.offset Window.offset
    rw [tracks.start, tracks.consumed]
    exact UInt64.add_zero _
  rw [stands]
  exact (Leads.throw _).weaken fun state same => same ▸ held

theorem start_leads_halt (ahead : bytes.drop offset = space)
    (blank : space.all ByteClass.isSpace) (clear : Clear limit space space.length) :
    Leads (Has (StandsAt bytes limit offset 0) out) (machine .start) (.ok .halt)
      (Has (StandsAt bytes limit (offset + space.length) 0) out) :=
  (scanStart_leads_none fits ahead blank clear).bind (.pure _)

theorem start_leads_token (ahead : bytes.drop offset = space ++ byte :: rest)
    (blank : space.all ByteClass.isSpace) (classified : classify byte = some kind)
    (clear : Clear limit (space ++ byte :: rest) space.length) :
    Leads (Has (StandsAt bytes limit offset 0) out) (machine .start)
      (.ok (.proceed (.token kind))) (Has (StandsAt bytes limit (offset + space.length) 0) out) :=
  (scanStart_leads_some fits ahead blank classified clear).bind (.pure _)

theorem start_leads_error (ahead : bytes.drop offset = space ++ byte :: rest)
    (blank : space.all ByteClass.isSpace) (solid : ByteClass.isSpace byte = false)
    (unclassified : classify byte = none)
    (clear : Clear limit (space ++ byte :: rest) space.length) :
    Leads (Has (StandsAt bytes limit offset 0) out) (machine .start)
      (.error (.unexpected byte (offset + space.length).toUInt64))
      (Has (StandsAt bytes limit (offset + space.length) 0) out) :=
  (scanStart_leads_error fits ahead blank solid unclassified clear).bind_error

end Starting

/-- A step at a lexeme that no longer one begins with delivers it. -/
theorem token_leads (fits : bytes.length < Size.max) {lexeme : List UInt8} {text : String}
    (ahead : bytes.drop start = lexeme ++ rest) (taken : Lexeme kind lexeme)
    (longest : ∀ other bytes, Lexeme other bytes → bytes <+: lexeme ++ rest →
      bytes.length ≤ lexeme.length)
    (encoded : text.toUTF8.data.toList = lexeme)
    (clear : Clear limit (lexeme ++ rest) (reach kind (lexeme ++ rest))) :
    Leads (Has (StandsAt bytes limit start 0) out) (machine (.token kind)) (.ok (.proceed .start))
      (Has (StandsAt bytes limit (start + lexeme.length) 0)
        (out.push ⟨kind, text, start.toUInt64⟩)) := by
  have length := taken.lexemeLength_eq longest
  have spelled : text.toUTF8.data.toList = (bytes.drop start).take lexeme.length := by
    rw [ahead, List.take_left, encoded]
  obtain ⟨byte, more, rfl⟩ := List.exists_cons_of_ne_nil taken.ne_nil
  have scans : Leads (StandsAt bytes limit start 0) (scan kind) (.ok ())
      (StandsAt bytes limit start (lexemeLength kind (byte :: more ++ rest))) :=
    scan_leads fits ahead clear
  rw [length] at scans
  exact (onBuffer_leads scans).bind ((deliver_leads spelled).bind (.pure _))

end Steps

end Lexing.Expression
