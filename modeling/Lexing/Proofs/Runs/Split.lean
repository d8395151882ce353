import Mathlib.Data.List.SplitBy
import Lexing.Grammar.Runs
import Lexing.Proofs.Buffer.Ceiling
import Lexing.Proofs.Machine.Run

/-!
# Runs of equal bytes are cut as they are

Over bytes in memory the machine delivers the maximal runs of equal bytes, as `List.splitBy` cuts
them. A run ends before a different byte, which has to be read to see it: so under a ceiling every
run but the last one has to be shorter than the ceiling, and the last one may be as long (`Fit`).
At the first run that is longer the machine fails (`CutShort`), and no byte is lost.
-/

set_option autoImplicit false

namespace Lexing.Runs

open Buffer (StandsAt RefusedAt RoomFor)
open Operation (Leads)
open Session (Has onBuffer_leads modifyContext_leads)
open Machine (runFrom_of_proceed runFrom_of_halt runFrom_of_error)

/-- The first run of equal bytes has all bytes that are like the first one, up to another byte. -/
theorem splitBy_cons (byte : UInt8) (rest : List UInt8) :
    (byte :: rest).splitBy (· == ·) =
      (byte :: rest.takeWhile (· == byte)) :: (rest.dropWhile (· == byte)).splitBy (· == ·) := by
  have same : ∀ other ∈ byte :: rest.takeWhile (· == byte), other = byte := by
    intro other member
    rcases List.mem_cons.1 member with rfl | later
    · rfl
    · exact eq_of_beq (List.all_eq_true.1 List.all_takeWhile other later)
  have whole : byte :: rest =
      (byte :: rest.takeWhile (· == byte)) ++ rest.dropWhile (· == byte) := by
    rw [List.cons_append, List.takeWhile_append_dropWhile]
  have alike : (byte :: rest.takeWhile (· == byte)).IsChain fun x y => (x == y) = true := by
    apply List.Pairwise.isChain
    apply List.pairwise_of_forall_mem_list
    intro x first y second
    rw [same x first, same y second]
    exact beq_self_eq_true byte
  rw [whole, List.splitBy_append, List.splitBy_of_isChain (List.cons_ne_nil _ _) alike]
  · rfl
  · intro x last y head
    have ended := List.head?_dropWhile_not (· == byte) rest
    rw [Option.mem_def.1 head] at ended
    rw [same x (List.mem_of_mem_getLast? last)]
    simpa [BEq.comm] using ended

/-- Whether a run ends within the ceiling: it is shorter, or it is as long and no other follows. -/
def EndsWithin (limit : Option Nat) (run : List UInt8) (later : List (List UInt8)) : Prop :=
  ∀ bound, limit = some bound → run.length < bound ∨ run.length = bound ∧ later = []

/-- Whether all runs end within the ceiling: they are shorter than it, and the last one may be as
long. -/
def Fit (limit : Option Nat) (runs : List (List UInt8)) : Prop :=
  ∀ bound, limit = some bound →
    (∀ run ∈ runs.dropLast, run.length < bound) ∧ ∀ run ∈ runs.getLast?, run.length ≤ bound

/-- The first run that does not end within the ceiling, between the runs before and after it. -/
structure CutShort (limit : Option Nat) (bound : Nat) (before : List (List UInt8))
    (run : List UInt8) (later : List (List UInt8)) : Prop where
  limit : limit = some bound
  before : ∀ earlier ∈ before, earlier.length < bound
  run : bound < run.length ∨ bound = run.length ∧ later ≠ []

theorem fit_nil (limit : Option Nat) : Fit limit [] := by
  intro bound present
  constructor
  · exact nofun
  · exact nofun

theorem fit_cons {limit : Option Nat} {run : List UInt8} {later : List (List UInt8)} :
    Fit limit (run :: later) ↔ EndsWithin limit run later ∧ Fit limit later := by
  unfold Fit EndsWithin
  rw [← forall_and]
  apply forall_congr'
  intro bound
  rw [← imp_and]
  apply imp_congr_right
  intro present
  cases later with
  | nil => simp [Nat.le_iff_lt_or_eq]
  | cons next more => simp [and_assoc]

/-- Where a run does not end within the ceiling, there is one and the run is cut by it. -/
theorem cutShort_of_not_endsWithin {limit : Option Nat} {run : List UInt8}
    {later : List (List UInt8)} (long : ¬ EndsWithin limit run later) :
    ∃ bound, CutShort limit bound [] run later := by
  cases limit with
  | none => exact absurd nofun long
  | some bound =>
    refine ⟨bound, rfl, nofun, ?_⟩
    by_contra short
    apply long
    rintro other ⟨⟩
    rw [not_or, not_and, not_not] at short
    obtain ⟨upto, ends⟩ := short
    rcases Nat.lt_or_eq_of_le (Nat.le_of_not_lt upto) with less | same
    · exact Or.inl less
    · exact Or.inr ⟨same, ends same.symm⟩

section Steps

variable {bytes : List UInt8} {limit : Option Nat} {bound offset : Nat} {byte : UInt8}
  {rest : List UInt8} {out : Array (Array UInt8)}

theorem start_leads_halt (fits : bytes.length < Size.max) (ended : bytes.drop offset = []) :
    Leads (Has (StandsAt bytes limit offset 0) out) (machine .start) (.ok .halt)
      (Has (StandsAt bytes limit offset 0) out) := by
  have nothing : bytes[offset + 0]? = none := by
    rw [← List.head?_drop, Nat.add_zero, ended, List.head?_nil]
  exact (onBuffer_leads (Buffer.next_leads_eos fits nothing)).bind (.pure _)

/-- The first byte of a run is read; there is always room for one. -/
theorem start_leads_run (fits : bytes.length < Size.max) (ahead : bytes.drop offset = byte :: rest)
    (below : limit ≠ some 0) :
    Leads (Has (StandsAt bytes limit offset 0) out) (machine .start)
      (.ok (.proceed (.inRun byte))) (Has (StandsAt bytes limit offset 1) out) := by
  have there : bytes[offset + 0]? = some byte := by
    rw [← List.head?_drop, Nat.add_zero, ahead, List.head?_cons]
  exact (onBuffer_leads (Buffer.next_leads_byte fits there below)).bind (.pure _)

theorem drop_behind (ahead : bytes.drop offset = byte :: rest) :
    bytes.drop (offset + 1) = rest := by
  rw [← List.drop_drop, ahead]
  rfl

/-- Behind a run is what follows the bytes that are like its first one. -/
theorem drop_behind_run (ahead : bytes.drop offset = byte :: rest) :
    bytes.drop (offset + (1 + (rest.takeWhile (· == byte)).length)) =
      rest.dropWhile (· == byte) := by
  have whole := congrArg (List.drop (rest.takeWhile (· == byte)).length)
    (List.takeWhile_append_dropWhile (p := (· == byte)) (l := rest))
  rw [List.drop_left] at whole
  rw [← Nat.add_assoc, ← List.drop_drop, drop_behind ahead, ← whole]

/-- A run that has room is delivered whole. -/
theorem inRun_leads (fits : bytes.length < Size.max) (ahead : bytes.drop offset = byte :: rest)
    (room : RoomFor limit 1 (rest.takeWhile (· == byte)).length rest.length) :
    Leads (Has (StandsAt bytes limit offset 1) out) (machine (.inRun byte))
      (.ok (.proceed .start))
      (Has (StandsAt bytes limit (offset + (1 + (rest.takeWhile (· == byte)).length)) 0)
        (out.push (byte :: rest.takeWhile (· == byte)).toArray)) := by
  have run : (bytes.drop offset).take (1 + (rest.takeWhile (· == byte)).length) =
      byte :: rest.takeWhile (· == byte) := by
    have taken := List.prefix_iff_eq_take.1 (List.takeWhile_prefix (l := rest) (· == byte))
    rw [ahead, Nat.add_comm, List.take_succ_cons, ← taken]
  have eats := Buffer.eatWhile_leads_of_room fits (· == byte) (drop_behind ahead) room
  refine (onBuffer_leads eats).bind ((onBuffer_leads (Buffer.emit_leads run)).bind ?_)
  exact (modifyContext_leads _).bind (.pure _)

/-- A run that has no room is not delivered, and the byte that is too many is held. -/
theorem inRun_leads_refused (fits : bytes.length < Size.max)
    (ahead : bytes.drop offset = byte :: rest) (positive : 0 < bound)
    (tight : ¬ RoomFor (some bound) 1 (rest.takeWhile (· == byte)).length rest.length) :
    Leads (Has (StandsAt bytes (some bound) offset 1) out) (machine (.inRun byte))
      (.error (.allocationFailure (Size.double bound))) (Has (RefusedAt bytes bound offset) out) :=
  (onBuffer_leads
    (Buffer.eatWhile_leads_of_no_room fits (· == byte) (drop_behind ahead) positive
      tight)).bind_error

/-- The first run of what is ahead has room exactly if it ends within the ceiling. -/
theorem roomFor_iff :
    RoomFor limit 1 (rest.takeWhile (· == byte)).length rest.length ↔
      EndsWithin limit (byte :: rest.takeWhile (· == byte))
        ((rest.dropWhile (· == byte)).splitBy (· == ·)) := by
  have whole := congrArg List.length
    (List.takeWhile_append_dropWhile (p := (· == byte)) (l := rest))
  rw [List.length_append] at whole
  have none : (rest.dropWhile (· == byte)).splitBy (· == ·) = [] ↔
      (rest.dropWhile (· == byte)).length = 0 :=
    List.splitBy_eq_nil.trans List.length_eq_zero_iff.symm
  unfold RoomFor EndsWithin
  simp only [List.length_cons, none]
  apply forall_congr'
  intro bound
  apply imp_congr_right
  intro present
  omega

end Steps

def delivered (context : Array (Array UInt8)) : List (List UInt8) :=
  context.toList.map Array.toList

theorem delivered_push (context : Array (Array UInt8)) (run : List UInt8) :
    delivered (context.push run.toArray) = delivered context ++ [run] := by
  simp [delivered]

/-- What the machine comes to from an offset at which these runs begin. -/
structure Splits (bytes : List UInt8) (limit : Option Nat) (offset steps : Nat)
    (out runs : List (List UInt8))
    (result : Result LexError (Session Slice (Array (Array UInt8))) Nat) : Prop where
  /-- It halts after two steps for each run and one more, and has delivered them all. -/
  whole : Fit limit runs → result.outcome = .ok (steps + (2 * runs.length + 1)) ∧
    delivered result.state.context = out ++ runs
  /-- It fails at the first run that does not end within the ceiling. -/
  short : ¬ Fit limit runs → ∃ bound before run later,
    runs = before ++ run :: later ∧ CutShort limit bound before run later ∧
      result.outcome = .error (.allocationFailure (Size.double bound)) ∧
      delivered result.state.context = out ++ before ∧
      RefusedAt bytes bound (offset + before.flatten.length) result.state.buffer

section Running

variable {bytes : List UInt8} {limit : Option Nat} {offset steps : Nat} {rest : List UInt8}
  {out later : List (List UInt8)} {run : List UInt8}
  {result : Result LexError (Session Slice (Array (Array UInt8))) Nat}

/-- A run that ends within the ceiling is delivered before the others. -/
theorem Splits.cons (ends : EndsWithin limit run later)
    (splits : Splits bytes limit (offset + run.length) (steps + 1 + 1) (out ++ [run]) later
      result) :
    Splits bytes limit offset steps out (run :: later) result := by
  constructor
  · intro fit
    obtain ⟨outcome, context⟩ := splits.whole (fit_cons.1 fit).2
    have taken : steps + 1 + 1 + (2 * later.length + 1) =
        steps + (2 * (run :: later).length + 1) := by
      rw [List.length_cons]
      omega
    rw [outcome, context, taken, List.append_assoc, List.singleton_append]
    exact ⟨rfl, rfl⟩
  · intro unfit
    have others : ¬ Fit limit later := fun fit => unfit (fit_cons.2 ⟨ends, fit⟩)
    obtain ⟨bound, before, long, after, rfl, cut, outcome, context, refused⟩ := splits.short others
    refine ⟨bound, run :: before, long, after, rfl, ?_, outcome, ?_, ?_⟩
    · refine { cut with before := List.forall_mem_cons.2 ⟨?_, cut.before⟩ }
      rcases ends bound cut.limit with short | ⟨-, none⟩
      · exact short
      · exact absurd none (List.append_ne_nil_of_right_ne_nil _ (List.cons_ne_nil _ _))
    · rw [context, List.append_assoc, List.singleton_append]
    · rwa [List.flatten_cons, List.length_append, ← Nat.add_assoc]

/-- The induction is on the runs that are ahead: each takes a step that reads its first byte and a
step that reads the others and delivers it. -/
theorem runFrom_splits (fits : bytes.length < Size.max) {fuel : Nat}
    {session : Session Slice (Array (Array UInt8))} {context : Array (Array UInt8)}
    (ahead : bytes.drop offset = rest)
    (stands : Has (StandsAt bytes limit offset 0) context session)
    (enough : 2 * (rest.splitBy (· == ·)).length < fuel) (steps : Nat) (log : Array Event) :
    ∃ result, machine.runFrom fuel steps log .start session = some result ∧
      Splits bytes limit offset steps (delivered context) (rest.splitBy (· == ·)) result := by
  generalize runs : rest.splitBy (· == ·) = all at enough ⊢
  induction all generalizing offset rest fuel steps log session context with
  | nil =>
    have nothing : rest = [] := List.splitBy_eq_nil.1 runs
    obtain ⟨outcome, left⟩ := start_leads_halt fits (ahead.trans nothing) session stands
    obtain ⟨more, rfl⟩ := Nat.exists_eq_add_of_lt enough
    obtain ⟨events, ended⟩ := runFrom_of_halt outcome
    refine ⟨_, ended, ?_, ?_⟩
    · intro _
      exact ⟨rfl, by rw [left.2, List.append_nil]⟩
    · exact fun unfit => absurd (fit_nil limit) unfit
  | cons run later ih =>
    obtain ⟨byte, rest, rfl⟩ : ∃ byte more, rest = byte :: more := by
      apply List.exists_cons_of_ne_nil
      rintro rfl
      cases runs
    rw [splitBy_cons] at runs
    obtain ⟨rfl, further⟩ := List.cons.inj runs
    rw [List.length_cons] at enough
    obtain ⟨more, rfl⟩ : ∃ more, fuel = more + 2 := ⟨fuel - 2, by omega⟩
    have below : limit ≠ some 0 := by
      rintro rfl
      exact absurd stands.1.bound_pos (Nat.lt_irrefl 0)
    obtain ⟨found, between⟩ := start_leads_run fits ahead below session stands
    rw [runFrom_of_proceed found]
    by_cases ends : EndsWithin limit (byte :: rest.takeWhile (· == byte)) later
    · have room : RoomFor limit 1 (rest.takeWhile (· == byte)).length rest.length := by
        rw [roomFor_iff, further]
        exact ends
      obtain ⟨taken, left⟩ := inRun_leads fits ahead room _ between
      rw [runFrom_of_proceed taken]
      have fewer : 2 * later.length < more := by omega
      obtain ⟨result, ran, splits⟩ := ih (drop_behind_run ahead) left _ _ further fewer
      refine ⟨result, ran, Splits.cons ends ?_⟩
      rwa [List.length_cons, Nat.add_comm _ 1, ← delivered_push]
    · obtain ⟨bound, cut⟩ := cutShort_of_not_endsWithin ends
      obtain rfl := cut.limit
      have tight : ¬ RoomFor (some bound) 1 (rest.takeWhile (· == byte)).length rest.length := by
        rw [roomFor_iff, further]
        exact ends
      have positive : 0 < bound := stands.1.bound_pos
      obtain ⟨failed, refused⟩ := inRun_leads_refused fits ahead positive tight _ between
      obtain ⟨events, ended⟩ := runFrom_of_error failed
      refine ⟨_, ended, ?_, ?_⟩
      · exact fun fit => absurd (fit_cons.1 fit).1 ends
      · intro _
        exact ⟨bound, [], _, later, rfl, cut, rfl, by rw [refused.2, List.append_nil], refused.1⟩

/-- Where a run is cut off, the bytes up to there are the runs before it and what is left of it. -/
theorem take_of_splitBy {before : List (List UInt8)} {bound : Nat}
    (runs : bytes.splitBy (· == ·) = before ++ run :: later) (upto : bound ≤ run.length) :
    (bytes.drop before.flatten.length).take bound = run.take bound ∧
      bytes.take (before.flatten.length + bound) = before.flatten ++ run.take bound := by
  have whole : bytes = before.flatten ++ (run ++ later.flatten) := by
    have joined := List.flatten_splitBy (· == ·) bytes
    rw [runs, List.flatten_append, List.flatten_cons] at joined
    exact joined.symm
  have cut : (bytes.drop before.flatten.length).take bound = run.take bound := by
    rw [whole, List.drop_left, List.take_append_of_le_length upto]
  refine ⟨cut, ?_⟩
  rw [List.take_add, cut]
  conv => lhs; rw [whole, List.take_left]

theorem length_le_length_flatten {runs : List (List UInt8)} (filled : [] ∉ runs) :
    runs.length ≤ runs.flatten.length := by
  induction runs with
  | nil => exact Nat.le_refl 0
  | cons run later ih =>
    rw [List.mem_cons, not_or] at filled
    have positive := List.length_pos_iff.2 (Ne.symm filled.1)
    have others := ih filled.2
    rw [List.length_cons, List.flatten_cons, List.length_append]
    omega

/-- There are no more runs than bytes. -/
theorem length_splitBy_le (bytes : List UInt8) :
    (bytes.splitBy (· == ·)).length ≤ bytes.length := by
  have upto := length_le_length_flatten (List.nil_notMem_splitBy (· == ·) bytes)
  rwa [List.flatten_splitBy] at upto

/-- Over bytes in memory, whatever the initial capacity and with a ceiling or without, a run comes
to its end. It halts after two steps for each maximal run of equal bytes and one more, with all of
them delivered, exactly if each is shorter than the ceiling, the last one at most as long. Else it
fails at the first run that does not end within the ceiling: the runs before it are delivered, the
token is filled with its first bytes, and the byte after them is held, so that these are all the
bytes that the source has handed out. -/
theorem run_splits {capacity memory : Nat} {buffer : Buffer Slice}
    (fits : 2 * bytes.length < Size.max) (granted : GrantsGrowth memory limit bytes.length)
    (opened : Buffer.openWith ⟨capacity, limit⟩ memory (Slice.ofList bytes) = .ok buffer) :
    let runs := bytes.splitBy (· == ·)
    ∃ result, machine.run .start ⟨buffer, #[]⟩ = some result ∧
      (result.outcome = .ok (2 * runs.length + 1) ∧ delivered result.state.context = runs ↔
        Fit limit runs) ∧
      (¬ Fit limit runs → ∃ bound before run later byte,
        runs = before ++ run :: later ∧ CutShort limit bound before run later ∧
          result.outcome = .error (.allocationFailure (2 * bound)) ∧
          delivered result.state.context = before ∧
          result.state.buffer.window.pending.toList = run.take bound ∧
          result.state.buffer.window.held = some byte ∧
          before.flatten ++ run.take bound ++ [byte] =
            bytes.take result.state.buffer.source.position) := by
  intro runs
  have inside : bytes.length < Size.max := by omega
  have few : runs.length ≤ bytes.length := length_splitBy_le bytes
  have enough : 2 * runs.length < Size.max := by omega
  have stands : Has (StandsAt bytes limit 0 0) (#[] : Array (Array UInt8)) ⟨buffer, #[]⟩ :=
    ⟨⟨0, Buffer.tracks_of_openWith granted opened⟩, rfl⟩
  obtain ⟨result, ran, splits⟩ :=
    runFrom_splits inside List.drop_zero stands enough 0 #[.started _]
  refine ⟨result, ran, ⟨?_, ?_⟩, ?_⟩
  · rintro ⟨halted, -⟩
    by_contra unfit
    obtain ⟨_, _, _, _, -, -, failed, -⟩ := splits.short unfit
    cases halted.symm.trans failed
  · intro fit
    obtain ⟨outcome, context⟩ := splits.whole fit
    rw [Nat.zero_add] at outcome
    exact ⟨outcome, context⟩
  · intro unfit
    obtain ⟨bound, before, run, later, cut, short, outcome, context, refused⟩ := splits.short unfit
    obtain ⟨byte, held, there⟩ := refused.held_eq
    rw [refused.double_eq fits] at outcome
    have long : bound ≤ run.length := by
      rcases short.run with more | ⟨same, -⟩
      · exact Nat.le_of_lt more
      · exact Nat.le_of_eq same
    obtain ⟨pending, fetched⟩ := take_of_splitBy cut long
    refine ⟨bound, before, run, later, byte, cut, short, outcome, context, ?_, held, ?_⟩
    · rw [refused.pending_eq, Nat.zero_add, pending]
    · rw [refused.position_eq, List.take_add_one, there, Nat.zero_add, fetched]
      rfl

/-- Two bytes fill the token, and a third one is no part of their run: it is held. -/
theorem run_splits_cramped :
    let first : Buffer Slice := ⟨Window.empty 1 (some 2) (1 <<< 48), .ofList [97, 98, 98, 99]⟩
    Buffer.openWith ⟨1, some 2⟩ (1 <<< 48) (Slice.ofList [97, 98, 98, 99]) = .ok first ∧
      ¬ Fit (some 2) [[97], [98, 98], [99]] ∧
      ∃ result, machine.run .start ⟨first, #[]⟩ = some result ∧
        result.outcome = .error (.allocationFailure 4) ∧
        delivered result.state.context = [[97]] ∧
        result.state.buffer.window.held = some 99 := by
  intro first
  have opened : Buffer.openWith ⟨1, some 2⟩ (1 <<< 48) (Slice.ofList [97, 98, 98, 99]) =
      .ok first := rfl
  have granted : GrantsGrowth (1 <<< 48) (some 2) 4 := grantsGrowth_of_lt _ (by decide)
  have unfit : ¬ Fit (some 2) [[97], [98, 98], [99]] := fun fit =>
    absurd ((fit 2 rfl).1 [98, 98] (by decide)) (by decide)
  obtain ⟨result, ran, -, short⟩ := run_splits (by decide) granted opened
  obtain ⟨bound, before, run, later, byte, cut, short, outcome, context, -, held, joined⟩ :=
    short unfit
  cases short.limit
  have cut : [[97], [98, 98], [99]] = before ++ run :: later := cut
  rcases before with _ | ⟨one, _ | ⟨two, more⟩⟩
  · cases cut
    exact absurd short.run (by decide)
  · cases cut
    have last := congrArg (·[3]?) joined
    simp only [List.getElem?_take] at last
    split at last
    · cases last
      exact ⟨opened, unfit, result, ran, outcome, context, held⟩
    · cases last
  · obtain ⟨same, -⟩ := List.cons.inj (List.cons.inj cut).2
    have earlier := short.before two (List.mem_cons_of_mem one List.mem_cons_self)
    rw [← same] at earlier
    exact absurd earlier (by decide)

end Running

end Lexing.Runs
