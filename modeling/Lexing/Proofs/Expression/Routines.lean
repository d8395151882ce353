import Lexing.Proofs.Buffer.Abreast
import Lexing.Proofs.Expression.Safety
import Lexing.Proofs.Machine.Routines
import Lexing.Proofs.Machine.Sources

/-!
# States that are data and states that are routines

The two machines of the expression grammar are one machine under two sets of names
(`routineMachine_renames`), so on one buffer everything that comes of their runs is the same. On
buffers that differ in capacity their steps agree, growth apart, and so do their runs, which come to
their end from every state (`machines_agree`).
-/

set_option autoImplicit false

namespace Lexing.Expression

open Buffer (Abreast SameButCapacity Stands Supplied)
open Operation (Ensures)
open ByteSource (Streams)
open Machine (Renames)
open Result (Agree)
open Session (Over Has onBuffer onBuffer_agree)

def Routine.ofState : State → Routine
  | .start => .start
  | .token kind => .ofKind kind

variable {σ : Type} [ByteSource σ]

/-- The routines are the states under other names. -/
theorem routineMachine_renames :
    Renames Routine.ofState (machine (σ := σ)) (routineMachine (σ := σ)) := by
  intro state
  cases state with
  | start =>
    have same (kind? : Option Kind) : Transition.ofOption (kind?.map Routine.ofKind) =
        Transition.map Routine.ofState (.ofOption (kind?.map State.token)) := by
      cases kind? with
      | none => rfl
      | some kind => rfl
    simp only [routineMachine, Machine.ofRoutines, Routine.ofState, routine, machine, map_bind,
      map_pure, same]
  | token kind =>
    cases kind with
    | ident =>
      simp only [routineMachine, Machine.ofRoutines, Routine.ofState, Routine.ofKind, routine,
        machine, map_bind, map_pure, scan]
      rfl
    | number =>
      simp only [routineMachine, Machine.ofRoutines, Routine.ofState, Routine.ofKind, routine,
        machine, map_bind, map_pure, scan]
      rfl
    | punct =>
      simp only [routineMachine, Machine.ofRoutines, Routine.ofState, Routine.ofKind, routine,
        machine, map_bind, map_pure, scan]
      rfl

/-- A step in a token state that does not fail goes on between tokens. -/
theorem token_proceeds (kind : Kind) :
    Ensures (fun _ => True) (machine (σ := σ) (.token kind))
      (fun transition _ => transition = .proceed .start) (fun _ _ => True) :=
  (Ensures.trivial _).bind fun _ => (Ensures.trivial _).bind fun _ => Ensures.pure fun _ _ => rfl

section Agreement

variable {bytes : List UInt8} {limit : Option Nat} {memory : Nat}
  {left right : Session σ (Array Token)}

/-- The pending token of both is the same text, or of neither a text. -/
theorem deliver_agree (kind : Kind) (sessions : Over (Abreast bytes limit memory) left right) :
    Agree (Over (Abreast bytes limit memory)) apartFromGrowth (deliver kind left)
      (deliver kind right) := by
  refine Agree.get_bind ?_
  rw [sessions.buffer.alike.start]
  refine (onBuffer_agree (Buffer.emitText_abreast sessions.buffer) sessions.context).bind ?_
  exact fun text left right sessions => Session.modifyContext_agree _ sessions

variable (fits : bytes.length < Size.max)

include fits

theorem scan_agree (kind : Kind) {left right : Buffer σ}
    (abreast : Abreast bytes limit memory left right) :
    Agree (Abreast bytes limit memory) apartFromGrowth (scan kind left) (scan kind right) := by
  cases kind with
  | ident => exact (Buffer.eatWhile_abreast abreast fits _).bind fun _ _ _ abreast => .pure abreast
  | number =>
    refine (Buffer.eatWhile_abreast abreast fits _).bind fun _ left right abreast => ?_
    refine (Buffer.nextIf_abreast abreast fits _).bind fun point? left right abreast => ?_
    cases point? with
    | none => exact .pure abreast
    | some point =>
      refine (Buffer.eatWhile_abreast abreast fits _).bind fun count left right abreast => ?_
      by_cases none : count = 0
      · simp only [if_pos none]
        exact Buffer.back_abreast abreast
      · simp only [if_neg none]
        exact .pure abreast
  | punct =>
    refine (Buffer.next_abreast abreast fits).bind fun next left right abreast => ?_
    by_cases equals : next = .byte '='.toUInt8
    · simp only [if_pos equals]
      exact (Buffer.nextIf_abreast abreast fits _).bind fun _ _ _ abreast => .pure abreast
    · simp only [if_neg equals]
      exact .pure abreast

theorem scanStart_agree (sessions : Over (Abreast bytes limit memory) left right) :
    Agree (Over (Abreast bytes limit memory)) apartFromGrowth (scanStart left)
      (scanStart right) := by
  refine (onBuffer_agree (Buffer.eatWhile_abreast sessions.buffer fits _) sessions.context).bind
    fun _ left right sessions => ?_
  refine (onBuffer_agree (Buffer.skip_abreast sessions.buffer) sessions.context).bind
    fun _ left right sessions => ?_
  refine (onBuffer_agree (Buffer.peek_abreast sessions.buffer fits) sessions.context).bind
    fun next left right sessions => ?_
  cases next with
  | eos => exact .pure sessions
  | byte byte =>
    cases classified : classify byte with
    | some kind =>
      simp only [classified]
      exact .pure sessions
    | none =>
      simp only [classified]
      refine Agree.get_bind ⟨?_, sessions, rfl⟩
      have offset : left.offset = right.offset := sessions.buffer.alike.offset
      rw [offset]
      rfl

/-- The steps of the machine agree on buffers that differ in capacity. -/
theorem machine_agrees : Machine.Agrees (Over (Abreast bytes limit memory)) apartFromGrowth
    (machine (σ := σ)) machine where
  offset _ _ sessions := sessions.buffer.alike.offset
  step state left right sessions := by
    cases state with
    | start =>
      exact (scanStart_agree fits sessions).bind fun _ left right sessions => .pure sessions
    | token kind =>
      refine (onBuffer_agree (scan_agree fits kind sessions.buffer) sessions.context).bind ?_
      intro _ left right sessions
      exact (deliver_agree kind sessions).bind fun _ left right sessions => .pure sessions

omit fits in
/-- A run from any state comes to its end. A step in a token state may not take a byte, but after it
the machine is between tokens. -/
theorem run_returns (fits : 2 * bytes.length + 1 < Size.max) {buffer : Buffer σ}
    (supplied : Supplied bytes limit memory buffer) (state : State) (out : Array Token) :
    ∃ result, machine.run state ⟨buffer, out⟩ = some result := by
  have inside : bytes.length < Size.max := by omega
  obtain ⟨start, carries⟩ := supplied.1
  cases state with
  | start =>
    have enough : 2 * (bytes.length - start) < Size.max := by omega
    obtain ⟨result, -, run, -⟩ :=
      runFrom_of_carries inside ⟨buffer, out⟩ carries enough 0 #[.started _]
    exact ⟨result, run⟩
  | token kind =>
    have abreast := Buffer.abreast_of_sameButCapacity (Buffer.SameButCapacity.refl buffer) supplied
      supplied
    have taken := (machine_agrees inside).step (.token kind) ⟨buffer, out⟩ _ ⟨abreast, rfl⟩
    have proceeds := token_proceeds kind ⟨buffer, out⟩ trivial
    obtain ⟨later, carries⟩ := taken.state.buffer.left.1
    have fuel : Size.max = (Size.max - 1) + 1 := by decide
    rw [Machine.run, Machine.runFor, fuel]
    rcases step : machine (.token kind) ⟨buffer, out⟩ with ⟨error | transition, between, events⟩
    · obtain ⟨reported, run⟩ := Machine.runFrom_of_error (congrArg Result.outcome step)
      exact ⟨_, run⟩
    · rw [step] at proceeds carries
      cases proceeds
      rw [Machine.runFrom_of_proceed (congrArg Result.outcome step), step]
      have enough : 2 * (bytes.length - later) < Size.max - 1 := by omega
      obtain ⟨result, -, run, -⟩ := runFrom_of_carries inside between carries enough 1 _
      exact ⟨result, run⟩

omit fits in
/-- Runs on buffers that differ in capacity agree, growth apart. -/
theorem run_abreast (fits : 2 * bytes.length + 1 < Size.max) {left right : Buffer σ}
    (abreast : Abreast bytes limit memory left right) (state : State) (out : Array Token) :
    ∃ one two, machine.run state ⟨left, out⟩ = some one ∧
      machine.run state ⟨right, out⟩ = some two ∧
      Agree (Over (Abreast bytes limit memory)) apartFromGrowth one two := by
  have inside : bytes.length < Size.max := by omega
  obtain ⟨one, ran⟩ := run_returns fits abreast.left state out
  obtain ⟨two, ranToo⟩ := run_returns fits abreast.right state out
  have sessions : Over (Abreast bytes limit memory) (⟨left, out⟩ : Session σ (Array Token))
      ⟨right, out⟩ := ⟨abreast, rfl⟩
  have agree := Machine.runFor_agree (machine_agrees inside) Size.max state sessions
  rw [Machine.run] at ran ranToo
  rw [ran, ranToo] at agree
  cases agree with
  | some agree => exact ⟨one, two, ran, ranToo, agree⟩

end Agreement

theorem supplied_of_used {bytes : List UInt8} {source : σ} {config : Config} {memory : Nat}
    {first buffer : Buffer σ} (fits : bytes.length < Size.max) (streams : Streams bytes source)
    (granted : GrantsGrowth memory config.limit bytes.length)
    (opened : Buffer.openWith config memory source = .ok first) (used : Buffer.Used first buffer) :
    Supplied bytes config.limit memory buffer :=
  ⟨carries_of_used fits streams granted opened used, (used.bounded opened).memory⟩

/-- The machine of states that are data and the machine of routines do the same.

On one and the same session, over any source and from any state, everything that comes of their runs
is the same: the outcome, the session and all that is reported. On two buffers that were opened over
one source with different capacities and the same ceiling, used in any way and brought to differ in
capacity alone, both runs come to their end if growth is granted. They have the same outcome and the
same tokens, report the same apart from growth and leave buffers that differ in capacity alone; and
if the capacities were the same, then all is. -/
theorem machines_agree :
    (∀ (state : State) (session : Session σ (Array Token)),
      routineMachine.run (.ofState state) session = machine.run state session) ∧
      ∀ {bytes : List UInt8} {source : σ} {limit : Option Nat} {memory a b : Nat}
        {first second left right : Buffer σ},
        2 * bytes.length + 1 < Size.max → Streams bytes source →
          GrantsGrowth memory limit bytes.length →
          Buffer.openWith ⟨a, limit⟩ memory source = .ok first →
          Buffer.openWith ⟨b, limit⟩ memory source = .ok second →
          Buffer.Used first left → Buffer.Used second right → SameButCapacity left right →
          ∀ (state : State) (out : Array Token), ∃ one two,
            machine.run state ⟨left, out⟩ = some one ∧
              routineMachine.run (.ofState state) ⟨right, out⟩ = some two ∧
              one.outcome = two.outcome ∧ one.state.context = two.state.context ∧
              SameButCapacity one.state.buffer two.state.buffer ∧
              one.events.toList.filter apartFromGrowth =
                two.events.toList.filter apartFromGrowth ∧
              (left.window.capacity = right.window.capacity → one = two) := by
  have renamed (state : State) (session : Session σ (Array Token)) :
      routineMachine.run (.ofState state) session = machine.run state session :=
    Machine.runFor_rename routineMachine_renames Size.max state session
  refine ⟨renamed, ?_⟩
  intro bytes source limit memory a b first second left right fits streams granted openedLeft
    openedRight usedLeft usedRight same state out
  have inside : bytes.length < Size.max := by omega
  have suppliedLeft : Supplied bytes limit memory left :=
    supplied_of_used inside streams granted openedLeft usedLeft
  have suppliedRight : Supplied bytes limit memory right :=
    supplied_of_used inside streams granted openedRight usedRight
  have abreast := Buffer.abreast_of_sameButCapacity same suppliedLeft suppliedRight
  obtain ⟨one, two, ran, ranToo, agree⟩ := run_abreast fits abreast state out
  refine ⟨one, two, ran, (renamed state _).trans ranToo, agree.outcome, agree.state.context,
    agree.state.buffer.sameButCapacity, agree.events, fun capacity => ?_⟩
  obtain rfl := same.eq capacity
  exact Option.some.inj (ran.symm.trans ranToo)

/-- Two capacities, a name that is pending and an equals sign that was looked at. -/
theorem machines_agree_lookahead :
    let source := Slice.ofList [0x78, 0x3D, 0x31, 0x2E, 0x24]
    let first : Buffer Slice := ⟨Window.empty 1 (some 4) (1 <<< 48), source⟩
    let second : Buffer Slice := ⟨Window.empty 3 (some 4) (1 <<< 48), source⟩
    let left := (Buffer.performAll [.next, .peek] first).state
    let right := (Buffer.performAll [.next, .peek] second).state
    left.window.pending = #[0x78] ∧ left.window.lookahead = #[0x3D] ∧
      SameButCapacity left right ∧ left.window.capacity = 2 ∧ right.window.capacity = 3 ∧
      ∃ one two : Result Error (Session Slice (Array Token)) Nat,
        machine.run (.token .ident) ⟨left, #[]⟩ = some one ∧
          routineMachine.run .ident ⟨right, #[]⟩ = some two ∧ one.outcome = two.outcome ∧
          one.state.context = two.state.context ∧
          SameButCapacity one.state.buffer two.state.buffer := by
  intro source first second left right
  have openedLeft : Buffer.openWith ⟨1, some 4⟩ (1 <<< 48) source = .ok first := rfl
  have openedRight : Buffer.openWith ⟨3, some 4⟩ (1 <<< 48) source = .ok second := rfl
  have usedLeft : Buffer.Used first left := (Buffer.Used.unused.called .next).called .peek
  have usedRight : Buffer.Used second right := (Buffer.Used.unused.called .next).called .peek
  have streams : Streams [0x78, 0x3D, 0x31, 0x2E, 0x24] source := source.streams
  have granted : GrantsGrowth (1 <<< 48) (some 4) 5 := grantsGrowth_of_lt _ (by decide)
  have same : SameButCapacity left right := rfl
  obtain ⟨one, two, ran, ranToo, outcome, context, buffer, -⟩ :=
    machines_agree.2 (by decide) streams granted openedLeft openedRight usedLeft usedRight same
      (.token .ident) #[]
  exact ⟨by decide, by decide, same, rfl, rfl, one, two, ran, ranToo, outcome, context, buffer⟩

end Lexing.Expression
