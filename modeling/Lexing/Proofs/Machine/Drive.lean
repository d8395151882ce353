import Lexing.Grammar.Countdown
import Lexing.Machine.Drive
import Lexing.Source.Slice

/-!
# All ways of driving a machine agree

`Machine.endFor` says what a machine comes to without counting on from earlier steps or adding to an
earlier log. A run is that (`drive_run`), and so is what a lexer does that has a state left
(`Lexer.runFrom_some`); single steps either reach the end or leave a state from which the rest is
what comes after (`Lexer.stepTimes_cases`). So every way leads to what `endFor` says, with a budget
of so many more steps (`drive_eq`).

A lexer that has come to its end is halted for good: calls on its buffer still are performed, but
nothing takes a step (`Lexer.settled_of_none`).
-/

set_option autoImplicit false

namespace Lexing

variable {σ S C ε : Type}

@[simp] theorem stepOffsets_empty : stepOffsets #[] = [] := rfl

@[simp] theorem stepOffsets_append (first second : Array Event) :
    stepOffsets (first ++ second) = stepOffsets first ++ stepOffsets second := by
  simp [stepOffsets]

@[simp] theorem stepOffsets_step (number : Nat) (offset : UInt64) :
    stepOffsets #[.step number offset] = [offset] := rfl

@[simp] theorem stepOffsets_push_step (log : Array Event) (number : Nat) (offset : UInt64) :
    stepOffsets (log.push (.step number offset)) = stepOffsets log ++ [offset] := by
  simp [stepOffsets]

@[simp] theorem stepOffsets_push_halted (log : Array Event) (steps : Nat)
    (offset : Option UInt64) : stepOffsets (log.push (.halted steps offset)) = stepOffsets log := by
  simp [stepOffsets]

namespace Ending

/-- Steps before earlier steps. -/
theorem behind_behind (ending : Ending ε σ C) (first second : Nat) (offsets more : List UInt64) :
    (ending.behind second more).behind first offsets =
      ending.behind (first + second) (offsets ++ more) := by
  obtain ⟨outcome, session, later, rest⟩ := ending
  cases outcome <;> simp [behind, Except.map, Nat.add_assoc]

theorem behind_zero (ending : Ending ε σ C) : ending.behind 0 [] = ending := by
  obtain ⟨outcome, session, later, rest⟩ := ending
  cases outcome <;> simp [behind, Except.map]

end Ending

namespace Machine

/-- What a machine comes to within so many steps. -/
def endFor (machine : Machine σ S C ε) : (fuel : Nat) → S → Session σ C → Option (Ending ε σ C)
  | 0, _, _ => none
  | fuel + 1, state, session =>
    match machine state session with
    | ⟨.ok (.proceed next), between, events⟩ =>
      (machine.endFor fuel next between).map (·.behind 1 (session.offset :: stepOffsets events))
    | ⟨.ok .halt, after, events⟩ =>
      some ⟨.ok 1, after, session.offset :: stepOffsets events, 1⟩
    | ⟨.error error, after, events⟩ =>
      some ⟨.error error, after, session.offset :: stepOffsets events, 1⟩

variable {machine : Machine σ S C ε}

/-- A machine that has come to its end comes to the same with more steps to take. -/
theorem endFor_mono {fuel more : Nat} {state : S} {session : Session σ C} {ending : Ending ε σ C}
    (ended : machine.endFor fuel state session = some ending) (within : fuel ≤ more) :
    machine.endFor more state session = some ending := by
  induction fuel generalizing more state session ending with
  | zero => cases ended
  | succ fuel ih =>
    obtain ⟨more, rfl⟩ := Nat.exists_eq_add_of_le' within
    rw [endFor] at ended
    rw [← Nat.add_assoc, endFor]
    rcases taken : machine state session with ⟨error | next | _, between, events⟩
    · rwa [taken] at ended
    · rw [taken] at ended
      obtain ⟨rest, last, rfl⟩ := Option.map_eq_some_iff.1 ended
      exact Option.map_eq_some_iff.2 ⟨rest, ih last (Nat.le_add_left _ _), rfl⟩
    · rwa [taken] at ended

theorem endFor_unique {fuel more : Nat} {state : S} {session : Session σ C}
    {ending other : Ending ε σ C} (one : machine.endFor fuel state session = some ending)
    (two : machine.endFor more state session = some other) : ending = other := by
  have first := endFor_mono one (Nat.le_max_left fuel more)
  have second := endFor_mono two (Nat.le_max_right fuel more)
  exact Option.some.inj (first.symm.trans second)

/-- The number of steps that is returned is the number of steps that were taken. -/
theorem steps_of_endFor {fuel : Nat} {state : S} {session : Session σ C} {ending : Ending ε σ C}
    (ended : machine.endFor fuel state session = some ending) :
    ∀ count, ending.outcome = .ok count → ending.steps = count := by
  induction fuel generalizing state session ending with
  | zero => cases ended
  | succ fuel ih =>
    intro count returned
    rw [endFor] at ended
    rcases taken : machine state session with ⟨error | next | _, between, events⟩
    · rw [taken] at ended
      cases ended
      cases returned
    · rw [taken] at ended
      obtain ⟨rest, last, rfl⟩ := Option.map_eq_some_iff.1 ended
      obtain ⟨outcome, session, later, steps⟩ := rest
      cases outcome with
      | error error => cases returned
      | ok total =>
        cases returned
        exact congrArg (1 + ·) (ih last total rfl)
    · rw [taken] at ended
      cases ended
      cases returned
      rfl

theorem stepsFor_eq {fuel : Nat} {state : S} {session : Session σ C} {ending : Ending ε σ C}
    (ended : machine.endFor fuel state session = some ending) :
    machine.stepsFor fuel state session = ending.steps := by
  induction fuel generalizing state session ending with
  | zero => cases ended
  | succ fuel ih =>
    rw [endFor] at ended
    rw [stepsFor]
    rcases taken : machine state session with ⟨error | next | _, between, events⟩
    · rw [taken] at ended
      cases ended
      rfl
    · rw [taken] at ended
      obtain ⟨rest, last, rfl⟩ := Option.map_eq_some_iff.1 ended
      simp only [ih last, Ending.behind, Nat.add_comm]
    · rw [taken] at ended
      cases ended
      rfl

/-- A run counts on from the steps before it and adds to the log before it. -/
theorem runFrom_eq (machine : Machine σ S C ε) (fuel steps : Nat) (log : Array Event) (state : S)
    (session : Session σ C) :
    (machine.runFrom fuel steps log state session).map
        (fun result => (result.outcome, result.state, stepOffsets result.events)) =
      (machine.endFor fuel state session).map fun ending =>
        (ending.outcome.map (steps + ·), ending.session, stepOffsets log ++ ending.offsets) := by
  induction fuel generalizing steps log state session with
  | zero => rfl
  | succ fuel ih =>
    rw [runFrom, endFor]
    rcases machine state session with ⟨error | next | _, between, events⟩
    · simp [Except.map]
    · simp only [ih, Option.map_map]
      congr 1
      funext ⟨outcome, last, later, rest⟩
      cases outcome <;> simp [Ending.behind, Except.map, Nat.add_assoc]
    · simp [Except.map]

/-- A run is what the machine comes to. -/
theorem drive_run (fuel : Nat) (initial : S) (session : Session σ C) :
    machine.drive fuel .run initial session = machine.endFor fuel initial session := by
  have same := runFrom_eq machine fuel 0 #[.started session.offset] initial session
  rw [drive, runFor]
  cases ended : machine.endFor fuel initial session with
  | none =>
    rw [ended, Option.map_none, Option.map_eq_none_iff] at same
    rw [same, Option.map_none]
  | some ending =>
    rw [ended, Option.map_some] at same
    obtain ⟨result, ran, parts⟩ := Option.map_eq_some_iff.1 same
    obtain ⟨outcome, after, log⟩ := result
    obtain ⟨total, last, offsets, steps⟩ := ending
    simp only [Prod.mk.injEq] at parts
    obtain ⟨rfl, rfl, announced⟩ := parts
    have started : stepOffsets #[.started session.offset] = [] := rfl
    rw [started, List.nil_append] at announced
    have none_before : total.map (0 + ·) = total := by cases total <;> simp [Except.map]
    simp only [ran, Option.map_some, announced, stepsFor_eq ended, none_before]

end Machine

namespace Lexer

open Machine

variable {machine : Machine σ S C ε}

/-- A lexer with a state left runs to what the machine comes to, counting on from its steps. -/
theorem runFrom_some (machine : Machine σ S C ε) (fuel steps : Nat) (log : Array Event) (state : S)
    (session : Session σ C) :
    (runFrom machine fuel log ⟨session, some state, steps⟩).map
        (fun result => (result.outcome, result.state, stepOffsets result.events)) =
      (machine.endFor fuel state session).map fun ending =>
        (ending.outcome.map (steps + ·), ⟨ending.session, none, steps + ending.steps⟩,
          stepOffsets log ++ ending.offsets) := by
  induction fuel generalizing steps log state session with
  | zero => rfl
  | succ fuel ih =>
    rw [runFrom, step, endFor]
    rcases machine state session with ⟨error | next | _, between, events⟩
    · simp [Except.map]
    · simp only [ih, Option.map_map]
      congr 1
      funext ⟨outcome, last, later, rest⟩
      cases outcome <;> simp [Ending.behind, Except.map, Nat.add_assoc]
    · simp [Except.map]

/-- Without a state a run returns the steps that were taken. -/
theorem runFor_none (fuel steps : Nat) (session : Session σ C) :
    runFor machine (fuel + 1) ⟨session, none, steps⟩ =
      some ⟨.ok steps, ⟨session, none, steps⟩, #[]⟩ := rfl

theorem stepTimes_none (count steps : Nat) (session : Session σ C) :
    stepTimes machine count ⟨session, none, steps⟩ = ⟨.ok (), ⟨session, none, steps⟩, #[]⟩ := by
  induction count with
  | zero => rfl
  | succ count ih =>
    rw [stepTimes, Operation.bind_apply]
    simp only [step, ih, Result.after_empty]

/-- Single steps come to the end of the machine, or leave a state from which it comes to what is
left of that. -/
theorem stepTimes_cases (machine : Machine σ S C ε) (count steps : Nat) (state : S)
    (session : Session σ C) :
    (∃ ending log, machine.endFor count state session = some ending ∧
        stepTimes machine count ⟨session, some state, steps⟩ =
          ⟨ending.outcome.map fun _ => (), ⟨ending.session, none, steps + ending.steps⟩, log⟩ ∧
        stepOffsets log = ending.offsets) ∨
      ∃ next between log,
        stepTimes machine count ⟨session, some state, steps⟩ =
          ⟨.ok (), ⟨between, some next, steps + count⟩, log⟩ ∧
        ∀ fuel, machine.endFor (count + fuel) state session =
          (machine.endFor fuel next between).map (·.behind count (stepOffsets log)) := by
  -- on the steps to take: the first one ends the machine or leaves the others to be taken
  induction count generalizing steps state session with
  | zero =>
    refine Or.inr ⟨state, session, #[], rfl, fun fuel => ?_⟩
    rw [Nat.zero_add, stepOffsets_empty, funext Ending.behind_zero, Option.map_id']
  | succ count ih =>
    simp only [stepTimes, Operation.bind_apply, step, endFor, Nat.succ_add]
    rcases machine state session with ⟨error | next | _, between, events⟩
    · refine Or.inl ⟨_, _, rfl, rfl, ?_⟩
      simp
    · rcases ih (steps + 1) next between with ⟨ending, log, ended, last, offsets⟩ |
        ⟨further, last, log, left, rest⟩
      · refine Or.inl ⟨_, #[.step (steps + 1) session.offset] ++ events ++ log,
          Option.map_eq_some_iff.2 ⟨ending, ended, rfl⟩, ?_, ?_⟩
        · obtain ⟨outcome, after, later, more⟩ := ending
          simp only [last, Result.after, Ending.behind, Nat.add_assoc]
          cases outcome <;> rfl
        · simp [Ending.behind, offsets]
      · refine Or.inr ⟨further, last, #[.step (steps + 1) session.offset] ++ events ++ log, ?_, ?_⟩
        · simp only [left, Result.after, Nat.add_assoc, Nat.add_comm 1 count]
        · intro fuel
          simp only [rest, Option.map_map]
          congr 1
          funext ending
          simp [Function.comp, Ending.behind_behind, Nat.add_comm 1 count]
    · refine Or.inl ⟨_, (#[Event.step (steps + 1) session.offset] ++ events).push
        (.halted (steps + 1) none), rfl, ?_, ?_⟩
      · simp only [stepTimes_none, Result.after, Array.append_empty]
        rfl
      · simp

/-- Single steps and then a run come to what the machine comes to. -/
theorem stepThenRun_eq (count fuel : Nat) (initial : S) (session : Session σ C) :
    (stepThenRun machine count (fuel + 1) (.ofSession session initial)).map
        (fun result => (⟨result.outcome, result.state.session, stepOffsets result.events,
          result.state.steps⟩ : Ending ε σ C)) =
      machine.endFor (count + (fuel + 1)) initial session := by
  rw [stepThenRun, ofSession]
  rcases stepTimes_cases machine count 0 initial session with
    ⟨ending, log, ended, last, offsets⟩ | ⟨next, between, log, left, rest⟩
  · rw [endFor_mono ended (Nat.le_add_right count _), last]
    obtain ⟨outcome, after, later, steps⟩ := ending
    cases outcome with
    | error error => simp [Except.map, offsets]
    | ok total =>
      have counted : steps = total := steps_of_endFor ended total rfl
      simp [Except.map, Result.after, runFor_none, offsets, counted]
  · have ran := runFrom_some machine (fuel + 1) (0 + count) #[] next between
    rw [left, rest]
    calc
      _ = ((runFor machine (fuel + 1) ⟨between, some next, 0 + count⟩).map fun result =>
            (result.outcome, result.state, stepOffsets result.events)).map fun seen =>
              ⟨seen.1, seen.2.1.session, stepOffsets log ++ seen.2.2, seen.2.1.steps⟩ := by
        simp only [Option.map_map]
        congr 1
        funext result
        simp [Result.after]
      _ = _ := by
        rw [runFor, ran, Option.map_map]
        congr 1
        funext ending
        simp [Ending.behind]

end Lexer

/-- The most steps that are taken when each run takes at most `fuel`. -/
def Way.reach : Way → Nat → Nat
  | .run, fuel => fuel
  | .lexer steps, fuel => steps + fuel
  | .relay steps rest, fuel => steps + rest.reach fuel

theorem Way.le_reach (way : Way) (fuel : Nat) : fuel ≤ way.reach fuel := by
  induction way with
  | run => exact Nat.le_refl fuel
  | lexer steps => exact Nat.le_add_left fuel steps
  | relay steps rest ih => exact Nat.le_trans ih (Nat.le_add_left _ _)

namespace Machine

variable {machine : Machine σ S C ε}

/-- Every way leads to what the machine comes to. A run needs some budget even to find that the
machine is at its end. -/
theorem drive_eq (way : Way) (fuel : Nat) (initial : S) (session : Session σ C) :
    machine.drive (fuel + 1) way initial session =
      machine.endFor (way.reach (fuel + 1)) initial session := by
  induction way generalizing initial session with
  | run => exact drive_run (fuel + 1) initial session
  | lexer count => exact Lexer.stepThenRun_eq count fuel initial session
  | relay count rest ih =>
    rw [drive, Lexer.ofSession, Way.reach]
    rcases Lexer.stepTimes_cases machine count 0 initial session with
      ⟨ending, log, ended, last, offsets⟩ | ⟨next, between, log, left, behind⟩
    · rw [endFor_mono ended (Nat.le_add_right count _), last]
      obtain ⟨outcome, after, later, steps⟩ := ending
      cases outcome with
      | error error => simp [Except.map, offsets]
      | ok total =>
        have counted : steps = total := steps_of_endFor ended total rfl
        simp [Except.map, offsets, counted]
    · rw [left, behind, ← ih, Nat.zero_add]

/-- With no budget only single steps are taken, and they are taken with any. -/
theorem drive_of_zero {way : Way} {initial : S} {session : Session σ C} {ending : Ending ε σ C}
    (driven : machine.drive 0 way initial session = some ending) :
    machine.drive 1 way initial session = some ending := by
  induction way generalizing initial session ending with
  | run => cases driven
  | lexer count =>
    rw [drive, Lexer.stepThenRun] at driven ⊢
    rcases taken : Lexer.stepTimes machine count (.ofSession session initial) with
      ⟨error | _, lexer, log⟩
    · rwa [taken] at driven
    · rw [taken] at driven
      cases driven
  | relay count rest ih =>
    rw [drive] at driven ⊢
    rcases taken : Lexer.stepTimes machine count (.ofSession session initial) with
      ⟨error | _, ⟨after, _ | state, steps⟩, log⟩
    · rwa [taken] at driven
    · rwa [taken] at driven
    · rwa [taken] at driven
    · rw [taken] at driven
      obtain ⟨last, rested, rfl⟩ := Option.map_eq_some_iff.1 driven
      exact Option.map_eq_some_iff.2 ⟨last, ih rested, rfl⟩

theorem endsBy_iff {way : Way} {initial : S} {session : Session σ C} {ending : Ending ε σ C} :
    machine.EndsBy way initial session ending ↔
      ∃ fuel, machine.endFor fuel initial session = some ending := by
  constructor
  · rintro ⟨_ | fuel, driven⟩
    · exact ⟨_, (drive_eq way 0 initial session).symm.trans (drive_of_zero driven)⟩
    · exact ⟨_, (drive_eq way fuel initial session).symm.trans driven⟩
  · rintro ⟨_ | fuel, ended⟩
    · cases ended
    · exact ⟨fuel + 1, (drive_eq way fuel initial session).trans
        (endFor_mono ended (way.le_reach (fuel + 1)))⟩

end Machine

namespace Lexer

variable {machine : Machine σ S C ε}

/-- A run leaves no state. -/
theorem state_of_runFrom {fuel : Nat} {log : Array Event} {lexer : Lexer σ S C}
    {result : Result ε (Lexer σ S C) Nat} (ran : runFrom machine fuel log lexer = some result) :
    result.state.state = none := by
  induction fuel generalizing log lexer with
  | zero => cases ran
  | succ fuel ih =>
    obtain ⟨session, state, steps⟩ := lexer
    rw [runFrom] at ran
    cases state with
    | none =>
      cases ran
      rfl
    | some state =>
      rw [step] at ran
      rcases taken : machine state session with ⟨error | next | _, between, events⟩
      · rw [taken] at ran
        cases ran
        rfl
      · rw [taken] at ran
        exact ih ran
      · rw [taken] at ran
        cases ran
        rfl

/-- Single steps of which one failed leave no state, and neither does the run after them. -/
theorem state_of_stepThenRun {count fuel : Nat} {initial : S} {session : Session σ C}
    {result : Result ε (Lexer σ S C) Nat}
    (ran : stepThenRun machine count fuel (.ofSession session initial) = some result) :
    result.state.state = none := by
  rw [stepThenRun, ofSession] at ran
  rcases stepTimes_cases machine count 0 initial session with
    ⟨⟨outcome, after, later, steps⟩, log, -, last, -⟩ | ⟨next, between, log, left, -⟩
  · rw [last] at ran
    cases outcome with
    | error error =>
      cases ran
      rfl
    | ok count =>
      obtain ⟨rest, further, rfl⟩ := Option.map_eq_some_iff.1 ran
      have halted := state_of_runFrom further
      exact halted
  · rw [left] at ran
    obtain ⟨rest, further, rfl⟩ := Option.map_eq_some_iff.1 ran
    have halted := state_of_runFrom further
    exact halted

/-- A step after which the machine cannot go on leaves no state, whether it halted or failed. -/
theorem state_of_step {lexer : Lexer σ S C} (last : (step machine lexer).outcome ≠ .ok true) :
    (step machine lexer).state.state = none := by
  obtain ⟨session, state, steps⟩ := lexer
  cases state with
  | none => rfl
  | some state =>
    rw [step] at last ⊢
    rcases taken : machine state session with ⟨error | next | _, between, events⟩
    · rfl
    · rw [taken] at last
      exact absurd rfl last
    · rfl

/-- Halted for good: whatever is done with the lexer, it has no state left and counts no step. A
single step then says that the machine is at its end and a run how many steps there were. They would
do so with any machine, as no state is called, and they change and report nothing. -/
def Settled [ByteSource σ] (machine : Machine σ S C ε) (lexer : Lexer σ S C) : Prop :=
  ∀ fuel uses replies later events,
    useAll machine fuel uses lexer = some (replies, later, events) →
      later.state = none ∧ later.steps = lexer.steps ∧
        later.session.context = lexer.session.context ∧
        ∀ other : Machine σ S C ε,
          step other later = ⟨.ok false, later, #[]⟩ ∧
            ∀ budget, runFor other (budget + 1) later = some ⟨.ok later.steps, later, #[]⟩

/-- What is done with a lexer without a state is at most done to its buffer. -/
theorem use_of_none [ByteSource σ] {fuel steps : Nat} {session : Session σ C} {use : Use}
    {reply : Reply ε} {later : Lexer σ S C} {events : Array Event}
    (used : Lexer.use machine fuel ⟨session, none, steps⟩ use = some (reply, later, events)) :
    ∃ buffer, later = ⟨⟨buffer, session.context⟩, none, steps⟩ := by
  cases use with
  | step =>
    cases used
    exact ⟨session.buffer, rfl⟩
  | run =>
    cases fuel with
    | zero => cases used
    | succ fuel =>
      cases used
      exact ⟨session.buffer, rfl⟩
  | call call =>
    cases used
    exact ⟨_, rfl⟩

theorem settled_of_none [ByteSource σ] {lexer : Lexer σ S C} (halted : lexer.state = none) :
    Settled machine lexer := by
  intro fuel uses replies later events used
  obtain ⟨session, state, steps⟩ := lexer
  simp only at halted
  subst halted
  suffices halts : ∃ buffer, later = ⟨⟨buffer, session.context⟩, none, steps⟩ by
    obtain ⟨buffer, rfl⟩ := halts
    exact ⟨rfl, rfl, rfl, fun other => ⟨rfl, fun budget => rfl⟩⟩
  induction uses generalizing session replies events with
  | nil =>
    cases used
    exact ⟨session.buffer, rfl⟩
  | cons use uses ih =>
    rw [useAll] at used
    obtain ⟨⟨reply, between, first⟩, one, used⟩ := Option.bind_eq_some_iff.1 used
    obtain ⟨⟨more, last, rest⟩, others, same⟩ := Option.bind_eq_some_iff.1 used
    obtain ⟨buffer, rfl⟩ := use_of_none one
    cases same
    have kept := ih _ _ _ others
    exact kept

end Lexer

/-- All ways of driving a machine agree. If it comes to an end one way, so it does any other way:
with the same outcome, buffer and context, the same offsets of its steps and the same number of
steps in all, which is the one that is returned. What suffices as a budget for a run suffices for
every way. A lexer that has stepped and run to the end has no state left, and neither has one after
a step that halts or fails; without a state it is halted for good. -/
theorem all_ways_agree [ByteSource σ] (machine : Machine σ S C ε) (initial : S)
    (session : Session σ C) (one other : Way) :
    (∀ ending, machine.EndsBy one initial session ending →
      machine.EndsBy other initial session ending ∧
        (∀ last, machine.EndsBy other initial session last → last = ending) ∧
        ∀ count, ending.outcome = .ok count → count = ending.steps) ∧
      (∀ fuel ending, machine.drive fuel .run initial session = some ending →
        machine.drive fuel one initial session = some ending) ∧
      (∀ count fuel result,
        Lexer.stepThenRun machine count fuel (.ofSession session initial) = some result →
          result.state.state = none) ∧
      (∀ lexer : Lexer σ S C, (Lexer.step machine lexer).outcome ≠ .ok true →
        (Lexer.step machine lexer).state.state = none) ∧
      ∀ lexer : Lexer σ S C, lexer.state = none → Lexer.Settled machine lexer := by
  refine ⟨fun ending ends => ?_, fun fuel ending ran => ?_, fun _ _ _ => Lexer.state_of_stepThenRun,
    fun _ => Lexer.state_of_step, fun _ => Lexer.settled_of_none⟩
  · obtain ⟨fuel, ended⟩ := Machine.endsBy_iff.1 ends
    refine ⟨Machine.endsBy_iff.2 ⟨fuel, ended⟩, fun last others => ?_, fun count returned => ?_⟩
    · obtain ⟨more, found⟩ := Machine.endsBy_iff.1 others
      exact Machine.endFor_unique found ended
    · exact (Machine.steps_of_endFor ended count returned).symm
  · cases fuel with
    | zero => cases ran
    | succ fuel =>
      rw [Machine.drive_run] at ran
      rw [Machine.drive_eq]
      exact Machine.endFor_mono ran (one.le_reach (fuel + 1))

def idle : Session Slice Unit := ⟨⟨Window.empty 1 none 9, .ofList []⟩, ()⟩

/-- A countdown from two fails in its third step, also where two lexers take turns and the second
one takes more single steps than there are left. -/
theorem all_ways_agree_countdown :
    Countdown.machine.EndsBy (.relay 1 (.lexer 4)) 2 idle
        ⟨.error .backupUnderflow, idle, [0, 0, 0], 3⟩ ∧
      Countdown.machine.drive 3 (.lexer 2) 2 idle =
        some ⟨.error .backupUnderflow, idle, [0, 0, 0], 3⟩ ∧
      Lexer.Settled (Countdown.machine (σ := Slice) (C := Unit)) ⟨idle, none, 3⟩ := by
  have ran : Countdown.machine.drive 3 .run 2 idle =
      some ⟨.error .backupUnderflow, idle, [0, 0, 0], 3⟩ := rfl
  have agree := all_ways_agree Countdown.machine 2 idle
  have stepped := (agree (.lexer 2) .run).2.1 3 _ ran
  have halted := (agree .run .run).2.2.1 4 3 _ rfl
  have settled := (agree .run .run).2.2.2.2 _ halted
  exact ⟨((agree .run (.relay 1 (.lexer 4))).1 _ ⟨3, ran⟩).1, stepped, settled⟩

end Lexing
