import Lexing.Grammar.Runs
import Lexing.Proofs.Buffer.Coupled
import Lexing.Proofs.Machine.Agreement

/-!
# Where the bytes come from

A client of a buffer and a grammar that is run over one cannot tell bytes in memory from a device
that delivers the same bytes in blocks, however they are cut, however often the device is
interrupted and however far it is read ahead (`source_unobservable`). Steps agree because a grammar
is a program for each state, and a program reaches the source through calls only
(`Program.perform_coupled`).
-/

set_option autoImplicit false

namespace Lexing

open Result (Agree)
open Buffer (Coupled)

variable {σ τ S C ε α : Type}

/-- Buffers that are related, and the same context. -/
structure Session.Over (related : Buffer σ → Buffer τ → Prop) (left : Session σ C)
    (right : Session τ C) : Prop where
  buffer : related left.buffer right.buffer
  context : left.context = right.context

namespace Session

variable {related : Buffer σ → Buffer τ → Prop} {shown : Event → Bool} {left : Session σ C}
  {right : Session τ C}

/-- A buffer operation agrees in sessions as it does by itself. -/
theorem onBuffer_agree [FromLexError ε] {one : BufferM σ α} {two : BufferM τ α}
    (agree : Agree related shown (one left.buffer) (two right.buffer))
    (context : left.context = right.context) :
    Agree (Over related) shown ((onBuffer one : SessionM σ C ε α) left)
      ((onBuffer two : SessionM τ C ε α) right) := by
  obtain ⟨buffer, found⟩ := left
  obtain ⟨other, _⟩ := right
  simp only at agree context
  subst context
  unfold onBuffer
  simp only
  generalize one buffer = result at agree ⊢
  obtain ⟨outcome, after, events⟩ := result
  obtain ⟨behind, more, same, states, reported⟩ := agree.right_eq
  rw [same]
  cases outcome with
  | error error => exact ⟨rfl, ⟨states, rfl⟩, reported⟩
  | ok value => exact ⟨rfl, ⟨states, rfl⟩, reported⟩

theorem modifyContext_agree (change : C → C) (sessions : Over related left right) :
    Agree (Over related) shown ((modifyContext change : SessionM σ C ε Unit) left)
      ((modifyContext change : SessionM τ C ε Unit) right) :=
  ⟨rfl, ⟨sessions.buffer, congrArg change sessions.context⟩, rfl⟩

end Session

section Coupling

variable [ByteSource σ] [ByteSource τ] {related : σ → τ → Prop}

/-- A program does the same to the same window on sources that answer alike. -/
theorem Program.perform_coupled (alike : AnswersAlike related) (program : Program C ε α)
    {left : Session σ C} {right : Session τ C}
    (sessions : Session.Over (Coupled related) left right) :
    Agree (Session.Over (Coupled related)) everyEvent (program.perform left)
      (program.perform right) := by
  induction program generalizing left right with
  | done outcome => exact ⟨rfl, sessions, rfl⟩
  | look rest ih =>
    rw [perform, perform, sessions.buffer.window, sessions.context]
    exact ih _ _ sessions
  | store context rest ih => exact ih ⟨sessions.buffer, rfl⟩
  | call made rest ih =>
    -- both go on by the same outcome, so with the same rest of the program
    obtain ⟨buffer, context⟩ := left
    obtain ⟨other, _⟩ := right
    obtain ⟨coupled, rfl⟩ := sessions
    have performed := Buffer.perform_coupled alike made coupled
    simp only [perform]
    generalize made.perform buffer = result at performed ⊢
    obtain ⟨outcome, after, events⟩ := result
    obtain ⟨behind, more, same, coupled, reported⟩ := performed.right_eq
    rw [same]
    exact (ih outcome ⟨coupled, rfl⟩).after reported

/-- The machines of a grammar agree over sources that answer alike. -/
theorem Grammar.machine_agrees (alike : AnswersAlike related) (grammar : Grammar S C ε) :
    Machine.Agrees (Session.Over (Coupled related)) everyEvent
      (grammar.machine : Machine σ S C ε) (grammar.machine : Machine τ S C ε) where
  offset _ _ sessions := congrArg Window.offset sessions.buffer.window
  step state _ _ := (grammar state).perform_coupled alike

/-- So do calls on the buffer of a lexer. -/
theorem Lexer.onBuffer_coupled (alike : AnswersAlike related) (call : Call) (left : Lexer σ S C)
    (right : Lexer τ S C) (lexers : Lexer.Over (Session.Over (Coupled related)) left right) :
    Agree (Lexer.Over (Session.Over (Coupled related))) everyEvent
      (onBuffer call.perform left) (onBuffer call.perform right) := by
  obtain ⟨⟨buffer, context⟩, state, steps⟩ := left
  obtain ⟨⟨other, _⟩, _, _⟩ := right
  obtain ⟨⟨coupled, rfl⟩, rfl, rfl⟩ := lexers
  have performed := Buffer.perform_coupled alike call coupled
  exact ⟨performed.outcome, ⟨⟨performed.state, rfl⟩, rfl, rfl⟩, performed.events⟩

end Coupling

/-- The same window, context and record of polls, over bytes in memory and over a device that
delivers the same bytes. -/
abbrev Session.Indistinct (left : Session (Metered Slice) C)
    (right : Session (Metered ReadAhead) C) : Prop :=
  Session.Over (Coupled (Metered.Alike Delivering)) left right

/-- Whether a buffer is opened over bytes in memory or over a device that delivers them in blocks,
and is otherwise only interrupted, cannot be told by a client: it sees the same outcomes and
positions, and leaves the same window after as many polls and with the same reports. Nor can it be
told by a grammar, whether it is run or driven by a lexer with calls in between: the outcomes, the
contexts, the counts of steps and the reports are the same, and so are the windows and the polls.
The device may be read any number of bytes at a time. -/
theorem source_unobservable {bytes : List UInt8} {deliveries : List Delivery} {size memory : Nat}
    {config : Config} {left : Buffer (Metered Slice)} {right : Buffer (Metered ReadAhead)}
    (delivers : Delivers deliveries bytes) (positive : 0 < size)
    (openedLeft : Buffer.openWith config memory (.ofSource (.ofList bytes)) = .ok left)
    (openedRight : Buffer.openWith config memory
      (.ofSource (.ofReader size (.ofEvents deliveries))) = .ok right) :
    (∀ (client : Client) (count : Nat),
      (left.serve client count).1 = (right.serve client count).1 ∧
        Coupled (Metered.Alike Delivering) (left.serve client count).2
          (right.serve client count).2 ∧
        Buffer.served Call.reports client left count =
          Buffer.served Call.reports client right count) ∧
      ∀ {S C ε : Type} (grammar : Grammar S C ε) (initial : S) (context : C) (fuel : Nat),
        Option.Rel (Agree Session.Indistinct everyEvent)
            (grammar.machine.runFor fuel initial ⟨left, context⟩)
            (grammar.machine.runFor fuel initial ⟨right, context⟩) ∧
          ∀ uses : List Lexer.Use,
            Option.Rel (Lexer.UsedAlike Session.Indistinct everyEvent)
              (Lexer.useAll grammar.machine fuel uses (.ofSession ⟨left, context⟩ initial))
              (Lexer.useAll grammar.machine fuel uses (.ofSession ⟨right, context⟩ initial)) := by
  obtain ⟨rfl, -⟩ := Buffer.openWith_eq_ok openedLeft
  obtain ⟨rfl, -⟩ := Buffer.openWith_eq_ok openedRight
  have alike := Metered.answersAlike delivering_answersAlike
  have coupled : Coupled (Metered.Alike Delivering)
      ⟨Window.empty config.initial config.limit memory, .ofSource (.ofList bytes)⟩
      ⟨Window.empty config.initial config.limit memory,
        .ofSource (.ofReader size (.ofEvents deliveries))⟩ :=
    ⟨rfl, delivers.delivering positive, rfl, rfl⟩
  refine ⟨fun client count => Buffer.serve_coupled alike client count coupled, ?_⟩
  intro S C ε grammar initial context fuel
  have agrees := Grammar.machine_agrees alike grammar
  refine ⟨Machine.runFor_agree agrees fuel initial ⟨coupled, rfl⟩, fun uses => ?_⟩
  exact Lexer.useAll_agree agrees (Lexer.onBuffer_coupled alike) fuel uses
    ⟨⟨coupled, rfl⟩, rfl, rfl⟩

/-- Three bytes in two blocks, with interruptions before, between and after them. -/
def interruptedDevice : List Delivery :=
  [.fault ⟨"Interrupted", "early"⟩, .data [97], .fault ⟨"Interrupted", ""⟩, .data [97, 98],
    .finish, .fault ⟨"Interrupted", "late"⟩]

theorem interruptedDevice_delivers : Delivers interruptedDevice [97, 97, 98] :=
  .interrupted rfl (.block (.interrupted rfl (.block (.finished (.interrupted rfl .ended)))))

theorem source_unobservable_runs :
    Delivers interruptedDevice [97, 97, 98] ∧
      Option.Rel (Agree Session.Indistinct everyEvent)
        (Runs.grammar.machine.runFor 9 .start
          ⟨⟨Window.empty 1 none 9, .ofSource (.ofList [97, 97, 98])⟩, #[]⟩)
        (Runs.grammar.machine.runFor 9 .start
          ⟨⟨Window.empty 1 none 9, .ofSource (.ofReader 1 (.ofEvents interruptedDevice))⟩,
            #[]⟩) := by
  have inMemory : Buffer.openWith ⟨1, none⟩ 9 (Metered.ofSource (Slice.ofList [97, 97, 98])) =
      .ok ⟨Window.empty 1 none 9, .ofSource (.ofList [97, 97, 98])⟩ := rfl
  have onDevice : Buffer.openWith ⟨1, none⟩ 9
      (Metered.ofSource (ReadAhead.ofReader 1 (.ofEvents interruptedDevice))) =
      .ok ⟨Window.empty 1 none 9, .ofSource (.ofReader 1 (.ofEvents interruptedDevice))⟩ := rfl
  have unobservable :=
    source_unobservable interruptedDevice_delivers Nat.one_pos inMemory onDevice
  exact ⟨interruptedDevice_delivers, (unobservable.2 Runs.grammar .start #[] 9).1⟩

end Lexing
