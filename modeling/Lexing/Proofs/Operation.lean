import Lexing.Operation

/-!
# Rules for operations

Five judgements about operations and the rules by which they go through sequencing.

* `Keeps`: a property of states that no outcome of an operation breaks.
* `Follows`: the same of a property of states and the events reported so far.
* `Leads`: the outcome of an operation on states with one property, and the property that it
  brings about.
* `Ensures`: what a success brings about, by its value, and what a failure may be and leave.
* `Result.Agree`: two results with the same outcome, related states and the same events, as far as
  events are shown. The states may belong to different machines.

All speak about failures as well: an operation leaves a state whether it fails or not.
-/

set_option autoImplicit false

namespace Lexing

variable {ε S T α β : Type}

/-- Same outcome, related states, and the same events among those that are shown. -/
structure Result.Agree (related : S → T → Prop) (shown : Event → Bool)
    (left : Result ε S α) (right : Result ε T α) : Prop where
  outcome : left.outcome = right.outcome
  state : related left.state right.state
  events : left.events.toList.filter shown = right.events.toList.filter shown

namespace Result

@[simp] theorem map_id (result : Result ε S α) : result.map id = result := by
  obtain ⟨error | value, state, events⟩ := result
  · rfl
  · rfl

theorem eq_of_outcome {result : Result ε S α} {outcome : Except ε α}
    (yields : result.outcome = outcome) :
    ∃ state events, result = ⟨outcome, state, events⟩ :=
  ⟨result.state, result.events, by rw [← yields]⟩

/-- A value that is changed after the fact is a failure where there was one. -/
theorem outcome_map_eq_error {change : α → β} {result : Result ε S α} {error : ε} :
    (result.map change).outcome = .error error ↔ result.outcome = .error error := by
  obtain ⟨cause | value, state, events⟩ := result
  · simp [map, Except.map]
  · simp [map, Except.map]

theorem map_after (change : α → β) (result : Result ε S α) (events : Array Event) :
    (result.after events).map change = (result.map change).after events := rfl

theorem map_map {γ : Type} (first : α → β) (second : β → γ) (result : Result ε S α) :
    (result.map first).map second = result.map (second ∘ first) := by
  obtain ⟨error | value, state, events⟩ := result
  · rfl
  · rfl

end Result

namespace Result.Agree

variable {related : S → T → Prop} {shown : Event → Bool}

/-- What agrees with a given result has its outcome and, as far as they are shown, its events. -/
theorem right_eq {outcome : Except ε α} {s : S} {events : Array Event} {right : Result ε T α}
    (agree : Agree related shown ⟨outcome, s, events⟩ right) :
    ∃ t more, right = ⟨outcome, t, more⟩ ∧ related s t ∧
      events.toList.filter shown = more.toList.filter shown := by
  obtain ⟨found, t, more⟩ := right
  obtain ⟨rfl, states, events⟩ := agree
  exact ⟨t, more, rfl, states, events⟩

/-- Events that are shown alike before events that are shown alike. -/
theorem append_events {first second more other : Array Event}
    (earlier : first.toList.filter shown = second.toList.filter shown)
    (later : more.toList.filter shown = other.toList.filter shown) :
    (first ++ more).toList.filter shown = (second ++ other).toList.filter shown := by
  rw [Array.toList_append, Array.toList_append, List.filter_append, List.filter_append, earlier,
    later]

theorem after {left : Result ε S α} {right : Result ε T α} {first second : Array Event}
    (earlier : first.toList.filter shown = second.toList.filter shown)
    (agree : Agree related shown left right) :
    Agree related shown (left.after first) (right.after second) :=
  ⟨agree.outcome, agree.state, append_events earlier agree.events⟩

/-- Operations agree when they agree up to the first value and, from the states that it leaves, on
from there. -/
theorem bind_at {left : Operation ε S α} {right : Operation ε T α}
    {leftRest : α → Operation ε S β} {rightRest : α → Operation ε T β} {s : S} {t : T}
    (first : Agree related shown (left s) (right t))
    (rest : ∀ value, Agree related shown (leftRest value (left s).state)
      (rightRest value (right t).state)) :
    Agree related shown ((left >>= leftRest) s) ((right >>= rightRest) t) := by
  obtain ⟨outcome, state, events⟩ := first
  rw [Operation.bind_apply, Operation.bind_apply]
  generalize left s = leftResult at outcome state events rest ⊢
  generalize right t = rightResult at outcome state events rest ⊢
  obtain ⟨leftOutcome, s, leftEvents⟩ := leftResult
  obtain ⟨rightOutcome, t, rightEvents⟩ := rightResult
  simp only at outcome state events rest
  subst outcome
  cases leftOutcome with
  | error error => exact ⟨rfl, state, events⟩
  | ok value => exact (rest value).after events

/-- Operations agree when they agree up to the first value and from there on. -/
theorem bind {left : Operation ε S α} {right : Operation ε T α} {leftRest : α → Operation ε S β}
    {rightRest : α → Operation ε T β} {s : S} {t : T}
    (first : Agree related shown (left s) (right t))
    (rest : ∀ value s t, related s t → Agree related shown (leftRest value s) (rightRest value t)) :
    Agree related shown ((left >>= leftRest) s) ((right >>= rightRest) t) :=
  bind_at first fun value => rest value _ _ first.state

/-- A look at the states changes nothing. -/
theorem get_bind {leftRest : S → Operation ε S β} {rightRest : T → Operation ε T β} {s : S} {t : T}
    (rest : Agree related shown (leftRest s s) (rightRest t t)) :
    Agree related shown ((get >>= leftRest) s) ((get >>= rightRest) t) := by
  change Agree related shown ((leftRest s s).after #[]) ((rightRest t t).after #[])
  rwa [Result.after_empty, Result.after_empty]

theorem map {change : α → β} {left : Operation ε S α} {right : Operation ε T α} {s : S} {t : T}
    (agree : Agree related shown (left s) (right t)) :
    Agree related shown ((change <$> left) s) ((change <$> right) t) := by
  rw [Operation.map_apply, Operation.map_apply]
  exact ⟨congrArg (Except.map change) agree.outcome, agree.state, agree.events⟩

theorem attempt {left : Operation ε S α} {right : Operation ε T α} {s : S} {t : T}
    (agree : Agree related shown (left s) (right t)) :
    Agree related shown (left.attempt s) (right.attempt t) :=
  ⟨congrArg Except.ok agree.outcome, agree.state, agree.events⟩

theorem pure {value : α} {s : S} {t : T} (states : related s t) :
    Agree related shown ((Pure.pure value : Operation ε S α) s)
      ((Pure.pure value : Operation ε T α) t) :=
  ⟨rfl, states, rfl⟩

theorem orThrow {left : Operation ε S α} {right : Operation ε T α} {s : S} {t : T} {error : ε}
    (agree : Agree related shown (left s) (right t)) :
    Agree related shown (left.orThrow error s) (right.orThrow error t) := by
  obtain ⟨outcome, state, events⟩ := agree
  unfold Operation.orThrow
  simp only [tryCatch, tryCatchThe, MonadExceptOf.tryCatch]
  generalize left s = leftResult at outcome state events ⊢
  generalize right t = rightResult at outcome state events ⊢
  obtain ⟨leftOutcome, s, leftEvents⟩ := leftResult
  obtain ⟨rightOutcome, t, rightEvents⟩ := rightResult
  simp only at outcome state events
  subst outcome
  cases leftOutcome with
  | error _ => exact after events ⟨rfl, state, rfl⟩
  | ok value => exact ⟨rfl, state, events⟩

theorem times {left : Operation ε S α} {right : Operation ε T α} {s : S} {t : T}
    (each : ∀ s t, related s t → Agree related shown (left s) (right t)) (count : Nat)
    (states : related s t) :
    Agree related shown (left.times count s) (right.times count t) := by
  induction count generalizing s t with
  | zero => exact pure states
  | succ count ih =>
    refine bind (each s t states).attempt fun outcome s t states => ?_
    exact bind (ih states) fun outcomes s t states => pure states

end Result.Agree

namespace Operation

theorem outcome_map_eq_error {change : α → β} {operation : Operation ε S α} {state : S}
    {error : ε} :
    ((change <$> operation) state).outcome = .error error ↔
      (operation state).outcome = .error error := by
  rw [map_apply]
  exact Result.outcome_map_eq_error

/-- What fails with its value changed fails without, and leaves the same. -/
theorem eq_of_map_error {change : α → β} {operation : Operation ε S α} {state : S} {error : ε}
    (fails : ((change <$> operation) state).outcome = .error error) :
    ∃ events, operation state = ⟨.error error, ((change <$> operation) state).state, events⟩ := by
  obtain ⟨after, events, failed⟩ := Result.eq_of_outcome (outcome_map_eq_error.1 fails)
  refine ⟨events, ?_⟩
  rw [map_apply, failed]
  rfl

/-- A failure is the end of a sequence. -/
theorem bind_of_error {operation : Operation ε S α} {rest : α → Operation ε S β} {state after : S}
    {error : ε} {events : Array Event} (result : operation state = ⟨.error error, after, events⟩) :
    (operation >>= rest) state = ⟨.error error, after, events⟩ := by
  rw [bind_apply, result]

/-- After an operation that does the same after earlier events, the same is done after these. -/
theorem bind_after {operation : Operation ε S α} (rest : α → Operation ε S β) {state other : S}
    {events : Array Event} (same : operation state = (operation other).after events) :
    (operation >>= rest) state = ((operation >>= rest) other).after events := by
  rw [bind_apply, bind_apply, same]
  rcases operation other with ⟨error | value, between, more⟩
  · rfl
  · exact (Result.after_after _ _ _).symm

theorem orThrow_of_ok {operation : Operation ε S α} {state after : S} {value : α}
    {events : Array Event} {error : ε} (result : operation state = ⟨.ok value, after, events⟩) :
    operation.orThrow error state = ⟨.ok value, after, events⟩ := by
  unfold orThrow
  simp only [tryCatch, tryCatchThe, MonadExceptOf.tryCatch, result]

/-- An operation that is performed so many times, failures included, does not fail. -/
theorem times_outcome (operation : Operation ε S α) (count : Nat) (state : S) :
    ∃ outcomes, (operation.times count state).outcome = .ok outcomes := by
  induction count generalizing state with
  | zero => exact ⟨[], rfl⟩
  | succ count ih =>
    obtain ⟨outcomes, rest⟩ := ih (operation state).state
    refine ⟨(operation state).outcome :: outcomes, ?_⟩
    simp only [times, bind_apply, attempt, Result.after]
    generalize operation.times count (operation state).state = result at rest ⊢
    obtain ⟨outcome, after, events⟩ := result
    simp only at rest
    subst rest
    rfl

/-- Whatever comes of the operation, the property holds afterwards if it held before. -/
def Keeps (property : S → Prop) (operation : Operation ε S α) : Prop :=
  ∀ state, property state → property (operation state).state

namespace Keeps

variable {property : S → Prop}

theorem pure (value : α) : Keeps property (Pure.pure value : Operation ε S α) :=
  fun _ held => held

theorem throw (error : ε) : Keeps property (MonadExcept.throw error : Operation ε S α) :=
  fun _ held => held

theorem get : Keeps property (MonadState.get : Operation ε S S) := fun _ held => held

theorem note (event : Event) : Keeps property (Operation.note event : Operation ε S Unit) :=
  fun _ held => held

/-- What holds of the state that an operation leaves holds of the last state if the rest keeps
it. -/
theorem state_bind {operation : Operation ε S α} {rest : α → Operation ε S β} {state : S}
    (first : property (operation state).state) (next : ∀ value, Keeps property (rest value)) :
    property ((operation >>= rest) state).state := by
  rw [bind_apply]
  generalize operation state = result at first ⊢
  obtain ⟨outcome, state, events⟩ := result
  cases outcome with
  | error error => exact first
  | ok value => exact next value state first

theorem bind {operation : Operation ε S α} {rest : α → Operation ε S β}
    (first : Keeps property operation) (next : ∀ value, Keeps property (rest value)) :
    Keeps property (operation >>= rest) :=
  fun state held => state_bind (first state held) next

theorem map {change : α → β} {operation : Operation ε S α} (keeps : Keeps property operation) :
    Keeps property (change <$> operation) := by
  intro state held
  rw [map_apply]
  exact keeps state held

theorem orThrow {operation : Operation ε S α} (error : ε) (keeps : Keeps property operation) :
    Keeps property (operation.orThrow error) := by
  intro state held
  have between := keeps state held
  unfold Operation.orThrow
  simp only [tryCatch, tryCatchThe, MonadExceptOf.tryCatch]
  generalize operation state = result at between ⊢
  obtain ⟨outcome, state, events⟩ := result
  cases outcome with
  | error _ => exact between
  | ok _ => exact between

theorem attempt {operation : Operation ε S α} (keeps : Keeps property operation) :
    Keeps property operation.attempt := keeps

theorem times {operation : Operation ε S α} (keeps : Keeps property operation) (count : Nat) :
    Keeps property (operation.times count) := by
  induction count with
  | zero => exact pure _
  | succ count ih => exact bind keeps.attempt fun _ => bind ih fun _ => pure _

end Keeps

/-- What is known of the events so far and of the state is known afterwards with the events of the
operation added, whatever comes of it. -/
def Follows (invariant : List Event → S → Prop) (operation : Operation ε S α) : Prop :=
  ∀ log state, invariant log state →
    invariant (log ++ (operation state).events.toList) (operation state).state

namespace Follows

variable {invariant : List Event → S → Prop}

theorem pure (value : α) : Follows invariant (Pure.pure value : Operation ε S α) := by
  intro log state holds
  simpa only [pure_apply, List.append_nil] using holds

theorem throw (error : ε) :
    Follows invariant (MonadExcept.throw error : Operation ε S α) := by
  intro log state holds
  simpa only [throw_apply, List.append_nil] using holds

theorem get : Follows invariant (MonadState.get : Operation ε S S) := by
  intro log state holds
  simpa only [get_apply, List.append_nil] using holds

theorem bind {operation : Operation ε S α} {rest : α → Operation ε S β}
    (first : Follows invariant operation) (next : ∀ value, Follows invariant (rest value)) :
    Follows invariant (operation >>= rest) := by
  intro log state holds
  have between := first log state holds
  rw [bind_apply]
  generalize operation state = result at between ⊢
  obtain ⟨outcome, state, events⟩ := result
  cases outcome with
  | error error => exact between
  | ok value =>
    have last := next value _ state between
    simpa only [Result.after, Array.toList_append, List.append_assoc] using last

theorem map {change : α → β} {operation : Operation ε S α} (follows : Follows invariant operation) :
    Follows invariant (change <$> operation) := by
  intro log state holds
  rw [map_apply]
  exact follows log state holds

theorem attempt {operation : Operation ε S α} (follows : Follows invariant operation) :
    Follows invariant operation.attempt := follows

theorem orThrow {operation : Operation ε S α} (error : ε)
    (follows : Follows invariant operation) : Follows invariant (operation.orThrow error) := by
  intro log state holds
  have between := follows log state holds
  unfold Operation.orThrow
  simp only [tryCatch, tryCatchThe, MonadExceptOf.tryCatch]
  generalize operation state = result at between ⊢
  obtain ⟨outcome, state, events⟩ := result
  cases outcome with
  | error _ => simpa only [throw_apply, Result.after, Array.append_empty] using between
  | ok _ => exact between

theorem times {operation : Operation ε S α} (follows : Follows invariant operation) (count : Nat) :
    Follows invariant (operation.times count) := by
  induction count with
  | zero => exact pure _
  | succ count ih => exact bind follows.attempt fun _ => bind ih fun _ => pure _

end Follows

/-- On states with one property the operation has this outcome and leaves states with another. -/
def Leads (before : S → Prop) (operation : Operation ε S α) (outcome : Except ε α)
    (after : S → Prop) : Prop :=
  ∀ state, before state → (operation state).outcome = outcome ∧ after (operation state).state

namespace Leads

variable {before between after : S → Prop}

theorem pure (value : α) : Leads before (Pure.pure value : Operation ε S α) (.ok value) before :=
  fun _ held => ⟨rfl, held⟩

theorem throw (error : ε) :
    Leads before (MonadExcept.throw error : Operation ε S α) (.error error) before :=
  fun _ held => ⟨rfl, held⟩

theorem bind {operation : Operation ε S α} {rest : α → Operation ε S β} {value : α}
    {outcome : Except ε β} (first : Leads before operation (.ok value) between)
    (next : Leads between (rest value) outcome after) :
    Leads before (operation >>= rest) outcome after := by
  intro state held
  obtain ⟨yields, left⟩ := first state held
  rw [bind_apply]
  generalize operation state = result at yields left ⊢
  obtain ⟨_, state, events⟩ := result
  simp only at yields left
  subst yields
  exact next state left

/-- A failure is the end. -/
theorem bind_error {operation : Operation ε S α} {rest : α → Operation ε S β} {error : ε}
    (first : Leads before operation (.error error) after) :
    Leads before (operation >>= rest) (.error error) after := by
  intro state held
  obtain ⟨yields, left⟩ := first state held
  rw [bind_apply]
  generalize operation state = result at yields left ⊢
  obtain ⟨_, state, events⟩ := result
  simp only at yields left
  subst yields
  exact ⟨rfl, left⟩

theorem map {change : α → β} {operation : Operation ε S α} {outcome : Except ε α}
    (leads : Leads before operation outcome after) :
    Leads before (change <$> operation) (outcome.map change) after := by
  intro state held
  rw [map_apply]
  obtain ⟨yields, left⟩ := leads state held
  exact ⟨congrArg (Except.map change) yields, left⟩

theorem attempt {operation : Operation ε S α} {outcome : Except ε α}
    (leads : Leads before operation outcome after) :
    Leads before operation.attempt (.ok outcome) after := by
  intro state held
  obtain ⟨yields, left⟩ := leads state held
  exact ⟨congrArg Except.ok yields, left⟩

theorem orThrow {operation : Operation ε S α} {value : α} (error : ε)
    (leads : Leads before operation (.ok value) after) :
    Leads before (operation.orThrow error) (.ok value) after := by
  intro state held
  obtain ⟨yields, left⟩ := leads state held
  unfold Operation.orThrow
  simp only [tryCatch, tryCatchThe, MonadExceptOf.tryCatch]
  generalize operation state = result at yields left ⊢
  obtain ⟨_, state, events⟩ := result
  simp only at yields left
  subst yields
  exact ⟨rfl, left⟩

/-- What follows a look at the state is taken on each state by itself. -/
theorem get_bind {rest : S → Operation ε S β} {outcome : Except ε β}
    (leads : ∀ state, before state → Leads (· = state) (rest state) outcome after) :
    Leads before (MonadState.get >>= rest) outcome after := by
  intro state held
  exact leads state held state rfl

theorem weaken {operation : Operation ε S α} {outcome : Except ε α} {stronger : S → Prop}
    (leads : Leads before operation outcome after)
    (enough : ∀ state, stronger state → before state) :
    Leads stronger operation outcome after :=
  fun state held => leads state (enough state held)

end Leads

/-- On states with one property, a success leaves states with another, which may depend on its
value, and a failure is one that is allowed. -/
def Ensures (before : S → Prop) (operation : Operation ε S α) (after : α → S → Prop)
    (failing : ε → S → Prop) : Prop :=
  ∀ state, before state →
    match operation state with
    | ⟨.ok value, left, _⟩ => after value left
    | ⟨.error error, left, _⟩ => failing error left

namespace Ensures

variable {before : S → Prop} {between : α → S → Prop} {after : β → S → Prop}
  {failing : ε → S → Prop}

theorem pure {value : α} (holds : ∀ state, before state → between value state) :
    Ensures before (Pure.pure value : Operation ε S α) between failing := holds

theorem throw {error : ε} (allowed : ∀ state, before state → failing error state) :
    Ensures before (MonadExcept.throw error : Operation ε S α) between failing := allowed

theorem bind {operation : Operation ε S α} {rest : α → Operation ε S β}
    (first : Ensures before operation between failing)
    (next : ∀ value, Ensures (between value) (rest value) after failing) :
    Ensures before (operation >>= rest) after failing := by
  intro state held
  have taken := first state held
  rw [bind_apply]
  generalize operation state = result at taken ⊢
  obtain ⟨error | value, left, events⟩ := result
  · exact taken
  · have last := next value left taken
    simp only at last ⊢
    generalize rest value left = result at last ⊢
    obtain ⟨error | value, left, events⟩ := result
    · exact last
    · exact last

theorem map {change : α → β} {operation : Operation ε S α}
    (ensures : Ensures before operation between failing)
    (changed : ∀ value state, between value state → after (change value) state) :
    Ensures before (change <$> operation) after failing := by
  intro state held
  have taken := ensures state held
  rw [map_apply]
  generalize operation state = result at taken ⊢
  obtain ⟨error | value, left, events⟩ := result
  · exact taken
  · exact changed value left taken

/-- Any operation does something. -/
theorem trivial (operation : Operation ε S α) :
    Ensures (fun _ => True) operation (fun _ _ => True) (fun _ _ => True) := by
  intro state _
  generalize operation state = result
  obtain ⟨error | value, left, events⟩ := result
  · exact True.intro
  · exact True.intro

/-- What follows a look at the state is taken on each state by itself. -/
theorem get_bind {rest : S → Operation ε S β}
    (ensures : ∀ state, before state → Ensures (· = state) (rest state) after failing) :
    Ensures before (MonadState.get >>= rest) after failing := by
  intro state held
  have taken := ensures state held state rfl
  change match (rest state state).after #[] with
    | ⟨.ok value, left, _⟩ => after value left
    | ⟨.error error, left, _⟩ => failing error left
  rwa [Result.after_empty]

theorem orThrow {operation : Operation ε S α} (error : ε)
    (ensures : Ensures before operation between fun _ _ => False) :
    Ensures before (operation.orThrow error) between failing := by
  intro state held
  have taken := ensures state held
  unfold Operation.orThrow
  simp only [tryCatch, tryCatchThe, MonadExceptOf.tryCatch]
  generalize operation state = result at taken ⊢
  obtain ⟨_ | value, left, events⟩ := result
  · exact taken.elim
  · exact taken

theorem weaken {operation : Operation ε S α} {stronger : S → Prop} {weaker : α → S → Prop}
    (ensures : Ensures before operation between failing)
    (enough : ∀ state, stronger state → before state)
    (less : ∀ value state, between value state → weaker value state) :
    Ensures stronger operation weaker failing := by
  intro state held
  have taken := ensures state (enough state held)
  generalize operation state = result at taken ⊢
  obtain ⟨error | value, left, events⟩ := result
  · exact taken
  · exact less value left taken

end Ensures

end Operation

end Lexing
