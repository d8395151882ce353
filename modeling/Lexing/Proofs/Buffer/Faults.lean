import Lexing.Buffer.Settle
import Lexing.Proofs.Buffer.Coupled
import Lexing.Proofs.Buffer.Looking

/-!
# Faults of the source

A call that fails with a fault of its source has read nothing that is lost: performed again, it
comes to what it would have come to if there had been no fault (`Outlasts`). So a client that
performs calls again until no fault is reported brings about the same buffers as one whose source
reports none (`faults_transparent`).

The one thing that differs is the count of bytes that were accepted: those accepted before a fault
are pending when reading starts again, and are not counted again.
-/

set_option autoImplicit false

namespace Lexing

open Operation (Keeps)
open Result (Agree)

abbrev Script.Cleaned (script clean : Script) : Prop := script.withoutFaults = clean

namespace Script

theorem poll_length (script : Script) :
    (ByteSource.poll script).2.answers.length ≤ script.answers.length := by
  obtain ⟨_ | ⟨answer, rest⟩⟩ := script
  · exact Nat.le_refl _
  · exact Nat.le_succ _

/-- An answer that is no fault comes first without the faults, too. -/
theorem poll_withoutFaults {script after : Script} {next : Next}
    (answer : ByteSource.poll script = (.ok next, after)) :
    ByteSource.poll script.withoutFaults = (.ok next, after.withoutFaults) := by
  obtain ⟨_ | ⟨first, rest⟩⟩ := script
  · cases answer
    rfl
  · cases answer
    rfl

/-- A fault is left out. -/
theorem withoutFaults_of_fault {script after : Script} {fault : Fault}
    (answer : ByteSource.poll script = (.error fault, after)) :
    script.withoutFaults = after.withoutFaults ∧
      after.answers.length < script.answers.length := by
  obtain ⟨_ | ⟨first, rest⟩⟩ := script
  · cases answer
  · cases answer
    exact ⟨rfl, Nat.lt_succ_self _⟩

end Script

theorem Value.plus_plus (first second : Nat) :
    Value.plus first ∘ Value.plus second = Value.plus (first + second) := by
  funext value
  cases value with
  | count bytes => exact congrArg Value.count (Nat.add_assoc _ _ _).symm
  | _ => rfl

theorem Value.plus_zero : Value.plus 0 = id := by
  funext value
  cases value with
  | count bytes => exact congrArg Value.count (Nat.zero_add _)
  | _ => rfl

namespace Buffer

variable {α β : Type}

/-- A read makes room at most once: where it has made some, it goes on as it would have. -/
theorem next_widened {σ : Type} [ByteSource σ] {window : Window} (formed : window.WellFormed)
    (able : window.Roomy ∨ window.Full) (source : σ) :
    next ⟨window, source⟩ = (next ⟨window.widened, source⟩).after window.growth := by
  rcases able with roomy | full
  · have room : window.widened.consumed < window.widened.capacity := by
      rw [Window.widened_consumed]
      exact Window.consumed_lt_widened formed roomy
    rw [next_eq_of_roomy roomy, next, if_pos room]
  · rw [Window.widened_of_full formed full, Window.growth_of_full formed full, Result.after_empty]

/-- What comes of an operation on a buffer whose source reports faults, and on the same buffer with
the faults left out. Either the same comes of both, or a fault of the first and then what is left
is such that performing the operation again, had there been no fault, comes to what the operation
comes to on the second, apart from what was counted before the fault. -/
inductive Outlasts (operation : BufferM Script α) (plus : Nat → α → α)
    (left right : Buffer Script) : Prop
  | settled (free : ∀ fault, (operation left).outcome ≠ .error (.source fault))
      (agree : Agree (Coupled Script.Cleaned) everyEvent (operation left) (operation right))
  | failed {fault : Fault} {after : Buffer Script} {events : Array Event}
      (result : operation left = ⟨.error (.source fault), after, events⟩)
      (shorter : after.source.answers.length < left.source.answers.length)
      (longer : left.window.consumed ≤ after.window.consumed)
      (again : operation right = ((operation ⟨after.window, after.source.withoutFaults⟩).map
        (plus (after.window.consumed - left.window.consumed))).after events)

variable {left right : Buffer Script}

theorem next_outlasts (formed : left.window.WellFormed)
    (coupled : Coupled Script.Cleaned left right) :
    Outlasts next (fun _ => id) left right := by
  obtain ⟨window, source⟩ := left
  obtain ⟨_, _⟩ := right
  obtain ⟨rfl, rfl⟩ := coupled
  have step := next_readsTo formed
  rcases result : next ⟨window, source⟩ with ⟨outcome, after, events⟩
  rw [result] at step
  cases step with
  | replayed ahead =>
    refine .settled (by simp [result]) ?_
    rw [result, (ReadsTo.replayed ahead).next_eq formed]
    exact ⟨rfl, ⟨rfl, rfl⟩, rfl⟩
  | cramped used tight below refusal =>
    refine .settled (by simp [result]) ?_
    -- growth is refused before the source is asked, so the faults play no part in it
    have coupled : Coupled Script.Cleaned ⟨window, source⟩ ⟨window, source.withoutFaults⟩ :=
      ⟨rfl, rfl⟩
    have refused := grow_coupled coupled
    rw [refusal] at refused
    obtain ⟨⟨_, _⟩, more, refusal, ⟨rfl, rfl⟩, reported⟩ := refused.right_eq
    rw [result, (ReadsTo.cramped used tight below refusal).next_eq formed]
    exact ⟨rfl, ⟨rfl, rfl⟩, reported⟩
  | released used room held =>
    refine .settled (by simp [result]) ?_
    rw [result, (ReadsTo.released used room held).next_eq formed]
    exact ⟨rfl, ⟨rfl, rfl⟩, rfl⟩
  | refusedAgain used full held =>
    refine .settled (by simp [result]) ?_
    rw [result, (ReadsTo.refusedAgain used full held).next_eq formed]
    exact ⟨rfl, ⟨rfl, rfl⟩, rfl⟩
  | stored used roomy unheld answer =>
    refine .settled (by simp [result]) ?_
    have clean := Script.poll_withoutFaults answer
    rw [result, (ReadsTo.stored used roomy unheld clean).next_eq formed]
    exact ⟨rfl, ⟨rfl, rfl⟩, rfl⟩
  | refused used full unheld answer =>
    refine .settled (by simp [result]) ?_
    have clean := Script.poll_withoutFaults answer
    rw [result, (ReadsTo.refused used full unheld clean).next_eq formed]
    exact ⟨rfl, ⟨rfl, rfl⟩, rfl⟩
  | ended used able unheld answer =>
    refine .settled (by simp [result]) ?_
    have clean := Script.poll_withoutFaults answer
    rw [result, (ReadsTo.ended used able unheld clean).next_eq formed]
    exact ⟨rfl, ⟨rfl, rfl⟩, rfl⟩
  | failed used able unheld answer =>
    -- room was made before the fault, and is there when the read is tried again
    obtain ⟨same, shorter⟩ := Script.withoutFaults_of_fault answer
    refine .failed result shorter (Nat.le_of_eq (Window.widened_consumed _).symm) ?_
    rw [Result.map_id, same]
    exact next_widened formed able _

/-- An operation that goes on from one that outlasts faults outlasts them too, if it fails with no
fault unless that one does. -/
theorem Outlasts.bind {operation : BufferM Script α} {rest : α → BufferM Script β}
    (first : Outlasts operation (fun _ => id) left right)
    (free : ∀ fault, ((operation >>= rest) left).outcome = .error (.source fault) →
      (operation left).outcome = .error (.source fault))
    (agree : Agree (Coupled Script.Cleaned) everyEvent (operation left) (operation right) →
      Agree (Coupled Script.Cleaned) everyEvent ((operation >>= rest) left)
        ((operation >>= rest) right)) :
    Outlasts (operation >>= rest) (fun _ => id) left right := by
  cases first with
  | settled none same =>
    exact .settled (fun fault fails => none fault (free fault fails)) (agree same)
  | failed result shorter longer again =>
    refine .failed (Operation.bind_of_error result) shorter longer ?_
    rw [Result.map_id] at again ⊢
    exact Operation.bind_after rest again

theorem peek_outlasts (formed : left.window.WellFormed)
    (coupled : Coupled Script.Cleaned left right) :
    Outlasts peek (fun _ => id) left right :=
  (next_outlasts formed coupled).bind (fun _ => peek_error formed)
    fun agree => peek_agree agree fun _ _ => back_coupled

theorem nextIf_outlasts (accepts : UInt8 → Bool) (formed : left.window.WellFormed)
    (coupled : Coupled Script.Cleaned left right) :
    Outlasts (nextIf accepts) (fun _ => id) left right :=
  (next_outlasts formed coupled).bind (fun _ => nextIf_error accepts formed)
    fun agree => nextIf_agree accepts agree fun _ _ => back_coupled

/-- A byte that is accepted leaves no more answers than there were. -/
theorem nextIf_length (accepts : UInt8 → Bool) (formed : left.window.WellFormed) :
    (nextIf accepts left).state.source.answers.length ≤ left.source.answers.length := by
  have reading := next_keeps_source fun (script : Script)
    (within : script.answers.length ≤ left.source.answers.length) =>
      Nat.le_trans script.poll_length within
  have giving := back_keeps_source fun (script : Script) =>
    script.answers.length ≤ left.source.answers.length
  exact (nextIf_keeps accepts reading giving left ⟨formed, Nat.le_refl _⟩).2

/-- Where reading a byte outlasts a fault, so does reading on from there. -/
theorem eatWhile_outlasts_of_fault {accepts : UInt8 → Bool} {fault : Fault} {after : Buffer Script}
    {events : Array Event} (formed : left.window.WellFormed)
    (result : nextIf accepts left = ⟨.error (.source fault), after, events⟩)
    (shorter : after.source.answers.length < left.source.answers.length)
    (again : nextIf accepts right =
      (nextIf accepts ⟨after.window, after.source.withoutFaults⟩).after events) :
    Outlasts (eatWhile accepts) (· + ·) left right := by
  have read := (nextIf_eq_error accepts formed).1 result
  have consumed := (next_error_consumed formed read).2
  refine .failed (eatWhile_of_error result) shorter (Nat.le_of_eq consumed.symm) ?_
  have none : (0 + · : Nat → Nat) = id := funext Nat.zero_add
  rw [consumed, Nat.sub_self, none, Result.map_id, congrFun (eatWhile_eq accepts) right,
    Operation.bind_after _ again, ← congrFun (eatWhile_eq accepts)]

/-- A byte that is accepted counts before a fault that follows it. -/
theorem eatWhile_outlasts_of_accepted {accepts : UInt8 → Bool} {byte : UInt8}
    {after other : Buffer Script} {events : Array Event} (formed : left.window.WellFormed)
    (result : nextIf accepts left = ⟨.ok (some byte), after, events⟩)
    (clean : nextIf accepts right = ⟨.ok (some byte), other, events⟩)
    (rest : Outlasts (eatWhile accepts) (· + ·) after other) :
    Outlasts (eatWhile accepts) (· + ·) left right := by
  have eaten := eatWhile_of_some result
  have same := eatWhile_of_some clean
  cases rest with
  | settled free agree =>
    refine .settled (fun fault fails => ?_) ?_
    · rw [eaten] at fails
      exact free fault (Result.outcome_map_eq_error.1 fails)
    · rw [eaten, same]
      exact Agree.after rfl
        ⟨congrArg (Except.map (1 + ·)) agree.outcome, agree.state, agree.events⟩
  | @failed fault last reports failure shorter longer again =>
    have within := nextIf_length accepts formed
    rw [result] at within
    have consumed := nextIf_some_consumed formed result
    rw [failure] at eaten
    refine .failed eaten (Nat.lt_of_lt_of_le shorter within) (by omega) ?_
    have counted : (1 + · : Nat → Nat) ∘ (last.window.consumed - after.window.consumed + ·) =
        (last.window.consumed - left.window.consumed + ·) := by
      funext count
      simp only [Function.comp_apply]
      omega
    rw [same, again, Result.map_after, Result.map_map, Result.after_after, counted]

/-- Reading on outlasts a fault with the bytes that were accepted before it. -/
theorem eatWhile_outlasts (accepts : UInt8 → Bool) (formed : left.window.WellFormed)
    (coupled : Coupled Script.Cleaned left right) :
    Outlasts (eatWhile accepts) (· + ·) left right := by
  -- each byte that is accepted uses up room, as in the recursion of `eatFrom`
  induction room : left.window.roomLeft using Nat.strongRecOn generalizing left right with
  | ind room ih =>
    cases nextIf_outlasts accepts formed coupled with
    | failed result shorter longer again =>
      rw [Result.map_id] at again
      exact eatWhile_outlasts_of_fault formed result shorter again
    | settled free agree =>
      have kept := nextIf_keeps_wellFormed accepts left formed
      rcases result : nextIf accepts left with ⟨outcome, after, events⟩
      rw [result] at free agree kept
      obtain ⟨other, more, clean, coupled, reported⟩ := agree.right_eq
      rcases outcome with error | _ | byte
      · refine .settled ?_ ?_
        · rw [eatWhile_of_error result]
          intro fault fails
          cases fails
          exact free fault rfl
        · rw [eatWhile_of_error result, eatWhile_of_error clean]
          exact ⟨rfl, coupled, reported⟩
      · refine .settled ?_ ?_
        · rw [eatWhile_of_none result]
          nofun
        · rw [eatWhile_of_none result, eatWhile_of_none clean]
          exact ⟨rfl, coupled, reported⟩
      · have same : events = more := agree.events_eq.trans (congrArg Result.events clean)
        subst same
        have less := roomLeft_lt_of_nextIf result
        exact eatWhile_outlasts_of_accepted formed result clean
          (ih _ (room ▸ less) kept coupled rfl)

/-- What outlasts faults does so when its value is changed after the fact. -/
theorem Outlasts.map {operation : BufferM Script α} {plus : Nat → α → α} {add : Nat → β → β}
    {change : α → β} (outlasts : Outlasts operation plus left right)
    (commutes : ∀ count value, change (plus count value) = add count (change value)) :
    Outlasts (change <$> operation) add left right := by
  cases outlasts with
  | settled free agree =>
    exact .settled (fun fault fails => free fault (Operation.outcome_map_eq_error.1 fails))
      agree.map
  | @failed fault after events result shorter longer again =>
    have failed : (change <$> operation) left = ⟨.error (.source fault), after, events⟩ := by
      rw [Operation.map_apply, result]
      rfl
    refine .failed failed shorter longer ?_
    rw [Operation.map_apply, Operation.map_apply, again, Result.map_after, Result.map_map,
      Result.map_map]
    congr 2
    funext value
    exact commutes _ value

/-- A single call that fails with no fault outlasts all of them if it agrees. -/
theorem settled_of_agree {call : Call} (formed : left.window.WellFormed)
    (never : ∀ fault, ¬ call.MayFail (.source fault))
    (agree : Agree (Coupled Script.Cleaned) everyEvent (call.perform left) (call.perform right)) :
    Outlasts call.perform Value.plus left right :=
  .settled (fun fault fails => never fault (call.mayFail_of_error formed fails)) agree

/-- Every single call outlasts faults. -/
theorem perform_outlasts {call : Call} (single : call.isSingle = true)
    (formed : left.window.WellFormed) (coupled : Coupled Script.Cleaned left right) :
    Outlasts call.perform Value.plus left right := by
  cases call with
  | next => exact (next_outlasts formed coupled).map fun _ _ => rfl
  | peek => exact (peek_outlasts formed coupled).map fun _ _ => rfl
  | nextIf accepts => exact (nextIf_outlasts accepts formed coupled).map fun _ _ => rfl
  | eatWhile accepts => exact (eatWhile_outlasts accepts formed coupled).map fun _ _ => rfl
  | back =>
    refine settled_of_agree formed (fun _ => nofun) ?_
    exact (back_coupled coupled).bind fun _ left right coupled => .pure coupled
  | dump =>
    refine settled_of_agree formed (fun _ => id) ?_
    exact (dump_coupled coupled).bind fun _ left right coupled => .pure coupled
  | skip => exact settled_of_agree formed (fun _ => id) (skip_coupled coupled).map
  | emit => exact settled_of_agree formed (fun _ => id) (emit_coupled coupled).map
  | emitText =>
    refine settled_of_agree formed ?_ (emitText_coupled coupled).map
    rintro fault ⟨length, malformation, other⟩
    cases other
  | times count call => cases single

def withoutFaults (buffer : Buffer Script) : Buffer Script :=
  ⟨buffer.window, buffer.source.withoutFaults⟩

theorem coupled_iff : Coupled Script.Cleaned left right ↔ right = left.withoutFaults := by
  constructor
  · obtain ⟨window, source⟩ := left
    obtain ⟨_, _⟩ := right
    rintro ⟨rfl, rfl⟩
    rfl
  · rintro rfl
    exact ⟨rfl, rfl⟩

/-- The last attempt meets no fault, and what comes of it is what would have come of the first one
if there had been no fault, apart from what was counted before. -/
structure Settles (call : Call) (buffer last : Buffer Script) : Prop where
  formed : last.window.WellFormed
  longer : buffer.window.consumed ≤ last.window.consumed
  free : ∀ fault, (call.perform last).outcome ≠ .error (.source fault)
  again : ∃ events, call.perform buffer.withoutFaults = ((call.perform last.withoutFaults).map
    (Value.plus (last.window.consumed - buffer.window.consumed))).after events

theorem Settles.of_free {call : Call} {buffer : Buffer Script} (formed : buffer.window.WellFormed)
    (free : ∀ fault, (call.perform buffer).outcome ≠ .error (.source fault)) :
    Settles call buffer buffer := by
  refine ⟨formed, Nat.le_refl _, free, #[], ?_⟩
  rw [Nat.sub_self, Value.plus_zero, Result.map_id, Result.after_empty]

/-- Where no fault is met, no further attempt is made. -/
theorem lastAttempt_of_free {call : Call} {buffer : Buffer Script} (tries : Nat)
    (free : ∀ fault, (call.perform buffer).outcome ≠ .error (.source fault)) :
    lastAttempt call tries buffer = buffer := by
  cases tries with
  | zero => rfl
  | succ tries =>
    rw [lastAttempt]
    split
    next fault after events result => exact absurd (congrArg Result.outcome result) (free fault)
    next => rfl

theorem lastAttempt_settles {call : Call} (single : call.isSingle = true) {tries : Nat}
    {buffer : Buffer Script} (formed : buffer.window.WellFormed)
    (enough : buffer.source.answers.length ≤ tries) :
    Settles call buffer (lastAttempt call tries buffer) := by
  induction tries generalizing buffer with
  | zero =>
    cases perform_outlasts single formed (coupled_iff.2 rfl) with
    | settled free agree => exact .of_free formed free
    | failed result shorter longer again => omega
  | succ tries ih =>
    cases perform_outlasts single formed (coupled_iff.2 rfl) with
    | settled free agree =>
      rw [lastAttempt_of_free _ free]
      exact .of_free formed free
    | @failed fault after events result shorter longer again =>
      have kept : after.window.WellFormed := by
        have kept := perform_keeps_wellFormed call buffer formed
        rwa [result] at kept
      have next : lastAttempt call (tries + 1) buffer = lastAttempt call tries after := by
        rw [lastAttempt, result]
      obtain ⟨formed, further, free, more, rest⟩ := ih kept (by omega)
      rw [next]
      refine ⟨formed, Nat.le_trans longer further, free, events ++ more, ?_⟩
      have clean : call.perform buffer.withoutFaults = ((call.perform after.withoutFaults).map
        (Value.plus (after.window.consumed - buffer.window.consumed))).after events := again
      rw [clean, rest, Result.map_after, Result.map_map, Result.after_after, Value.plus_plus]
      congr 3
      omega

/-- Settling a call comes to what the call comes to without the faults: the same buffer, and the
same outcome but for the bytes that were counted before. -/
theorem settle_agrees {call : Call} (single : call.isSingle = true) {buffer : Buffer Script}
    (formed : buffer.window.WellFormed) :
    let last := lastAttempt call buffer.source.answers.length buffer
    (settle call buffer).state.withoutFaults = (call.perform buffer.withoutFaults).state ∧
      (call.perform buffer.withoutFaults).outcome = (settle call buffer).outcome.map
        (Value.plus (last.window.consumed - buffer.window.consumed)) := by
  intro last
  obtain ⟨formed, longer, free, events, again⟩ :=
    lastAttempt_settles single formed (Nat.le_refl buffer.source.answers.length)
  cases perform_outlasts single formed (coupled_iff.2 rfl) with
  | settled _ agree =>
    rw [again]
    exact ⟨(coupled_iff.1 agree.state).symm, congrArg (Except.map _) agree.outcome.symm⟩
  | failed result shorter longer again => exact absurd (congrArg Result.outcome result) (free _)

theorem settle_keeps_wellFormed {call : Call} (single : call.isSingle = true)
    {buffer : Buffer Script} (formed : buffer.window.WellFormed) :
    (settle call buffer).state.window.WellFormed :=
  perform_keeps_wellFormed call _ (lastAttempt_settles single formed (Nat.le_refl _)).formed

/-- Calls that are settled one after another bring about the same as the calls without the
faults. -/
theorem settleAll_agrees {calls : List Call} (single : ∀ call ∈ calls, call.isSingle = true)
    {buffer : Buffer Script} (formed : buffer.window.WellFormed) :
    (settleAll calls buffer).window.WellFormed ∧
      (settleAll calls buffer).withoutFaults = (performAll calls buffer.withoutFaults).state := by
  induction calls generalizing buffer with
  | nil => exact ⟨formed, rfl⟩
  | cons call calls ih =>
    have first := single call List.mem_cons_self
    have others := fun call member => single call (List.mem_cons_of_mem _ member)
    obtain ⟨kept, same⟩ := ih others (settle_keeps_wellFormed first formed)
    rw [(settle_agrees first formed).1] at same
    rw [performAll_cons_state]
    exact ⟨kept, same⟩

/-- A client performs calls over a source that may report faults, and performs each again until it
reports none. Another performs the same calls over the same source without its faults. After the
same calls both have the same window, over the same rest of the source without its faults, and the
next call has the same outcome, which is no fault. Only a count of bytes may differ: it leaves out
those that failed attempts have accepted, which are pending since. -/
theorem faults_transparent {script : Script} {config : Config} {memory : Nat}
    {left right : Buffer Script} (openedLeft : openWith config memory script = .ok left)
    (openedRight : openWith config memory script.withoutFaults = .ok right) (calls : List Call)
    (single : ∀ call ∈ calls, call.isSingle = true) :
    let faulty := settleAll calls left
    let clean := (performAll calls right).state
    faulty.window = clean.window ∧ faulty.source.withoutFaults = clean.source ∧
      ∀ call, call.isSingle = true →
        let last := lastAttempt call faulty.source.answers.length faulty
        faulty.window.consumed ≤ last.window.consumed ∧
          (∀ fault, (settle call faulty).outcome ≠ .error (.source fault)) ∧
          (call.perform clean).outcome = (settle call faulty).outcome.map
            (Value.plus (last.window.consumed - faulty.window.consumed)) := by
  intro faulty clean
  obtain ⟨rfl, formed⟩ := openWith_eq_ok openedLeft
  obtain ⟨rfl, -⟩ := openWith_eq_ok openedRight
  obtain ⟨kept, same⟩ := settleAll_agrees single formed
  have agrees : faulty.withoutFaults = clean := same
  refine ⟨by rw [← agrees]; rfl, by rw [← agrees]; rfl, ?_⟩
  intro call one last
  have settles := lastAttempt_settles one kept (Nat.le_refl _)
  refine ⟨settles.longer, settles.free, ?_⟩
  rw [← agrees]
  exact (settle_agrees one kept).2

/-- Bytes with faults before and between them, and a premature end. -/
def faulting : Script :=
  ⟨[.ok (.byte 97), .error ⟨"Other", "early"⟩, .ok (.byte 97), .error ⟨"Other", "late"⟩, .ok .eos,
    .ok (.byte 98)]⟩

theorem faults_transparent_eating :
    openWith ⟨1, some 2⟩ 3 faulting = .ok ⟨Window.empty 1 (some 2) 3, faulting⟩ ∧
      openWith ⟨1, some 2⟩ 3 faulting.withoutFaults =
        .ok ⟨Window.empty 1 (some 2) 3, faulting.withoutFaults⟩ ∧
      (∀ call ∈ [Call.eatWhile (· == 97), Call.emit], call.isSingle = true) ∧
      (settleAll [.eatWhile (· == 97), .emit] ⟨Window.empty 1 (some 2) 3, faulting⟩).window =
        (performAll [.eatWhile (· == 97), .emit]
          ⟨Window.empty 1 (some 2) 3, faulting.withoutFaults⟩).state.window := by
  have opened : openWith ⟨1, some 2⟩ 3 faulting =
      .ok ⟨Window.empty 1 (some 2) 3, faulting⟩ := rfl
  have cleaned : openWith ⟨1, some 2⟩ 3 faulting.withoutFaults =
      .ok ⟨Window.empty 1 (some 2) 3, faulting.withoutFaults⟩ := rfl
  have single : ∀ call ∈ [Call.eatWhile (· == 97), Call.emit], call.isSingle = true := by
    simp [Call.isSingle]
  exact ⟨opened, cleaned, single, (faults_transparent opened cleaned _ single).1⟩

end Buffer

end Lexing
