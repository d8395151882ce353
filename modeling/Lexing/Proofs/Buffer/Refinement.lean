import Lexing.Proofs.Buffer.Tracking

/-!
# Calls on a buffer and on its offsets

Every operation on a buffer over bytes in memory agrees with the operation of the same name on
offsets: the outcomes are the same, and the offsets go on telling where the buffer stands. From
single calls (`perform_agrees`) this extends to all lists of them
(`performAll_follows_offsets`).
-/

set_option autoImplicit false

namespace Lexing

open Result (Agree)

namespace Offsets

variable {bytes : List UInt8} {limit : Option Nat}

/-- Peeking is reading and giving back. -/
theorem peek_eq :
    peek bytes limit = do
      match ← next bytes limit with
      | .eos => return .eos
      | .byte byte =>
        back.orThrow .peekBackup
        return .byte byte := by
  funext offsets
  obtain ⟨start, consumed, fetched⟩ := offsets
  cases there : bytes[start + consumed]? with
  | none => simp only [peek, next, there, Operation.bind_apply]; rfl
  | some byte =>
    by_cases full : limit = some consumed
    · simp only [peek, next, there, if_pos full, Operation.bind_apply]
    · simp only [peek, next, there, if_neg full, Operation.bind_apply]
      rfl

/-- Taking a byte if it is accepted is reading, and giving back if it is not. -/
theorem nextIf_eq (accepts : UInt8 → Bool) :
    nextIf bytes limit accepts = do
      match ← next bytes limit with
      | .eos => return none
      | .byte byte =>
        if accepts byte then
          return some byte
        else
          back
          return none := by
  funext offsets
  obtain ⟨start, consumed, fetched⟩ := offsets
  cases there : bytes[start + consumed]? with
  | none => simp only [nextIf, next, there, Operation.bind_apply]; rfl
  | some byte =>
    by_cases full : limit = some consumed
    · simp only [nextIf, next, there, if_pos full, Operation.bind_apply]
    · simp only [nextIf, next, there, if_neg full, Operation.bind_apply]
      cases accepts byte <;> rfl

/-- Eating goes on after a byte that was taken. -/
theorem eatFrom_eq (accepts : UInt8 → Bool) (count : Nat) (offsets : Offsets) :
    eatFrom bytes limit accepts count offsets =
      match nextIf bytes limit accepts offsets with
      | ⟨.ok (some _), after, _⟩ => eatFrom bytes limit accepts (count + 1) after
      | ⟨.ok none, after, _⟩ => ⟨.ok count, after, #[]⟩
      | ⟨.error error, after, _⟩ => ⟨.error error, after, #[]⟩ := by
  rw [eatFrom]
  split
  next result => rw [result]
  next result => rw [result]
  next result => rw [result]

theorem emitText_eq (offsets : Offsets) :
    emitText bytes offsets =
      match Utf8.decode (offsets.pending bytes).toArray with
      | .error malformation => ⟨.error (.copyFailure offsets.consumed malformation), offsets, #[]⟩
      | .ok text => ⟨.ok text, ⟨offsets.start + offsets.consumed, 0, offsets.fetched⟩, #[]⟩ := by
  simp only [emitText, Operation.bind_apply, Operation.get_apply, Result.after_empty]
  cases Utf8.decode (pending bytes offsets).toArray <;> rfl

def performAll (bytes : List UInt8) (limit : Option Nat) (calls : List Call) :
    Operation LexError Offsets (List (Except LexError Value)) :=
  calls.mapM fun call => (perform bytes limit call).attempt

end Offsets

namespace Buffer

variable {bytes : List UInt8} {limit : Option Nat} {buffer : Buffer Slice} {offsets : Offsets}

theorem back_agrees (tracks : Tracks bytes limit buffer offsets) :
    Agree (Tracks bytes limit) unseen (back buffer) (Offsets.back offsets) := by
  have formed := back_keeps_wellFormed buffer tracks.formed
  have consumed := tracks.consumed
  obtain ⟨window, source⟩ := buffer
  obtain ⟨start, length, fetched⟩ := offsets
  simp only at consumed
  by_cases empty : length = 0
  · rw [back, Offsets.back, if_pos (consumed.trans empty), if_pos empty]
    exact ⟨rfl, tracks, filter_unseen _⟩
  · have pending : ¬ window.consumed = 0 := fun none => empty (consumed.symm.trans none)
    rw [back, if_neg pending] at formed ⊢
    rw [Offsets.back, if_neg empty]
    exact ⟨rfl, { tracks with formed, consumed := congrArg (· - 1) consumed }, rfl⟩

theorem peek_agrees (fits : bytes.length < Size.max) (tracks : Tracks bytes limit buffer offsets) :
    Agree (Tracks bytes limit) unseen (peek buffer) (Offsets.peek bytes limit offsets) := by
  rw [Offsets.peek_eq]
  refine (next_agrees fits tracks).bind fun next buffer offsets tracks => ?_
  cases next with
  | eos => exact .pure tracks
  | byte byte =>
    exact (back_agrees tracks).orThrow.bind fun _ buffer offsets tracks => .pure tracks

theorem nextIf_agrees (fits : bytes.length < Size.max) (accepts : UInt8 → Bool)
    (tracks : Tracks bytes limit buffer offsets) :
    Agree (Tracks bytes limit) unseen (nextIf accepts buffer)
      (Offsets.nextIf bytes limit accepts offsets) := by
  rw [Offsets.nextIf_eq]
  refine (next_agrees fits tracks).bind fun next buffer offsets tracks => ?_
  cases next with
  | eos => exact .pure tracks
  | byte byte =>
    by_cases accepted : accepts byte = true
    · simp only [if_pos accepted]
      exact .pure tracks
    · simp only [if_neg accepted]
      exact (back_agrees tracks).bind fun _ buffer offsets tracks => .pure tracks

theorem eatFrom_agrees (fits : bytes.length < Size.max) (accepts : UInt8 → Bool) (count : Nat)
    (log : Array Event) (tracks : Tracks bytes limit buffer offsets) :
    Agree (Tracks bytes limit) unseen (eatFrom accepts count log buffer)
      (Offsets.eatFrom bytes limit accepts count offsets) := by
  fun_induction eatFrom accepts count log buffer generalizing offsets with
  | case1 count log buffer byte after events result ih =>
    have taken := nextIf_agrees fits accepts tracks
    rw [result] at taken
    obtain ⟨state, _, same, tracks, -⟩ := taken.right_eq
    rw [Offsets.eatFrom_eq, same]
    exact ih tracks
  | case2 count log buffer after events result =>
    have taken := nextIf_agrees fits accepts tracks
    rw [result] at taken
    obtain ⟨state, _, same, tracks, -⟩ := taken.right_eq
    rw [Offsets.eatFrom_eq, same]
    exact ⟨rfl, tracks, filter_unseen _⟩
  | case3 count log buffer error after events result =>
    have taken := nextIf_agrees fits accepts tracks
    rw [result] at taken
    obtain ⟨state, _, same, tracks, -⟩ := taken.right_eq
    rw [Offsets.eatFrom_eq, same]
    exact ⟨rfl, tracks, filter_unseen _⟩

end Buffer

namespace Tracks

variable {bytes : List UInt8} {limit : Option Nat} {window : Window} {source : Slice}
  {offsets : Offsets}

/-- Discarding the pending token moves the start past it. -/
theorem discard (tracks : Tracks bytes limit ⟨window, source⟩ offsets) :
    Tracks bytes limit ⟨window.discard, source⟩
      ⟨offsets.start + offsets.consumed, 0, offsets.fetched⟩ := by
  have stored := tracks.formed.consumed_le
  have consumed := tracks.consumed
  have fetched := tracks.fetched
  have within := tracks.fetched_le
  have lookahead : window.lookahead.size = window.available - window.consumed := by
    simp [Window.lookahead, Window.available]
  simp only at stored consumed fetched
  refine { tracks with
    formed := tracks.formed.discard
    consumed := rfl
    start := ?_
    start_le := ?_
    ahead := ?_
    fetched := ?_ }
  · have start : window.start = offsets.start.toUInt64 := tracks.start
    simp only [Window.discard, start, consumed]
    exact (UInt64.ofNat_add _ _).symm
  · simp only
    omega
  · have held : window.consumed ≤ window.stored.toList.length := by
      simpa [Window.available] using stored
    rw [← List.drop_drop, tracks.ahead, ← consumed]
    simp only [Window.discard, Window.lookahead_toList, List.append_assoc,
      List.drop_append_of_le_length held]
  · simp only [Window.discard, Window.available] at lookahead stored fetched ⊢
    omega

end Tracks

namespace Buffer

variable {bytes : List UInt8} {limit : Option Nat} {buffer : Buffer Slice} {offsets : Offsets}

theorem dump_agrees (tracks : Tracks bytes limit buffer offsets) :
    Agree (Tracks bytes limit) unseen (dump buffer) (Offsets.dump offsets) := by
  rw [dump_eq tracks.formed.consumed_le]
  exact ⟨rfl, tracks.discard, filter_unseen _⟩

theorem skip_agrees (tracks : Tracks bytes limit buffer offsets) :
    Agree (Tracks bytes limit) unseen (skip buffer) (Offsets.skip offsets) := by
  rw [skip_eq tracks.formed.consumed_le]
  exact ⟨congrArg Except.ok tracks.consumed, tracks.discard, filter_unseen _⟩

theorem emit_agrees (tracks : Tracks bytes limit buffer offsets) :
    Agree (Tracks bytes limit) unseen (emit buffer) (Offsets.emit bytes offsets) := by
  rw [emit_eq tracks.formed]
  refine ⟨congrArg Except.ok ?_, tracks.discard, filter_unseen _⟩
  rw [← tracks.pending_eq]

/-- Text is handed out, or refused as it is, on both sides. -/
theorem emitText_agrees (tracks : Tracks bytes limit buffer offsets) :
    Agree (Tracks bytes limit) unseen (emitText buffer) (Offsets.emitText bytes offsets) := by
  have consumed := tracks.consumed
  rw [emitText_eq tracks.formed, Offsets.emitText_eq, ← tracks.pending_eq]
  cases Utf8.decode buffer.window.pending with
  | error malformation => exact ⟨by rw [consumed], tracks, rfl⟩
  | ok text => exact ⟨rfl, tracks.discard, filter_unseen _⟩

/-- Every call has the outcome that the offsets give, and they go on telling where the buffer
stands. -/
theorem perform_agrees (fits : bytes.length < Size.max) (call : Call)
    (tracks : Tracks bytes limit buffer offsets) :
    Agree (Tracks bytes limit) unseen (call.perform buffer)
      (Offsets.perform bytes limit call offsets) := by
  induction call generalizing buffer offsets with
  | next => exact (next_agrees fits tracks).map
  | peek => exact (peek_agrees fits tracks).map
  | back => exact (back_agrees tracks).bind fun _ buffer offsets tracks => .pure tracks
  | dump => exact (dump_agrees tracks).bind fun _ buffer offsets tracks => .pure tracks
  | skip => exact (skip_agrees tracks).map
  | emit => exact (emit_agrees tracks).map
  | emitText => exact (emitText_agrees tracks).map
  | nextIf accepts => exact (nextIf_agrees fits accepts tracks).map
  | eatWhile accepts => exact Agree.map (eatFrom_agrees fits accepts 0 #[] tracks)
  | times count call ih => exact (Agree.times (fun _ _ => ih) count tracks).map

theorem performAll_agrees (fits : bytes.length < Size.max) (calls : List Call)
    (tracks : Tracks bytes limit buffer offsets) :
    Agree (Tracks bytes limit) unseen (performAll calls buffer)
      (Offsets.performAll bytes limit calls offsets) := by
  induction calls generalizing buffer offsets with
  | nil => exact .pure tracks
  | cons call calls ih =>
    unfold performAll Offsets.performAll at ih ⊢
    rw [List.mapM_cons, List.mapM_cons]
    refine (perform_agrees fits call tracks).attempt.bind fun outcome buffer offsets tracks => ?_
    exact (ih tracks).bind fun outcomes buffer offsets tracks => .pure tracks

/-- An opened buffer stands at the front of the bytes. -/
theorem tracks_of_openWith {config : Config} {memory : Nat}
    (granted : GrantsGrowth memory config.limit bytes.length)
    (opened : openWith config memory (Slice.ofList bytes) = .ok buffer) :
    Tracks bytes config.limit buffer .zero := by
  obtain ⟨rfl, formed⟩ := openWith_eq_ok opened
  exact {
    formed
    limit := rfl
    granted
    consumed := rfl
    start := rfl
    start_le := Nat.zero_le _
    ahead := rfl
    fetched := rfl
    position := rfl }

/-- Whatever calls are performed on a buffer over bytes in memory, their outcomes are those of the
offsets, and so are the position, the pending token and the number of bytes fetched. Of storage,
growth and the held byte nothing shows but that together they have the bytes fetched since the
start of the token. The calls may be those of any run so far, so this holds after each of them. -/
theorem performAll_follows_offsets {config : Config} {memory : Nat}
    (fits : bytes.length < Size.max) (granted : GrantsGrowth memory config.limit bytes.length)
    (opened : openWith config memory (Slice.ofList bytes) = .ok buffer) (calls : List Call) :
    let run := performAll calls buffer
    let followed := Offsets.performAll bytes config.limit calls .zero
    run.outcome = followed.outcome ∧
      run.state.window.consumed = followed.state.consumed ∧
      run.state.window.start.toNat = followed.state.start ∧
      run.state.window.pending.toList = followed.state.pending bytes ∧
      run.state.source.position = followed.state.fetched ∧
      followed.state.start + run.state.window.available + run.state.window.held.toList.length =
        followed.state.fetched := by
  have agree := performAll_agrees fits calls (tracks_of_openWith granted opened)
  have tracks := agree.state
  exact ⟨agree.outcome, tracks.consumed, tracks.start_toNat fits, tracks.pending_eq,
    tracks.position, tracks.fetched⟩

/-- Three bytes read through a ceiling of two: the third is refused, held and read in the end. -/
def cramping : List Call := [.next, .peek, .next, .next, .emit, .next, .peek]

theorem performAll_follows_offsets_cramping :
    openWith ⟨1, some 2⟩ 3 (Slice.ofList [97, 98, 99]) =
        .ok ⟨Window.empty 1 (some 2) 3, Slice.ofList [97, 98, 99]⟩ ∧
      (Offsets.performAll [97, 98, 99] (some 2) cramping .zero).state = ⟨2, 1, 3⟩ ∧
      (performAll cramping ⟨Window.empty 1 (some 2) 3, Slice.ofList [97, 98, 99]⟩).outcome =
        (Offsets.performAll [97, 98, 99] (some 2) cramping .zero).outcome := by
  have opened : openWith ⟨1, some 2⟩ 3 (Slice.ofList [97, 98, 99]) =
      .ok ⟨Window.empty 1 (some 2) 3, Slice.ofList [97, 98, 99]⟩ := rfl
  have granted : GrantsGrowth 3 (some 2) 3 := fun size _ within => Nat.lt_succ_of_le (within 2 rfl)
  exact ⟨opened, by decide, (performAll_follows_offsets (by decide) granted opened cramping).1⟩

end Buffer

end Lexing
