import Lexing.Proofs.Buffer.Bounds
import Lexing.Proofs.Buffer.Conservation
import Lexing.Proofs.Machine.Keeping

/-!
# Defects are out of reach

However a buffer is used, its cursors and its capacity stay within the bounds that its configuration
sets, and a byte that is held is the next one that is stored (`HoldsBack`). So the failures that
would tell of a defect do not occur, and growth leads somewhere (`Defectless`), as long as no
request for more memory than there are sizes is granted. `used_sound` puts this together.
-/

set_option autoImplicit false

namespace Lexing.Buffer

open Operation (Keeps)

variable {σ : Type}

/-- Nothing was read: the source and the held byte are the same, and no other byte is stored. -/
structure NothingRead (before after : Buffer σ) : Prop where
  source : after.source = before.source
  held : after.window.held = before.window.held
  stored : after.window.stored.toList <:+ before.window.stored.toList

structure HoldsBack [ByteSource σ] (buffer : Buffer (Metered σ)) (byte : UInt8) : Prop where
  /-- A read leaves the source alone. -/
  source : (next buffer).state.source = buffer.source
  /-- If it stores a byte then it stores the one that is held, which else stays. -/
  stored : (next buffer).state.window.stored = buffer.window.stored ∧
      (next buffer).state.window.held = some byte ∨
    (next buffer).state.window.stored = buffer.window.stored.push byte ∧
      (next buffer).state.window.held = none
  /-- A call that attempts no read leaves it held and stores nothing. -/
  unread : ∀ call : Call, call.attempts buffer = [] →
    NothingRead buffer (call.perform buffer).state
  /-- No call polls the source by reads beside which a byte is held. -/
  polls : ∀ call : Call, (∀ read ∈ call.attempts buffer, read.window.held.isSome) →
    (call.perform buffer).state.source.polls = buffer.source.polls

structure Defectless [ByteSource σ] (limit : Option Nat) (buffer : Buffer σ) : Prop where
  dump : (dump buffer).outcome = .ok ()
  skip : (skip buffer).outcome = .ok buffer.window.consumed
  emit : (emit buffer).outcome = .ok buffer.window.pending
  moveFailure : ∀ (call : Call) (consumed available : Nat),
    (call.perform buffer).outcome ≠ .error (.moveFailure consumed available)
  peekBackup : ∀ call : Call, (call.perform buffer).outcome ≠ .error .peekBackup
  nextIf : ∀ accepts, (nextIf accepts buffer).outcome ≠ .error .backupUnderflow
  eatWhile : ∀ accepts, (eatWhile accepts buffer).outcome ≠ .error .backupUnderflow
  /-- A read that has to make room stands below the ceiling and has a larger capacity to grow to. -/
  growth : ∀ call : Call, ∀ read ∈ call.attempts buffer,
    ¬ read.window.consumed < read.window.capacity → read.window.atCeiling = false →
      read.window.capacity < read.window.growthTarget ∧
        ∀ bound, limit = some bound → read.window.capacity < bound
  /-- Growth within the ceiling is reported, and nothing else of growth. -/
  reports : ∀ call : Call, ∀ event ∈ call.reports buffer, event.GrowsWithin limit
  /-- A read of the lookahead does not touch the capacity, and reports nothing. -/
  replay : ∀ byte, buffer.window.stored[buffer.window.consumed]? = some byte →
    next buffer = ⟨.ok (.byte byte), ⟨buffer.window.advance, buffer.source⟩, #[]⟩

theorem NothingRead.refl (buffer : Buffer σ) : NothingRead buffer buffer :=
  ⟨rfl, rfl, List.suffix_refl _⟩

theorem NothingRead.trans {first second third : Buffer σ} (one : NothingRead first second)
    (two : NothingRead second third) : NothingRead first third :=
  ⟨two.source.trans one.source, two.held.trans one.held, two.stored.trans one.stored⟩

theorem back_nothingRead (before : Buffer σ) :
    Keeps (fun buffer => buffer.window.WellFormed ∧ NothingRead before buffer) back := by
  rintro buffer ⟨formed, same⟩
  have kept := back_keeps_wellFormed buffer formed
  rw [back_state] at kept ⊢
  exact ⟨kept, same.source, same.held, same.stored⟩

theorem dump_nothingRead (before : Buffer σ) :
    Keeps (fun buffer => buffer.window.WellFormed ∧ NothingRead before buffer) dump := by
  rintro ⟨window, source⟩ ⟨formed, same⟩
  have kept := dump_keeps_wellFormed _ formed
  rw [dump_eq formed.consumed_le] at kept ⊢
  refine ⟨kept, same.trans ⟨rfl, rfl, ?_⟩⟩
  rw [Window.discard, Window.lookahead_toList]
  exact List.drop_suffix _ _

variable [ByteSource σ]

/-- A call that attempts no read reads nothing. -/
theorem perform_nothingRead (call : Call) {buffer : Buffer σ} (formed : buffer.window.WellFormed)
    (unread : call.attempts buffer = []) : NothingRead buffer (call.perform buffer).state := by
  have fresh : buffer.window.WellFormed ∧ NothingRead buffer buffer :=
    ⟨formed, NothingRead.refl buffer⟩
  exact (perform_of_unread (back_nothingRead buffer) (dump_nothingRead buffer) call unread fresh).2

/-- Beside a held byte a read leaves the source alone and stores no other byte. -/
theorem next_of_held {buffer : Buffer σ} {byte : UInt8} (formed : buffer.window.WellFormed)
    (held : buffer.window.held = some byte) :
    (next buffer).state.source = buffer.source ∧
      ((next buffer).state.window.stored = buffer.window.stored ∧
          (next buffer).state.window.held = some byte ∨
        (next buffer).state.window.stored = buffer.window.stored.push byte ∧
          (next buffer).state.window.held = none) := by
  have step := next_readsTo formed
  generalize next buffer = result at step ⊢
  cases step with
  | replayed ahead => exact ⟨rfl, Or.inl ⟨rfl, held⟩⟩
  | cramped used tight below refusal => exact ⟨rfl, Or.inl ⟨rfl, held⟩⟩
  | released used room other =>
    cases Option.some.inj (other.symm.trans held)
    exact ⟨rfl, Or.inr ⟨rfl, rfl⟩⟩
  | refusedAgain used full other => exact ⟨rfl, Or.inl ⟨rfl, held⟩⟩
  | stored used roomy unheld answer => cases unheld.symm.trans held
  | refused used full unheld answer => cases unheld.symm.trans held
  | ended used able unheld answer => cases unheld.symm.trans held
  | failed used able unheld answer => cases unheld.symm.trans held

/-- Reads beside which a byte is held do not poll. -/
theorem perform_polls_of_held {origin discarded : List UInt8} {buffer : Buffer (Metered σ)}
    (conserved : Conserved origin discarded buffer) (call : Call)
    (held : ∀ read ∈ call.attempts buffer, read.window.held.isSome) :
    (call.perform buffer).state.source.polls = buffer.source.polls := by
  have fresh : Asked origin buffer.source.polls [] buffer :=
    ⟨⟨discarded, conserved⟩, rfl, nofun⟩
  rw [(perform_asked call fresh).polls, List.nil_append, List.countP_eq_zero.2, Nat.add_zero]
  intro read member
  have beside := held read member
  rw [decide_eq_true_eq]
  intro asks
  rw [asks.2.1] at beside
  cases beside

/-- The reads that a call attempts are on buffers in use. -/
theorem Used.attempts {first buffer : Buffer σ} (used : Used first buffer) (call : Call) :
    ∀ read ∈ call.attempts buffer, Used first read := by
  refine attempts_of_keeps (fun between used => ?_) (fun between used => ?_)
    (fun between used => ?_) call used
  · have called := used.called .next
    rwa [Call.perform, Operation.map_apply] at called
  · have called := used.called .back
    rwa [Call.perform, bind_pure_comp, Operation.map_apply] at called
  · have called := used.called .dump
    rwa [Call.perform, bind_pure_comp, Operation.map_apply] at called

/-- Calls in any number are a use. -/
theorem Used.performAll {first buffer : Buffer σ} (used : Used first buffer) (calls : List Call) :
    Used first (performAll calls buffer).state := by
  induction calls generalizing buffer with
  | nil => exact used
  | cons call calls ih =>
    rw [performAll_cons_state]
    exact ih (used.called call)

theorem Used.bounded {source : σ} {config : Config} {memory : Nat} {first buffer : Buffer σ}
    (opened : openWith config memory source = .ok first) (used : Used first buffer) :
    Bounded config memory buffer :=
  used.keeps perform_keeps_bounded (openWith_bounded opened)

section Use

variable {source : Metered σ} {config : Config} {memory : Nat} {first buffer : Buffer (Metered σ)}

theorem Used.conserved (opened : openWith config memory source = .ok first)
    (used : Used first buffer) :
    ∃ discarded, Conserved source.delivered.toList discarded buffer := by
  have fresh : ∃ discarded, Conserved source.delivered.toList discarded first := by
    obtain ⟨rfl, formed⟩ := openWith_eq_ok opened
    exact ⟨[], formed, by simp [Window.empty], rfl⟩
  have calling (call : Call) : Keeps (fun buffer : Buffer (Metered σ) =>
      ∃ discarded, Conserved source.delivered.toList discarded buffer) call.perform := by
    rintro between ⟨discarded, conserved⟩
    exact ⟨_, perform_conserved call conserved⟩
  exact used.keeps calling fresh

theorem Used.holdsBack (opened : openWith config memory source = .ok first)
    (used : Used first buffer) {byte : UInt8} (held : buffer.window.held = some byte) :
    HoldsBack buffer byte := by
  have formed := (used.bounded opened).formed
  obtain ⟨discarded, conserved⟩ := used.conserved opened
  obtain ⟨source, stored⟩ := next_of_held formed held
  exact ⟨source, stored, fun call => perform_nothingRead call formed,
    perform_polls_of_held conserved⟩

theorem Used.defectless (opened : openWith config memory source = .ok first)
    (used : Used first buffer) (sizes : memory ≤ Size.max) : Defectless config.limit buffer := by
  have bounded := used.bounded opened
  have formed := bounded.formed
  refine {
    dump := congrArg Result.outcome (dump_eq formed.consumed_le _)
    skip := congrArg Result.outcome (skip_eq formed.consumed_le _)
    emit := congrArg Result.outcome (emit_eq formed _)
    moveFailure := ?_
    peekBackup := ?_
    nextIf := ?_
    eatWhile := ?_
    growth := ?_
    reports := reports_within bounded sizes
    replay := fun byte ahead => (ReadsTo.replayed ahead).next_eq formed }
  · intro call consumed available fails
    exact (call.mayFail_of_error formed fails).not_isDefect trivial
  · intro call fails
    exact (call.mayFail_of_error formed fails).not_isDefect trivial
  · intro accepts fails
    exact next_error formed (nextIf_error accepts formed fails)
  · intro accepts fails
    exact eatFrom_error accepts 0 #[] formed fails
  · intro call read member used' below
    have attempted := (used.attempts call read member).bounded opened
    have ceiling : read.window.limit ≠ some read.window.capacity := by
      intro limit
      rw [(Window.atCeiling_iff attempted.formed).2 limit] at below
      cases below
    refine ⟨attempted.larger sizes ceiling, fun bound limit => ?_⟩
    have within := attempted.within.ceiling bound limit
    have apart : read.window.capacity ≠ bound := fun same =>
      ceiling (attempted.limit.trans (limit.trans (congrArg some same.symm)))
    omega

/-- However a buffer is used after it was opened: its cursors and its capacity are within the bounds
of its configuration, and a byte that is held is the next one to be stored, before which the source
is not polled. If no more memory than there are sizes is granted, then the failures that would tell
of a defect do not occur, growth leads to a larger capacity within the ceiling, and reading the
lookahead again does not lead to growth. All this holds of the buffers, too, on which the calls made
of several reads attempt each of these. -/
theorem used_sound (opened : openWith config memory source = .ok first)
    (used : Used first buffer) :
    buffer.window.CursorsWithin config ∧
      (∀ byte, buffer.window.held = some byte → HoldsBack buffer byte) ∧
      (memory ≤ Size.max → Defectless config.limit buffer) ∧
      ∀ call : Call, ∀ read ∈ call.attempts buffer, Used first read :=
  ⟨(used.bounded opened).within, fun _ => used.holdsBack opened, used.defectless opened,
    used.attempts⟩

end Use

/-- A run that a fault ends, and then reads up to the ceiling and beyond. -/
theorem used_sound_refusal :
    let first : Buffer (Metered Script) := ⟨Window.empty 1 (some 2) (1 <<< 48), faulty⟩
    let buffer := (performAll [.next, .next, .next, .next] first).state
    openWith ⟨1, some 2⟩ (1 <<< 48) faulty = .ok first ∧ Used first buffer ∧
      buffer.window.held = some 99 ∧ HoldsBack buffer 99 ∧ Defectless (some 2) buffer := by
  intro first buffer
  have opened : openWith ⟨1, some 2⟩ (1 <<< 48) faulty = .ok first := rfl
  have used : Used first buffer :=
    (((Used.unused.called .next).called .next).called .next).called .next
  have held : buffer.window.held = some 99 := by decide
  have sound := used_sound opened used
  exact ⟨opened, used, held, sound.2.1 99 held, sound.2.2.1 (by decide)⟩

end Lexing.Buffer
