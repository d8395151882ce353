import Lexing.Proofs.Machine.Rewinding
import Lexing.Proofs.Text.Utf8

/-!
# Tokens as text

All ways to discard a token leave the same buffer. Handing it out as text succeeds for exactly the
tokens that are well-formed UTF-8 and gives the text that they encode; it fails on the others and
leaves them (`TextRefused`), to be handed out as bytes, or as text as far as they are well-formed:
when the bytes from there on are given back, the others are a text, and these are read again after
it (`refused_of_malformed`).
-/

set_option autoImplicit false

namespace Lexing

variable {σ : Type} [ByteSource σ]

namespace Buffer

/-- What can be done with a token that is no text. It is well-formed up to a place before its end:
the bytes from there on are given back, the others are handed out as text, and the first ones are
read again. -/
structure TextRefused (malformation : Utf8.Malformation) (buffer : Buffer σ) : Prop where
  refused : emitText buffer =
    ⟨.error (.copyFailure buffer.window.consumed malformation), buffer, #[]⟩
  before_end : malformation.validUpTo < buffer.window.consumed
  /-- It can be handed out as bytes. -/
  bytes : (emit buffer).outcome = .ok buffer.window.pending
  /-- It can be handed out as text as far as it is one. -/
  text :
    let tail := buffer.window.consumed - malformation.validUpTo
    let back := performAll (List.replicate tail .back) buffer
    let taken := emitText back.state
    let again := performAll (List.replicate tail .next) taken.state
    back.outcome = .ok (List.replicate tail (.ok .done)) ∧
      (∃ text, taken.outcome = .ok text ∧
        text.toUTF8.data = buffer.window.pending.extract 0 malformation.validUpTo) ∧
      again.outcome = .ok ((buffer.window.pending.toList.drop malformation.validUpTo).map
        fun byte => .ok (.next (.byte byte))) ∧
      again.state.source = buffer.source

variable {buffer : Buffer σ}

omit [ByteSource σ] in
/-- A token that is text is handed out and discarded. -/
theorem emitText_of_text {text : String} (formed : buffer.window.WellFormed)
    (decoded : Utf8.decode buffer.window.pending = .ok text) :
    (emitText buffer).outcome = .ok text ∧
      (emitText buffer).state = ⟨buffer.window.discard, buffer.source⟩ := by
  obtain ⟨window, source⟩ := buffer
  rw [emitText_eq formed, decoded]
  exact ⟨rfl, rfl⟩

theorem refused_of_malformed {malformation : Utf8.Malformation} (formed : buffer.window.WellFormed)
    (malformed : Utf8.decode buffer.window.pending = .error malformation) :
    TextRefused malformation buffer := by
  obtain ⟨window, source⟩ := buffer
  obtain ⟨before, text, decoded⟩ := Utf8.decode_error malformed
  have size : window.pending.size = window.consumed := Window.length_pending formed.consumed_le
  rw [size] at before
  refine ⟨?_, before, congrArg Result.outcome (emit_eq formed source), ?_⟩
  · rw [emitText_eq formed, malformed]
  · intro tail back taken again
    have place : window.consumed - tail = malformation.validUpTo := by
      simp only [tail]
      omega
    have given : back = ⟨.ok (List.replicate tail (.ok .done)),
        ⟨window.shortened malformation.validUpTo, source⟩, #[]⟩ := by
      rw [Window.shortened, ← place]
      exact backs_eq (Nat.sub_le _ _)
    have short := formed.shortened (Nat.le_of_lt before)
    have pending := Window.pending_shortened (Nat.le_of_lt before)
    have handed : taken.outcome = .ok text ∧
        taken.state = ⟨(window.shortened malformation.validUpTo).discard, source⟩ := by
      simp only [taken]
      rw [given]
      exact emitText_of_text short (pending ▸ decoded)
    have replayed := nexts_of_discarded formed (Nat.le_of_lt before) source
    refine ⟨by rw [given], ⟨text, handed.1, Utf8.decode_eq_ok_iff.1 decoded⟩, ?_, ?_⟩
    · simp only [again]
      rw [handed.2, replayed]
    · simp only [again]
      rw [handed.2, replayed]

/-- A token is taken as text, or kept.

However a buffer over any source has been used, its token can be handed out as text exactly if it is
well-formed UTF-8, as the text that the bytes encode which are handed out otherwise. Every discard
that succeeds leaves the same: the lookahead is what is stored, the token starts behind the one that
was taken, and all else is as it was, so nothing that comes after can tell them apart. A token that
is no text is left, and can be had in the ways of `TextRefused`. -/
theorem text_taken_or_kept {source : σ} {config : Config} {memory : Nat} {first : Buffer σ}
    (opened : openWith config memory source = .ok first) (used : Used first buffer) :
    ((∃ text, (emitText buffer).outcome = .ok text) ↔
      (ByteArray.mk buffer.window.pending).IsValidUTF8) ∧
    (∀ text, (emitText buffer).outcome = .ok text → text.toUTF8.data = buffer.window.pending) ∧
    (emit buffer).outcome = .ok buffer.window.pending ∧ (dump buffer).outcome = .ok () ∧
    (skip buffer).outcome = .ok buffer.window.consumed ∧
    (∀ call : Call, call.IsDiscard → ∀ value, (call.perform buffer).outcome = .ok value →
      (call.perform buffer).state =
        ⟨{ buffer.window with
          stored := buffer.window.lookahead
          consumed := 0
          start := buffer.window.start + buffer.window.consumed.toUInt64 }, buffer.source⟩) ∧
    ∀ error, (emitText buffer).outcome = .error error → ∃ malformation,
      error = .copyFailure buffer.window.consumed malformation ∧
        TextRefused malformation buffer := by
  have formed := (used.bounded opened).formed
  have stored := formed.consumed_le
  have yields (text : String) : (emitText buffer).outcome = .ok text ↔
      Utf8.decode buffer.window.pending = .ok text := by
    rw [emitText_eq formed]
    cases Utf8.decode buffer.window.pending with
    | error malformation => simp
    | ok decoded => simp
  refine ⟨?_, ?_, ?_, ?_, ?_, ?_, ?_⟩
  · simp only [yields]
    exact Utf8.decode_isOk_iff _
  · intro text handed
    exact Utf8.decode_eq_ok_iff.1 ((yields text).1 handed)
  · exact congrArg Result.outcome (emit_eq formed _)
  · exact congrArg Result.outcome (dump_eq stored _)
  · exact congrArg Result.outcome (skip_eq stored _)
  · intro call discards value succeeds
    exact discard_state formed discards succeeds
  · intro error fails
    rw [emitText_eq formed] at fails
    cases decoded : Utf8.decode buffer.window.pending with
    | error malformation =>
      rw [decoded] at fails
      cases fails
      exact ⟨malformation, rfl, refused_of_malformed formed decoded⟩
    | ok text =>
      rw [decoded] at fails
      cases fails

/-- A token that ends inside a character whose other byte was given back. -/
theorem text_taken_or_kept_cut :
    let script : Script := ⟨[.ok (.byte 0x61), .ok (.byte 0xC3), .ok (.byte 0xA9)]⟩
    let first : Buffer Script := ⟨Window.empty 1 none (1 <<< 48), script⟩
    let buffer := (performAll [.next, .next, .next, .back] first).state
    openWith ⟨1, none⟩ (1 <<< 48) script = .ok first ∧ Used first buffer ∧
      buffer.window.pending = #[0x61, 0xC3] ∧
      (emitText buffer).outcome = .error (.copyFailure 2 ⟨1, none⟩) ∧
      TextRefused ⟨1, none⟩ buffer := by
  intro script first buffer
  have opened : openWith ⟨1, none⟩ (1 <<< 48) script = .ok first := rfl
  have used : Used first buffer :=
    (((Used.unused.called .next).called .next).called .next).called .back
  have undecoded : String.fromUTF8? ⟨#[0x61, 0xC3]⟩ = none := by decide +kernel
  have malformed : Utf8.malformation #[0x61, 0xC3] = ⟨1, none⟩ := by decide +kernel
  have decoded : Utf8.decode buffer.window.pending = .error ⟨1, none⟩ := by
    change Utf8.decode #[0x61, 0xC3] = _
    rw [Utf8.decode, undecoded, malformed]
  have fails : (emitText buffer).outcome = .error (.copyFailure 2 ⟨1, none⟩) := by
    rw [emitText_eq (used.bounded opened).formed, decoded]
    rfl
  obtain ⟨-, -, -, -, -, -, kept⟩ := text_taken_or_kept opened used
  obtain ⟨malformation, same, refused⟩ := kept _ fails
  cases same
  exact ⟨opened, used, by decide, fails, refused⟩

end Buffer

end Lexing
