import Lexing.Proofs.Buffer.Stream
import Lexing.Proofs.Expression.Lexeme
import Lexing.Proofs.Machine.Defects
import Lexing.Proofs.Machine.Run

/-!
# Runs of the expression machine over any stream

Over a source that hands out finitely many bytes, and reports ends and faults whenever it likes, a
run of the machine comes to its end whatever was done with the buffer before. A step at white space
stops in front of a byte that begins a token, so the step that follows takes that byte: two steps
take at least one byte (`start_ensures`, `token_ensures`). What a run delivers are lexemes of the
stream in order, and it fails by a byte at which no token begins, by a fault of the source or by a
byte refused at the ceiling, and in no other way (`run_safe`).
-/

set_option autoImplicit false

namespace Lexing.Expression

open Buffer (Carries Stands Facing Stopped)
open ByteSource (Streams)
open Operation (Ensures)
open Session (Has onBuffer modifyContext onBuffer_ensures)
open Machine (runFrom_of_proceed runFrom_of_halt runFrom_of_error)

namespace Token

def bytes (token : Token) : List UInt8 := token.text.toUTF8.data.toList

/-- The offset behind the last byte. -/
def stop (token : Token) : Nat := token.start.toNat + token.bytes.length

/-- The token is a lexeme of its kind, in ASCII and not empty, and stands in the bytes where it says
that it starts. -/
structure FoundIn (bytes : List UInt8) (token : Token) : Prop where
  nonempty : token.bytes ≠ []
  ascii : ∀ byte ∈ token.bytes, byte < 0x80
  lexeme : Lexeme token.kind token.bytes
  there : (bytes.drop token.start.toNat).take token.bytes.length = token.bytes

end Token

variable {σ : Type} [ByteSource σ] {bytes token lexeme : List UInt8} {limit : Option Nat}
  {start : Nat} {out : Array Token} {byte : UInt8} {kind : Kind}

/-- Whether a run can fail with it: no token begins with the byte at the offset, or a read failed
although growth is granted. -/
def Error.Allowed (bytes : List UInt8) (limit : Option Nat) : Error → Prop
  | .unexpected byte offset => bytes[offset.toNat]? = some byte ∧ classify byte = none
  | .lex cause => cause.Excused limit

def Fails (bytes : List UInt8) (limit : Option Nat) (out : Array Token) (error : Error)
    (session : Session σ (Array Token)) : Prop :=
  error.Allowed bytes limit ∧ Has (fun buffer => ∃ start, Carries bytes limit start buffer) out session

/-- A read that fails fails a step. -/
theorem fails_of_stopped (cause : LexError) (session : Session σ (Array Token))
    (stopped : Has (Stopped bytes limit cause) out session) :
    Fails bytes limit out (FromLexError.ofLexError cause) session :=
  ⟨stopped.1.1, stopped.1.2, stopped.2⟩

section Standing

variable {buffer : Buffer σ}

/-- The pending token is the bytes from its start on. -/
theorem take_of_stands (stands : Stands bytes limit start token buffer) :
    (bytes.drop start).take token.length = token := by
  obtain ⟨carries, rfl⟩ := stands
  have stored := carries.formed.consumed_le
  obtain ⟨rest, ahead, -⟩ := carries.ahead
  rw [Window.length_pending stored, Window.pending_toList, ahead, List.append_assoc]
  exact List.take_append_of_le_length stored

/-- What is handed out of a lexeme is found in the bytes. -/
theorem foundIn_of_stands {text : String} (fits : bytes.length < Size.max)
    (taken : Lexeme kind lexeme) (decoded : Utf8.decode lexeme.toArray = .ok text)
    (stands : Stands bytes limit start lexeme buffer) :
    Token.bytes ⟨kind, text, start.toUInt64⟩ = lexeme ∧
      Token.FoundIn bytes ⟨kind, text, start.toUInt64⟩ := by
  have same : Token.bytes ⟨kind, text, start.toUInt64⟩ = lexeme :=
    congrArg Array.toList (Utf8.decode_eq_ok_iff.1 decoded)
  refine ⟨same, ?_, ?_, ?_, ?_⟩
  · rw [same]
    exact taken.ne_nil
  · rw [same]
    exact taken.ascii
  · rw [same]
    exact taken
  · have within := stands.1.start_le
    rw [same, Size.toNat_toUInt64 (by omega)]
    exact take_of_stands stands

/-- The byte that is faced is the first one behind the token. -/
theorem getElem?_of_facing (stands : Stands bytes limit start [] buffer)
    (facing : Facing byte buffer) : bytes[start]? = some byte := by
  obtain ⟨carries, none⟩ := stands
  have lengths := Window.length_pending carries.formed.consumed_le
  obtain ⟨rest, ahead, -⟩ := carries.ahead
  rw [none, List.length_nil] at lengths
  have first : buffer.window.stored.toList[0]? = some byte := by
    rw [Array.getElem?_toList, lengths]
    exact facing
  have below := (List.getElem?_eq_some_iff.1 first).1
  have front := congrArg (·[0]?) ahead
  simp only [List.getElem?_drop, Nat.add_zero] at front
  rw [front, List.append_assoc, List.getElem?_append_left below, first]

end Standing

section Scanning

variable (fits : bytes.length < Size.max)

include fits

theorem scanIdent_ensures (letter : (ByteClass.isAlpha byte || byte == '_'.toUInt8) = true) :
    Ensures (fun buffer => Stands bytes limit start [] buffer ∧ Facing byte buffer)
      (scanIdent (σ := σ))
      (fun _ left => ∃ lexeme, Lexeme .ident lexeme ∧ Stands bytes limit start lexeme left)
      (Stopped bytes limit) := by
  refine (Buffer.eatWhile_ensures_facing fits (isWord_of_letter letter)).bind fun _ => ?_
  exact Ensures.pure fun buffer ⟨taken, all, stands⟩ => ⟨byte :: taken, .ident letter all, stands⟩

/-- A point is part of the number only together with digits behind it. It is given back without
any, so the token keeps the digits before it. -/
theorem scanNumber_ensures (digit : ByteClass.isDigit byte = true) :
    Ensures (fun buffer => Stands bytes limit start [] buffer ∧ Facing byte buffer)
      (scanNumber (σ := σ))
      (fun _ left => ∃ lexeme, Lexeme .number lexeme ∧ Stands bytes limit start lexeme left)
      (Stopped bytes limit) := by
  refine (Buffer.eatWhile_ensures_facing fits digit).bind fun _ => ?_
  rintro buffer ⟨taken, all, stands⟩
  have digits : (byte :: taken).all ByteClass.isDigit := by rw [List.all_cons, digit, all]; rfl
  have some_digit := List.cons_ne_nil byte taken
  generalize byte :: taken = whole at digits some_digit stands
  rw [List.nil_append] at stands
  refine (Buffer.nextIf_ensures fits _).bind (fun point? => ?_) buffer stands
  cases point? with
  | none =>
    refine Ensures.pure fun buffer ⟨stands, _⟩ => ⟨whole, .integer some_digit digits, ?_⟩
    simpa using stands
  | some point =>
    rintro buffer ⟨stands, accepted⟩
    have dot : point = '.'.toUInt8 := eq_of_beq (accepted point rfl)
    refine (Buffer.eatWhile_ensures fits _).bind (fun count => ?_) buffer stands
    rintro buffer ⟨fraction, length, fractional, stands⟩
    by_cases none : count = 0
    · -- no digit came behind the point
      have empty : fraction = [] := List.length_eq_zero_iff.1 (length.trans none)
      rw [empty, List.append_nil] at stands
      simp only [if_pos none]
      refine Ensures.weaken Buffer.back_ensures (fun _ => id) ?_ buffer stands
      exact fun _ left given => ⟨whole, .integer some_digit digits, given.1⟩
    · have some_fraction : fraction ≠ [] := by
        rintro rfl
        exact none length.symm
      simp only [if_neg none]
      refine ⟨_, .decimal some_digit digits some_fraction fractional, ?_⟩
      rw [← dot]
      simpa using stands

theorem scanPunct_ensures (member : byte ∈ punctuation) :
    Ensures (fun buffer => Stands bytes limit start [] buffer ∧ Facing byte buffer)
      (scanPunct (σ := σ))
      (fun _ left => ∃ lexeme, Lexeme .punct lexeme ∧ Stands bytes limit start lexeme left)
      (Stopped bytes limit) := by
  refine Buffer.next_ensures_facing.bind fun next => ?_
  rintro buffer ⟨rfl, stands⟩
  by_cases equals : byte = '='.toUInt8
  · subst equals
    simp only [if_true]
    refine (Buffer.nextIf_ensures fits _).bind (fun second? => ?_) buffer stands
    cases second? with
    | none =>
      refine Ensures.pure fun buffer ⟨stands, _⟩ => ⟨['='.toUInt8], .punct member, ?_⟩
      simpa using stands
    | some second =>
      refine Ensures.pure fun buffer ⟨stands, accepted⟩ => ⟨_, .equality, ?_⟩
      rw [eq_of_beq (accepted second rfl)] at stands
      simpa using stands
  · have other : ¬ Next.byte byte = .byte '='.toUInt8 := fun same => equals (Next.byte.inj same)
    simp only [if_neg other]
    exact ⟨[byte], .punct member, stands⟩

/-- In front of a byte that begins a token of a kind, scanning takes one. -/
theorem scan_ensures (classified : classify byte = some kind) :
    Ensures (fun buffer => Stands bytes limit start [] buffer ∧ Facing byte buffer)
      (scan kind : BufferM σ Unit)
      (fun _ left => ∃ lexeme, Lexeme kind lexeme ∧ Stands bytes limit start lexeme left)
      (Stopped bytes limit) := by
  have first := of_classify classified
  cases kind with
  | ident => exact scanIdent_ensures fits first
  | number => exact scanNumber_ensures fits first
  | punct => exact scanPunct_ensures fits first

/-- A lexeme is delivered, and nothing is pending afterwards. -/
theorem deliver_ensures {failing : Error → Session σ (Array Token) → Prop}
    (taken : Lexeme kind lexeme) :
    Ensures (Has (Stands bytes limit start lexeme) out) (deliver kind)
      (fun _ session => ∃ token : Token, token.FoundIn bytes ∧ token.start.toNat = start ∧
        token.stop = start + lexeme.length ∧
        Has (Stands bytes limit (start + lexeme.length) []) (out.push token) session)
      failing := by
  refine Ensures.get_bind ?_
  rintro session ⟨stands, context⟩
  have decoded := taken.decode
  obtain ⟨same, found⟩ := foundIn_of_stands fits taken decoded stands
  have begins : session.buffer.window.start = start.toUInt64 := stands.1.startsAt
  have within := stands.1.start_le
  have number : start.toUInt64.toNat = start := Size.toNat_toUInt64 (by omega)
  rw [begins]
  rintro session rfl
  have emits : Ensures (Stands bytes limit start lexeme) (Buffer.emitText (σ := σ)) _
      fun _ _ => False := Buffer.emitText_ensures decoded
  have emitted : Ensures (Has (Stands bytes limit start lexeme) out)
      (onBuffer Buffer.emitText : SessionM σ (Array Token) Error String) _ failing :=
    onBuffer_ensures emits fun _ _ never => never.1.elim
  refine emitted.bind (fun text => ?_) session ⟨stands, context⟩
  rintro ⟨buffer, delivered⟩ ⟨⟨rfl, left⟩, rfl⟩
  exact ⟨_, found, number, by rw [Token.stop, same]; exact congrArg (· + _) number, left, rfl⟩

/-- Skipping white space and looking at the next byte takes nothing but discards what was pending.
It fails where the byte begins no token. -/
theorem scanStart_ensures :
    Ensures (Has (Stands bytes limit start token) out) (scanStart (σ := σ))
      (fun kind? => Has (fun buffer => ∃ later, start + token.length ≤ later ∧
        Stands bytes limit later [] buffer ∧ ∀ kind, kind? = some kind →
          ∃ byte, classify byte = some kind ∧ Facing byte buffer) out)
      (Fails bytes limit out) := by
  refine (onBuffer_ensures (Buffer.eatWhile_ensures fits _) fails_of_stopped).bind fun _ => ?_
  rintro session ⟨⟨space, -, -, stands⟩, context⟩
  refine (onBuffer_ensures Buffer.skip_ensures fails_of_stopped).bind (fun _ => ?_) session
    ⟨stands, context⟩
  refine (onBuffer_ensures (Buffer.peek_ensures fits) fails_of_stopped).bind fun next => ?_
  have later : start + token.length ≤ start + (token ++ space).length := by
    rw [List.length_append]
    omega
  cases next with
  | eos =>
    exact Ensures.pure fun session ⟨⟨stands, _⟩, context⟩ => ⟨⟨_, later, stands, nofun⟩, context⟩
  | byte byte =>
    cases classified : classify byte with
    | some kind =>
      simp only [classified]
      refine Ensures.pure fun session ⟨⟨stands, faces⟩, context⟩ => ⟨⟨_, later, stands, ?_⟩, context⟩
      rintro _ ⟨⟩
      exact ⟨byte, classified, faces byte rfl⟩
    | none =>
      simp only [classified]
      refine Ensures.get_bind ?_
      rintro session ⟨⟨stands, faces⟩, context⟩
      refine Ensures.throw ?_
      rintro session rfl
      have within := stands.1.start_le
      have pending := Window.length_pending stands.1.formed.consumed_le
      rw [stands.2, List.length_nil] at pending
      have here : session.offset.toNat = start + (token ++ space).length := by
        rw [Session.offset, Window.offset, ← pending, stands.1.startsAt]
        exact (congrArg UInt64.toNat (UInt64.add_zero _)).trans (Size.toNat_toUInt64 (by omega))
      refine ⟨⟨?_, classified⟩, ⟨_, stands.1⟩, context⟩
      rw [here]
      exact getElem?_of_facing stands (faces byte rfl)

/-- A step between tokens halts, fails, or stops in front of the next token. -/
theorem start_ensures :
    Ensures (Has (Stands bytes limit start token) out) (machine (σ := σ) .start)
      (fun
        | .proceed state => fun session => ∃ later byte kind, state = .token kind ∧
            start + token.length ≤ later ∧ classify byte = some kind ∧
            Has (fun buffer => Stands bytes limit later [] buffer ∧ Facing byte buffer) out session
        | .halt => Has (fun buffer => ∃ start, Carries bytes limit start buffer) out)
      (Fails bytes limit out) := by
  refine (scanStart_ensures fits).bind fun kind? => Ensures.pure ?_
  rintro session ⟨⟨later, behind, stands, faces⟩, context⟩
  cases kind? with
  | none => exact ⟨⟨later, stands.1⟩, context⟩
  | some kind =>
    obtain ⟨byte, classified, facing⟩ := faces kind rfl
    exact ⟨later, byte, kind, rfl, behind, classified, ⟨stands, facing⟩, context⟩

/-- A step in front of a token delivers one, unless it fails, and goes on behind it. -/
theorem token_ensures (classified : classify byte = some kind) :
    Ensures (Has (fun buffer => Stands bytes limit start [] buffer ∧ Facing byte buffer) out)
      (machine (σ := σ) (.token kind))
      (fun transition session => transition = .proceed .start ∧
        ∃ token : Token, token.FoundIn bytes ∧ token.start.toNat = start ∧
          Has (Stands bytes limit token.stop []) (out.push token) session)
      (Fails bytes limit out) := by
  refine (onBuffer_ensures (scan_ensures fits classified) fails_of_stopped).bind fun _ => ?_
  rintro session ⟨⟨lexeme, taken, stands⟩, context⟩
  refine (deliver_ensures fits taken).bind (fun _ => ?_) session ⟨stands, context⟩
  refine Ensures.pure fun session ⟨token, found, begins, stop, left⟩ => ⟨rfl, token, found, begins, ?_⟩
  rwa [stop]

end Scanning

/-- What a run from a place in the bytes has come to. -/
structure Delivers (bytes : List UInt8) (limit : Option Nat) (start : Nat) (out : Array Token)
    (steps : Nat) (tokens : List Token) (result : Result Error (Session σ (Array Token)) Nat) :
    Prop where
  context : result.state.context.toList = out.toList ++ tokens
  found : ∀ token ∈ tokens, token.FoundIn bytes
  behind : ∀ token ∈ tokens, start ≤ token.start.toNat
  /-- None starts before the end of an earlier one. -/
  ordered : tokens.Pairwise fun earlier later => earlier.stop ≤ later.start.toNat
  outcome : match result.outcome with
    | .ok total => total = steps + (2 * tokens.length + 1)
    | .error error => error.Allowed bytes limit

omit [ByteSource σ] in
/-- A run that delivers no token. -/
theorem Delivers.nil {steps : Nat} {result : Result Error (Session σ (Array Token)) Nat}
    (context : result.state.context = out)
    (outcome : match result.outcome with
      | .ok total => total = steps + 1
      | .error error => error.Allowed bytes limit) :
    Delivers bytes limit start out steps [] result := by
  refine ⟨?_, nofun, nofun, .nil, outcome⟩
  rw [context, List.append_nil]

omit [ByteSource σ] in
/-- A token and what a run delivers behind it. -/
theorem Delivers.cons {token : Token} {tokens : List Token} {steps : Nat}
    {result : Result Error (Session σ (Array Token)) Nat}
    (delivers : Delivers bytes limit token.stop (out.push token) (steps + 2) tokens result)
    (found : token.FoundIn bytes) (behind : start ≤ token.start.toNat) :
    Delivers bytes limit start out steps (token :: tokens) result := by
  have forward : start ≤ token.stop := Nat.le_trans behind (Nat.le_add_right _ _)
  refine ⟨?_, ?_, ?_, ?_, ?_⟩
  · rw [delivers.context, Array.toList_push, List.append_assoc, List.singleton_append]
  · exact List.forall_mem_cons.2 ⟨found, delivers.found⟩
  · refine List.forall_mem_cons.2 ⟨behind, fun later member => ?_⟩
    exact Nat.le_trans forward (delivers.behind later member)
  · exact List.pairwise_cons.2 ⟨delivers.behind, delivers.ordered⟩
  · have ended := delivers.outcome
    generalize result.outcome = outcome at ended ⊢
    cases outcome with
    | error error => exact ended
    | ok total =>
      simp only [List.length_cons] at ended ⊢
      omega

/-- A run from anywhere in the bytes comes to its end: it takes two steps for each token at most,
and each token takes at least one of the bytes. -/
theorem runFrom_delivers (fits : bytes.length < Size.max) {fuel : Nat}
    {session : Session σ (Array Token)} (enough : 2 * (bytes.length - start) < fuel)
    (stands : Has (Stands bytes limit start token) out session) (steps : Nat) (log : Array Event) :
    ∃ result tokens, machine.runFrom fuel steps log .start session = some result ∧
      Delivers bytes limit start out steps tokens result := by
  induction fuel using Nat.strongRecOn generalizing start token out session steps log with
  | _ fuel ih =>
    obtain ⟨more, rfl⟩ := Nat.exists_eq_add_of_lt enough
    have taken := start_ensures fits session stands
    rcases step : machine .start session with ⟨error | state | _, between, events⟩
    · rw [step] at taken
      obtain ⟨reported, run⟩ := runFrom_of_error (congrArg Result.outcome step)
      rw [step] at run
      exact ⟨_, [], run, .nil taken.2.2 taken.1⟩
    · rw [step] at taken
      obtain ⟨later, byte, kind, rfl, forward, classified, faced⟩ := taken
      have there := getElem?_of_facing faced.1.1 faced.1.2
      have below := (List.getElem?_eq_some_iff.1 there).1
      rw [runFrom_of_proceed (congrArg Result.outcome step), step]
      obtain ⟨more, same⟩ : ∃ rest, 2 * (bytes.length - start) + more = rest + 1 :=
        ⟨2 * (bytes.length - start) + more - 1, by omega⟩
      have read := token_ensures fits classified between faced
      rw [same]
      rcases scanned : machine (.token kind) between with ⟨error | state | _, left, reports⟩
      · rw [scanned] at read
        obtain ⟨reported, run⟩ := runFrom_of_error (congrArg Result.outcome scanned)
        rw [scanned] at run
        exact ⟨_, [], run, .nil read.2.2 read.1⟩
      · rw [scanned] at read
        obtain ⟨same', token, found, begins, behind⟩ := read
        cases same'
        rw [runFrom_of_proceed (congrArg Result.outcome scanned), scanned]
        have longer : token.start.toNat < token.stop :=
          Nat.lt_add_of_pos_right (List.length_pos_iff.2 found.nonempty)
        obtain ⟨result, tokens, run, delivers⟩ := ih more (by omega) (by omega) behind (steps + 2) _
        exact ⟨result, token :: tokens, run, delivers.cons found (by omega)⟩
      · rw [scanned] at read
        cases read.1
    · rw [step] at taken
      obtain ⟨reported, run⟩ := runFrom_of_halt (congrArg Result.outcome step)
      rw [step] at run
      exact ⟨_, [], run, .nil taken.2 rfl⟩

/-- The same, from any buffer that carries the bytes. -/
theorem runFrom_of_carries (fits : bytes.length < Size.max) {fuel : Nat}
    (session : Session σ (Array Token)) (carries : Carries bytes limit start session.buffer)
    (enough : 2 * (bytes.length - start) < fuel) (steps : Nat) (log : Array Event) :
    ∃ result tokens, machine.runFrom fuel steps log .start session = some result ∧
      Delivers bytes limit start session.context steps tokens result := by
  have stands : Has (Stands bytes limit start session.buffer.window.pending.toList)
      session.context session := ⟨⟨carries, rfl⟩, rfl⟩
  exact runFrom_delivers fits enough stands steps log

/-- A buffer in use over a stream works on the bytes of the stream. -/
theorem carries_of_used {source : σ} {config : Config} {memory : Nat} {first buffer : Buffer σ}
    (fits : bytes.length < Size.max) (streams : Streams bytes source)
    (granted : GrantsGrowth memory config.limit bytes.length)
    (opened : Buffer.openWith config memory source = .ok first) (used : Buffer.Used first buffer) :
    ∃ start, Carries bytes config.limit start buffer :=
  used.keeps (Buffer.perform_carries fits) ⟨0, Buffer.carries_of_openWith streams granted opened⟩

/-- Over any source that hands out finitely many bytes, whatever it answers between them, a run from
between tokens comes to its end on every buffer in use, as long as growth is granted. All that it
delivers are tokens of the stream, in order and apart from each other. It halts after two steps for
each of them and one more; else it fails by a byte at which no token begins, by a fault of the
source or by a byte refused at the ceiling. -/
theorem run_safe {source : σ} {config : Config} {memory : Nat} {first buffer : Buffer σ}
    (fits : 2 * bytes.length < Size.max) (streams : Streams bytes source)
    (granted : GrantsGrowth memory config.limit bytes.length)
    (opened : Buffer.openWith config memory source = .ok first) (used : Buffer.Used first buffer)
    (out : Array Token) :
    ∃ result tokens, machine.run .start ⟨buffer, out⟩ = some result ∧
      result.state.context.toList = out.toList ++ tokens ∧
      (∀ token ∈ tokens, token.FoundIn bytes) ∧
      (tokens.Pairwise fun earlier later => earlier.stop ≤ later.start.toNat) ∧
      match result.outcome with
      | .ok steps => steps = 2 * tokens.length + 1
      | .error error => error.Allowed bytes config.limit := by
  have inside : bytes.length < Size.max := by omega
  obtain ⟨start, carries⟩ := carries_of_used inside streams granted opened used
  have enough : 2 * (bytes.length - start) < Size.max := by omega
  obtain ⟨result, tokens, run, delivers⟩ :=
    runFrom_of_carries inside ⟨buffer, out⟩ carries enough 0 #[.started _]
  refine ⟨result, tokens, run, delivers.context, delivers.found, delivers.ordered, ?_⟩
  have outcome := delivers.outcome
  rwa [Nat.zero_add] at outcome

/-- A name that an end cuts in two, and a fault behind the first digit of a number. -/
def interrupted : Script :=
  ⟨[.ok (.byte 0x61), .ok .eos, .ok (.byte 0x62), .ok (.byte 0x20), .ok (.byte 0x31),
    .error ⟨"Other", "late"⟩, .ok (.byte 0x32)]⟩

/-- A buffer that has read a byte before the run, which is discarded by it. -/
theorem run_safe_interrupted :
    let first : Buffer Script := ⟨Window.empty 1 (some 2) (1 <<< 48), interrupted⟩
    let buffer := (Buffer.next first).state
    Buffer.openWith ⟨1, some 2⟩ (1 <<< 48) interrupted = .ok first ∧ Buffer.Used first buffer ∧
      ∃ (result : Result Error (Session Script (Array Token)) Nat) (tokens : List Token),
        machine.run .start ⟨buffer, #[]⟩ = some result ∧ result.state.context.toList = tokens ∧
          (∀ token ∈ tokens, token.FoundIn [0x61, 0x62, 0x20, 0x31, 0x32]) ∧
          match result.outcome with
          | .ok steps => steps = 2 * tokens.length + 1
          | .error error => error.Allowed [0x61, 0x62, 0x20, 0x31, 0x32] (some 2) := by
  intro first buffer
  have opened : Buffer.openWith ⟨1, some 2⟩ (1 <<< 48) interrupted = .ok first := rfl
  have used : Buffer.Used first buffer := Buffer.Used.unused.called .next
  have granted : GrantsGrowth (1 <<< 48) (some 2) 5 := grantsGrowth_of_lt _ (by decide)
  have streams : Streams [0x61, 0x62, 0x20, 0x31, 0x32] interrupted := interrupted.streams
  obtain ⟨result, tokens, run, context, found, -, outcome⟩ :=
    run_safe (by decide) streams granted opened used #[]
  exact ⟨opened, used, result, tokens, run, context, found, outcome⟩

end Lexing.Expression
