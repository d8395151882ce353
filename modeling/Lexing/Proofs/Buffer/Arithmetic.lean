import Lexing.Proofs.Buffer.Conservation

/-!
# Sizes and offsets are worked out exactly

A buffer counts in 64 bits. All sums and differences that a call works out are listed in order, each
with the bound that it is to keep to (`Call.arithmetic`). None of them leaves 64 bits if the source
delivers no more bytes than these can count (`Sized.perform_exact`), and then the offsets of a
buffer are places in its stream (`Positioned`).

What was discarded, is stored and is held is what was delivered, so no offset counts more bytes than
that (`Sized`). How many there are is known only when all calls have been made; but what was
delivered once stays delivered, so there were no more before (`Sized.performAll_delivered`).
-/

set_option autoImplicit false

namespace Lexing

open Operation (Keeps)

variable {σ : Type}

/-- A sum or a difference to be worked out in 64 bits, with what it may come to: a sum to at most
`most` and a difference to at least `least`. -/
inductive Arithmetic where
  | sum (left right most : Nat)
  | difference (left right least : Nat)
  deriving DecidableEq, Repr

namespace Arithmetic

/-- It keeps to its bound, and comes to the same in 64 bits as without any. -/
def Exact : Arithmetic → Prop
  | sum left right most =>
    left + right ≤ most ∧ (left.toUInt64 + right.toUInt64).toNat = left + right
  | difference left right least =>
    least + right ≤ left ∧ (left.toUInt64 - right.toUInt64).toNat = left - right

variable {left right : Nat}

theorem sum_exact {most : Nat} (bounded : left + right ≤ most) (size : most ≤ Size.max) :
    (sum left right most).Exact := by
  have added : left.toUInt64 + right.toUInt64 = (left + right).toUInt64 :=
    (UInt64.ofNat_add _ _).symm
  refine ⟨bounded, ?_⟩
  rw [added, Size.toNat_toUInt64 (by omega)]

theorem difference_exact {least : Nat} (bounded : least + right ≤ left)
    (size : left ≤ Size.max) : (difference left right least).Exact := by
  have minuend : left.toUInt64.toNat = left := Size.toNat_toUInt64 size
  have subtrahend : right.toUInt64.toNat = right := Size.toNat_toUInt64 (by omega)
  have below : right.toUInt64 ≤ left.toUInt64 := by
    rw [UInt64.le_iff_toNat_le]
    omega
  refine ⟨bounded, ?_⟩
  rw [UInt64.toNat_sub_of_le _ _ below, minuend, subtrahend]

end Arithmetic

namespace Buffer

/-- What the source of a buffer has delivered since it was `source`. -/
def delivered (source : Metered σ) (buffer : Buffer (Metered σ)) : List UInt8 :=
  buffer.source.delivered.toList.drop source.delivered.size

/-- Growing asks for room beside the stored bytes, if there is a larger capacity. -/
def growArithmetic (buffer : Buffer σ) : List Arithmetic :=
  if buffer.window.growthTarget ≤ buffer.window.capacity then []
  else [.difference buffer.window.growthTarget buffer.window.available 1]

def backArithmetic (buffer : Buffer σ) : List Arithmetic :=
  if buffer.window.consumed = 0 then [] else [.difference buffer.window.consumed 1 0]

/-- A token ends where it starts and as many bytes further on as it has. -/
def offsetSum (source : Metered σ) (buffer : Buffer (Metered σ)) : Arithmetic :=
  .sum buffer.window.start.toNat buffer.window.consumed (buffer.delivered source).length

/-- Discarding a token leaves the lookahead, and lets the next token start where this one ends. -/
def dumpArithmetic (source : Metered σ) (buffer : Buffer (Metered σ)) : List Arithmetic :=
  if buffer.window.consumed = 0 then []
  else [.difference buffer.window.available buffer.window.consumed 0, buffer.offsetSum source]

/-- A token that was handed out has been discarded. Where it started is told by where the next one
does. -/
def takeArithmetic {α : Type} (source : Metered σ) (buffer : Buffer (Metered σ)) :
    Result LexError (Buffer (Metered σ)) α → List Arithmetic
  | ⟨.ok _, after, _⟩ =>
    buffer.dumpArithmetic source ++
      [.difference after.window.start.toNat buffer.window.consumed buffer.window.start.toNat]
  | ⟨.error _, _, _⟩ => []

variable [ByteSource σ]

/-- A read that finds no room below the ceiling grows. A byte that is read makes the token longer,
and one that is not accepted is given back. A byte that is refused at the ceiling is reported with
its offset. -/
def readArithmetic (source : Metered σ) (accepts : UInt8 → Bool) (buffer : Buffer (Metered σ)) :
    List Arithmetic :=
  (if buffer.window.consumed < buffer.window.capacity ∨ buffer.window.atCeiling = true then []
    else buffer.growArithmetic) ++
    match next buffer with
    | ⟨.ok (.byte byte), after, _⟩ =>
      .sum buffer.window.consumed 1 after.window.capacity ::
        if accepts byte then [] else after.backArithmetic
    | ⟨.error (.allocationFailure _), _, _⟩ =>
      if buffer.window.atCeiling then [buffer.offsetSum source] else []
    | _ => []

/-- Reading on counts each byte that was accepted. There are no more than the token then has. -/
def eatArithmetic (source : Metered σ) (accepts : UInt8 → Bool) (counted : Nat)
    (buffer : Buffer (Metered σ)) : List Arithmetic :=
  match _ : nextIf accepts buffer with
  | ⟨.ok (some _), after, _⟩ =>
    buffer.readArithmetic source accepts ++
      .sum counted 1 after.window.consumed :: eatArithmetic source accepts (counted + 1) after
  | ⟨.ok none, _, _⟩ => buffer.readArithmetic source accepts
  | ⟨.error _, _, _⟩ => buffer.readArithmetic source accepts
termination_by buffer.window.roomLeft
decreasing_by exact roomLeft_lt_of_nextIf ‹nextIf accepts buffer = _›

end Buffer

/-- The sums and differences that a call works out, in order. -/
def Call.arithmetic [ByteSource σ] (source : Metered σ) :
    Call → Buffer (Metered σ) → List Arithmetic
  | .next, buffer => buffer.readArithmetic source fun _ => true
  | .peek, buffer => buffer.readArithmetic source fun _ => false
  | .nextIf accepts, buffer => buffer.readArithmetic source accepts
  | .eatWhile accepts, buffer => buffer.eatArithmetic source accepts 0
  | .back, buffer => buffer.backArithmetic
  | .dump, buffer | .skip, buffer => buffer.dumpArithmetic source
  | .emit, buffer => buffer.takeArithmetic source (Buffer.emit buffer)
  | .emitText, buffer => buffer.takeArithmetic source (Buffer.emitText buffer)
  | .times count call, buffer =>
    Buffer.along (fun _ => call.arithmetic source) (.replicate count call) buffer

namespace Buffer

/-- Since the source was `source`, `discarded` and what is stored and held are what it delivered.
The capacity is a size. -/
structure Sized (source : Metered σ) (discarded : List UInt8) (buffer : Buffer (Metered σ)) :
    Prop where
  conserved : Conserved source.delivered.toList discarded buffer
  capacity : buffer.window.capacity ≤ Size.max

/-- Where a buffer stands in what its source has delivered since it was `source`, when `discarded`
went through the buffer. -/
structure Positioned (source : Metered σ) (discarded : List UInt8) (buffer : Buffer (Metered σ)) :
    Prop where
  start : buffer.window.start.toNat = discarded.length
  offset : buffer.window.offset.toNat = buffer.window.start.toNat + buffer.window.consumed
  within : buffer.window.offset.toNat ≤ (buffer.delivered source).length
  /-- Of what was delivered, the stored bytes are those from the start on. -/
  stored : (buffer.delivered source).drop buffer.window.start.toNat =
    buffer.window.stored.toList ++ buffer.window.held.toList
  /-- Those from the offset on are yet to be read. -/
  unread : (buffer.delivered source).drop buffer.window.offset.toNat =
    buffer.window.lookahead.toList ++ buffer.window.held.toList

theorem openWith_sized {source : Metered σ} {config : Config} {memory : Nat}
    {first : Buffer (Metered σ)} (opened : openWith config memory source = .ok first)
    (size : config.initial ≤ Size.max) : Sized source [] first := by
  obtain ⟨rfl, formed⟩ := openWith_eq_ok opened
  exact ⟨⟨formed, by simp [Window.empty], rfl⟩, size⟩

namespace Sized

variable {source : Metered σ} {discarded : List UInt8} {buffer : Buffer (Metered σ)}

theorem delivered_eq (sized : Sized source discarded buffer) :
    buffer.delivered source =
      discarded ++ (buffer.window.stored.toList ++ buffer.window.held.toList) := by
  rw [delivered, ← sized.conserved.bytes]
  simp

/-- No more bytes were discarded and read than were delivered. -/
theorem length_le_delivered (sized : Sized source discarded buffer) :
    discarded.length + buffer.window.consumed ≤ (buffer.delivered source).length := by
  have stored : buffer.window.consumed ≤ buffer.window.stored.size :=
    sized.conserved.formed.consumed_le
  simp only [sized.delivered_eq, List.length_append, Array.length_toList]
  omega

theorem available_le (sized : Sized source discarded buffer) :
    buffer.window.available ≤ Size.max :=
  Nat.le_trans sized.conserved.formed.available_le sized.capacity

theorem consumed_le (sized : Sized source discarded buffer) :
    buffer.window.consumed ≤ Size.max :=
  Nat.le_trans sized.conserved.formed.consumed_le sized.available_le

theorem growArithmetic_exact (sized : Sized source discarded buffer) :
    ∀ step ∈ buffer.growArithmetic, step.Exact := by
  unfold growArithmetic
  split
  · nofun
  next larger =>
    have fits := sized.conserved.formed.available_le
    refine List.forall_mem_singleton.2 ?_
    exact Arithmetic.difference_exact (by omega) buffer.window.growthTarget_le_max

theorem backArithmetic_exact (sized : Sized source discarded buffer) :
    ∀ step ∈ buffer.backArithmetic, step.Exact := by
  unfold backArithmetic
  split
  · nofun
  next pending =>
    refine List.forall_mem_singleton.2 ?_
    exact Arithmetic.difference_exact (by omega) sized.consumed_le

section Few

variable (sized : Sized source discarded buffer)
  (few : (buffer.delivered source).length ≤ Size.max)

include sized few

/-- The start is counted in 64 bits, and no bytes have been lost count of. -/
theorem start_toNat : buffer.window.start.toNat = discarded.length := by
  have counted := sized.length_le_delivered
  rw [sized.conserved.start, Size.toNat_toUInt64 (by omega)]

theorem offsetSum_exact : (buffer.offsetSum source).Exact := by
  refine Arithmetic.sum_exact ?_ few
  rw [sized.start_toNat few]
  exact sized.length_le_delivered

theorem positioned : Positioned source discarded buffer := by
  have start := sized.start_toNat few
  obtain ⟨within, exact⟩ := sized.offsetSum_exact few
  have offset : buffer.window.offset.toNat =
      buffer.window.start.toNat + buffer.window.consumed := by
    rw [← exact, Window.offset]
    simp
  refine ⟨start, offset, Nat.le_trans (Nat.le_of_eq offset) within, ?_, ?_⟩
  · rw [sized.delivered_eq, start, List.drop_left]
  · have token := Window.length_pending sized.conserved.formed.consumed_le
    rw [sized.delivered_eq, offset, start, ← Window.pending_append_lookahead, List.append_assoc,
      ← List.append_assoc]
    exact List.drop_left' (by rw [List.length_append, token])

theorem dumpArithmetic_exact : ∀ step ∈ buffer.dumpArithmetic source, step.Exact := by
  have stored := sized.conserved.formed.consumed_le
  unfold dumpArithmetic
  split
  · nofun
  · refine List.forall_mem_cons.2 ⟨?_, List.forall_mem_singleton.2 (sized.offsetSum_exact few)⟩
    exact Arithmetic.difference_exact (by omega) sized.available_le

theorem takeArithmetic_exact {α : Type} (token : α) (events : Array Event) :
    let taken : Result LexError (Buffer (Metered σ)) α :=
      ⟨.ok token, ⟨buffer.window.discard, buffer.source⟩, events⟩
    ∀ step ∈ buffer.takeArithmetic source taken, step.Exact := by
  obtain ⟨within, exact⟩ := sized.offsetSum_exact few
  have start : buffer.window.discard.start.toNat =
      buffer.window.start.toNat + buffer.window.consumed := by
    rw [← exact, Window.discard]
    simp
  refine List.forall_mem_append.2
    ⟨sized.dumpArithmetic_exact few, List.forall_mem_singleton.2 ?_⟩
  refine Arithmetic.difference_exact (Nat.le_of_eq start.symm) ?_
  exact Nat.le_trans (Nat.le_of_eq start) (Nat.le_trans within few)

end Few

end Sized

section Reading

variable [ByteSource σ]

/-- A capacity that is a size grows to a size. -/
theorem next_capacity_le {buffer : Buffer σ} (formed : buffer.window.WellFormed)
    (size : buffer.window.capacity ≤ Size.max) :
    (next buffer).state.window.capacity ≤ Size.max := by
  have widened : buffer.window.widened.capacity ≤ Size.max := by
    unfold Window.widened
    split
    · exact size
    · exact buffer.window.growthTarget_le_max
  have step := next_readsTo formed
  generalize next buffer = result at step ⊢
  cases step with
  | replayed ahead => exact size
  | cramped used tight below refusal => exact size
  | released used room held => exact size
  | refusedAgain used full held => exact size
  | stored used roomy unheld answer => exact widened
  | refused used full unheld answer => exact size
  | ended used able unheld answer => exact widened
  | failed used able unheld answer => exact widened

theorem perform_capacity_le (call : Call) :
    Keeps (fun buffer : Buffer σ =>
      buffer.window.WellFormed ∧ buffer.window.capacity ≤ Size.max) call.perform := by
  refine call.perform_keeps ?_ ?_ ?_
  · rintro buffer ⟨formed, size⟩
    exact ⟨next_keeps_wellFormed buffer formed, next_capacity_le formed size⟩
  · rintro buffer ⟨formed, size⟩
    have kept := back_keeps_wellFormed buffer formed
    rw [back_state] at kept ⊢
    exact ⟨kept, size⟩
  · rintro ⟨window, source⟩ ⟨formed, size⟩
    rw [dump_eq formed.consumed_le]
    exact ⟨formed.discard, size⟩

namespace Sized

variable {source : Metered σ} {discarded : List UInt8} {buffer : Buffer (Metered σ)}

theorem perform (sized : Sized source discarded buffer) (call : Call) :
    Sized source (discarded ++ call.discards buffer) (call.perform buffer).state where
  conserved := perform_conserved call sized.conserved
  capacity := (perform_capacity_le call buffer ⟨sized.conserved.formed, sized.capacity⟩).2

theorem performAll (sized : Sized source discarded buffer) (calls : List Call) :
    Sized source (discarded ++ along Call.discards calls buffer)
      (performAll calls buffer).state :=
  along_invariant calls (fun call _ _ _ between => between.perform call) sized

theorem next (sized : Sized source discarded buffer) :
    Sized source discarded (next buffer).state := by
  have performed := sized.perform .next
  rwa [Call.discards, List.append_nil, Call.perform, Operation.map_apply] at performed

theorem nextIf (sized : Sized source discarded buffer) (accepts : UInt8 → Bool) :
    Sized source discarded (nextIf accepts buffer).state := by
  have performed := sized.perform (.nextIf accepts)
  rwa [Call.discards, List.append_nil, Call.perform, Operation.map_apply] at performed

/-- What was delivered once stays delivered. -/
theorem perform_delivered (sized : Sized source discarded buffer) (call : Call) :
    (buffer.delivered source).length ≤
      ((call.perform buffer).state.delivered source).length := by
  obtain ⟨fresh, more⟩ := perform_delivers sized.conserved.formed call
  rw [delivered, delivered, more, List.length_drop, List.length_drop, List.length_append]
  omega

theorem performAll_delivered (sized : Sized source discarded buffer) (calls : List Call) :
    (buffer.delivered source).length ≤
      ((Buffer.performAll calls buffer).state.delivered source).length := by
  induction calls generalizing discarded buffer with
  | nil => exact Nat.le_refl _
  | cons call calls ih =>
    rw [performAll_cons_state]
    exact Nat.le_trans (sized.perform_delivered call) (ih (sized.perform call))

theorem readArithmetic_exact (sized : Sized source discarded buffer)
    (few : (buffer.delivered source).length ≤ Size.max) (accepts : UInt8 → Bool) :
    ∀ step ∈ buffer.readArithmetic source accepts, step.Exact := by
  have read := sized.next
  refine List.forall_mem_append.2 ⟨?_, ?_⟩
  · split
    · nofun
    · exact sized.growArithmetic_exact
  · split
    next byte after events result =>
      rw [result] at read
      have longer := (next_byte_window result).1
      have stored : after.window.consumed ≤ after.window.available :=
        read.conserved.formed.consumed_le
      have fits : after.window.available ≤ after.window.capacity :=
        read.conserved.formed.available_le
      refine List.forall_mem_cons.2 ⟨Arithmetic.sum_exact (by omega) read.capacity, ?_⟩
      split
      · nofun
      · exact read.backArithmetic_exact
    · split
      · exact List.forall_mem_singleton.2 (sized.offsetSum_exact few)
      · nofun
    · nofun

/-- The token gets longer by each byte that is counted, so the count is as exact as its length. -/
theorem eatArithmetic_exact (sized : Sized source discarded buffer) (accepts : UInt8 → Bool)
    {counted : Nat} (shorter : counted ≤ buffer.window.consumed)
    (few : ((eatWhile accepts buffer).state.delivered source).length ≤ Size.max) :
    ∀ step ∈ buffer.eatArithmetic source accepts counted, step.Exact := by
  -- what is delivered in the end bounds what is delivered at each of the reads
  have read {buffer : Buffer (Metered σ)} (sized : Sized source discarded buffer)
      (few : ((eatWhile accepts buffer).state.delivered source).length ≤ Size.max) :
      ∀ step ∈ buffer.readArithmetic source accepts, step.Exact := by
    have later := sized.perform_delivered (.eatWhile accepts)
    rw [Call.perform, Operation.map_apply] at later
    exact sized.readArithmetic_exact (Nat.le_trans later few) accepts
  fun_induction eatArithmetic source accepts counted buffer with
  | case1 counted buffer byte after events result ih =>
    have between := sized.nextIf accepts
    have longer := nextIf_some_consumed sized.conserved.formed result
    rw [result] at between
    have rest : ((eatWhile accepts after).state.delivered source).length ≤ Size.max := by
      rwa [eatWhile_of_some result] at few
    refine List.forall_mem_append.2 ⟨read sized few, List.forall_mem_cons.2 ⟨?_, ?_⟩⟩
    · exact Arithmetic.sum_exact (by omega) between.consumed_le
    · exact ih between (by omega) rest
  | case2 counted buffer after events result => exact read sized few
  | case3 counted buffer error after events result => exact read sized few

/-- All calls work out exactly what they do if each of them does. -/
theorem along_exact {calls : List Call} (sized : Sized source discarded buffer)
    (each : ∀ call ∈ calls, ∀ discarded (buffer : Buffer (Metered σ)),
      Sized source discarded buffer →
        ((call.perform buffer).state.delivered source).length ≤ Size.max →
          ∀ step ∈ call.arithmetic source buffer, step.Exact)
    (few : ((Buffer.performAll calls buffer).state.delivered source).length ≤ Size.max) :
    ∀ step ∈ along (Call.arithmetic source) calls buffer, step.Exact := by
  induction calls generalizing discarded buffer with
  | nil => nofun
  | cons call calls ih =>
    rw [performAll_cons_state] at few
    have between := sized.perform call
    have first := Nat.le_trans (between.performAll_delivered calls) few
    refine List.forall_mem_append.2 ⟨each call List.mem_cons_self _ _ sized first, ?_⟩
    exact ih between (fun call member => each call (List.mem_cons_of_mem _ member)) few

/-- Every call works out exactly what it does, if no more was delivered by its end than can be
counted. -/
theorem perform_exact (sized : Sized source discarded buffer) (call : Call)
    (few : ((call.perform buffer).state.delivered source).length ≤ Size.max) :
    ∀ step ∈ call.arithmetic source buffer, step.Exact := by
  -- no more was delivered before the call than by its end
  have here := Nat.le_trans (sized.perform_delivered call) few
  induction call generalizing discarded buffer with
  | next => exact sized.readArithmetic_exact here _
  | peek => exact sized.readArithmetic_exact here _
  | back => exact sized.backArithmetic_exact
  | dump => exact sized.dumpArithmetic_exact here
  | skip => exact sized.dumpArithmetic_exact here
  | emit =>
    rw [Call.arithmetic, emit_eq sized.conserved.formed]
    exact sized.takeArithmetic_exact here _ _
  | emitText =>
    rw [Call.arithmetic, emitText_eq sized.conserved.formed]
    cases Utf8.decode buffer.window.pending with
    | error malformation => nofun
    | ok text => exact sized.takeArithmetic_exact here _ _
  | nextIf accepts => exact sized.readArithmetic_exact here accepts
  | eatWhile accepts =>
    rw [Call.perform, Operation.map_apply] at few
    exact sized.eatArithmetic_exact accepts (Nat.zero_le _) few
  | times count call ih =>
    rw [times_state] at few
    rw [Call.arithmetic, along_replicate]
    refine sized.along_exact (fun copy member discarded buffer sized few => ?_) few
    rw [List.eq_of_mem_replicate member] at few ⊢
    exact ih sized few (Nat.le_trans (sized.perform_delivered call) few)

end Sized

/-- Sizes and offsets are worked out exactly.

Over any source and in any calls, as long as no more bytes are delivered than 64 bits can count, no
sum and no difference leaves 64 bits, and each keeps to its bound: the token gets no longer than the
capacity, no offset counts more bytes than were delivered, a larger capacity leaves room, and what
is told of where a token started is where it did. And at any time on the way the start of the token
and the offset of the next byte are their places in what the source has delivered since the buffer
was opened, and the start is nowhere before an earlier one. -/
theorem arithmetic_exact {source : Metered σ} {config : Config} {memory : Nat}
    {first : Buffer (Metered σ)} (opened : openWith config memory source = .ok first)
    (size : config.initial ≤ Size.max) (calls : List Call)
    (few : ((performAll calls first).state.delivered source).length < UInt64.size) :
    (∀ step ∈ along (Call.arithmetic source) calls first, step.Exact) ∧
      ∀ earlier later, earlier <+: later → later <+: calls →
        let before := (performAll earlier first).state
        Positioned source (along Call.discards earlier first) before ∧
          before.window.start ≤ (performAll later first).state.window.start := by
  have sized := openWith_sized opened size
  have few : ((performAll calls first).state.delivered source).length ≤ Size.max :=
    Nat.le_pred_of_lt few
  refine ⟨sized.along_exact (fun call _ _ _ between => between.perform_exact call) few, ?_⟩
  rintro earlier _ ⟨more, rfl⟩ ⟨rest, rfl⟩ before
  have there : Sized source (along Call.discards earlier first) before := sized.performAll earlier
  have behind := there.performAll more
  rw [performAll_append_state, performAll_append_state] at few
  have counted := Nat.le_trans (behind.performAll_delivered rest) few
  have here := Nat.le_trans (there.performAll_delivered more) counted
  refine ⟨there.positioned here, ?_⟩
  rw [performAll_append_state, UInt64.le_iff_toNat_le, there.start_toNat here,
    behind.start_toNat counted, List.length_append]
  exact Nat.le_add_right _ _

end Reading

/-- The source has delivered a byte before. A window grows, refuses a byte, is given one back and
hands out a token; then the byte that was given back and the one that was refused are counted. -/
theorem arithmetic_exact_refusal :
    let script : Script := ⟨[.ok (.byte 97), .ok (.byte 98), .ok (.byte 99)]⟩
    let source : Metered Script := ⟨script, 1, #[96]⟩
    let first : Buffer (Metered Script) := ⟨Window.empty 1 (some 2) (1 <<< 48), source⟩
    let calls : List Call := [.next, .next, .next, .back, .emit, .eatWhile fun _ => true]
    let last := (performAll calls first).state
    openWith ⟨1, some 2⟩ (1 <<< 48) source = .ok first ∧ 1 ≤ Size.max ∧
      (last.delivered source).length < UInt64.size ∧
      along (Call.arithmetic source) calls first =
        [.sum 0 1 1, .difference 2 1 1, .sum 1 1 2, .sum 0 2 2, .difference 2 1 0,
          .difference 2 1 0, .sum 0 1 3, .difference 1 1 0, .sum 0 1 2, .sum 0 1 1, .sum 1 1 2,
          .sum 1 1 2] ∧
      (∀ step ∈ along (Call.arithmetic source) calls first, step.Exact) ∧
      Positioned source (along Call.discards calls first) last := by
  intro script source first calls last
  have opened : openWith ⟨1, some 2⟩ (1 <<< 48) source = .ok first := rfl
  have size : 1 ≤ Size.max := by decide
  have few : (last.delivered source).length < UInt64.size := by decide +kernel
  obtain ⟨exact, positioned⟩ := arithmetic_exact opened size calls few
  exact ⟨opened, size, few, by decide +kernel, exact,
    (positioned calls calls List.prefix_rfl List.prefix_rfl).1⟩

end Buffer

end Lexing
