import Lexing.Proofs.Expression.Lexeme

/-!
# The tokens of an expression by maximal munch

`Munches` says which tokens bytes fall into without computing any: white space is skipped, and of
all lexemes that the bytes begin with, of whatever kind, a longest one is taken. The segments are
computed, and they are what it says and nothing else (`munches_iff`).
-/

set_option autoImplicit false

namespace Lexing.Expression

/-- Bytes at an offset fall into tokens, up to their end or to a byte with its offset. -/
inductive Munches : Nat → List UInt8 → List Token → Option (UInt8 × Nat) → Prop where
  /-- Nothing but white space is left. -/
  | ends {offset : Nat} {space : List UInt8} (blank : space.all ByteClass.isSpace) :
    Munches offset space [] none
  /-- No lexeme begins with the byte after the white space. -/
  | stops {offset : Nat} {space rest : List UInt8} {byte : UInt8}
    (blank : space.all ByteClass.isSpace) (solid : ByteClass.isSpace byte = false)
    (nothing : ∀ kind lexeme, Lexeme kind lexeme → ¬ lexeme <+: byte :: rest) :
    Munches offset (space ++ byte :: rest) [] (some (byte, offset + space.length))
  /-- A lexeme is taken after the white space; no longer one begins there. -/
  | takes {offset : Nat} {space lexeme rest : List UInt8} {kind : Kind} {text : String}
    {tokens : List Token} {stop : Option (UInt8 × Nat)} (blank : space.all ByteClass.isSpace)
    (taken : Lexeme kind lexeme)
    (longest : ∀ other bytes, Lexeme other bytes → bytes <+: lexeme ++ rest →
      bytes.length ≤ lexeme.length)
    (encoded : text.toUTF8.data.toList = lexeme)
    (further : Munches (offset + space.length + lexeme.length) rest tokens stop) :
    Munches offset (space ++ (lexeme ++ rest))
      (⟨kind, text, (offset + space.length).toUInt64⟩ :: tokens) stop

section Segmenting

variable {offset : Nat} {space rest bytes : List UInt8} {byte : UInt8} {kind : Kind}

theorem segmentsFrom_ends (blank : space.all ByteClass.isSpace) (offset : Nat) :
    (segmentsFrom offset space).tokens = [] ∧ (segmentsFrom offset space).stop = none := by
  have nothing := (takeWhile_space_all blank).2
  rw [segmentsFrom]
  split
  next => exact ⟨rfl, rfl⟩
  next behind =>
    rw [nothing] at behind
    cases behind

theorem segmentsFrom_stops (blank : space.all ByteClass.isSpace)
    (solid : ByteClass.isSpace byte = false) (classified : classify byte = none)
    (offset : Nat) (rest : List UInt8) :
    (segmentsFrom offset (space ++ byte :: rest)).tokens = [] ∧
      (segmentsFrom offset (space ++ byte :: rest)).stop = some (byte, offset + space.length) := by
  obtain ⟨front, back⟩ := takeWhile_space blank solid rest
  rw [segmentsFrom, front]
  split
  next behind =>
    rw [back] at behind
    cases behind
  next behind =>
    rw [back] at behind
    cases behind
    split
    next => exact ⟨rfl, rfl⟩
    next found =>
      rw [classified] at found
      cases found

theorem segmentsFrom_takes (blank : space.all ByteClass.isSpace)
    (classified : classify byte = some kind) (offset : Nat) (rest : List UInt8) :
    let length := lexemeLength kind (byte :: rest)
    let start := offset + space.length
    let after := segmentsFrom (start + length) ((byte :: rest).drop length)
    (segmentsFrom offset (space ++ byte :: rest)).tokens =
        ⟨kind, String.ofList (((byte :: rest).take length).map fun byte => Char.ofNat byte.toNat),
          start.toUInt64⟩ :: after.tokens ∧
      (segmentsFrom offset (space ++ byte :: rest)).stop = after.stop := by
  have solid := isSpace_of_classify classified
  obtain ⟨front, back⟩ := takeWhile_space blank solid rest
  intro length start after
  rw [segmentsFrom, front]
  split
  next behind =>
    rw [back] at behind
    cases behind
  next behind =>
    rw [back] at behind
    cases behind
    split
    next found =>
      rw [classified] at found
      cases found
    next found =>
      rw [classified] at found
      cases found
      exact ⟨rfl, rfl⟩

/-- The segments are those of a maximal munch. -/
theorem munches_segmentsFrom (offset : Nat) (bytes : List UInt8) :
    Munches offset bytes (segmentsFrom offset bytes).tokens (segmentsFrom offset bytes).stop := by
  fun_induction segmentsFrom offset bytes with
  | case1 offset bytes space gap nothing =>
    have whole := List.takeWhile_append_dropWhile (p := ByteClass.isSpace) (l := bytes)
    rw [nothing, List.append_nil] at whole
    rw [← whole]
    exact .ends List.all_takeWhile
  | case2 offset bytes space start gap byte rest behind unclassified =>
    have whole := List.takeWhile_append_dropWhile (p := ByteClass.isSpace) (l := bytes)
    have solid := List.head?_dropWhile_not ByteClass.isSpace bytes
    rw [behind] at whole solid
    conv => arg 2; rw [← whole]
    refine .stops List.all_takeWhile (by simpa using solid) fun kind lexeme taken begins => ?_
    obtain ⟨first, more, rfl⟩ := List.exists_cons_of_ne_nil taken.ne_nil
    have classified := taken.classify_head
    rw [(List.cons_prefix_cons.1 begins).1, unclassified] at classified
    cases classified
  | case3 offset bytes space start gap byte rest behind kind classified length token after ih =>
    have whole := List.takeWhile_append_dropWhile (p := ByteClass.isSpace) (l := bytes)
    have inside : length ≤ (byte :: rest).length := lexemeLength_le classified rest
    have taken : Lexeme kind ((byte :: rest).take length) := lexeme_take classified rest
    have size : ((byte :: rest).take length).length = length := by
      rw [List.length_take, Nat.min_eq_left inside]
    rw [behind, ← List.take_append_drop length (byte :: rest)] at whole
    conv => arg 2; rw [← whole]
    refine .takes List.all_takeWhile taken ?_ ?_ ?_
    · intro other lexeme lexical begins
      obtain ⟨first, more, rfl⟩ := List.exists_cons_of_ne_nil lexical.ne_nil
      rw [List.take_append_drop] at begins
      have same := lexical.classify_head
      rw [(List.cons_prefix_cons.1 begins).1, classified] at same
      cases same
      rw [size]
      exact lexical.length_le begins
    · rw [Utf8.decode_eq_ok_iff.1 taken.decode]
    · rw [size]
      exact ih

/-- A maximal munch is that of the segments. -/
theorem Munches.eq_segmentsFrom {tokens : List Token} {stop : Option (UInt8 × Nat)}
    (munches : Munches offset bytes tokens stop) :
    tokens = (segmentsFrom offset bytes).tokens ∧ stop = (segmentsFrom offset bytes).stop := by
  induction munches with
  | @ends offset space blank =>
    obtain ⟨none, last⟩ := segmentsFrom_ends blank offset
    exact ⟨none.symm, last.symm⟩
  | @stops offset space rest byte blank solid nothing =>
    obtain ⟨none, last⟩ :=
      segmentsFrom_stops blank solid (classify_eq_none nothing) offset rest
    exact ⟨none.symm, last.symm⟩
  | @takes offset space lexeme rest kind text tokens stop blank taken longest encoded further ih =>
    have length := taken.lexemeLength_eq longest
    have spelled := taken.decode
    have same : Utf8.decode lexeme.toArray = .ok text := Utf8.decode_eq_ok_iff.2 (by rw [← encoded])
    rw [same] at spelled
    cases spelled
    obtain ⟨byte, more, rfl⟩ := List.exists_cons_of_ne_nil taken.ne_nil
    obtain ⟨first, last⟩ := segmentsFrom_takes blank taken.classify_head offset (more ++ rest)
    rw [← List.cons_append, length, List.drop_left] at first last
    rw [first, last, List.take_left, ← ih.1, ← ih.2]
    exact ⟨rfl, rfl⟩

/-- Bytes have one maximal munch, and the segments are it. -/
theorem munches_iff {tokens : List Token} {stop : Option (UInt8 × Nat)} :
    Munches offset bytes tokens stop ↔
      tokens = (segmentsFrom offset bytes).tokens ∧ stop = (segmentsFrom offset bytes).stop := by
  constructor
  · exact Munches.eq_segmentsFrom
  · rintro ⟨rfl, rfl⟩
    exact munches_segmentsFrom offset bytes

/-- There are no more tokens than bytes. -/
theorem Munches.length_le {tokens : List Token} {stop : Option (UInt8 × Nat)}
    (munches : Munches offset bytes tokens stop) : tokens.length ≤ bytes.length := by
  induction munches with
  | ends blank => exact Nat.zero_le _
  | stops blank solid nothing => exact Nat.zero_le _
  | takes blank taken longest encoded further ih =>
    have positive := List.length_pos_iff.2 taken.ne_nil
    simp only [List.length_cons, List.length_append]
    omega

end Segmenting

end Lexing.Expression
