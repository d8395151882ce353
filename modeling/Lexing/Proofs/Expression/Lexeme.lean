import Lexing.Grammar.Expression.Segments
import Lexing.Proofs.Text.Utf8

/-!
# Lexemes of expressions

The first byte of a lexeme tells its kind (`Lexeme.classify_head`), so lexemes of different kinds
do not compete for the same bytes. The computed length of a token is that of the longest lexeme:
what it takes is one (`lexeme_take`), and none that the bytes begin with is longer
(`Lexeme.length_le`). All lexemes are ASCII (`Lexeme.decode`).
-/

set_option autoImplicit false

namespace Lexing.Expression

section Classes

variable {byte : UInt8} {kind : Kind}

theorem classify_of_letter (letter : (ByteClass.isAlpha byte || byte == '_'.toUInt8) = true) :
    classify byte = some .ident := if_pos letter

theorem classify_of_digit (digit : ByteClass.isDigit byte = true) :
    classify byte = some .number := by
  have other : ¬ (ByteClass.isAlpha byte || byte == '_'.toUInt8) = true := by
    simp only [ByteClass.isDigit, ByteClass.isAlpha, Bool.and_eq_true, Bool.or_eq_true,
      decide_eq_true_eq, beq_iff_eq, UInt8.le_iff_toNat_le] at digit ⊢
    rintro (letter | rfl)
    · simp only [UInt8.toNat_ofNat] at digit letter
      omega
    · exact absurd digit (by decide)
  rw [classify, if_neg other, if_pos digit]

theorem classify_of_mem (member : byte ∈ punctuation) : classify byte = some .punct := by
  have all : punctuation.all (classify · == some .punct) = true := by decide
  exact eq_of_beq (List.all_eq_true.1 all byte member)

/-- What the kind of a byte says about it. -/
theorem of_classify :
    classify byte = some kind →
      match kind with
      | .ident => (ByteClass.isAlpha byte || byte == '_'.toUInt8) = true
      | .number => ByteClass.isDigit byte = true
      | .punct => byte ∈ punctuation := by
  intro classified
  unfold classify at classified
  split at classified
  next letter =>
    cases classified
    exact letter
  next =>
    split at classified
    next digit =>
      cases classified
      exact digit
    next =>
      split at classified
      next member =>
        cases classified
        exact List.contains_iff_mem.1 member
      next => cases classified

theorem isSpace_of_classify (classified : classify byte = some kind) :
    ByteClass.isSpace byte = false := by
  rw [Bool.eq_false_iff]
  intro space
  simp only [ByteClass.isSpace, Bool.or_eq_true, beq_iff_eq] at space
  rcases space with (((rfl | rfl) | rfl) | rfl) | rfl
  all_goals cases classified

theorem isWord_of_letter (letter : (ByteClass.isAlpha byte || byte == '_'.toUInt8) = true) :
    isWord byte = true := by
  simp only [isWord, ByteClass.isAlnum, Bool.or_eq_true] at letter ⊢
  rcases letter with letter | underscore
  · exact Or.inl (Or.inl letter)
  · exact Or.inr underscore

section Space

variable {space : List UInt8}

theorem takeWhile_space_all (blank : space.all ByteClass.isSpace) :
    space.takeWhile ByteClass.isSpace = space ∧ space.dropWhile ByteClass.isSpace = [] := by
  have all := List.all_eq_true.1 blank
  have whole := List.append_nil space
  rw [← whole, List.takeWhile_append_of_pos all, List.dropWhile_append_of_pos all, whole]
  exact ⟨List.append_nil space, rfl⟩

theorem takeWhile_space (blank : space.all ByteClass.isSpace)
    (solid : ByteClass.isSpace byte = false) (rest : List UInt8) :
    (space ++ byte :: rest).takeWhile ByteClass.isSpace = space ∧
      (space ++ byte :: rest).dropWhile ByteClass.isSpace = byte :: rest := by
  have stop : ¬ ByteClass.isSpace byte = true := Bool.eq_false_iff.1 solid
  have all := List.all_eq_true.1 blank
  rw [List.takeWhile_append_of_pos all, List.dropWhile_append_of_pos all,
    List.takeWhile_cons_of_neg stop, List.dropWhile_cons_of_neg stop, List.append_nil]
  exact ⟨rfl, rfl⟩

end Space

end Classes

section Lexemes

variable {kind : Kind} {lexeme input : List UInt8} {byte : UInt8} {rest : List UInt8}

theorem Lexeme.ne_nil (taken : Lexeme kind lexeme) : lexeme ≠ [] := by
  cases taken with
  | ident first rest => simp
  | integer some_digit digits => exact some_digit
  | decimal some_digit digits some_fraction fraction => simp
  | punct member => simp
  | equality => simp

/-- The first byte of a lexeme tells its kind. -/
theorem Lexeme.classify_head (taken : Lexeme kind (byte :: rest)) :
    classify byte = some kind := by
  generalize whole : byte :: rest = lexeme at taken
  cases taken with
  | ident first more =>
    cases whole
    exact classify_of_letter first
  | integer some_digit digits =>
    subst whole
    rw [List.all_cons, Bool.and_eq_true] at digits
    exact classify_of_digit digits.1
  | @decimal digits fraction some_digit all some_fraction more =>
    obtain ⟨digit, digits, rfl⟩ := List.exists_cons_of_ne_nil some_digit
    rw [List.all_cons, Bool.and_eq_true] at all
    cases whole
    exact classify_of_digit all.1
  | punct member =>
    cases whole
    exact classify_of_mem member
  | equality =>
    cases whole
    exact classify_of_mem (by decide)

theorem length_le_takeWhile {p : UInt8 → Bool} (all : lexeme.all p) (begins : lexeme <+: input) :
    lexeme.length ≤ (input.takeWhile p).length := by
  obtain ⟨rest, rfl⟩ := begins
  rw [List.takeWhile_append_of_pos (List.all_eq_true.1 all), List.length_append]
  omega

theorem take_length_takeWhile (p : UInt8 → Bool) (input : List UInt8) :
    input.take (input.takeWhile p).length = input.takeWhile p := by
  have whole := congrArg (List.take (input.takeWhile p).length)
    (List.takeWhile_append_dropWhile (p := p) (l := input))
  rw [← whole, List.take_left]

/-- The digits before a point are those before the first byte that is none. -/
theorem takeWhile_digits_point {digits : List UInt8} (all : digits.all ByteClass.isDigit)
    (rest : List UInt8) :
    (digits ++ '.'.toUInt8 :: rest).takeWhile ByteClass.isDigit = digits := by
  rw [List.takeWhile_append_of_pos (List.all_eq_true.1 all),
    List.takeWhile_cons_of_neg (by decide), List.append_nil]

theorem fraction?_point {digits : List UInt8} (all : digits.all ByteClass.isDigit)
    (rest : List UInt8) :
    fraction? (digits ++ '.'.toUInt8 :: rest) = some (digitCount rest) := by
  unfold fraction? digitCount
  rw [takeWhile_digits_point all, List.drop_left]
  exact if_pos (beq_self_eq_true _)

/-- A fraction is counted behind a point that follows the digits. -/
theorem of_fraction? {count : Nat} (found : fraction? input = some count) :
    ∃ rest, input.drop (digitCount input) = '.'.toUInt8 :: rest ∧ digitCount rest = count := by
  unfold fraction? at found
  split at found
  next => cases found
  next byte rest behind =>
    split at found
    next point =>
      cases found
      exact ⟨rest, by rw [behind, eq_of_beq point], rfl⟩
    next => cases found

/-- Where no fraction is counted, no point follows the digits. -/
theorem no_point_of_fraction? (missing : fraction? input = none) :
    input[digitCount input]? ≠ some '.'.toUInt8 := by
  intro point
  unfold fraction? at missing
  rw [← List.head?_drop] at point
  split at missing
  next behind =>
    rw [behind] at point
    cases point
  next byte rest behind =>
    rw [behind, List.head?_cons, Option.some.injEq] at point
    rw [point] at missing
    cases missing

theorem isEquality_iff :
    isEquality (byte :: rest) = true ↔
      byte = '='.toUInt8 ∧ rest.head? = some '='.toUInt8 := by
  cases rest with
  | nil => simp [isEquality]
  | cons second rest => simp [isEquality]

/-- No lexeme of a kind that the bytes begin with is longer than the computed length. -/
theorem Lexeme.length_le (taken : Lexeme kind lexeme) (begins : lexeme <+: input) :
    lexeme.length ≤ lexemeLength kind input := by
  cases taken with
  | @ident first rest letter all =>
    refine length_le_takeWhile ?_ begins
    rw [List.all_cons, isWord_of_letter letter, all]
    rfl
  | integer some_digit digits =>
    have count : lexeme.length ≤ digitCount input := length_le_takeWhile digits begins
    simp only [lexemeLength]
    split <;> omega
  | @decimal digits fraction some_digit all some_fraction more =>
    obtain ⟨rest, rfl⟩ := begins
    have longer : fraction.length ≤ digitCount (fraction ++ rest) :=
      length_le_takeWhile more (List.prefix_append fraction rest)
    have positive := List.length_pos_iff.2 some_fraction
    have count : digitCount (digits ++ '.'.toUInt8 :: (fraction ++ rest)) = digits.length :=
      congrArg List.length (takeWhile_digits_point all (fraction ++ rest))
    rw [List.append_assoc, List.cons_append]
    simp only [lexemeLength, fraction?_point all, count, List.length_append, List.length_cons]
    split
    · contradiction
    next same =>
      simp only [Option.some.injEq] at same
      omega
    next same =>
      simp only [Option.some.injEq] at same
      omega
  | punct member =>
    simp only [lexemeLength, List.length_singleton]
    split <;> omega
  | equality =>
    obtain ⟨rest, rfl⟩ := begins
    exact Nat.le_refl 2

/-- The bytes that the computed length takes are a lexeme. -/
theorem lexeme_take (classified : classify byte = some kind) (rest : List UInt8) :
    Lexeme kind ((byte :: rest).take (lexemeLength kind (byte :: rest))) := by
  have head := of_classify classified
  cases kind with
  | ident =>
    simp only [lexemeLength]
    rw [take_length_takeWhile, List.takeWhile_cons_of_pos (isWord_of_letter head)]
    exact .ident head List.all_takeWhile
  | number =>
    have some_digit : (byte :: rest).takeWhile ByteClass.isDigit ≠ [] := by
      rw [List.takeWhile_cons_of_pos head]
      exact List.cons_ne_nil _ _
    have integer : Lexeme .number ((byte :: rest).take (digitCount (byte :: rest))) := by
      unfold digitCount
      rw [take_length_takeWhile]
      exact .integer some_digit List.all_takeWhile
    simp only [lexemeLength]
    split
    · exact integer
    · exact integer
    next digits found =>
      obtain ⟨behind, point, count⟩ := of_fraction? found
      have some_fraction : behind.takeWhile ByteClass.isDigit ≠ [] := by
        rw [← List.length_pos_iff]
        exact Nat.lt_of_lt_of_eq (Nat.succ_pos digits) count.symm
      have front : (byte :: rest).take (digitCount (byte :: rest)) =
          (byte :: rest).takeWhile ByteClass.isDigit := take_length_takeWhile _ _
      have back : behind.take (digits + 1) = behind.takeWhile ByteClass.isDigit :=
        (congrArg (behind.take ·) count.symm).trans (take_length_takeWhile _ _)
      have taken : (byte :: rest).take (digitCount (byte :: rest) + 1 + (digits + 1)) =
          (byte :: rest).takeWhile ByteClass.isDigit ++
            '.'.toUInt8 :: behind.takeWhile ByteClass.isDigit := by
        rw [Nat.add_assoc, List.take_add, point, Nat.add_comm 1, List.take_succ_cons, front, back]
      rw [taken]
      exact .decimal some_digit List.all_takeWhile some_fraction List.all_takeWhile
  | punct =>
    simp only [lexemeLength]
    split
    next double =>
      have same := eq_of_beq double
      rw [same]
      exact .equality
    next => exact .punct head

/-- The computed length does not exceed the bytes. -/
theorem lexemeLength_le (classified : classify byte = some kind) (rest : List UInt8) :
    lexemeLength kind (byte :: rest) ≤ (byte :: rest).length := by
  cases kind with
  | ident => exact (List.takeWhile_sublist _).length_le
  | number =>
    have integer : digitCount (byte :: rest) ≤ (byte :: rest).length :=
      (List.takeWhile_sublist _).length_le
    simp only [lexemeLength]
    split
    · exact integer
    · exact integer
    next digits found =>
      obtain ⟨behind, point, count⟩ := of_fraction? found
      have fraction : digitCount behind ≤ behind.length := (List.takeWhile_sublist _).length_le
      have lengths := congrArg List.length point
      simp only [List.length_drop, List.length_cons] at integer lengths ⊢
      omega
  | punct =>
    simp only [lexemeLength]
    split
    next double =>
      have lengths := congrArg List.length (eq_of_beq double)
      simp only [List.length_take, List.length_cons, List.length_nil] at lengths ⊢
      omega
    next => simp

/-- A byte at which no lexeme begins has no kind. -/
theorem classify_eq_none
    (nothing : ∀ kind lexeme, Lexeme kind lexeme → ¬ lexeme <+: byte :: rest) :
    classify byte = none := by
  cases classified : classify byte with
  | none => rfl
  | some kind =>
    have begins := List.take_prefix (lexemeLength kind (byte :: rest)) (byte :: rest)
    exact absurd begins (nothing kind _ (lexeme_take classified rest))

/-- A lexeme is as long as computed if no longer one begins there. -/
theorem Lexeme.lexemeLength_eq (taken : Lexeme kind lexeme)
    (longest : ∀ other bytes, Lexeme other bytes → bytes <+: lexeme ++ rest →
      bytes.length ≤ lexeme.length) :
    lexemeLength kind (lexeme ++ rest) = lexeme.length := by
  obtain ⟨byte, more, rfl⟩ := List.exists_cons_of_ne_nil taken.ne_nil
  have classified := taken.classify_head
  have least := taken.length_le (List.prefix_append _ rest)
  have begins := List.take_prefix (lexemeLength kind (byte :: (more ++ rest)))
    (byte :: (more ++ rest))
  have most := longest kind _ (lexeme_take classified (more ++ rest)) begins
  have inside := lexemeLength_le classified (more ++ rest)
  rw [List.length_take, Nat.min_eq_left inside] at most
  exact Nat.le_antisymm most least

theorem ascii_of_isWord (word : isWord byte = true) : byte < 0x80 := by
  simp only [isWord, ByteClass.isAlnum, ByteClass.isAlpha, ByteClass.isDigit, Bool.or_eq_true,
    Bool.and_eq_true, decide_eq_true_eq, beq_iff_eq, UInt8.le_iff_toNat_le] at word
  rw [UInt8.lt_iff_toNat_lt]
  rcases word with letter | rfl
  · simp only [UInt8.toNat_ofNat] at letter ⊢
    omega
  · decide

theorem ascii_of_isDigit (digit : ByteClass.isDigit byte = true) : byte < 0x80 := by
  refine ascii_of_isWord ?_
  simp only [isWord, ByteClass.isAlnum, digit, Bool.or_true, Bool.true_or]

theorem Lexeme.ascii (taken : Lexeme kind lexeme) : ∀ byte ∈ lexeme, byte < 0x80 := by
  cases taken with
  | ident letter all =>
    refine List.forall_mem_cons.2 ⟨ascii_of_isWord (isWord_of_letter letter), ?_⟩
    exact fun byte member => ascii_of_isWord (List.all_eq_true.1 all byte member)
  | integer some_digit digits =>
    exact fun byte member => ascii_of_isDigit (List.all_eq_true.1 digits byte member)
  | decimal some_digit digits some_fraction fraction =>
    refine List.forall_mem_append.2 ⟨?_, List.forall_mem_cons.2 ⟨by decide, ?_⟩⟩
    · exact fun byte member => ascii_of_isDigit (List.all_eq_true.1 digits byte member)
    · exact fun byte member => ascii_of_isDigit (List.all_eq_true.1 fraction byte member)
  | punct member =>
    have all : punctuation.all (decide <| · < 0x80) = true := by decide
    exact List.forall_mem_singleton.2 (of_decide_eq_true (List.all_eq_true.1 all _ member))
  | equality => exact List.forall_mem_cons.2 ⟨by decide, List.forall_mem_singleton.2 (by decide)⟩

/-- The text of a lexeme is the characters that its bytes are the numbers of. -/
theorem Lexeme.decode (taken : Lexeme kind lexeme) :
    Utf8.decode lexeme.toArray =
      .ok (String.ofList (lexeme.map fun byte => Char.ofNat byte.toNat)) :=
  Utf8.decode_ascii taken.ascii

end Lexemes

end Lexing.Expression
