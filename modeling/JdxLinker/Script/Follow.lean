import JdxLinker.Script.Grammar

/-!
# What can follow an expression

Where an expression ends, no operator that binds as tight as it may stand, and nothing that would
make its last token longer.
-/

namespace JdxLinker.Script

open JdxLinker.Parser

/-- The operators of a level. -/
def operatorAt : Nat → Parser Combine
  | 0 => value (bytes "?") fun l _ => l
  | 1 => logicalOrOperator
  | 2 => logicalAndOperator
  | 3 => comparisonOperator
  | 4 => bitwiseOrOperator
  | 5 => bitwiseXorOperator
  | 6 => bitwiseAndOperator
  | 7 => shiftOperator
  | 8 => additiveOperator
  | 9 => multiplicativeOperator
  | _ => fail

/-- The bytes that an expression starts with. -/
def isStart (c : UInt8) : Bool :=
  isDigit c || isIdentifierStart c || c == 0x28 || c == 0x21 || c == 0x7e || c == 0x2d

/-- A text that starts with a blank or with an expression. -/
def StartsOperand (u : Text) : Prop := ∃ c u', u = c :: u' ∧ (isSpace c || isStart c) = true

/-- An expression of the level can end before the text. -/
structure Follows (level : Nat) (rest : Text) : Prop where
  boundary : ∀ c ∈ rest.head?, isIdentifierByte c = false
  stops : ∀ m, level ≤ m → operatorAt m (skip rest) = none
  noArgument : (bytes "(").isPrefixOf (skip rest) = false
  noComment : (bytes "#").isPrefixOf (skip rest) = false ∧
    (bytes "/*").isPrefixOf (skip rest) = false

theorem Follows.mono {level level' : Nat} {rest : Text} (h : Follows level rest)
    (hle : level ≤ level') : Follows level' rest :=
  ⟨h.boundary, fun m hm => h.stops m (hle.trans hm), h.noArgument, h.noComment⟩

/-! ### Tokens as bytes -/

theorem bytes_operators :
    bytes "?" = [0x3f] ∧ bytes "||" = [0x7c, 0x7c] ∧ bytes "&&" = [0x26, 0x26] ∧
      bytes "<" = [0x3c] ∧ bytes ">" = [0x3e] ∧ bytes "<=" = [0x3c, 0x3d] ∧
      bytes ">=" = [0x3e, 0x3d] ∧ bytes "==" = [0x3d, 0x3d] ∧ bytes "!=" = [0x21, 0x3d] ∧
      bytes "|" = [0x7c] ∧ bytes "^" = [0x5e] ∧ bytes "&" = [0x26] ∧ bytes "<<" = [0x3c, 0x3c] ∧
      bytes ">>" = [0x3e, 0x3e] ∧ bytes "+" = [0x2b] ∧ bytes "-" = [0x2d] ∧ bytes "*" = [0x2a] ∧
      bytes "/" = [0x2f] ∧ bytes "%" = [0x25] := by decide

theorem bytes_punctuation :
    bytes "(" = [0x28] ∧ bytes ")" = [0x29] ∧ bytes "," = [0x2c] ∧ bytes ":" = [0x3a] ∧
      bytes "#" = [0x23] ∧ bytes "/*" = [0x2f, 0x2a] ∧ bytes "\"" = [0x22] ∧
      bytes "!" = [0x21] ∧ bytes "~" = [0x7e] ∧ bytes "=" = [0x3d] := by decide

theorem value_run {α : Type} (token : Text) (a : α) (input : Text) :
    value token a input =
      if token.isPrefixOf input then some (a, input.drop token.length) else none := by
  by_cases h : token.isPrefixOf input
  · rw [if_pos h]
    exact bind_of_some (by rw [literal, if_pos h])
  · rw [if_neg h]
    exact bind_of_none (by rw [literal, if_neg h])

theorem bitwiseAndOperator_run (input : Text) :
    bitwiseAndOperator input = if (bytes "&").isPrefixOf input then
      if (bytes "&").isPrefixOf (input.drop 1) then none
      else some (.binary .bitwiseAnd, input.drop 1) else none := by
  by_cases h : (bytes "&").isPrefixOf input
  · rw [if_pos h]
    refine (bind_of_some (by rw [literal, if_pos h]; rfl : _ = some ((), input.drop 1))).trans ?_
    by_cases h' : (bytes "&").isPrefixOf (input.drop 1)
    · rw [if_pos h']
      exact bind_of_none (by rw [notFollowedBy, literal, if_pos h'])
    · rw [if_neg h']
      exact bind_of_some (by rw [notFollowedBy, literal, if_neg h'])
  · rw [if_neg h]
    exact bind_of_none (by rw [literal, if_neg h])

theorem bitwiseOrOperator_run (input : Text) :
    bitwiseOrOperator input = if (bytes "|").isPrefixOf input then
      if (bytes "|").isPrefixOf (input.drop 1) then none
      else some (.binary .bitwiseOr, input.drop 1) else none := by
  by_cases h : (bytes "|").isPrefixOf input
  · rw [if_pos h]
    refine (bind_of_some (by rw [literal, if_pos h]; rfl : _ = some ((), input.drop 1))).trans ?_
    by_cases h' : (bytes "|").isPrefixOf (input.drop 1)
    · rw [if_pos h']
      exact bind_of_none (by rw [notFollowedBy, literal, if_pos h'])
    · rw [if_neg h']
      exact bind_of_some (by rw [notFollowedBy, literal, if_neg h'])
  · rw [if_neg h]
    exact bind_of_none (by rw [literal, if_neg h])

/-- The bytes that would make an operator longer do not start an operand. -/
theorem ne_of_operand {c : UInt8} (h : (isSpace c || isStart c) = true) :
    c ≠ 0x3d ∧ c ≠ 0x7c ∧ c ≠ 0x26 ∧ c ≠ 0x3c ∧ c ≠ 0x3e ∧ c ≠ 0x2a := by
  refine ⟨?_, ?_, ?_, ?_, ?_, ?_⟩
  all_goals
    rintro rfl
    exact absurd h (by decide)

/-- Before an operand, an operator is read as itself. -/
theorem operatorAt_level (o : InfixOperator) {u : Text} (hu : StartsOperand u) :
    operatorAt o.level (o.token ++ u) = some (o.apply, u) := by
  obtain ⟨c, u, rfl, hc⟩ := hu
  obtain ⟨hequal, hbar, hand, -⟩ := ne_of_operand hc
  rcases o with _ | _ | (_ | _ | _ | _ | _ | _) | _ | _ | _ | _ | _ | _ | _ | _ | _ | _
  all_goals
    simp [operatorAt, InfixOperator.level, InfixOperator.token, InfixOperator.apply,
      logicalOrOperator, logicalAndOperator, comparisonOperator, bitwiseOrOperator_run,
      bitwiseXorOperator, bitwiseAndOperator_run, shiftOperator, additiveOperator,
      multiplicativeOperator, alt, value_run, bytes_operators, List.isPrefixOf, hequal.symm,
      hbar.symm, hand.symm]

/-- Before an operand, an operator is not one that binds tighter. -/
theorem operatorAt_tighter (o : InfixOperator) {u : Text} (hu : StartsOperand u) {m : Nat}
    (hm : o.level < m) : operatorAt m (o.token ++ u) = none := by
  obtain ⟨c, u, rfl, hc⟩ := hu
  obtain ⟨-, -, -, hless, hgreater, -⟩ := ne_of_operand hc
  rcases Nat.lt_or_ge m 10 with hlt | hge
  · rcases o with _ | _ | (_ | _ | _ | _ | _ | _) | _ | _ | _ | _ | _ | _ | _ | _ | _ | _
    all_goals
      rw [InfixOperator.level] at hm
      interval_cases m
    all_goals
      simp [operatorAt, InfixOperator.token, logicalAndOperator, comparisonOperator,
        bitwiseOrOperator_run, bitwiseXorOperator, bitwiseAndOperator_run, shiftOperator,
        additiveOperator, multiplicativeOperator, alt, fail, value_run, bytes_operators,
        List.isPrefixOf, hless.symm, hgreater.symm]
  · obtain ⟨k, rfl⟩ := Nat.exists_eq_add_of_le' hge
    rfl

/-! ### Texts that can follow -/

theorem isIdentifierByte_of_isSpace {c : UInt8} (h : isSpace c = true) :
    isIdentifierByte c = false := by
  simp only [isSpace, Bool.or_eq_true, beq_iff_eq] at h
  rcases h with ((rfl | rfl) | rfl) | rfl <;> decide

/-- What follows an expression after blanks, by its first bytes. -/
theorem follows_of_head {level : Nat} {w v : Text} {c : UInt8} (hw : Blank w)
    (hspace : isSpace c = false) (hidentifier : isIdentifierByte c = false) (hparen : c ≠ 0x28)
    (hhash : c ≠ 0x23) (hcomment : (bytes "/*").isPrefixOf (c :: v) = false)
    (hstops : ∀ m, level ≤ m → operatorAt m (c :: v) = none) : Follows level (w ++ c :: v) := by
  have hskip : skip (w ++ c :: v) = c :: v := by
    rw [skip_append_of_blank hw, skip_cons_of_not_space hspace]
  constructor
  case boundary =>
    intro d hd
    cases w with
    | nil =>
        obtain rfl : c = d := by simpa using hd
        exact hidentifier
    | cons b w =>
        obtain rfl : b = d := by simpa using hd
        exact isIdentifierByte_of_isSpace (hw b (by simp))
  case stops =>
    rw [hskip]
    exact hstops
  case noArgument =>
    rw [hskip]
    simp [bytes_punctuation, List.isPrefixOf, Ne.symm hparen]
  case noComment =>
    rw [hskip]
    exact ⟨by simp [bytes_punctuation, List.isPrefixOf, Ne.symm hhash], hcomment⟩

theorem token_head (o : InfixOperator) : ∃ c t, o.token = c :: t ∧ isSpace c = false ∧
    isIdentifierByte c = false ∧ c ≠ 0x28 ∧ c ≠ 0x23 := by
  rcases o with _ | _ | (_ | _ | _ | _ | _ | _) | _ | _ | _ | _ | _ | _ | _ | _ | _ | _
  all_goals
    refine ⟨_, _, rfl, ?_⟩
    decide

/-- An operand can be followed by an operator that binds less tight. -/
theorem follows_operator (o : InfixOperator) {w u : Text} (hw : Blank w) (hu : StartsOperand u) :
    Follows (o.level + 1) (w ++ (o.token ++ u)) := by
  have hstops : ∀ m, o.level + 1 ≤ m → operatorAt m (o.token ++ u) = none := fun m hm =>
    operatorAt_tighter o hu hm
  have hcomment : (bytes "/*").isPrefixOf (o.token ++ u) = false := by
    obtain ⟨c, u, rfl, hc⟩ := hu
    obtain ⟨-, -, -, -, -, hstar⟩ := ne_of_operand hc
    rcases o with _ | _ | (_ | _ | _ | _ | _ | _) | _ | _ | _ | _ | _ | _ | _ | _ | _ | _
    all_goals
      simp [InfixOperator.token, bytes_operators, bytes_punctuation, List.isPrefixOf, hstar.symm]
  obtain ⟨c, t, htoken, hspace, hidentifier, hparen, hhash⟩ := token_head o
  rw [htoken] at hstops hcomment ⊢
  exact follows_of_head hw hspace hidentifier hparen hhash hcomment hstops

theorem operatorAt_none {c : UInt8} (hc : c = 0x29 ∨ c = 0x2c ∨ c = 0x3a) (u : Text) (m : Nat) :
    operatorAt m (c :: u) = none := by
  rcases Nat.lt_or_ge m 10 with hlt | hge
  · rcases hc with rfl | rfl | rfl
    all_goals
      interval_cases m
    all_goals
      simp [operatorAt, logicalOrOperator, logicalAndOperator, comparisonOperator,
        bitwiseOrOperator_run, bitwiseXorOperator, bitwiseAndOperator_run, shiftOperator,
        additiveOperator, multiplicativeOperator, alt, fail, value_run, bytes_operators,
        List.isPrefixOf]
  · obtain ⟨k, rfl⟩ := Nat.exists_eq_add_of_le' hge
    rfl

/-- An expression can be followed by a bracket, a comma or a colon. -/
theorem follows_closer {w : Text} {c : UInt8} (hw : Blank w) (hc : c = 0x29 ∨ c = 0x2c ∨ c = 0x3a)
    (u : Text) : Follows 0 (w ++ c :: u) := by
  refine follows_of_head hw ?_ ?_ ?_ ?_ ?_ fun m _ => operatorAt_none hc u m
  all_goals
    rcases hc with rfl | rfl | rfl
  all_goals
    first
      | decide
      | simp [bytes_punctuation, List.isPrefixOf]

/-- A condition is followed by a question mark. -/
theorem follows_question {w : Text} (hw : Blank w) (u : Text) :
    Follows 1 (w ++ (bytes "?" ++ u)) := by
  refine follows_of_head (v := u) hw (by decide) (by decide) (by decide) (by decide)
    (by simp [bytes_punctuation, List.isPrefixOf]) fun m hm => ?_
  rcases Nat.lt_or_ge m 10 with hlt | hge
  · interval_cases m
    all_goals
      simp [operatorAt, logicalOrOperator, logicalAndOperator, comparisonOperator,
        bitwiseOrOperator_run, bitwiseXorOperator, bitwiseAndOperator_run, shiftOperator,
        additiveOperator, multiplicativeOperator, alt, fail, value_run, bytes_operators,
        List.isPrefixOf]
  · obtain ⟨k, rfl⟩ := Nat.exists_eq_add_of_le' hge
    rfl

/-- An expression can be the end of the text. -/
theorem follows_nil : Follows 0 [] := by
  refine ⟨by simp, fun m _ => ?_, by decide, by decide⟩
  rcases Nat.lt_or_ge m 10 with hlt | hge
  · interval_cases m <;> rfl
  · obtain ⟨k, rfl⟩ := Nat.exists_eq_add_of_le' hge
    rfl

/-! ### How expressions start -/

theorem isStart_of_isDigit {c : UInt8} (h : isDigit c = true) : isStart c = true := by
  simp [isStart, h]

theorem isStart_of_isIdentifierStart {c : UInt8} (h : isIdentifierStart c = true) :
    isStart c = true := by
  simp [isStart, h]

theorem isSpace_of_isStart {c : UInt8} (h : isStart c = true) : isSpace c = false := by
  by_contra hspace
  simp only [isSpace, Bool.not_eq_false, Bool.or_eq_true, beq_iff_eq] at hspace
  rcases hspace with ((rfl | rfl) | rfl) | rfl <;> exact absurd h (by decide)

theorem StartsOperand.of_blank {w : Text} {c : UInt8} (hw : Blank w) (hc : isStart c = true)
    (u : Text) : StartsOperand (w ++ c :: u) := by
  cases w with
  | nil => exact ⟨c, u, rfl, by simp [hc]⟩
  | cons b w => exact ⟨b, w ++ c :: u, rfl, by simp [hw b (by simp)]⟩

/-- The digits of a number. -/
theorem decimal_spec (n : Nat) : decimal n ≠ [] ∧ ∀ c ∈ decimal n, isDigit c = true := by
  have hdigit : ∀ d < 10, isDigit (UInt8.ofNat (48 + d)) = true := by decide
  induction n using Nat.strong_induction_on with
  | _ n ih =>
      rw [decimal]
      split
      · rename_i hlt
        exact ⟨by simp, by simpa using hdigit n hlt⟩
      · refine ⟨by simp, ?_⟩
        intro c hc
        rcases List.mem_append.mp hc with hc | hc
        · exact (ih (n / 10) (by omega)).2 c hc
        · rw [List.mem_singleton.mp hc]
          exact hdigit (n % 10) (Nat.mod_lt n (by decide))

/-- The bytes that a primary expression starts with. -/
def isPrimaryStart (c : UInt8) : Bool := isDigit c || isIdentifierStart c || c == 0x28

theorem IsIdentifier.head {name : Name} (h : IsIdentifier name) :
    ∃ c t, name = c :: t ∧ isIdentifierStart c = true := by
  cases name with
  | nil => exact absurd h.1 (by decide)
  | cons c t => exact ⟨c, t, rfl, by simpa [isName] using h.1⟩

end JdxLinker.Script
