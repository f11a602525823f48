import JdxLinker.Script.RoundTrip

/-!
# The precedences of the parser

Expressions that are printed by the parser's own precedences are read back. They are not those of
GNU ld: there, comparisons bind tighter than the bitwise operators, and they chain.
-/

namespace JdxLinker.Script

open JdxLinker.Parser

/-! ### Unsigned numbers -/

def digitsValue (digits : Text) : Nat := digits.foldl (fun n c => n * 10 + (c.toNat - 48)) 0

/-- Zero, or digits that do not start with zero. -/
def decUint : Parser UInt64 := fun input =>
  if input.head? = some 48 then some (0, input.drop 1)
  else
    match input.takeWhile isDigit with
    | [] => none
    | digits =>
        if digitsValue digits < 2 ^ 64 then
          some (UInt64.ofNat (digitsValue digits), input.dropWhile isDigit)
        else none

def hexDigit (c : UInt8) : Option Nat :=
  if isDigit c then some (c.toNat - 48)
  else if 97 ≤ c ∧ c ≤ 102 then some (c.toNat - 87)
  else if 65 ≤ c ∧ c ≤ 70 then some (c.toNat - 55)
  else none

/-- At most sixteen hexadecimal digits. -/
def hexUint : Parser UInt64 := fun input =>
  match input.takeWhile fun c => (hexDigit c).isSome with
  | [] => none
  | digits =>
      if digits.length ≤ 16 then
        some (UInt64.ofNat ((digits.filterMap hexDigit).foldl (fun n d => n * 16 + d) 0),
          input.drop digits.length)
      else none

theorem digitsValue_decimal (n : Nat) : digitsValue (decimal n) = n := by
  have hdigit : ∀ d < 10, (UInt8.ofNat (48 + d)).toNat - 48 = d := by decide
  induction n using Nat.strong_induction_on with
  | _ n ih =>
      rw [decimal]
      split
      · rename_i hlt
        change 0 * 10 + ((UInt8.ofNat (48 + n)).toNat - 48) = n
        rw [hdigit n hlt, Nat.zero_mul, Nat.zero_add]
      · have hprevious := ih (n / 10) (by omega)
        rw [digitsValue] at hprevious
        rw [digitsValue, List.foldl_append, hprevious, List.foldl_cons, List.foldl_nil,
          hdigit (n % 10) (Nat.mod_lt n (by decide))]
        omega

/-- The digits of a number above zero do not start with zero. -/
theorem decimal_head {n : Nat} (hn : 0 < n) (rest : Text) :
    (decimal n ++ rest).head? ≠ some 48 := by
  have hdigit : ∀ d < 10, 0 < d → UInt8.ofNat (48 + d) ≠ 48 := by decide
  induction n using Nat.strong_induction_on generalizing rest with
  | _ n ih =>
      rw [decimal]
      split
      · rename_i hlt
        simpa using hdigit n hlt hn
      · rw [List.append_assoc]
        exact ih (n / 10) (by omega) (by omega) _

theorem decUint_decimal (n : UInt64) (rest : Text) (hrest : ∀ c ∈ rest.head?, isDigit c = false) :
    decUint (decimal n.toNat ++ rest) = some (n, rest) := by
  obtain ⟨hne, hdigits⟩ := decimal_spec n.toNat
  by_cases hzero : n = 0
  · subst hzero
    have hdecimal : decimal (0 : UInt64).toNat = [48] := by
      rw [decimal]
      rfl
    rw [hdecimal]
    rfl
  · have hpositive : 0 < n.toNat := by
      refine Nat.pos_of_ne_zero fun heq => hzero ?_
      exact UInt64.toNat_inj.mp heq
    obtain ⟨hstopTake, hstopDrop⟩ : rest.takeWhile isDigit = [] ∧ rest.dropWhile isDigit = rest := by
      cases rest with
      | nil => exact ⟨rfl, rfl⟩
      | cons c rest =>
          have hc := hrest c rfl
          simp [hc]
    have htake : (decimal n.toNat ++ rest).takeWhile isDigit = decimal n.toNat := by
      rw [List.takeWhile_append_of_pos hdigits, hstopTake, List.append_nil]
    have hdrop : (decimal n.toNat ++ rest).dropWhile isDigit = rest := by
      rw [List.dropWhile_append_of_pos hdigits, hstopDrop]
    rw [decUint, if_neg (decimal_head hpositive rest), htake, hdrop]
    cases hdecimal : decimal n.toNat with
    | nil => exact absurd hdecimal hne
    | cons c t =>
        simp only
        rw [← hdecimal, digitsValue_decimal, if_pos n.toNat_lt, UInt64.ofNat_toNat]

/-- Parsers of unsigned numbers that do what is relied on. -/
def NumberParsers.standard : NumberParsers where
  decUint := Script.decUint
  hexUint := Script.hexUint
  decUint_decimal := Script.decUint_decimal
  decUint_none input h := by
    cases input with
    | nil => rfl
    | cons c input =>
        have hc := h c rfl
        have hne : c ≠ 48 := by
          rintro rfl
          exact absurd hc (by decide)
        simp [Script.decUint, hne, hc]

/-! ### Results -/

/-- An expression that is printed with the parentheses that the parser's precedences call for is
read to the end of the text, as the same expression: by the parser, and with any fuel that does not
run out. -/
theorem parseExpression_print (numbers : NumberParsers) (e : Expression) (h : e.Printable) :
    (∃ e', e'.erase = e.erase ∧
      parseExpression numbers (e.print parserPrecedence) = some (e', [])) ∧
    ∀ fuel, (e.print parserPrecedence).length < fuel → ∃ e', e'.erase = e.erase ∧
      parseNested numbers fuel (e.print parserPrecedence) = some (e', []) := by
  have hderives := (isDerived_printed h).derives
  exact ⟨parseNested_of_derives numbers hderives (Nat.lt_succ_self _),
    fun fuel hfuel => parseNested_of_derives numbers hderives hfuel⟩

/-- `1 & (2 == 2)`, which GNU ld prints and reads without parentheses. -/
def maskedComparison : Expression :=
  .binary .bitwiseAnd (.number 1) (.comparison .equal (.number 2) (.number 2))

theorem maskedComparison_print :
    maskedComparison.print gnuPrecedence = bytes "1 & 2 == 2" := by
  have hone : decimal (1 : UInt64).toNat = [49] := by
    rw [decimal]
    rfl
  have htwo : decimal (2 : UInt64).toNat = [50] := by
    rw [decimal]
    rfl
  simp only [maskedComparison, Expression.print, Expression.printed, primaryText, hone, htwo]
  decide

/-- The text is read as `(1 & 2) == 2`, which has another value. -/
theorem maskedComparison_counterexample : maskedComparison.Printable ∧
    parseExpression NumberParsers.standard (maskedComparison.print gnuPrecedence) =
      some (.comparison .equal (.binary .bitwiseAnd (.number 1) (.number 2)) (.number 2), []) ∧
    Expression.comparison .equal (.binary .bitwiseAnd (.number 1) (.number 2)) (.number 2) ≠
      maskedComparison := by
  refine ⟨⟨trivial, trivial, trivial⟩, ?_, by decide⟩
  rw [maskedComparison_print]
  rfl

/-- The theorem on an expression with a name, a function and an assertion. -/
theorem parseExpression_print_alignof :
    let e := Expression.comparison .lessEqual (.alignof (bytes ".text"))
      (.assert (.symbol (bytes "limit")) (bytes "no limit") [])
    e.Printable ∧ ∃ e', e'.erase = e.erase ∧
      parseExpression NumberParsers.standard (e.print parserPrecedence) = some (e', []) := by
  have hprintable : (Expression.comparison .lessEqual (.alignof (bytes ".text"))
      (.assert (.symbol (bytes "limit")) (bytes "no limit") [])).Printable :=
    ⟨isIdentifier_of_all (by decide) (by decide),
      ⟨isIdentifier_of_all (by decide) (by decide), by decide, by decide⟩,
      quotable_of_all (by decide)⟩
  exact ⟨hprintable, (parseExpression_print NumberParsers.standard _ hprintable).1⟩

end JdxLinker.Script
