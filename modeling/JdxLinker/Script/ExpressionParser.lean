import JdxLinker.Lib.Parsers
import JdxLinker.Script.Expression

/-!
# The parser of expressions

One parser for each level of operators, from the ternary operator down to names and numbers. Parsers
recurse through a parser of nested expressions, and loops are bounded by the same fuel: a text can
only nest and repeat as often as it has bytes.
-/

namespace JdxLinker.Script

open JdxLinker.Parser

/-- The decimal digits of a number. -/
def decimal (n : Nat) : Text :=
  if n < 10 then [UInt8.ofNat (48 + n)] else decimal (n / 10) ++ [UInt8.ofNat (48 + n % 10)]

def isDigit (c : UInt8) : Bool := 48 ≤ c && c ≤ 57

def isAsciiAlphabetic (c : UInt8) : Bool := (65 ≤ c && c ≤ 90) || (97 ≤ c && c ≤ 122)

/-- The bytes of identifiers. -/
def isIdentifierByte (c : UInt8) : Bool :=
  isAsciiAlphabetic c || isDigit c || c == 0x5f || c == 0x2e

/-- The bytes that an identifier starts with. -/
def isIdentifierStart (c : UInt8) : Bool := isAsciiAlphabetic c || c == 0x5f || c == 0x2e

/-- What is relied on of the parsers of unsigned numbers. -/
structure NumberParsers where
  decUint : Parser UInt64
  hexUint : Parser UInt64
  /-- A number without superfluous zeros is read to its end. -/
  decUint_decimal : ∀ (n : UInt64) (rest : Text), (∀ c ∈ rest.head?, isDigit c = false) →
    decUint (decimal n.toNat ++ rest) = some (n, rest)
  /-- A number starts with a digit. -/
  decUint_none : ∀ input : Text, (∀ c ∈ input.head?, isDigit c = false) → decUint input = none

def SegmentName.fromBytes (name : Name) : SegmentName :=
  if name = bytes "text" then .text
  else if name = bytes "rodata" then .rodata
  else if name = bytes "data" then .data
  else if name = bytes "bss" then .bss
  else .other

/-! ### Comments, tokens and assertions -/

def skipCommentsAndWhitespace : Nat → Parser Unit
  | 0 => fail
  | fuel + 1 => do
      multispace0
      let input ← remaining
      if (bytes "#").isPrefixOf input then
        let _ ← takeUntil 1 (bytes "\n")
        skipCommentsAndWhitespace fuel
      else if (bytes "/*").isPrefixOf input then
        let _ ← takeUntil 1 (bytes "*/")
        literal (bytes "*/")
        skipCommentsAndWhitespace fuel
      else pure ()

/-- The bytes that end a token without quotes. -/
def endsToken (c : UInt8) : Bool := (bytes " (){};,\n\t").contains c

def parseToken : Parser Text := do
  let input ← remaining
  if (bytes "\"").isPrefixOf input then
    literal (bytes "\"")
    let content ← takeUntil 0 (bytes "\"")
    literal (bytes "\"")
    pure content
  else takeWhile1 fun c => !endsToken c

section Parse

variable (numbers : NumberParsers)

def parseAssert (expression : Parser Expression) (fuel : Nat) : Parser Expression := do
  let remainder ← remaining
  literal (bytes "(")
  skipCommentsAndWhitespace fuel
  let expression ← expression
  skipCommentsAndWhitespace fuel
  literal (bytes ",")
  skipCommentsAndWhitespace fuel
  let message ← parseToken
  skipCommentsAndWhitespace fuel
  literal (bytes ")")
  skipCommentsAndWhitespace fuel
  pure (.assert expression message remainder)

/-! ### Primary expressions -/

/-- A number, with a suffix that multiplies it. -/
def parseNumberWithSuffix : Parser Expression := do
  let baseNumber ← alt [
    do
      alt [literal (bytes "0x"), literal (bytes "0X")]
      numbers.hexUint,
    numbers.decUint]
  let suffix ← opt (alt [value (bytes "K") 1024, value (bytes "k") 1024,
    value (bytes "M") (1024 * 1024), value (bytes "m") (1024 * 1024)])
  pure (.number (baseNumber * suffix.getD 1))

def isName (name : Text) : Bool := name.head?.any isIdentifierStart

/-- An identifier, whose first byte is no digit. -/
def parseIdentifier : Parser Text := do
  let name ← takeWhile1 isIdentifierByte
  if isName name then pure name else fail

/-- The name of a section, of a memory region or of a symbol, in parentheses. -/
def parseFunctionArg : Parser Text := do
  literal (bytes "(")
  multispace0
  let arg ← parseIdentifier
  multispace0
  literal (bytes ")")
  pure arg

def parseAlign (expression : Parser Expression) : Parser Expression := do
  literal (bytes "(")
  let arg0 ← expression
  multispace0
  match ← opt (literal (bytes ",")) with
  | some _ =>
      multispace0
      let arg1 ← expression
      multispace0
      literal (bytes ")")
      pure (.align arg1 arg0)
  | none =>
      literal (bytes ")")
      pure (.alignLocation arg0)

/-- Two expressions in parentheses. -/
def parsePair (expression : Parser Expression) (operator : BinaryOperator) : Parser Expression := do
  literal (bytes "(")
  let first ← expression
  multispace0
  literal (bytes ",")
  multispace0
  let second ← expression
  multispace0
  literal (bytes ")")
  pure (.binary operator first second)

def parseSegmentStart (expression : Parser Expression) : Parser Expression := do
  literal (bytes "(")
  multispace0
  literal (bytes "\"")
  let name ← takeWhile1 fun c => c != 0x22
  literal (bytes "\"")
  multispace0
  literal (bytes ",")
  multispace0
  let defaultExpr ← expression
  multispace0
  literal (bytes ")")
  pure (.segmentStart (SegmentName.fromBytes name) defaultExpr)

def parseFunction (expression : Parser Expression) (fuel : Nat) (ident : Text) :
    Parser Expression :=
  if ident = bytes "SIZEOF" then .sizeof <$> parseFunctionArg
  else if ident = bytes "ALIGNOF" then .alignof <$> parseFunctionArg
  else if ident = bytes "ADDR" then .addr <$> parseFunctionArg
  else if ident = bytes "ORIGIN" then .origin <$> parseFunctionArg
  else if ident = bytes "LENGTH" then .length <$> parseFunctionArg
  else if ident = bytes "LOADADDR" then .loadaddr <$> parseFunctionArg
  else if ident = bytes "ALIGN" then parseAlign expression
  else if ident = bytes "MIN" then parsePair expression .min
  else if ident = bytes "MAX" then parsePair expression .max
  else if ident = bytes "SEGMENT_START" then parseSegmentStart expression
  else if ident = bytes "DEFINED" then .defined <$> parseFunctionArg
  else if ident = bytes "ASSERT" then parseAssert expression fuel
  else fail

def parseIdentifierOrFunction (expression : Parser Expression) (fuel : Nat) :
    Parser Expression := do
  let ident ← parseIdentifier
  if ident = bytes "." then pure .locationCounter
  else
    multispace0
    let input ← remaining
    if (bytes "(").isPrefixOf input then
      multispace0
      parseFunction expression fuel ident
    else if ident = bytes "SIZEOF_HEADERS" then pure .sizeofHeaders
    else pure (.symbol ident)

def parseParenthesised (expression : Parser Expression) : Parser Expression := do
  literal (bytes "(")
  let inner ← expression
  literal (bytes ")")
  pure inner

def parsePrimary (expression : Parser Expression) (fuel : Nat) : Parser Expression := do
  multispace0
  alt [parseParenthesised expression, parseNumberWithSuffix numbers,
    parseIdentifierOrFunction expression fuel]

/-! ### Operators -/

/-- The prefix operators. -/
def unaryOperator : Parser UnaryOperator :=
  alt [
    do
      literal (bytes "!")
      notFollowedBy (literal (bytes "="))
      pure .logicalNot,
    value (bytes "~") .bitwiseNot,
    value (bytes "-") .negate]

def parseUnary (expression : Parser Expression) (depth : Nat) : Nat → Parser Expression
  | 0 => fail
  | fuel + 1 => do
      multispace0
      match ← opt unaryOperator with
      | some operator =>
          let operand ← parseUnary expression depth fuel
          pure (.unary operator operand)
      | none => parsePrimary numbers expression depth

abbrev Combine := Expression → Expression → Expression

/-- The operators of a level whose left operand has been read. -/
def continueLeft (next : Parser Expression) (operator : Parser Combine) :
    Nat → Expression → Parser Expression
  | 0, _ => fail
  | fuel + 1, left => do
      match ← opt operator with
      | some combine =>
          multispace0
          let right ← next
          multispace0
          continueLeft next operator fuel (combine left right)
      | none => pure left

/-- A level of operators that associate to the left. -/
def parseLeftAssociative (next : Parser Expression) (operator : Parser Combine) (fuel : Nat) :
    Parser Expression := do
  let left ← next
  multispace0
  continueLeft next operator fuel left

def multiplicativeOperator : Parser Combine :=
  alt [value (bytes "*") (.binary .multiply), value (bytes "/") (.division .divide),
    value (bytes "%") (.division .modulo)]

def additiveOperator : Parser Combine :=
  alt [value (bytes "+") (.binary .add), value (bytes "-") (.binary .subtract)]

def shiftOperator : Parser Combine :=
  alt [value (bytes "<<") (.binary .leftShift), value (bytes ">>") (.binary .rightShift)]

def bitwiseAndOperator : Parser Combine := do
  literal (bytes "&")
  notFollowedBy (literal (bytes "&"))
  pure (.binary .bitwiseAnd)

def bitwiseXorOperator : Parser Combine := value (bytes "^") (.binary .bitwiseXor)

def bitwiseOrOperator : Parser Combine := do
  literal (bytes "|")
  notFollowedBy (literal (bytes "|"))
  pure (.binary .bitwiseOr)

def comparisonOperator : Parser Combine :=
  alt [value (bytes "<=") (.comparison .lessEqual), value (bytes ">=") (.comparison .greaterEqual),
    value (bytes "==") (.comparison .equal), value (bytes "!=") (.comparison .notEqual),
    value (bytes "<") (.comparison .lessThan), value (bytes ">") (.comparison .greaterThan)]

def logicalAndOperator : Parser Combine := value (bytes "&&") .logicalAnd

def logicalOrOperator : Parser Combine := value (bytes "||") .logicalOr

variable (expression : Parser Expression) (fuel : Nat)

def parseMultiplicative : Parser Expression :=
  parseLeftAssociative (parseUnary numbers expression fuel fuel) multiplicativeOperator fuel

def parseAdditive : Parser Expression :=
  parseLeftAssociative (parseMultiplicative numbers expression fuel) additiveOperator fuel

def parseShift : Parser Expression :=
  parseLeftAssociative (parseAdditive numbers expression fuel) shiftOperator fuel

def parseBitwiseAnd : Parser Expression :=
  parseLeftAssociative (parseShift numbers expression fuel) bitwiseAndOperator fuel

def parseBitwiseXor : Parser Expression :=
  parseLeftAssociative (parseBitwiseAnd numbers expression fuel) bitwiseXorOperator fuel

def parseBitwiseOr : Parser Expression :=
  parseLeftAssociative (parseBitwiseXor numbers expression fuel) bitwiseOrOperator fuel

/-- Comparisons do not chain. -/
def parseComparison : Parser Expression := do
  let left ← parseBitwiseOr numbers expression fuel
  multispace0
  match ← opt comparisonOperator with
  | some combine =>
      multispace0
      let right ← parseBitwiseOr numbers expression fuel
      multispace0
      pure (combine left right)
  | none => pure left

def parseLogicalAnd : Parser Expression :=
  parseLeftAssociative (parseComparison numbers expression fuel) logicalAndOperator fuel

def parseLogicalOr : Parser Expression :=
  parseLeftAssociative (parseLogicalAnd numbers expression fuel) logicalOrOperator fuel

def parseTernary : Parser Expression := do
  let left ← parseLogicalOr numbers expression fuel
  multispace0
  match ← opt (literal (bytes "?")) with
  | some _ =>
      multispace0
      let trueExpr ← expression
      multispace0
      literal (bytes ":")
      multispace0
      let falseExpr ← expression
      multispace0
      pure (.ternary left trueExpr falseExpr)
  | none => pure left

end Parse

/-- The parser of expressions that nest at most as deep as there is fuel. -/
def parseNested (numbers : NumberParsers) : Nat → Parser Expression
  | 0 => fail
  | fuel + 1 => parseTernary numbers (parseNested numbers fuel) (fuel + 1)

def parseExpression (numbers : NumberParsers) : Parser Expression := fun input =>
  parseNested numbers (input.length + 1) input

end JdxLinker.Script
