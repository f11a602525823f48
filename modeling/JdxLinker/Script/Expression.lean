import Mathlib

/-!
# Expressions of linker scripts

The expressions that symbol definitions, location counters and assertions are written in. The
operators that are evaluated alike share a constructor, with an enumeration that tells them apart.
-/

namespace JdxLinker.Script

/-- A name of a symbol, of a section or of a memory region. -/
abbrev Name := List UInt8

inductive SegmentName where
  | text
  | rodata
  | data
  | bss
  | other
  deriving Repr, DecidableEq

/-- The operators whose operands are evaluated from left to right, in the context of the whole
expression. -/
inductive BinaryOperator where
  | add
  | subtract
  | multiply
  | min
  | max
  | bitwiseAnd
  | bitwiseOr
  | bitwiseXor
  | leftShift
  | rightShift
  deriving Repr, DecidableEq

/-- The operators that fail where their right operand is zero. -/
inductive DivisionOperator where
  | divide
  | modulo
  deriving Repr, DecidableEq

/-- The operators that compare addresses. -/
inductive Comparison where
  | lessThan
  | greaterThan
  | lessEqual
  | greaterEqual
  | equal
  | notEqual
  deriving Repr, DecidableEq

inductive UnaryOperator where
  | logicalNot
  | bitwiseNot
  | negate
  deriving Repr, DecidableEq

inductive Expression where
  | number (n : UInt64)
  | symbol (name : Name)
  | locationCounter
  | binary (operator : BinaryOperator) (l r : Expression)
  | division (operator : DivisionOperator) (l r : Expression)
  | comparison (operator : Comparison) (l r : Expression)
  | sizeof (name : Name)
  | alignof (name : Name)
  | origin (name : Name)
  | length (name : Name)
  | addr (name : Name)
  | loadaddr (name : Name)
  /-- `ALIGN` with an alignment only: the location counter is aligned. -/
  | alignLocation (exponent : Expression)
  /-- `ALIGN` with the expression that is aligned first. -/
  | align (exponent expression : Expression)
  | segmentStart (name : SegmentName) (default : Expression)
  | logicalAnd (l r : Expression)
  | logicalOr (l r : Expression)
  | unary (operator : UnaryOperator) (expression : Expression)
  | sizeofHeaders
  | ternary (condition ifTrue ifFalse : Expression)
  | defined (name : Name)
  | assert (expression : Expression) (message remainder : List UInt8)
  deriving Repr, DecidableEq

namespace Expression

/-- The symbols whose values an expression mentions. -/
def symbols : Expression → List Name
  | number _ | locationCounter | sizeof _ | alignof _ | origin _ | length _ | addr _ | loadaddr _
  | sizeofHeaders | defined _ => []
  | symbol name => [name]
  | binary _ l r | division _ l r | comparison _ l r | logicalAnd l r | logicalOr l r
  | align l r => l.symbols ++ r.symbols
  | alignLocation e | segmentStart _ e | unary _ e | assert e _ _ => e.symbols
  | ternary condition ifTrue ifFalse => condition.symbols ++ ifTrue.symbols ++ ifFalse.symbols

end Expression

end JdxLinker.Script
