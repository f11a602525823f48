import JdxLinker.Script.ExpressionParser

/-!
# The grammar of expressions

Which texts stand for which expressions, level by level, and the text that an expression is printed
to under a table of precedences, with no more parentheses than the table calls for.
-/

namespace JdxLinker.Script

open JdxLinker.Parser

inductive InfixOperator where
  | logicalOr
  | logicalAnd
  | comparison (operator : Comparison)
  | bitwiseOr
  | bitwiseXor
  | bitwiseAnd
  | leftShift
  | rightShift
  | add
  | subtract
  | multiply
  | divide
  | modulo
  deriving Repr, DecidableEq

namespace InfixOperator

def apply : InfixOperator → Expression → Expression → Expression
  | logicalOr => .logicalOr
  | logicalAnd => .logicalAnd
  | comparison operator => .comparison operator
  | bitwiseOr => .binary .bitwiseOr
  | bitwiseXor => .binary .bitwiseXor
  | bitwiseAnd => .binary .bitwiseAnd
  | leftShift => .binary .leftShift
  | rightShift => .binary .rightShift
  | add => .binary .add
  | subtract => .binary .subtract
  | multiply => .binary .multiply
  | divide => .division .divide
  | modulo => .division .modulo

def token : InfixOperator → Text
  | logicalOr => bytes "||"
  | logicalAnd => bytes "&&"
  | comparison .lessThan => bytes "<"
  | comparison .greaterThan => bytes ">"
  | comparison .lessEqual => bytes "<="
  | comparison .greaterEqual => bytes ">="
  | comparison .equal => bytes "=="
  | comparison .notEqual => bytes "!="
  | bitwiseOr => bytes "|"
  | bitwiseXor => bytes "^"
  | bitwiseAnd => bytes "&"
  | leftShift => bytes "<<"
  | rightShift => bytes ">>"
  | add => bytes "+"
  | subtract => bytes "-"
  | multiply => bytes "*"
  | divide => bytes "/"
  | modulo => bytes "%"

/-- The level of an operator: operators of higher levels bind tighter. -/
def level : InfixOperator → Nat
  | logicalOr => 1
  | logicalAnd => 2
  | comparison _ => 3
  | bitwiseOr => 4
  | bitwiseXor => 5
  | bitwiseAnd => 6
  | leftShift | rightShift => 7
  | add | subtract => 8
  | multiply | divide | modulo => 9

/-- The level of the left operand. All operators but the comparisons associate to the left. -/
def leftLevel : InfixOperator → Nat
  | comparison _ => 4
  | operator => operator.level

end InfixOperator

def UnaryOperator.token : UnaryOperator → Text
  | logicalNot => bytes "!"
  | bitwiseNot => bytes "~"
  | negate => bytes "-"

/-- The functions of a name. -/
inductive NameFunction where
  | sizeof
  | alignof
  | addr
  | origin
  | length
  | loadaddr
  | defined
  deriving Repr, DecidableEq

namespace NameFunction

def keyword : NameFunction → Text
  | sizeof => bytes "SIZEOF"
  | alignof => bytes "ALIGNOF"
  | addr => bytes "ADDR"
  | origin => bytes "ORIGIN"
  | length => bytes "LENGTH"
  | loadaddr => bytes "LOADADDR"
  | defined => bytes "DEFINED"

def apply : NameFunction → Name → Expression
  | sizeof => .sizeof
  | alignof => .alignof
  | addr => .addr
  | origin => .origin
  | length => .length
  | loadaddr => .loadaddr
  | defined => .defined

end NameFunction

/-- The functions of two expressions that do not depend on their place. -/
inductive PairFunction where
  | min
  | max
  deriving Repr, DecidableEq

namespace PairFunction

def keyword : PairFunction → Text
  | min => bytes "MIN"
  | max => bytes "MAX"

def operator : PairFunction → BinaryOperator
  | min => .min
  | max => .max

end PairFunction

/-- A name that is read as one identifier. -/
def IsIdentifier (name : Name) : Prop :=
  isName name = true ∧ ∀ c ∈ name, isIdentifierByte c = true

/-- A name that stands for a symbol. -/
def IsSymbol (name : Name) : Prop :=
  IsIdentifier name ∧ name ≠ bytes "." ∧ name ≠ bytes "SIZEOF_HEADERS"

/-- A text that can stand between quotes. -/
def Quotable (content : Text) : Prop := ∀ c ∈ content, c ≠ 0x22

/-- The text stands for the expression at a level. Level 0 is that of the ternary operator, level 10
that of the prefix operators and level 11 that of primary expressions. Blanks can stand between any
two tokens. -/
inductive Derives : Nat → Expression → Text → Prop
  | tighter {level : Nat} {e : Expression} {t : Text} (hlevel : level < 11)
      (h : Derives (level + 1) e t) : Derives level e t
  | ternary {c a b : Expression} {tc ta tb w₁ w₂ w₃ w₄ : Text} (hc : Derives 1 c tc)
      (ha : Derives 0 a ta) (hb : Derives 0 b tb) (hw₁ : Blank w₁) (hw₂ : Blank w₂)
      (hw₃ : Blank w₃) (hw₄ : Blank w₄) :
      Derives 0 (.ternary c a b)
        (tc ++ (w₁ ++ (bytes "?" ++ (w₂ ++ (ta ++ (w₃ ++ (bytes ":" ++ (w₄ ++ tb))))))))
  | operator {operator : InfixOperator} {l r : Expression} {tl tr w₁ w₂ : Text}
      (hl : Derives operator.leftLevel l tl) (hr : Derives (operator.level + 1) r tr)
      (hw₁ : Blank w₁) (hw₂ : Blank w₂) :
      Derives operator.level (operator.apply l r) (tl ++ (w₁ ++ (operator.token ++ (w₂ ++ tr))))
  | unary {operator : UnaryOperator} {e : Expression} {t w : Text} (h : Derives 10 e t)
      (hw : Blank w) : Derives 10 (.unary operator e) (operator.token ++ (w ++ t))
  | parenthesised {e : Expression} {t w₁ w₂ : Text} (h : Derives 0 e t) (hw₁ : Blank w₁)
      (hw₂ : Blank w₂) : Derives 11 e (bytes "(" ++ (w₁ ++ (t ++ (w₂ ++ bytes ")"))))
  | number (n : UInt64) : Derives 11 (.number n) (decimal n.toNat)
  | symbol {name : Name} (h : IsSymbol name) : Derives 11 (.symbol name) name
  | locationCounter : Derives 11 .locationCounter (bytes ".")
  | sizeofHeaders : Derives 11 .sizeofHeaders (bytes "SIZEOF_HEADERS")
  | nameFunction {function : NameFunction} {name : Name} {w₁ w₂ w₃ : Text} (h : IsIdentifier name)
      (hw₁ : Blank w₁) (hw₂ : Blank w₂) (hw₃ : Blank w₃) :
      Derives 11 (function.apply name)
        (function.keyword ++ (w₁ ++ (bytes "(" ++ (w₂ ++ (name ++ (w₃ ++ bytes ")"))))))
  | alignLocation {e : Expression} {t w₁ w₂ w₃ : Text} (h : Derives 0 e t) (hw₁ : Blank w₁)
      (hw₂ : Blank w₂) (hw₃ : Blank w₃) :
      Derives 11 (.alignLocation e)
        (bytes "ALIGN" ++ (w₁ ++ (bytes "(" ++ (w₂ ++ (t ++ (w₃ ++ bytes ")"))))))
  | align {exponent e : Expression} {te t w₁ w₂ w₃ w₄ w₅ : Text} (h : Derives 0 e t)
      (hexponent : Derives 0 exponent te) (hw₁ : Blank w₁) (hw₂ : Blank w₂) (hw₃ : Blank w₃)
      (hw₄ : Blank w₄) (hw₅ : Blank w₅) :
      Derives 11 (.align exponent e) (bytes "ALIGN" ++ (w₁ ++ (bytes "(" ++ (w₂ ++ (t ++ (w₃ ++
        (bytes "," ++ (w₄ ++ (te ++ (w₅ ++ bytes ")"))))))))))
  | pair {function : PairFunction} {l r : Expression} {tl tr w₁ w₂ w₃ w₄ w₅ : Text}
      (hl : Derives 0 l tl) (hr : Derives 0 r tr) (hw₁ : Blank w₁) (hw₂ : Blank w₂)
      (hw₃ : Blank w₃) (hw₄ : Blank w₄) (hw₅ : Blank w₅) :
      Derives 11 (.binary function.operator l r) (function.keyword ++ (w₁ ++ (bytes "(" ++ (w₂ ++
        (tl ++ (w₃ ++ (bytes "," ++ (w₄ ++ (tr ++ (w₅ ++ bytes ")"))))))))))
  | segmentStart {name : Text} {e : Expression} {t w₁ w₂ w₃ w₄ w₅ : Text} (h : Derives 0 e t)
      (hname : name ≠ []) (hquotable : Quotable name) (hw₁ : Blank w₁) (hw₂ : Blank w₂)
      (hw₃ : Blank w₃) (hw₄ : Blank w₄) (hw₅ : Blank w₅) :
      Derives 11 (.segmentStart (SegmentName.fromBytes name) e) (bytes "SEGMENT_START" ++ (w₁ ++
        (bytes "(" ++ (w₂ ++ (bytes "\"" ++ (name ++ (bytes "\"" ++ (w₃ ++ (bytes "," ++ (w₄ ++
          (t ++ (w₅ ++ bytes ")"))))))))))))
  | assert {e : Expression} {message remainder t w₁ w₂ w₃ w₄ w₅ : Text} (h : Derives 0 e t)
      (hmessage : Quotable message) (hw₁ : Blank w₁) (hw₂ : Blank w₂) (hw₃ : Blank w₃)
      (hw₄ : Blank w₄) (hw₅ : Blank w₅) :
      Derives 11 (.assert e message remainder) (bytes "ASSERT" ++ (w₁ ++ (bytes "(" ++ (w₂ ++
        (t ++ (w₃ ++ (bytes "," ++ (w₄ ++ (bytes "\"" ++ (message ++ (bytes "\"" ++ (w₅ ++
          bytes ")"))))))))))))

/-! ### Printing -/

/-- How tight an operator binds, and how tight its operands must bind to need no parentheses. -/
structure Precedence where
  own : InfixOperator → Nat
  left : InfixOperator → Nat
  right : InfixOperator → Nat
  /-- The precedence of the prefix operators, above that of any infix operator. -/
  prefixed : Nat

/-- The precedences that the parser goes by. -/
def parserPrecedence : Precedence where
  own := InfixOperator.level
  left := InfixOperator.leftLevel
  right operator := operator.level + 1
  prefixed := 10

/-- The precedences of GNU ld, where all infix operators associate to the left. -/
def gnuLevel : InfixOperator → Nat
  | .logicalOr => 1
  | .logicalAnd => 2
  | .bitwiseOr => 3
  | .bitwiseXor => 4
  | .bitwiseAnd => 5
  | .comparison .equal | .comparison .notEqual => 6
  | .comparison _ => 7
  | .leftShift | .rightShift => 8
  | .add | .subtract => 9
  | .multiply | .divide | .modulo => 10

def gnuPrecedence : Precedence where
  own := gnuLevel
  left := gnuLevel
  right operator := gnuLevel operator + 1
  prefixed := 11

/-- A name that stands for a segment. -/
def SegmentName.name : SegmentName → Text
  | .text => bytes "text"
  | .rodata => bytes "rodata"
  | .data => bytes "data"
  | .bss => bytes "bss"
  | .other => bytes "other"

/-- Which binary operators are written between their operands, and which as functions. -/
def BinaryOperator.kind : BinaryOperator → InfixOperator ⊕ PairFunction
  | .add => .inl .add
  | .subtract => .inl .subtract
  | .multiply => .inl .multiply
  | .bitwiseAnd => .inl .bitwiseAnd
  | .bitwiseOr => .inl .bitwiseOr
  | .bitwiseXor => .inl .bitwiseXor
  | .leftShift => .inl .leftShift
  | .rightShift => .inl .rightShift
  | .min => .inr .min
  | .max => .inr .max

def DivisionOperator.infixOperator : DivisionOperator → InfixOperator
  | .divide => .divide
  | .modulo => .modulo

/-- Puts a text in parentheses where it binds less tight than it must. -/
def parenthesize (own required : Nat) (text : Text) : Text :=
  if own < required then bytes "(" ++ ([] ++ (text ++ ([] ++ bytes ")"))) else text

section Print

variable (table : Precedence)

/-- A text and how tight it binds. -/
abbrev Printed := Nat × Text

def primaryText (text : Text) : Printed := (table.prefixed + 1, text)

def operatorText (operator : InfixOperator) (l r : Printed) : Printed :=
  (table.own operator, parenthesize l.1 (table.left operator) l.2 ++ (blank ++ (operator.token ++
    (blank ++ parenthesize r.1 (table.right operator) r.2))))

def unaryText (operator : UnaryOperator) (e : Printed) : Printed :=
  (table.prefixed, operator.token ++ ([] ++ parenthesize e.1 table.prefixed e.2))

def ternaryText (c a b : Printed) : Printed :=
  (0, parenthesize c.1 1 c.2 ++ (blank ++ (bytes "?" ++ (blank ++ (a.2 ++ (blank ++ (bytes ":" ++
    (blank ++ b.2))))))))

def nameFunctionText (function : NameFunction) (name : Name) : Printed :=
  primaryText table (function.keyword ++ ([] ++ (bytes "(" ++ ([] ++ (name ++ ([] ++
    bytes ")"))))))

def pairText (keyword : Text) (l r : Printed) : Printed :=
  primaryText table (keyword ++ ([] ++ (bytes "(" ++ ([] ++ (l.2 ++ ([] ++ (bytes "," ++ (blank ++
    (r.2 ++ ([] ++ bytes ")"))))))))))

/-- An expression with no more parentheses than the precedences call for. -/
def Expression.printed : Expression → Printed
  | .number n => primaryText table (decimal n.toNat)
  | .symbol name => primaryText table name
  | .locationCounter => primaryText table (bytes ".")
  | .binary operator l r =>
      match operator.kind with
      | .inl operator => operatorText table operator l.printed r.printed
      | .inr function => pairText table function.keyword l.printed r.printed
  | .division operator l r => operatorText table operator.infixOperator l.printed r.printed
  | .comparison operator l r => operatorText table (.comparison operator) l.printed r.printed
  | .sizeof name => nameFunctionText table .sizeof name
  | .alignof name => nameFunctionText table .alignof name
  | .origin name => nameFunctionText table .origin name
  | .length name => nameFunctionText table .length name
  | .addr name => nameFunctionText table .addr name
  | .loadaddr name => nameFunctionText table .loadaddr name
  | .alignLocation e => primaryText table (bytes "ALIGN" ++ ([] ++ (bytes "(" ++ ([] ++
      (e.printed.2 ++ ([] ++ bytes ")"))))))
  | .align exponent e => pairText table (bytes "ALIGN") e.printed exponent.printed
  | .segmentStart name e => primaryText table (bytes "SEGMENT_START" ++ ([] ++ (bytes "(" ++ ([] ++
      (bytes "\"" ++ (name.name ++ (bytes "\"" ++ ([] ++ (bytes "," ++ (blank ++ (e.printed.2 ++
        ([] ++ bytes ")"))))))))))))
  | .logicalAnd l r => operatorText table .logicalAnd l.printed r.printed
  | .logicalOr l r => operatorText table .logicalOr l.printed r.printed
  | .unary operator e => unaryText table operator e.printed
  | .sizeofHeaders => primaryText table (bytes "SIZEOF_HEADERS")
  | .ternary c a b => ternaryText c.printed a.printed b.printed
  | .defined name => nameFunctionText table .defined name
  | .assert e message _ => primaryText table (bytes "ASSERT" ++ ([] ++ (bytes "(" ++ ([] ++
      (e.printed.2 ++ ([] ++ (bytes "," ++ (blank ++ (bytes "\"" ++ (message ++ (bytes "\"" ++
        ([] ++ bytes ")"))))))))))))

def Expression.print (e : Expression) : Text := (e.printed table).2

end Print

/-- The names of the expression are identifiers, and its messages can be quoted. -/
def Expression.Printable : Expression → Prop
  | .number _ | .locationCounter | .sizeofHeaders => True
  | .symbol name => IsSymbol name
  | .sizeof name | .alignof name | .origin name | .length name | .addr name | .loadaddr name
  | .defined name => IsIdentifier name
  | .binary _ l r | .division _ l r | .comparison _ l r | .logicalAnd l r | .logicalOr l r
  | .align l r => l.Printable ∧ r.Printable
  | .alignLocation e | .segmentStart _ e | .unary _ e => e.Printable
  | .assert e message _ => e.Printable ∧ Quotable message
  | .ternary c a b => c.Printable ∧ a.Printable ∧ b.Printable

/-! ### Printed texts are derived -/

theorem Derives.of_le {level level' : Nat} {e : Expression} {t : Text} (h : Derives level' e t)
    (hle : level ≤ level') (hlevel' : level' ≤ 11) : Derives level e t := by
  induction hle with
  | refl => exact h
  | @step m hle ih => exact ih (.tighter (by omega) h) (by omega)

theorem derives_parenthesize {own required : Nat} {e : Expression} {t : Text}
    (h : Derives own e t) (hown : own ≤ 11) (hrequired : required ≤ 11) :
    Derives required e (parenthesize own required t) := by
  rw [parenthesize]
  split
  · exact (Derives.parenthesised (h.of_le (Nat.zero_le _) hown) .nil .nil).of_le hrequired le_rfl
  · exact h.of_le (by omega) hown

theorem InfixOperator.level_le (operator : InfixOperator) :
    operator.level ≤ 9 ∧ operator.leftLevel ≤ 9 := by
  cases operator <;> simp [InfixOperator.level, InfixOperator.leftLevel]

/-- A text with its precedence that is derived at the level of the precedence. -/
def IsDerived (e : Expression) (t : Printed) : Prop := Derives t.1 e t.2 ∧ t.1 ≤ 11

theorem IsDerived.derives {e : Expression} {t : Printed} (h : IsDerived e t) : Derives 0 e t.2 :=
  h.1.of_le (Nat.zero_le _) h.2

theorem isDerived_primary {e : Expression} {t : Text} (h : Derives 11 e t) :
    IsDerived e (primaryText parserPrecedence t) := ⟨h, le_rfl⟩

theorem isDerived_nameFunction (function : NameFunction) {name : Name} (h : IsIdentifier name) :
    IsDerived (function.apply name) (nameFunctionText parserPrecedence function name) :=
  isDerived_primary (.nameFunction h .nil .nil .nil)

theorem isDerived_operator (operator : InfixOperator) {l r : Expression} {tl tr : Printed}
    (hl : IsDerived l tl) (hr : IsDerived r tr) :
    IsDerived (operator.apply l r) (operatorText parserPrecedence operator tl tr) := by
  have hlevel := operator.level_le
  refine ⟨.operator (derives_parenthesize hl.1 hl.2 ?_) (derives_parenthesize hr.1 hr.2 ?_) .blank
    .blank, ?_⟩
  · exact Nat.le_trans hlevel.2 (by decide)
  · exact Nat.succ_le_of_lt (Nat.lt_of_le_of_lt hlevel.1 (by decide))
  · change operator.level ≤ 11
    omega

theorem isDerived_pair {function : PairFunction} {l r : Expression} {tl tr : Printed}
    (hl : IsDerived l tl) (hr : IsDerived r tr) :
    IsDerived (.binary function.operator l r) (pairText parserPrecedence function.keyword tl tr) :=
  isDerived_primary (.pair hl.derives hr.derives .nil .nil .nil .blank .nil)

theorem BinaryOperator.kind_operator {operator : BinaryOperator} {o : InfixOperator}
    (h : operator.kind = .inl o) (l r : Expression) : .binary operator l r = o.apply l r := by
  cases operator <;> cases h <;> rfl

theorem BinaryOperator.kind_function {operator : BinaryOperator} {f : PairFunction}
    (h : operator.kind = .inr f) : operator = f.operator := by
  cases operator <;> cases h <;> rfl

theorem quotable_of_all {content : Text} (h : content.all (· != 0x22) = true) :
    Quotable content := fun c hc => by
  simpa using List.all_eq_true.mp h c hc

theorem SegmentName.fromBytes_name (name : SegmentName) :
    SegmentName.fromBytes name.name = name ∧ name.name ≠ [] ∧ Quotable name.name := by
  cases name <;> exact ⟨by decide, by decide, quotable_of_all (by decide)⟩

/-- What an expression is printed to stands for the expression. -/
theorem isDerived_printed {e : Expression} (h : e.Printable) :
    IsDerived e (e.printed parserPrecedence) := by
  induction e with
  | number n => exact isDerived_primary (.number n)
  | symbol name => exact isDerived_primary (.symbol h)
  | locationCounter => exact isDerived_primary .locationCounter
  | binary operator l r ihl ihr =>
      have hl := ihl h.1
      have hr := ihr h.2
      rw [Expression.printed]
      cases hkind : operator.kind with
      | inl o =>
          rw [BinaryOperator.kind_operator hkind]
          exact isDerived_operator _ hl hr
      | inr f =>
          rw [BinaryOperator.kind_function hkind]
          exact isDerived_pair hl hr
  | division operator l r ihl ihr =>
      cases operator with
      | divide => exact isDerived_operator .divide (ihl h.1) (ihr h.2)
      | modulo => exact isDerived_operator .modulo (ihl h.1) (ihr h.2)
  | comparison operator l r ihl ihr =>
      exact isDerived_operator (.comparison operator) (ihl h.1) (ihr h.2)
  | sizeof name => exact isDerived_nameFunction .sizeof h
  | alignof name => exact isDerived_nameFunction .alignof h
  | origin name => exact isDerived_nameFunction .origin h
  | length name => exact isDerived_nameFunction .length h
  | addr name => exact isDerived_nameFunction .addr h
  | loadaddr name =>
      exact isDerived_nameFunction .loadaddr h
  | alignLocation e ih => exact isDerived_primary (.alignLocation (ih h).derives .nil .nil .nil)
  | align exponent e ihexponent ih =>
      exact isDerived_primary
        (.align (ih h.2).derives (ihexponent h.1).derives .nil .nil .nil .blank .nil)
  | segmentStart name e ih =>
      obtain ⟨hname, hne, hquotable⟩ := name.fromBytes_name
      have hderives := Derives.segmentStart (ih h).derives hne hquotable .nil .nil .nil .blank .nil
      rw [hname] at hderives
      exact isDerived_primary hderives
  | logicalAnd l r ihl ihr =>
      exact isDerived_operator .logicalAnd (ihl h.1) (ihr h.2)
  | logicalOr l r ihl ihr =>
      exact isDerived_operator .logicalOr (ihl h.1) (ihr h.2)
  | unary operator e ih =>
      exact ⟨.unary (derives_parenthesize (ih h).1 (ih h).2 (by decide)) .nil,
        show 10 ≤ 11 by decide⟩
  | sizeofHeaders => exact isDerived_primary .sizeofHeaders
  | ternary c a b ihc iha ihb =>
      obtain ⟨hc, ha, hb⟩ := h
      exact ⟨.ternary (derives_parenthesize (ihc hc).1 (ihc hc).2 (by decide)) (iha ha).derives
        (ihb hb).derives .blank .blank .blank .blank, Nat.zero_le _⟩
  | defined name => exact isDerived_nameFunction .defined h
  | assert e message remainder ih =>
      exact isDerived_primary (.assert (ih h.1).derives h.2 .nil .nil .nil .blank .nil)

end JdxLinker.Script
