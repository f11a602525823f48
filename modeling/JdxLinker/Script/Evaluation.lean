import JdxLinker.Layout.Alignment
import JdxLinker.Lib.Failure
import JdxLinker.Lib.Utf8
import JdxLinker.Script.Expression

/-!
# The value of an expression

An expression is evaluated at a location of the script. Inside an output section, its symbols are
offsets from the start of that section, and the start is added to the value unless all parts of the
expression were absolute.
-/

namespace JdxLinker.Script

abbrev OutputSectionId := Nat
abbrev PartId := Nat
abbrev SymbolId := Nat

structure OutputRecordLayout where
  memSize : UInt64
  alignment : Alignment
  memOffset : UInt64
  lmaOffset : UInt64
  deriving Repr, DecidableEq

structure MemoryRegion where
  origin : UInt64
  length : UInt64
  deriving Repr, DecidableEq

structure ResolvedLocationCounter where
  value : UInt64
  sectionOffset : Option UInt64
  deriving Repr, DecidableEq

/-- What is written at a symbol's place in the script. -/
inductive SymbolLoc where
  | sectionStartRelative (id : OutputSectionId)
  | sectionEndRelative (id : OutputSectionId)
  | sectionEnd (id : OutputSectionId)
  | firstSection
  | locationCounter (index : Nat) (sectionId : Option OutputSectionId)
  | none
  deriving Repr, DecidableEq

/-- The output section that expressions at the location are relative to. -/
def SymbolLoc.relativeSectionId : SymbolLoc → Option OutputSectionId
  | sectionStartRelative id | sectionEndRelative id | locationCounter _ (some id) => some id
  | _ => Option.none

inductive SectionKind where
  | primary
  | secondary (primaryId : OutputSectionId)
  deriving Repr, DecidableEq

structure OutputSections where
  kind : OutputSectionId → SectionKind
  sectionIdByName : Name → Option OutputSectionId
  /-- The output section that a part belongs to. -/
  partSection : PartId → OutputSectionId

namespace OutputSections

variable (outputSections : OutputSections)

def mergeTarget (id : OutputSectionId) : Option OutputSectionId :=
  match outputSections.kind id with
  | .primary => none
  | .secondary primaryId => some primaryId

def primaryOutputSection (id : OutputSectionId) : OutputSectionId :=
  (outputSections.mergeTarget id).getD id

end OutputSections

/-- The addresses that the command line gives to segments. -/
structure Args where
  ttext : Option UInt64
  tdata : Option UInt64
  tbss : Option UInt64
  deriving Repr, DecidableEq

def Args.segmentStartOverride (args : Args) : SegmentName → Option UInt64
  | .text => args.ttext
  | .data => args.tdata
  | .bss => args.tbss
  | .rodata | .other => none

/-- The script that an expression is from: how it is displayed, and its text. -/
structure InputRef where
  display : String
  data : List UInt8
  deriving Repr, DecidableEq

/-- What an expression is evaluated against. -/
structure Context where
  inputRef : Option InputRef
  sectionLayouts : OutputSectionId → OutputRecordLayout
  outputSections : OutputSections
  memoryRegions : Name → Option MemoryRegion
  args : Args
  getUnversioned : Name → Option SymbolId
  sizeofHeaders : UInt64
  resolvedLocationCounters : List ResolvedLocationCounter
  laidOutMemOffsets : PartId → Option UInt64

inductive SymbolValue where
  | absolute (value : UInt64)
  | partRelative (partId : PartId) (offset : UInt64)
  | sectionRelative (sectionId : OutputSectionId) (address : UInt64)
  deriving Repr, DecidableEq

structure ExpressionValueKind where
  containsAbsolute : Bool
  containsSectionRelative : Bool
  deriving Repr, DecidableEq

namespace ExpressionValueKind

def initial : ExpressionValueKind := ⟨false, false⟩

def needsSectionBase (kind : ExpressionValueKind) : Bool :=
  kind.containsSectionRelative || !kind.containsAbsolute

end ExpressionValueKind

/-- A step of the evaluation, which records the kinds of the values that it meets. -/
abbrev Evaluation (α : Type) : Type := StateT ExpressionValueKind Fallible α

namespace Evaluation

def markAbsolute : Evaluation Unit := modify fun kind => { kind with containsAbsolute := true }

def markSectionRelative : Evaluation Unit :=
  modify fun kind => { kind with containsSectionRelative := true }

def fail {α : Type} (message : String) : Evaluation α := throw (.error message)

/-- Reports `message` where there is no value. -/
def context {α : Type} (value : Option α) (message : String) : Evaluation α :=
  match value with
  | some a => pure a
  | none => fail message

end Evaluation

open Evaluation Utf8

/-- The 1-based line that starts before `remainder`. -/
def lineNumber (fileBytes remainder : List UInt8) : Nat :=
  (fileBytes.take (fileBytes.length - remainder.length)).count 0x0A + 1

def checkedSub (a b : UInt64) : Option UInt64 := if b ≤ a then some (a - b) else none

def nextMultipleOf (a align : UInt64) : UInt64 :=
  if a % align = 0 then a else a + (align - a % align)

def ofBool (b : Bool) : UInt64 := if b then 1 else 0

def BinaryOperator.apply : BinaryOperator → UInt64 → UInt64 → UInt64
  | add, l, r => l + r
  | subtract, l, r => l - r
  | multiply, l, r => l * r
  | min, l, r => if l ≤ r then l else r
  | max, l, r => if l ≤ r then r else l
  | bitwiseAnd, l, r => l &&& r
  | bitwiseOr, l, r => l ||| r
  | bitwiseXor, l, r => l ^^^ r
  | leftShift, l, r => l <<< r.toUInt32.toUInt64
  | rightShift, l, r => l >>> r.toUInt32.toUInt64

/-- Divisions are signed. -/
def DivisionOperator.apply : DivisionOperator → UInt64 → UInt64 → UInt64
  | divide, l, r => (l.toInt64 / r.toInt64).toUInt64
  | modulo, l, r => (l.toInt64 % r.toInt64).toUInt64

def DivisionOperator.byZero : DivisionOperator → String
  | divide => "Division by zero in linker script expression"
  | modulo => "Modulo by zero in linker script expression"

def Comparison.apply : Comparison → UInt64 → UInt64 → Bool
  | lessThan, l, r => l < r
  | greaterThan, l, r => l > r
  | lessEqual, l, r => l ≤ r
  | greaterEqual, l, r => l ≥ r
  | equal, l, r => l = r
  | notEqual, l, r => l ≠ r

def UnaryOperator.apply : UnaryOperator → UInt64 → UInt64
  | logicalNot, e => ofBool (e = 0)
  | bitwiseNot, e => ~~~e
  | negate, e => 0 - e

section Evaluate

variable (context : Context) (loc : SymbolLoc)

/-- The primary output section that the location is in. -/
def currentSection : Option OutputSectionId :=
  loc.relativeSectionId.map context.outputSections.primaryOutputSection

def memOffset (id : OutputSectionId) : UInt64 := (context.sectionLayouts id).memOffset

def beforeItsSection (name : Name) : String :=
  s!"address of symbol '{fromUtf8Lossy name}' is before its output section"

def notLaidOut (name : Name) : String :=
  s!"cannot resolve address of symbol '{fromUtf8Lossy name}' because its output section part has " ++
    "not been laid out yet"

/-- The value of a symbol at the location: an offset where the symbol's section is the current one. -/
def evaluateSymbolValue (symbolValue : SymbolValue) (name : Name) : Evaluation UInt64 :=
  match symbolValue with
  | .absolute value => do
    markAbsolute
    return value
  | .sectionRelative sectionId address =>
    let primarySection := context.outputSections.primaryOutputSection sectionId
    if currentSection context loc = some primarySection then do
      markSectionRelative
      Evaluation.context (checkedSub address (memOffset context primarySection))
        (beforeItsSection name)
    else
      match currentSection context loc with
      | some current => do
        markAbsolute
        return address + memOffset context current
      | none => do
        markAbsolute
        return address
  | .partRelative partId offset => do
    let partAddress ← Evaluation.context (context.laidOutMemOffsets partId) (notLaidOut name)
    let address := partAddress + offset
    let symbolSection :=
      context.outputSections.primaryOutputSection (context.outputSections.partSection partId)
    if currentSection context loc = some symbolSection then do
      markSectionRelative
      Evaluation.context (checkedSub address (memOffset context symbolSection))
        (beforeItsSection name)
    else do
      markAbsolute
      return address

def evaluateLocation : Evaluation UInt64 :=
  match loc with
  | .sectionStartRelative _ => return 0
  | .sectionEndRelative id =>
    let idLayout := context.sectionLayouts id
    return idLayout.memOffset + idLayout.memSize
      - memOffset context (context.outputSections.primaryOutputSection id)
  | .sectionEnd id =>
    let layout := context.sectionLayouts id
    return layout.memOffset + layout.memSize
  | .firstSection | .none => return 0
  | .locationCounter index sectionId => do
    let counters := context.resolvedLocationCounters
    let entry ← Evaluation.context counters[index]?
      s!"location counter index {index} out of range (len: {counters.length})"
    if sectionId.isNone then return entry.value
    else return entry.sectionOffset.getD 0

def sectionSize (name : Name) : UInt64 :=
  match context.outputSections.sectionIdByName name with
  | none => 0
  | some id => (context.sectionLayouts id).memSize

def sectionAlign (name : Name) : UInt64 :=
  match context.outputSections.sectionIdByName name with
  | none => 0
  | some id => UInt64.ofNat (context.sectionLayouts id).alignment.value

def sectionAddress (name : Name) : Evaluation UInt64 := do
  let id ← Evaluation.context (context.outputSections.sectionIdByName name)
    s!"ADDR: section '{fromUtf8Lossy name}' not found"
  return (context.sectionLayouts id).memOffset

def sectionLoadAddress (name : Name) : Evaluation UInt64 := do
  let id ← Evaluation.context (context.outputSections.sectionIdByName name)
    s!"LOADADDR: section '{fromUtf8Lossy name}' not found"
  return (context.sectionLayouts id).lmaOffset

/-- What a failed assertion reports. -/
def assertMessage (message remainder : List UInt8) : String :=
  match context.inputRef with
  | none => fromUtf8Lossy message
  | some inputRef =>
    s!"{inputRef.display}:{lineNumber inputRef.data remainder}: {fromUtf8Lossy message}"

/-- Adds the start of the current section to a value that needs it. -/
def addSectionBase (result : UInt64 × ExpressionValueKind) : UInt64 :=
  if result.2.needsSectionBase then
    match currentSection context loc with
    | some current => result.1 + memOffset context current
    | none => result.1
  else result.1

/-- Evaluates a part of an expression on its own, to an address. -/
def evaluateAbsolute (value : Evaluation UInt64) : Fallible UInt64 := do
  let result ← value.run .initial
  return addSectionBase context loc result

variable (symbolResolutionCallback : Name → Fallible SymbolValue)

def evaluateExpressionValue : Expression → Evaluation UInt64
  | .number n => return n
  | .locationCounter => do
    if loc.relativeSectionId.isSome then markSectionRelative else markAbsolute
    evaluateLocation context loc
  | .symbol name => do
    let value ← symbolResolutionCallback name
    evaluateSymbolValue context loc value name
  | .binary operator l r => do
    let left ← evaluateExpressionValue l
    let right ← evaluateExpressionValue r
    return operator.apply left right
  | .division operator l r => do
    let divisor ← evaluateExpressionValue r
    if divisor = 0 then Evaluation.fail operator.byZero
    else do
      let dividend ← evaluateExpressionValue l
      return operator.apply dividend divisor
  | .comparison operator l r => do
    let left ← evaluateAbsolute context loc (evaluateExpressionValue l)
    let right ← evaluateAbsolute context loc (evaluateExpressionValue r)
    return ofBool (operator.apply left right)
  | .sizeof name => return sectionSize context name
  | .alignof name => return sectionAlign context name
  | .addr name => do
    markAbsolute
    sectionAddress context name
  | .loadaddr name => do
    markAbsolute
    sectionLoadAddress context name
  | .alignLocation exponent => do
    let align ← evaluateExpressionValue exponent
    if align = 0 then Evaluation.fail "ALIGN(0) is invalid"
    else do
      let location ← evaluateLocation context loc
      return nextMultipleOf location align
  | .align exponent expression => do
    let align ← evaluateExpressionValue exponent
    if align = 0 then Evaluation.fail "ALIGN(0) is invalid"
    else do
      let value ← evaluateExpressionValue expression
      return nextMultipleOf value align
  | .logicalAnd l r => do
    let left ← evaluateExpressionValue l
    if left = 0 then return 0
    else do
      let right ← evaluateExpressionValue r
      return ofBool (right ≠ 0)
  | .logicalOr l r => do
    let left ← evaluateExpressionValue l
    if left = 0 then do
      let right ← evaluateExpressionValue r
      return ofBool (right ≠ 0)
    else return 1
  | .unary operator e => do
    let value ← evaluateExpressionValue e
    return operator.apply value
  | .origin name => do
    markAbsolute
    let region ← Evaluation.context (context.memoryRegions name)
      s!"ORIGIN: memory region '{fromUtf8Lossy name}' not found"
    return region.origin
  | .length name => do
    let region ← Evaluation.context (context.memoryRegions name)
      s!"LENGTH: memory region '{fromUtf8Lossy name}' not found"
    return region.length
  | .segmentStart name default => do
    markAbsolute
    match context.args.segmentStartOverride name with
    | some value => return value
    | none => evaluateExpressionValue default
  | .sizeofHeaders => return context.sizeofHeaders
  | .ternary condition ifTrue ifFalse => do
    let value ← evaluateExpressionValue condition
    if value ≠ 0 then evaluateExpressionValue ifTrue else evaluateExpressionValue ifFalse
  | .defined name => return ofBool (context.getUnversioned name).isSome
  | .assert expression message remainder => do
    let result ← evaluateExpressionValue expression
    if result = 0 then Evaluation.fail (assertMessage context message remainder)
    else return result

def evaluateExpression (expression : Expression) : Fallible UInt64 :=
  evaluateAbsolute context loc
    (evaluateExpressionValue context loc symbolResolutionCallback expression)

end Evaluate

/-! ### What the value depends on -/

section Congr

variable {context : Context} {loc : SymbolLoc} {callback callback' : Name → Fallible SymbolValue}

/-- The value depends only on what the symbols that are mentioned resolve to. -/
theorem evaluateExpressionValue_congr (expression : Expression)
    (h : ∀ name ∈ expression.symbols, callback name = callback' name) :
    evaluateExpressionValue context loc callback expression
      = evaluateExpressionValue context loc callback' expression := by
  induction expression with
  | number _ | locationCounter | sizeof _ | alignof _ | origin _ | length _ | addr _ | loadaddr _
  | sizeofHeaders | defined _ => rfl
  | symbol name =>
      unfold evaluateExpressionValue
      rw [h name (List.mem_singleton_self name)]
  | binary _ l r ihl ihr | division _ l r ihl ihr | comparison _ l r ihl ihr | logicalAnd l r ihl ihr
  | logicalOr l r ihl ihr | align l r ihl ihr =>
      unfold evaluateExpressionValue
      rw [ihl fun name hname => h name (List.mem_append_left _ hname),
        ihr fun name hname => h name (List.mem_append_right _ hname)]
  | alignLocation e ih | segmentStart _ e ih | unary _ e ih | assert e _ _ ih =>
      unfold evaluateExpressionValue
      rw [ih h]
  | ternary condition ifTrue ifFalse ihc iht ihf =>
      unfold evaluateExpressionValue
      rw [ihc fun name hname => h name (List.mem_append_left _ (List.mem_append_left _ hname)),
        iht fun name hname => h name (List.mem_append_left _ (List.mem_append_right _ hname)),
        ihf fun name hname => h name (List.mem_append_right _ hname)]

theorem evaluateExpression_congr {expression : Expression}
    (h : ∀ name ∈ expression.symbols, callback name = callback' name) :
    evaluateExpression context loc callback expression
      = evaluateExpression context loc callback' expression :=
  congrArg (evaluateAbsolute context loc) (evaluateExpressionValue_congr expression h)

end Congr

end JdxLinker.Script
