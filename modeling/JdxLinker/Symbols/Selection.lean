import JdxLinker.Lib.Failure
import Mathlib

/-!
# The definition of a name

Of several definitions of one name, the first strong one is selected, else the largest common one,
else the first weak one, else the first one of a shared library. Two strong definitions are an error,
unless both are in COMDAT groups or multiple definitions are allowed.
-/

namespace JdxLinker.Symbols

abbrev SymbolId := Nat

inductive SymbolStrength where
  /-- The file of the definition was not loaded. -/
  | undefined
  | weak
  | gnuUnique
  | strong
  | common (size : Nat)
  deriving Repr, DecidableEq

inductive Visibility where
  | default
  | «protected»
  | hidden
  deriving Repr, DecidableEq

/-- The more restrictive of two visibilities. -/
def Visibility.max : Visibility → Visibility → Visibility
  | hidden, _ | _, hidden => hidden
  | «protected», _ | _, «protected» => «protected»
  | default, default => default

/-- What is known of the symbols, after the files that are linked have been loaded. -/
structure SymbolTable where
  isDynamic : SymbolId → Bool
  strength : SymbolId → SymbolStrength
  isInComdatGroup : SymbolId → Bool
  visibility : SymbolId → Visibility
  allowMultipleDefinitions : Bool
  symbolName : SymbolId → String
  fileName : SymbolId → String

/-- The definitions of one name, in the order of their files. -/
structure Alternatives where
  first : SymbolId
  alternatives : List SymbolId
  deriving Repr, DecidableEq

def Alternatives.ids (list : Alternatives) : List SymbolId := list.first :: list.alternatives

structure SymbolPrioritySelector where
  firstStrong : Option SymbolId
  maxCommon : Option (Nat × SymbolId)
  firstWeak : Option SymbolId
  deriving Repr, DecidableEq

namespace SymbolPrioritySelector

def new : SymbolPrioritySelector := ⟨none, none, none⟩

def consider (selector : SymbolPrioritySelector) (id : SymbolId) :
    SymbolStrength → SymbolPrioritySelector
  | .strong =>
    if selector.firstStrong.isNone then { selector with firstStrong := some id } else selector
  | .weak | .gnuUnique =>
    if selector.firstWeak.isNone then { selector with firstWeak := some id } else selector
  | .common size =>
    match selector.maxCommon with
    | some (prevSize, _) =>
      if size ≤ prevSize then selector else { selector with maxCommon := some (size, id) }
    | none => { selector with maxCommon := some (size, id) }
  | .undefined => selector

def best (selector : SymbolPrioritySelector) : Option SymbolId :=
  selector.firstStrong <|> selector.maxCommon.map Prod.snd <|> selector.firstWeak

end SymbolPrioritySelector

namespace SymbolTable

variable (table : SymbolTable)

/-- Two strong definitions that do not go together. -/
def conflicting (existing id : SymbolId) : Bool :=
  (!table.isInComdatGroup existing || !table.isInComdatGroup id) && !table.allowMultipleDefinitions

def duplicateMessage (first existing id : SymbolId) : String :=
  s!"{table.symbolName first}, defined in {table.fileName existing} and {table.fileName id}"

def considerDefinition (first : SymbolId) (selector : SymbolPrioritySelector) (id : SymbolId) :
    Fallible SymbolPrioritySelector :=
  if table.isDynamic id then .ok selector
  else
    match table.strength id, selector.firstStrong with
    | .strong, some existing =>
      if table.conflicting existing id then
        .error (.error (table.duplicateMessage first existing id))
      else .ok (selector.consider id .strong)
    | strength, _ => .ok (selector.consider id strength)

def selectSymbol (list : Alternatives) : Fallible SymbolId := do
  let selector ← list.ids.foldlM (table.considerDefinition list.first) SymbolPrioritySelector.new
  match selector.best with
  | some best => return best
  | none =>
    -- the symbol is only defined in shared objects, or nowhere
    return (list.ids.find? fun id => table.strength id ≠ .undefined).getD list.first

/-! ### What should be selected -/

def isStrong (id : SymbolId) : Bool := !table.isDynamic id && table.strength id = .strong

def isWeak (id : SymbolId) : Bool :=
  !table.isDynamic id && (table.strength id = .weak || table.strength id = .gnuUnique)

/-- A common definition of the size. -/
def IsCommon (id : SymbolId) (size : Nat) : Prop :=
  table.isDynamic id = false ∧ table.strength id = .common size

/-- A definition of a shared library that was loaded. -/
def isLoadedDynamic (id : SymbolId) : Bool :=
  table.isDynamic id && table.strength id ≠ .undefined

/-- The first of the largest common definitions. -/
def FirstLargestCommon (ids : List SymbolId) (selected : SymbolId) (size : Nat) : Prop :=
  ∃ before after, ids = before ++ selected :: after ∧ table.IsCommon selected size ∧
    (∀ id ∈ before, ∀ other, table.IsCommon id other → other < size) ∧
    ∀ id ∈ after, ∀ other, table.IsCommon id other → other ≤ size

def NoCommon (ids : List SymbolId) : Prop := ∀ id ∈ ids, ∀ size, ¬ table.IsCommon id size

/-- If both definitions are strong, they are both in COMDAT groups. -/
def GoTogether (a b : SymbolId) : Prop :=
  table.isStrong a → table.isStrong b → table.isInComdatGroup a ∧ table.isInComdatGroup b

/-- There are two strong definitions that are not both in COMDAT groups, and multiple definitions
are not allowed. -/
def Duplicated (ids : List SymbolId) : Prop :=
  table.allowMultipleDefinitions = false ∧ ¬ ids.Pairwise table.GoTogether

/-- The definition that the name stands for. -/
inductive Specified (ids : List SymbolId) (selected : SymbolId) : Prop where
  | strong (h : ids.find? table.isStrong = some selected)
  | common (hstrong : ids.find? table.isStrong = none) {size : Nat}
      (h : table.FirstLargestCommon ids selected size)
  | weak (hstrong : ids.find? table.isStrong = none) (hcommon : table.NoCommon ids)
      (h : ids.find? table.isWeak = some selected)
  | dynamic (hstrong : ids.find? table.isStrong = none) (hcommon : table.NoCommon ids)
      (hweak : ids.find? table.isWeak = none)
      (h : ids.find? table.isLoadedDynamic = some selected)
  /-- No file that defines the name was loaded. -/
  | undefined (hstrong : ids.find? table.isStrong = none) (hcommon : table.NoCommon ids)
      (hweak : ids.find? table.isWeak = none) (hdynamic : ids.find? table.isLoadedDynamic = none)
      (h : ids.head? = some selected)

end SymbolTable

end JdxLinker.Symbols
