import Mathlib.Data.Bool.Basic

/-!
# Kinds of output
-/

namespace JdxLinker

inductive RelocationModel where
  | fixed
  | positionIndependent
  deriving Repr, DecidableEq

inductive OutputKind where
  | staticExecutable (model : RelocationModel)
  | dynamicExecutable (model : RelocationModel)
  | sharedObject
  | partialLink
  deriving Repr, DecidableEq

namespace OutputKind

def isExecutable : OutputKind → Bool
  | sharedObject | partialLink => false
  | _ => true

def isSharedObject : OutputKind → Bool
  | sharedObject => true
  | _ => false

def isPartialLink : OutputKind → Bool
  | partialLink => true
  | _ => false

def isStaticExecutable : OutputKind → Bool
  | staticExecutable _ => true
  | _ => false

/-- The output can be loaded at any address. -/
def isPositionIndependent : OutputKind → Bool
  | sharedObject | dynamicExecutable .positionIndependent
  | staticExecutable .positionIndependent => true
  | _ => false

end OutputKind

end JdxLinker

/-!
## Value flags

What is known of a symbol, and how it is referenced. Flags are only ever added while references are
collected.
-/

namespace JdxLinker

structure ValueFlags where
  absolute : Bool := false
  dynamic : Bool := false
  ifunc : Bool := false
  nonInterposable : Bool := false
  downgradeToLocal : Bool := false
  dynamicFunction : Bool := false
  direct : Bool := false
  got : Bool := false
  plt : Bool := false
  gotTlsModule : Bool := false
  gotTlsOffset : Bool := false
  gotTlsDescriptor : Bool := false
  exportDynamic : Bool := false
  copyRelocation : Bool := false
  ifuncGotForAddress : Bool := false
  hasRangeLimitedRel : Bool := false
  hasNonIrRef : Bool := false
  deriving DecidableEq, Repr

namespace ValueFlags

def empty : ValueFlags := {}

/-- The flags that either of two values has. -/
def union (a b : ValueFlags) : ValueFlags where
  absolute := a.absolute || b.absolute
  dynamic := a.dynamic || b.dynamic
  ifunc := a.ifunc || b.ifunc
  nonInterposable := a.nonInterposable || b.nonInterposable
  downgradeToLocal := a.downgradeToLocal || b.downgradeToLocal
  dynamicFunction := a.dynamicFunction || b.dynamicFunction
  direct := a.direct || b.direct
  got := a.got || b.got
  plt := a.plt || b.plt
  gotTlsModule := a.gotTlsModule || b.gotTlsModule
  gotTlsOffset := a.gotTlsOffset || b.gotTlsOffset
  gotTlsDescriptor := a.gotTlsDescriptor || b.gotTlsDescriptor
  exportDynamic := a.exportDynamic || b.exportDynamic
  copyRelocation := a.copyRelocation || b.copyRelocation
  ifuncGotForAddress := a.ifuncGotForAddress || b.ifuncGotForAddress
  hasRangeLimitedRel := a.hasRangeLimitedRel || b.hasRangeLimitedRel
  hasNonIrRef := a.hasNonIrRef || b.hasNonIrRef

/-- A symbol has a resolution once it is needed in some way. -/
def hasResolution (flags : ValueFlags) : Bool :=
  flags.direct || flags.got || flags.plt || flags.gotTlsModule || flags.gotTlsOffset
    || flags.gotTlsDescriptor || flags.exportDynamic || flags.copyRelocation
    || flags.ifuncGotForAddress

def isInterposable (flags : ValueFlags) : Bool := !flags.nonInterposable

/-- Whether the address is known at link time. -/
def hasLinkTimeAddress (flags : ValueFlags) : Bool :=
  !flags.ifunc && !flags.dynamic && !flags.absolute

/-- The flags of a definition as a reference sees them, which may know the definition to be final
although the definition itself does not. -/
def merge (flags other : ValueFlags) : ValueFlags :=
  { flags with nonInterposable := flags.nonInterposable || other.nonInterposable }

@[simp] theorem hasResolution_union (a b : ValueFlags) :
    (a.union b).hasResolution = (a.hasResolution || b.hasResolution) := by
  simp only [hasResolution, union]
  ac_rfl

theorem union_right_comm (a b c : ValueFlags) : (a.union b).union c = (a.union c).union b := by
  simp only [union]
  congr 1 <;> exact Bool.or_right_comm ..

end ValueFlags

end JdxLinker
