import Mathlib.Algebra.BigOperators.Group.List.Basic
import JdxLinker.Layout.OutputKind
import JdxLinker.Lib.Failure
import JdxLinker.Resolution.SymbolDb

/-!
# Space in the symbol table

Which symbols of an object get an entry in the output's symbol table, and the space that is
allocated for their entries and names. The tables that the linker indexes by symbol, such as the
flags and the definitions, are fields of the symbol here.
-/

namespace JdxLinker.Symtab

open Fallible
open Resolution (Name RawSymbolName atSign)

/-! ### Symbols -/

def SHN_UNDEF : UInt16 := 0
def SHN_LORESERVE : UInt32 := 0xff00
def SHN_ABS : UInt16 := 0xfff1
def SHN_COMMON : UInt16 := 0xfff2
def SHN_XINDEX : UInt16 := 0xffff

def STB_LOCAL : UInt8 := 0
def STT_TLS : UInt8 := 6

/-- An entry of a symbol table. -/
structure SymtabEntry where
  stName : UInt32
  stInfo : UInt8
  stOther : UInt8
  stShndx : UInt16
  stValue : UInt64
  stSize : UInt64
  deriving Repr, DecidableEq

namespace SymtabEntry

def stBind (sym : SymtabEntry) : UInt8 := sym.stInfo >>> 4
def stType (sym : SymtabEntry) : UInt8 := sym.stInfo &&& 0xf
def isUndefined (sym : SymtabEntry) : Bool := sym.stShndx = SHN_UNDEF
def isCommon (sym : SymtabEntry) : Bool := sym.stShndx = SHN_COMMON
def isAbsolute (sym : SymtabEntry) : Bool := sym.stShndx = SHN_ABS
def isLocal (sym : SymtabEntry) : Bool := sym.stBind = STB_LOCAL

/-- The largest exponent of an alignment that the linker supports. -/
def maxAlignmentExponent : Nat := 21

/-- Common symbols keep their alignment in the value. -/
def hasAlignment (sym : SymtabEntry) : Bool :=
  (List.range (maxAlignmentExponent + 1)).any fun exponent => sym.stValue.toNat = 2 ^ exponent

/-- Whether the symbol is a common symbol of a supported alignment. -/
def asCommon (sym : SymtabEntry) : Bool := sym.isCommon && sym.hasAlignment

def setBindingAndType (sym : SymtabEntry) (bind type : UInt8) : SymtabEntry :=
  { sym with stInfo := (bind <<< 4) ||| (type &&& 0xf) }

theorem asCommon_of_isUndefined {sym : SymtabEntry} (h : sym.isUndefined = true) :
    sym.asCommon = false := by
  have hshndx : sym.stShndx = SHN_UNDEF := of_decide_eq_true h
  have hcommon : sym.isCommon = false := by
    rw [isCommon, hshndx]
    decide
  rw [asCommon, hcommon, Bool.false_and]

end SymtabEntry

def isMappingSymbolName (name : Name) : Bool :=
  [0x24, 0x78].isPrefixOf name || [0x24, 0x64].isPrefixOf name || name = [0x4c, 0x30, 0x01]

/-- Names of local symbols that compilers make up start with `.L`. -/
def SymtabEntry.isDefaultStrippable (sym : SymtabEntry) (name : Name) : Bool :=
  (sym.isLocal && [0x2e, 0x4c].isPrefixOf name) || isMappingSymbolName name

/-- A symbol is local in the symbol table also where a version script made it so. -/
def isSymtabLocal (flags : ValueFlags) (sym : SymtabEntry) : Bool :=
  sym.isLocal || flags.downgradeToLocal

/-- The name to use when writing a symbol into .symtab's string table. -/
def symtabNameForStrtab (rawName : Name) : Name := rawName

/-- A symbol of an object, and what the linker knows of it. -/
structure InputSymbol where
  sym : SymtabEntry
  /-- The name in the object's string table, unless the entry points outside of it. -/
  symbolName : Option Name
  /-- The index of the input section, which may have to be read from another table. -/
  symbolSection : Fallible (Option Nat)
  /-- Whether the symbol database took the symbol as the definition of its name. -/
  isCanonical : Bool
  flags : ValueFlags

inductive SectionSlot where
  | discard
  | unloaded
  | mustLoad
  | loaded
  | sorted
  | frameData
  | mergeStrings
  | unloadedDebugInfo
  | loadedDebugInfo
  | noteGnuProperty
  | riscvVAttributes
  deriving Repr, DecidableEq

def SectionSlot.isLoaded : SectionSlot → Bool
  | .discard | .unloaded | .noteGnuProperty => false
  | _ => true

inductive Strip where
  | nothing
  | debug
  | all
  | retain (names : List Name)

structure ElfArgs where
  shouldOutputPartialObject : Bool
  strip : Strip
  gotPltSyms : Bool

namespace ElfArgs

/-- Partial links ignore that all symbols are to be stripped. -/
def shouldStripAll (args : ElfArgs) : Bool :=
  match args.strip with
  | .all => !args.shouldOutputPartialObject
  | _ => false

def shouldStripSymbolNamed (args : ElfArgs) (name : Name) : Bool :=
  match args.strip with
  | .retain retain => !retain.contains name
  | _ => false

end ElfArgs

/-! ### Symbols that are copied -/

/-- Whether the symbol is in a section that is not part of the output. -/
def inDiscardedSection (sections : List SectionSlot) (s : InputSymbol) : Fallible Bool :=
  match s.symbolSection with
  | .ok (some sectionIndex) => do
      let slot ← unwrap sections[sectionIndex]?
      .ok !slot.isLoaded
  | _ => .ok false

/-- The name of a symbol, unless the symbol is stripped for it. -/
def nameToCopy (args : ElfArgs) (s : InputSymbol) : Option Name :=
  match s.symbolName with
  | none => none
  | some name =>
    if name.isEmpty || (!args.shouldOutputPartialObject && s.sym.isDefaultStrippable name) then none
    else if args.shouldStripSymbolNamed name then none
    else some name

/-- Whether a symbol should be copied into the symtab, and its name there. -/
def SymbolCopyInfo.new (args : ElfArgs) (sections : List SectionSlot) (s : InputSymbol) :
    Fallible (Option Name) :=
  if !s.isCanonical || (s.sym.isUndefined && !s.sym.asCommon) then .ok none
  else do
    let discarded ← inDiscardedSection sections s
    .ok <| if discarded then none
      else if s.sym.asCommon && !s.flags.hasResolution then none
      else nameToCopy args s

theorem SymbolCopyInfo.new_of_isUndefined {args : ElfArgs} {sections : List SectionSlot}
    {s : InputSymbol} (h : s.sym.isUndefined = true) :
    SymbolCopyInfo.new args sections s = .ok none := by
  have hcommon := SymtabEntry.asCommon_of_isUndefined h
  rw [SymbolCopyInfo.new, h, hcommon]
  cases s.isCanonical <;> rfl

/-! ### Allocation -/

/-- Entries and string bytes of a symbol table. -/
@[ext] structure SymtabSpace where
  locals : Nat
  globals : Nat
  strings : Nat
  deriving Repr, DecidableEq

namespace SymtabSpace

instance : Zero SymtabSpace := ⟨⟨0, 0, 0⟩⟩

instance : Add SymtabSpace :=
  ⟨fun a b => ⟨a.locals + b.locals, a.globals + b.globals, a.strings + b.strings⟩⟩

@[simp] theorem zero_locals : (0 : SymtabSpace).locals = 0 := rfl
@[simp] theorem zero_globals : (0 : SymtabSpace).globals = 0 := rfl
@[simp] theorem zero_strings : (0 : SymtabSpace).strings = 0 := rfl
@[simp] theorem add_locals (a b : SymtabSpace) : (a + b).locals = a.locals + b.locals := rfl
@[simp] theorem add_globals (a b : SymtabSpace) : (a + b).globals = a.globals + b.globals := rfl
@[simp] theorem add_strings (a b : SymtabSpace) : (a + b).strings = a.strings + b.strings := rfl

instance : AddCancelCommMonoid SymtabSpace where
  add_assoc a b c := by ext <;> simp [Nat.add_assoc]
  zero_add a := by ext <;> simp
  add_zero a := by ext <;> simp
  add_comm a b := by ext <;> simp [Nat.add_comm]
  nsmul := nsmulRec
  add_left_cancel a b c h := by
    have hlocals : a.locals + b.locals = a.locals + c.locals := congrArg locals h
    have hglobals : a.globals + b.globals = a.globals + c.globals := congrArg globals h
    have hstrings : a.strings + b.strings = a.strings + c.strings := congrArg strings h
    ext <;> omega

/-- One entry, and its name with a terminator. -/
def entry (isLocal : Bool) (name : Name) : SymtabSpace :=
  ⟨if isLocal then 1 else 0, if isLocal then 0 else 1, name.length + 1⟩

end SymtabSpace

/-- The name of a symbol that a partial link leaves undefined. -/
def undefinedName (args : ElfArgs) (s : InputSymbol) : Option Name :=
  if args.shouldOutputPartialObject && s.sym.isUndefined && s.isCanonical then
    s.symbolName.filter fun name => !name.isEmpty
  else none

/-- The space for a symbol. Symbols that are copied although they are not referenced need a
resolution. -/
def allocateSymbol (args : ElfArgs) (s : InputSymbol) (info : Option Name) :
    SymtabSpace × InputSymbol :=
  match info with
  | some name =>
    let flags := s.flags.union { direct := true }
    (.entry (isSymtabLocal flags s.sym) (symtabNameForStrtab name), { s with flags })
  | none =>
    match undefinedName args s with
    | some name => (.entry false (symtabNameForStrtab name), s)
    | none => (0, s)

/-- The space for the symbols of an object, and the symbols with their flags after it. -/
def allocateObjectSymtabSpace (args : ElfArgs) (sections : List SectionSlot)
    (symbols : List InputSymbol) : Fallible (SymtabSpace × List InputSymbol) := do
  let allocated ← symbols.mapM fun s => do
    let info ← SymbolCopyInfo.new args sections s
    .ok (allocateSymbol args s info)
  .ok ((allocated.map Prod.fst).sum, allocated.map Prod.snd)

end JdxLinker.Symtab
