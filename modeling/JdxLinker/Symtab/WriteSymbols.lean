import JdxLinker.Riscv.RelaxDeltas
import JdxLinker.Symtab.Writer

/-!
# Writing the symbols of an object

The symbols of an object get their resolutions when the layout is finalised. The symbols that were
given space are then written one after the other, and after them the ones that a partial link
leaves undefined.
-/

namespace JdxLinker.Symtab

open Fallible
open Resolution (Name RawSymbolName)
open Riscv (SectionRelaxDeltas optInputToOutput)

inductive OutputSectionId where
  | got
  | pltGot
  | ehFrame
  | bss
  | tbss
  | other (index : Nat)
  deriving DecidableEq

structure Resolution where
  rawValue : UInt64
  flags : ValueFlags
  gotAddress : Option UInt64
  pltAddress : Option UInt64

def Resolution.valueForSymbolTable (res : Resolution) : UInt64 := res.rawValue

/-- The parts of the layout that the symbols of an object depend on. The addresses are those that
were handed out from the running offsets of the output sections. -/
structure ElfLayout where
  addressSize : Nat
  tlsStartAddress : UInt64
  primaryOutputSection : OutputSectionId → OutputSectionId
  outputIndexOfSection : OutputSectionId → Option UInt32
  commonAddress : InputSymbol → UInt64
  gotAddress : InputSymbol → Option UInt64
  pltAddress : InputSymbol → Option UInt64

structure ObjectLayout where
  sections : List SectionSlot
  /-- Where a section that has an address was placed. -/
  sectionAddress : Nat → UInt64
  outputSectionId : Nat → OutputSectionId
  sectionRelaxDeltas : Nat → Option SectionRelaxDeltas
  /-- The address of the string of a merged section that a symbol points at. -/
  mergedStringAddress : InputSymbol → Nat → Fallible UInt64

/-! ### Resolutions -/

/-- The address that is recorded for a section. Sections whose content was merged have none, and
neither have sections that are not written. -/
def ObjectLayout.sectionResolution (object : ObjectLayout) (sectionIndex : Nat) :
    Fallible (Option UInt64) := do
  let slot ← unwrap object.sections[sectionIndex]?
  .ok <| match slot with
    | .loaded | .sorted | .loadedDebugInfo | .frameData =>
      some (object.sectionAddress sectionIndex)
    | _ => none

def getMergedStringOutputAddress (object : ObjectLayout) (s : InputSymbol) (sectionIndex : Nat) :
    Fallible (Option UInt64) :=
  match object.sections[sectionIndex]? with
  | some .mergeStrings => do
      let address ← object.mergedStringAddress s sectionIndex
      .ok (some address)
  | _ => .ok none

def isMappingSymbol (s : InputSymbol) : Bool :=
  match s.symbolName with
  | none => false
  | some name => isMappingSymbolName name

/-- The value of a symbol in a section. Mapping symbols may be in sections that are not loaded. -/
def sectionSymbolValue (object : ObjectLayout) (s : InputSymbol) (sectionIndex : Nat) :
    Fallible (Option UInt64) := do
  let resolution ← object.sectionResolution sectionIndex
  match resolution with
  | some sectionAddress =>
      .ok (some (optInputToOutput (object.sectionRelaxDeltas sectionIndex) s.sym.stValue
        + sectionAddress))
  | none => do
      let merged ← getMergedStringOutputAddress object s sectionIndex
      match merged with
      | some address => .ok (some address)
      | none =>
        if isMappingSymbol s then .ok none
        else .error (.error "Symbol is in a section that we didn't load.")

/-- The value that a symbol that needs a resolution gets. -/
def symbolValue (layout : ElfLayout) (object : ObjectLayout) (s : InputSymbol) :
    Fallible (Option UInt64) := do
  let inSection ← s.symbolSection
  match inSection with
  | some sectionIndex => sectionSymbolValue object s sectionIndex
  | none => .ok (some (if s.sym.asCommon then layout.commonAddress s else s.sym.stValue))

def createSymbolResolution (layout : ElfLayout) (object : ObjectLayout) (s : InputSymbol) :
    Fallible (Option Resolution) :=
  if !s.flags.hasResolution || !s.isCanonical then .ok none
  else do
    let rawValue ← symbolValue layout object s
    .ok <| rawValue.map fun rawValue =>
      { rawValue, flags := s.flags, gotAddress := layout.gotAddress s
        pltAddress := layout.pltAddress s }

/-- The symbols of an object with their resolutions. -/
def finaliseSymbols (layout : ElfLayout) (object : ObjectLayout) (symbols : List InputSymbol) :
    Fallible (List (InputSymbol × Option Resolution)) :=
  symbols.mapM fun s => do
    let res ← createSymbolResolution layout object s
    .ok (s, res)

/-! ### Symbols that are copied -/

/-- How a symbol gets into the table. -/
inductive SymbolPlace where
  | inSection (id : OutputSectionId)
  | absolute
  | skipped

def symbolPlace (object : ObjectLayout) (s : InputSymbol) : Fallible SymbolPlace := do
  let inSection ← s.symbolSection
  match inSection with
  | some sectionIndex => do
      let slot ← unwrap object.sections[sectionIndex]?
      match slot with
      | .loaded | .sorted | .loadedDebugInfo | .mergeStrings =>
        .ok (.inSection (object.outputSectionId sectionIndex))
      | .frameData => .ok (.inSection .ehFrame)
      | _ =>
        if isMappingSymbol s then .ok .skipped
        else .error (.error "Tried to copy a symbol in a section we didn't load.")
  | none =>
    if s.sym.isCommon then .ok (.inSection (if s.sym.stType = STT_TLS then .tbss else .bss))
    else if s.sym.isAbsolute then .ok .absolute
    else .error (.error "Attempted to output a symtab entry with an unexpected section type")

/-- The size of a symbol without the bytes of it that relaxation deleted. -/
def objectSymbolSize (object : ObjectLayout) (s : InputSymbol) : Fallible UInt64 :=
  if s.sym.stSize = 0 then .ok 0
  else do
    let inSection ← s.symbolSection
    .ok <| match inSection.bind object.sectionRelaxDeltas with
      | none => s.sym.stSize
      | some deltas =>
        deltas.inputToOutputOffset (s.sym.stValue + s.sym.stSize)
          - deltas.inputToOutputOffset s.sym.stValue

def copySymbol (layout : ElfLayout) (writer : SymbolTableWriter) (sym : SymtabEntry) (name : Name)
    (id : OutputSectionId) (value : UInt64) (flags : ValueFlags) :
    Fallible (SymtabEntry × SymbolTableWriter) := do
  let shndx ← context (layout.outputIndexOfSection id)
    "internal error: tried to copy a symbol in a section which is not being output"
  writer.copySymbolShndx layout.addressSize sym name shndx value flags

/-- Copies a symbol of a section that is part of the output. -/
def copySectionSymbol (layout : ElfLayout) (object : ObjectLayout) (writer : SymbolTableWriter)
    (s : InputSymbol) (name : Name) (id : OutputSectionId) (value : UInt64) :
    Fallible SymbolTableWriter := do
  let (entry, writer) ←
    copySymbol layout writer s.sym name (layout.primaryOutputSection id) value s.flags
  let size ← objectSymbolSize object s
  ensure (fitsWord layout.addressSize size) "Size doesn't fit in symbol table entry"
  .ok (writer.updateLast (isSymtabLocal s.flags s.sym) { entry with stSize := size })

def copyObjectSymbol (layout : ElfLayout) (object : ObjectLayout) (writer : SymbolTableWriter)
    (s : InputSymbol) (name : Name) (value : UInt64) : Fallible SymbolTableWriter := do
  let place ← symbolPlace object s
  match place with
  | .skipped => .ok writer
  | .absolute => do
      let copied ← writer.copyAbsoluteSymbol layout.addressSize s.sym name s.flags
      .ok copied.2
  | .inSection id => copySectionSymbol layout object writer s name id value

/-! ### Symbols for GOT and PLT entries -/

/-- Names that are no UTF-8 are shown as numbers. -/
def displayName (bytes : Name) : Name :=
  if ByteArray.validateUTF8 ⟨bytes.toArray⟩ then bytes
  else (s!"INVALID UTF-8({bytes.map UInt8.toNat})").toUTF8.data.toList

def gotSuffix : Name := "$got".toUTF8.data.toList
def pltSuffix : Name := "$plt".toUTF8.data.toList

/-- Writes a symbol for the GOT or PLT entry of a symbol. -/
def writeSym (layout : ElfLayout) (writer : SymbolTableWriter) (s : InputSymbol) (suffix : Name)
    (id : OutputSectionId) (address : Fallible UInt64) : Fallible SymbolTableWriter := do
  let name ← context s.symbolName "Invalid symbol name"
  let shndx ← context (layout.outputIndexOfSection id)
    "Tried to write dynamic symbol in a section that's not being output"
  let value ← address
  let defined ← writer.defineSymbol layout.addressSize true (.index shndx) value 0
    (displayName name ++ suffix)
  .ok defined.2

def writePltSym (layout : ElfLayout) (writer : SymbolTableWriter) (s : InputSymbol)
    (res : Resolution) : Fallible SymbolTableWriter :=
  if res.flags.plt then
    writeSym layout writer s pltSuffix .pltGot (context res.pltAddress "Missing PLT address")
  else .ok writer

def writeGotPltSyms (layout : ElfLayout) (writer : SymbolTableWriter) (s : InputSymbol)
    (res : Option Resolution) : Fallible SymbolTableWriter :=
  match res.filter fun res => s.isCanonical && res.flags.got with
  | none => .ok writer
  | some res => do
      let writer ←
        writeSym layout writer s gotSuffix .got (context res.gotAddress "Missing GOT address")
      writePltSym layout writer s res

/-! ### All symbols -/

/-- The value of a symbol in the table. Those of thread-local symbols are offsets. -/
def valueInTable (layout : ElfLayout) (s : InputSymbol) (res : Resolution) : UInt64 :=
  if s.sym.stType = STT_TLS then res.valueForSymbolTable - layout.tlsStartAddress
  else res.valueForSymbolTable

def writeCopied (layout : ElfLayout) (object : ObjectLayout) (writer : SymbolTableWriter)
    (s : InputSymbol) (res : Option Resolution) (info : Option Name) : Fallible SymbolTableWriter :=
  match info with
  | none => .ok writer
  | some name => do
      let res ← context res "Missing resolution"
      copyObjectSymbol layout object writer s name (valueInTable layout s res)

/-- The symbols for GOT and PLT entries are written only when they are asked for. -/
def writeRequestedGotPltSyms (args : ElfArgs) (layout : ElfLayout) (writer : SymbolTableWriter)
    (item : InputSymbol × Option Resolution) : Fallible SymbolTableWriter :=
  if args.gotPltSyms then writeGotPltSyms layout writer item.1 item.2 else .ok writer

def writeSymbol (args : ElfArgs) (layout : ElfLayout) (object : ObjectLayout)
    (writer : SymbolTableWriter) (item : InputSymbol × Option Resolution) :
    Fallible SymbolTableWriter := do
  let writer ← writeRequestedGotPltSyms args layout writer item
  let info ← SymbolCopyInfo.new args object.sections item.1
  writeCopied layout object writer item.1 item.2 info

/-- Writes a symbol that a partial link leaves undefined. -/
def writeUndefined (args : ElfArgs) (layout : ElfLayout) (writer : SymbolTableWriter)
    (item : InputSymbol × Option Resolution) : Fallible SymbolTableWriter :=
  match undefinedName args item.1 with
  | none => .ok writer
  | some name => do
      let name := (RawSymbolName.parse name).name
      let (entry, writer) ← writer.undefinedSymbol layout.addressSize false name
      .ok (writer.updateLast false
        { entry with stInfo := item.1.sym.stInfo, stOther := item.1.sym.stOther })

/-- Writes debug symbols. -/
def writeSymbols (args : ElfArgs) (layout : ElfLayout) (object : ObjectLayout)
    (writer : SymbolTableWriter) (symbols : List (InputSymbol × Option Resolution)) :
    Fallible SymbolTableWriter := do
  let writer ← symbols.foldlM (writeSymbol args layout object) writer
  symbols.foldlM (writeUndefined args layout) writer

/-! ### The symbols of an object in a link -/

/-- The space for an object's symbols, unless all symbols are stripped. -/
def finaliseSizes (args : ElfArgs) (object : ObjectLayout) (symbols : List InputSymbol) :
    Fallible (SymtabSpace × List InputSymbol) :=
  if args.shouldStripAll then .ok (0, symbols)
  else allocateObjectSymtabSpace args object.sections symbols

/-- Writes the symbols of an object, unless all symbols are stripped. -/
def writeObjectSymbols (args : ElfArgs) (layout : ElfLayout) (object : ObjectLayout)
    (writer : SymbolTableWriter) (symbols : List (InputSymbol × Option Resolution)) :
    Fallible SymbolTableWriter :=
  if args.shouldOutputPartialObject then writeSymbols args layout object writer symbols
  else if !args.shouldStripAll then writeSymbols args layout object writer symbols
  else .ok writer

end JdxLinker.Symtab
