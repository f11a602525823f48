import JdxLinker.Lib.Bytes
import JdxLinker.Macho.FixupTable

/-!
# Applying relocations and collecting fixups

Two walks over the relocations of a section. The first writes the section: it keeps a pending
addend and a pending subtrahend until the relocation that they belong to. The second runs when the
whole output is written, finds the absolute pointers of the section again and reads their values
back. Relocations that patch instructions are applied by a function that is left abstract.
-/

namespace JdxLinker.Macho

open JdxLinker.Bytes

def SECTION_TYPE : UInt32 := 0xFF

def S_THREAD_LOCAL_VARIABLES : UInt32 := 0x13

/-- The symbol number of an operand that is zero. -/
def R_ABS : UInt32 := 0

inductive RelocationType where
  | unsigned
  | subtractor
  | branch26
  | page21
  | pageoff12
  | gotLoadPage21
  | gotLoadPageoff12
  | pointerToGot
  | tlvpLoadPage21
  | tlvpLoadPageoff12
  | addend
  | other (rType : UInt8)
  deriving Repr, DecidableEq

structure RelocationInfo where
  rAddress : UInt32
  rSymbolnum : UInt32
  rPcrel : Bool
  rLength : Fin 4
  rExtern : Bool
  rType : RelocationType
  deriving Repr, DecidableEq

namespace RelocationInfo

/-- The place of a relocation in its section. -/
def offset (rel : RelocationInfo) : Nat := rel.rAddress.toNat

/-- The bytes that a relocation covers. -/
def size (rel : RelocationInfo) : Nat := 2 ^ rel.rLength.val

end RelocationInfo

structure ObjectSection where
  flags : UInt32
  data : Bytes
  relocations : List RelocationInfo

/-- The descriptors of thread-local variables have three words each. -/
def ObjectSection.isTlvDescriptors (sec : ObjectSection) : Bool :=
  sec.flags &&& SECTION_TYPE == S_THREAD_LOCAL_VARIABLES

/-- An object with its symbols, each with the section it is defined in. -/
structure ObjectLayout where
  symbolIdStart : SymbolId
  symbols : List (Option Nat)
  sectionResolutions : List (Option UInt64)

/-- The value of a `bits`-bit number in two's complement. -/
def signExtend (bits value : Nat) : Int :=
  if value % 2 ^ bits < 2 ^ (bits - 1) then (value % 2 ^ bits : Nat)
  else (value % 2 ^ bits : Nat) - (2 ^ bits : Nat)

namespace MachOLayout

variable (layout : MachOLayout)

/-- The definition of a symbol with what a reference knows of it. -/
def mergedSymbolResolution (symbolId : SymbolId) : Option Resolution :=
  layout.resolutions[layout.db.definition symbolId]?.join.map fun resolution =>
    { resolution with flags := resolution.flags.merge (layout.db.flagsForSymbol symbolId) }

/-- The resolution of the symbol of a relocation, or of its section where it has none. -/
def getResolution (object : ObjectLayout) (rel : RelocationInfo) :
    Fallible (Resolution × SymbolId) := do
  let localSymbolId := object.symbolIdStart + rel.rSymbolnum.toNat
  let sectionIndex ← Fallible.context object.symbols[rel.rSymbolnum.toNat]?
    "Invalid Mach-O symbol index"
  let missing := "Missing resolution for: " ++ layout.db.symbolDebug localSymbolId
  match layout.mergedSymbolResolution localSymbolId, sectionIndex with
  | some resolution, _ => return (resolution, localSymbolId)
  | none, none => throw (.error missing)
  | none, some sectionIndex =>
      let sectionResolution ← Fallible.unwrap object.sectionResolutions[sectionIndex]?
      let address ← Fallible.context sectionResolution missing
      return (⟨address, .empty, none, none, 0⟩, localSymbolId)

/-! ### Writing a section -/

/-- An absolute pointer that the writer stored, with the relocation it stored it for. -/
structure StoredPointer where
  rel : RelocationInfo
  value : UInt64
  deriving Repr, DecidableEq

end MachOLayout

open MachOLayout (StoredPointer)

/-- The third word of a descriptor is an offset into the template of the thread-local data. -/
def isTlvTemplateOffset (sec : ObjectSection) (rel : RelocationInfo) : Bool :=
  sec.isTlvDescriptors && rel.offset % 24 == 16

/-- Whether applying a relocation stores an absolute pointer of 8 bytes. -/
def storesPointer (sec : ObjectSection) (rel : RelocationInfo) : Bool :=
  rel.rType == .unsigned && rel.rLength == 3 && !rel.rPcrel && !isTlvTemplateOffset sec rel

/-- Applies a relocation that patches an instruction or a reference to the GOT. -/
abbrev ApplyInstruction := RelocationInfo → Int → Bytes → Fallible Bytes

/-- The state of the walk that writes a section. The pointers that it stored so far are not part of
the program. -/
structure RelocationWriter where
  out : Bytes
  pendingSubtractor : Option RelocationInfo
  pendingAddend : Option Int
  pointers : List StoredPointer
  deriving Repr, DecidableEq

namespace MachOLayout

variable (layout : MachOLayout)

def subtractorOperandValue (object : ObjectLayout) (rel : RelocationInfo) : Fallible UInt64 := do
  if rel.rExtern then
    return (← layout.getResolution object rel).1.rawValue
  else if rel.rSymbolnum = R_ABS then
    return 0
  else
    let sectionResolution ← Fallible.context
      object.sectionResolutions[rel.rSymbolnum.toNat - 1]?
      "subtractor relocation refers to an invalid section ordinal"
    Fallible.context sectionResolution
      "subtractor relocation refers to a section without an address"

def applySubtractorPair (object : ObjectLayout) (subtractor minuend : RelocationInfo)
    (out : Bytes) : Fallible Bytes := do
  Fallible.ensure (minuend.rType = .unsigned ∧ minuend.rAddress = subtractor.rAddress
      ∧ minuend.rLength = subtractor.rLength)
    "ARM64_RELOC_SUBTRACTOR must be followed by a matching ARM64_RELOC_UNSIGNED"
  let subtrahend ← layout.subtractorOperandValue object subtractor
  let minuendValue ← layout.subtractorOperandValue object minuend
  Fallible.ensure (minuend.offset + minuend.size ≤ out.length)
    "subtractor relocation is outside its section"
  Fallible.ensure (minuend.size = 4 ∨ minuend.size = 8)
    ("unsupported ARM64_RELOC_SUBTRACTOR size: " ++ toString minuend.size ++ " bytes")
  let addend := signExtend (8 * minuend.size) (readLe (slice out minuend.offset minuend.size))
  let value := minuendValue - subtrahend + UInt64.ofInt addend
  return splice out minuend.offset (leBytes minuend.size value.toNat)

/-- The value that `ARM64_RELOC_UNSIGNED` stands for. -/
def unsignedValue (sec : ObjectSection) (sectionAddress : UInt64) (resolution : Resolution)
    (rel : RelocationInfo) (addend : Int) : Fallible UInt64 := do
  let place := sectionAddress + rel.rAddress.toUInt64
  let symbolPlusAddend := resolution.rawValue + UInt64.ofInt addend
  if rel.rPcrel then
    return symbolPlusAddend - place
  else if isTlvTemplateOffset sec rel then
    let tlsStart ← Fallible.context layout.tlsStart "TLV descriptor requires TLS data"
    Fallible.ensure (tlsStart ≤ symbolPlusAddend) "TLV template symbol is before the TLS segment"
    return symbolPlusAddend - tlsStart
  else
    return symbolPlusAddend

def applyRelocation (applyInstruction : ApplyInstruction) (object : ObjectLayout)
    (sec : ObjectSection) (sectionAddress : UInt64) (rel : RelocationInfo) (addend : Int)
    (writer : RelocationWriter) : Fallible RelocationWriter := do
  if rel.rType = .unsigned then
    let (resolution, localSymbolId) ← layout.getResolution object rel
    let value ← layout.unsignedValue sec sectionAddress resolution rel addend
    Fallible.assert (rel.offset ≤ writer.out.length)
    Fallible.ensure (rel.offset + rel.size ≤ writer.out.length)
      ("Failed to apply relocation ARM64_RELOC_UNSIGNED to "
        ++ layout.db.symbolDebug localSymbolId ++ ": Relocation outside of bounds of section")
    return { writer with
      out := splice writer.out rel.offset (leBytes rel.size value.toNat)
      pointers := if storesPointer sec rel then writer.pointers ++ [⟨rel, value⟩]
        else writer.pointers }
  else
    let out ← applyInstruction rel addend writer.out
    return { writer with out }

/-- One turn of the loop of `write_object_section`. -/
def writeRelocation (applyInstruction : ApplyInstruction) (object : ObjectLayout)
    (sec : ObjectSection) (sectionAddress : UInt64) (writer : RelocationWriter)
    (rel : RelocationInfo) : Fallible RelocationWriter := do
  if rel.rType = .addend then
    Fallible.ensure (writer.pendingAddend = none) "consecutive ARM64_RELOC_ADDEND relocations"
    return { writer with pendingAddend := some (signExtend 24 rel.rSymbolnum.toNat) }
  else if rel.rType = .subtractor then
    Fallible.ensure (writer.pendingSubtractor = none)
      "consecutive ARM64_RELOC_SUBTRACTOR relocations"
    return { writer with pendingSubtractor := some rel }
  else
    match writer.pendingSubtractor with
    | some subtractor =>
        let out ← layout.applySubtractorPair object subtractor rel writer.out
        return { writer with out, pendingSubtractor := none }
    | none =>
        layout.applyRelocation applyInstruction object sec sectionAddress rel
          (writer.pendingAddend.getD 0) { writer with pendingAddend := none }

def writeObjectSection (applyInstruction : ApplyInstruction) (object : ObjectLayout)
    (sectionNumber : Nat) (sec : ObjectSection) : Fallible RelocationWriter := do
  let sectionResolution ← Fallible.unwrap object.sectionResolutions[sectionNumber]?
  let sectionAddress ← Fallible.context sectionResolution
    "Attempted to apply relocations to a section that we didn't load"
  let writer ← sec.relocations.foldlM
    (layout.writeRelocation applyInstruction object sec sectionAddress)
    ⟨sec.data, none, none, []⟩
  Fallible.ensure (writer.pendingSubtractor = none)
    "ARM64_RELOC_SUBTRACTOR is missing its paired ARM64_RELOC_UNSIGNED"
  Fallible.ensure (writer.pendingAddend = none)
    "ARM64_RELOC_ADDEND is missing its paired relocation"
  return writer

/-! ### Collecting the fixups -/

/-- Where a fixup at an address goes: the segment that holds it, which must be writable, and the
place in the file. -/
def fixupLocation (address : UInt64) : Option (Nat × Nat) :=
  match layout.segments.findIdx? fun segment =>
      segment.sizes.memOffset ≤ address
        ∧ address + 8 ≤ segment.sizes.memOffset + UInt64.ofNat segment.sizes.fileSize with
  | none => none
  | some segmentIndex =>
      match layout.segments[segmentIndex]? with
      | none => none
      | some segment =>
          if segment.name.isWritable then
            some (segmentIndex,
              segment.sizes.fileOffset + (address - segment.sizes.memOffset).toNat)
          else none

/-- The number of an imported symbol in the table of imports. -/
def importOrdinalOf (symbolId : SymbolId) : Option UInt32 :=
  let definitions := layout.formatSpecific.importedSymbols.map fun symbol =>
    layout.db.definition symbol.symbolId
  (definitions.zipIdx.reverse.find? fun entry => entry.1 == symbolId).map fun entry =>
    UInt32.ofNat entry.2

/-- What the fixup for a pointer with a value has to do. -/
def fixupTarget (resolution : Resolution) (localSymbolId : SymbolId) (relocatedValue : UInt64) :
    Fallible ChainedFixupTarget := do
  if resolution.flags.dynamic then
    let debug := layout.db.symbolDebug localSymbolId
    let ordinal ← Fallible.context (layout.importOrdinalOf (layout.db.definition localSymbolId))
      ("missing chained import for " ++ debug)
    let addend := relocatedValue - resolution.rawValue
    Fallible.ensure (addend.toNat ≤ 255)
      ("chained bind addend for " ++ debug ++ " exceeds 8 bits")
    return .bind ordinal addend.toUInt8
  else
    return .rebase relocatedValue

/-- The state of the walk that collects fixups. -/
structure FixupCollector where
  pendingSubtractor : Bool
  fixups : List ChainedFixup

/-- One turn of the loop of `collect_section_chained_fixups`. -/
def collectRelocation (object : ObjectLayout) (sec : ObjectSection) (sectionAddress : UInt64)
    (output : Bytes) (collector : FixupCollector) (rel : RelocationInfo) :
    Fallible FixupCollector := do
  if rel.rType = .subtractor then return { collector with pendingSubtractor := true }
  else if collector.pendingSubtractor then return { collector with pendingSubtractor := false }
  else if rel.rType = .addend then return collector
  else if rel.rType ≠ .unsigned ∨ rel.rLength ≠ 3 ∨ rel.rPcrel then return collector
  else if isTlvTemplateOffset sec rel then return collector
  else
    let address := sectionAddress + rel.rAddress.toUInt64
    match layout.fixupLocation address with
    | none => return collector
    | some (segmentIndex, fileOffset) =>
        Fallible.ensure (fileOffset + 8 ≤ output.length)
          "chained fixup is outside the output file"
        let relocatedValue := UInt64.ofNat (readLe (slice output fileOffset 8))
        let (resolution, localSymbolId) ← layout.getResolution object rel
        let target ← layout.fixupTarget resolution localSymbolId relocatedValue
        return { collector with
          fixups := collector.fixups ++ [⟨segmentIndex, address, fileOffset, target⟩] }

def collectSectionChainedFixups (object : ObjectLayout) (sectionNumber : Nat)
    (sec : ObjectSection) (output : Bytes) : Fallible (List ChainedFixup) := do
  match ← Fallible.unwrap object.sectionResolutions[sectionNumber]? with
  | none => return []
  | some sectionAddress =>
      let collector ← sec.relocations.foldlM
        (layout.collectRelocation object sec sectionAddress output) ⟨false, []⟩
      return collector.fixups

end MachOLayout

end JdxLinker.Macho
