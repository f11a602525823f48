import JdxLinker.Layout.Alignment
import JdxLinker.Lib.Chunks
import JdxLinker.Macho.Layout

/-!
# The table of chained fixups

The table that tells the dynamic linker where the chains of fixups start and what the imports are:
a header, the offsets of one record for each segment with fixups, these records with the first fixup
of every page, the imports, and the pool of their names. Space for it is reserved before addresses
are known.
-/

namespace JdxLinker.Macho

inductive ChainedFixupTarget where
  | rebase (target : UInt64)
  | bind (ordinal : UInt32) (addend : UInt8)
  deriving Repr, DecidableEq

structure ChainedFixup where
  segmentIndex : Nat
  address : UInt64
  fileOffset : Nat
  target : ChainedFixupTarget
  deriving Repr, DecidableEq

/-! ### Sizes -/

def sizeOfU32 : Nat := 4

/-- Seven 32-bit fields. -/
def sizeOfChainedFixupsHeader : Nat := 7 * sizeOfU32

/-- `size`, `page_size`, `pointer_format`, `segment_offset`, `max_valid_pointer`, `page_count`. -/
def sizeOfChainedStartsInSegment : Nat := 4 + 2 + 2 + 8 + 4 + 2

def MAX_SEGMENT_COUNT : Nat := 6

def MAX_CHAINED_FIXUP_PAGES_PER_SEGMENT : Nat := 8192

def CHAINED_FIXUP_IMPORT_SIZE : Nat := 4

def CHAINED_FIXUP_PAGE_START_SIZE : Nat := 2

def CHAINED_FIXUP_TABLE_BASE_SIZE : Nat :=
  sizeOfChainedFixupsHeader + sizeOfU32 * (MAX_SEGMENT_COUNT + 1)
    + (sizeOfChainedStartsInSegment
        + CHAINED_FIXUP_PAGE_START_SIZE * MAX_CHAINED_FIXUP_PAGES_PER_SEGMENT)
      * MAX_SEGMENT_COUNT

/-- The bytes that an import takes in the table, with its name in the pool. -/
def importSize (db : SymbolDb) (symbolId : SymbolId) : Nat :=
  CHAINED_FIXUP_IMPORT_SIZE + (db.symbolName symbolId).bytes.length + 1

/-- The bytes that `finalise_sizes_epilogue` reserves for the table. -/
def chainedFixupTableReservation (db : SymbolDb) (importedSymbols : List SymbolId) : Nat :=
  Alignment.USIZE.alignUp
    (CHAINED_FIXUP_TABLE_BASE_SIZE + (importedSymbols.map (importSize db)).sum)

/-! ### The parts of the table -/

structure ChainedFixupsHeader where
  fixupsVersion : UInt32
  startsOffset : UInt32
  importsOffset : UInt32
  symbolsOffset : UInt32
  importsCount : UInt32
  importsFormat : UInt32
  symbolsFormat : UInt32
  deriving Repr, DecidableEq

structure ChainedStartsInSegment where
  size : UInt32
  pageSize : UInt16
  pointerFormat : UInt16
  segmentOffset : UInt64
  maxValidPointer : UInt32
  pageCount : UInt16
  pageStarts : List UInt16
  deriving Repr, DecidableEq

structure ChainedFixupTable where
  header : ChainedFixupsHeader
  startsInImage : List UInt32
  startsInSegments : List ChainedStartsInSegment
  imports : List UInt32
  stringPool : Bytes
  deriving Repr, DecidableEq

def DYLD_CHAINED_IMPORT : UInt32 := 1

def DYLD_CHAINED_PTR_64_OFFSET : UInt16 := 6

/-- What a page without fixups holds in place of its first one. -/
def DYLD_CHAINED_PTR_START_NONE : UInt16 := 0xFFFF

def pageSize : UInt64 := UInt64.ofNat Alignment.MACHO_PAGE_ALIGNMENT.value

/-! ### Sorting the fixups -/

/-- The order in which the writer visits fixups: by segment, then by address. -/
def ChainedFixup.before (a b : ChainedFixup) : Bool :=
  a.segmentIndex < b.segmentIndex ∨ a.segmentIndex = b.segmentIndex ∧ a.address ≤ b.address

def hexAddress (address : UInt64) : String :=
  "0x" ++ String.ofList (Nat.toDigits 16 address.toNat)

/-- Adds a fixup unless it repeats the last one. -/
def pushFixup (deduplicated : List ChainedFixup) (fixup : ChainedFixup) :
    Fallible (List ChainedFixup) :=
  match deduplicated.getLast? with
  | none => .ok [fixup]
  | some previous =>
      if previous.address = fixup.address then do
        Fallible.ensure (previous = fixup)
          ("conflicting chained fixups at " ++ hexAddress fixup.address)
        return deduplicated
      else .ok (deduplicated ++ [fixup])

/-- The end of `collect_chained_fixups`: the fixups in order and each place once. -/
def sortChainedFixups (fixups : List ChainedFixup) : Fallible (List ChainedFixup) :=
  (fixups.mergeSort ChainedFixup.before).foldlM pushFixup []

/-! ### The starts of the chains -/

/-- The fixups of one segment, with the pages that its record covers. -/
structure FixupSegment where
  segmentIndex : Nat
  pageCount : Nat
  fixups : List ChainedFixup
  deriving Repr, DecidableEq

def recordLen (pageCount : Nat) : Nat :=
  sizeOfChainedStartsInSegment + CHAINED_FIXUP_PAGE_START_SIZE * pageCount

namespace MachOLayout

variable (layout : MachOLayout)

def fixupSegment (fixups : List ChainedFixup) : Fallible FixupSegment := do
  let last ← Fallible.unwrap fixups.getLast?
  let segment ← Fallible.unwrap layout.segments[last.segmentIndex]?
  let pageCount := ((last.address - segment.sizes.memOffset) / pageSize + 1).toNat
  Fallible.ensure (pageCount ≤ MAX_CHAINED_FIXUP_PAGES_PER_SEGMENT)
    "Mach-O fixup segment exceeds the mbx development-build size limit"
  return ⟨last.segmentIndex, pageCount, fixups⟩

def fixupSegments (fixups : List ChainedFixup) : Fallible (List FixupSegment) :=
  (Chunks.chunkBy (·.segmentIndex) fixups).mapM layout.fixupSegment

end MachOLayout

/-- Records a fixup as the first of its page unless the page has one. -/
def setPageStart (segment : SegmentLayout) (pageStarts : List UInt16) (fixup : ChainedFixup) :
    Fallible (List UInt16) := do
  let offsetInSegment := fixup.address - segment.sizes.memOffset
  let pageIndex := (offsetInSegment / pageSize).toNat
  let start ← Fallible.unwrap pageStarts[pageIndex]?
  if start = DYLD_CHAINED_PTR_START_NONE then
    return pageStarts.set pageIndex (offsetInSegment % pageSize).toUInt16
  else return pageStarts

/-- The records written so far, and what is left of the space for them. -/
structure StartsWriter where
  startsInImage : List UInt32
  startsInSegments : List ChainedStartsInSegment
  segmentBytes : Nat
  segmentInfoOffset : Nat
  deriving Repr, DecidableEq

namespace MachOLayout

variable (layout : MachOLayout)

def writeStartsInSegment (imageBase : UInt64) (writer : StartsWriter)
    (fixupSegment : FixupSegment) : Fallible StartsWriter := do
  let _ ← Fallible.unwrap writer.startsInImage[fixupSegment.segmentIndex + 2]?
  let startsInImage := writer.startsInImage.set (fixupSegment.segmentIndex + 2)
    (UInt32.ofNat writer.segmentInfoOffset)
  let recordLen := recordLen fixupSegment.pageCount
  Fallible.assert (recordLen ≤ writer.segmentBytes)
  let segment ← Fallible.unwrap layout.segments[fixupSegment.segmentIndex]?
  Fallible.ensure (imageBase ≤ segment.sizes.memOffset) "fixup segment is before the image base"
  let pageStarts ← fixupSegment.fixups.foldlM (setPageStart segment)
    (List.replicate fixupSegment.pageCount DYLD_CHAINED_PTR_START_NONE)
  let startsInSegment : ChainedStartsInSegment := {
    size := UInt32.ofNat recordLen
    pageSize := pageSize.toUInt16
    pointerFormat := DYLD_CHAINED_PTR_64_OFFSET
    segmentOffset := segment.sizes.memOffset - imageBase
    maxValidPointer := 0
    pageCount := UInt16.ofNat fixupSegment.pageCount
    pageStarts }
  return {
    startsInImage
    startsInSegments := writer.startsInSegments ++ [startsInSegment]
    segmentBytes := writer.segmentBytes - recordLen
    segmentInfoOffset := writer.segmentInfoOffset + recordLen }

end MachOLayout

/-! ### The imports -/

/-- The part of the name pool that has been written, and where each name starts. -/
structure PoolWriter where
  pool : Bytes
  symbolOffsets : List Nat

/-- Copies a name and its terminator. Leaving the pool panics. -/
def writeSymbolName (poolLen : Nat) (writer : PoolWriter) (name : SymbolName) :
    Fallible PoolWriter :=
  let strOffset := writer.pool.length
  if strOffset + name.bytes.length + 1 ≤ poolLen then
    .ok ⟨writer.pool ++ name.bytes ++ [0], writer.symbolOffsets ++ [strOffset]⟩
  else .error .panic

namespace MachOLayout

variable (layout : MachOLayout)

def importOrdinal (symbolId : SymbolId) : Fallible UInt8 :=
  match layout.fileLayout (layout.db.fileIdForSymbol symbolId) with
  | .stubLibrary formatSpecific => .ok formatSpecific.ordinal
  | .dynamic formatSpecific => .ok formatSpecific.ordinal
  | .notLoaded =>
      .error (.error "Internal error: Internal symbol refers to non-stub library")

/-- The ordinal in the low eight bits, no weak bit, and the name above them. -/
def packImport (libOrdinal : UInt8) (symbolOffset : Nat) : UInt32 :=
  libOrdinal.toUInt32 ||| (UInt32.ofNat symbolOffset <<< 9)

def writeImport (symbol : ImportedSymbolWithResolution) (symbolOffset : Nat) :
    Fallible UInt32 := do
  let libOrdinal ← layout.importOrdinal symbol.symbolId
  return packImport libOrdinal symbolOffset

/-! ### The whole table -/

/-- Fills a table of `tableLen` bytes. -/
def writeChainedFixupTable (fixups : List ChainedFixup) (tableLen : Nat) :
    Fallible ChainedFixupTable := do
  let symbols := layout.formatSpecific.importedSymbols
  let segmentCount := layout.segments.length + 1
  Fallible.ensure (segmentCount ≤ MAX_SEGMENT_COUNT) "unexpected number of active segments"
  let startsInImageLen := sizeOfU32 * (segmentCount + 1)
  let fixupSegments ← layout.fixupSegments fixups
  let startsInSegmentsLen := (fixupSegments.map fun segment => recordLen segment.pageCount).sum
  let importsLen := sizeOfU32 * symbols.length
  let startsOffset := sizeOfChainedFixupsHeader
  let importsOffset := startsOffset + startsInImageLen + startsInSegmentsLen
  let symbolsOffset := importsOffset + importsLen
  Fallible.ensure (symbolsOffset ≤ tableLen)
    "Mach-O chained fixups exceeded their reserved size"
  let header : ChainedFixupsHeader := {
    fixupsVersion := 0
    startsOffset := UInt32.ofNat startsOffset
    importsOffset := UInt32.ofNat importsOffset
    symbolsOffset := UInt32.ofNat symbolsOffset
    importsCount := UInt32.ofNat symbols.length
    importsFormat := DYLD_CHAINED_IMPORT
    symbolsFormat := 0 }
  let imageBase ← Fallible.context layout.imageBase "missing Mach-O __TEXT segment"
  let starts ← fixupSegments.foldlM (layout.writeStartsInSegment imageBase) {
    startsInImage := UInt32.ofNat segmentCount :: List.replicate segmentCount 0
    startsInSegments := []
    segmentBytes := startsInSegmentsLen
    segmentInfoOffset := startsInImageLen }
  Fallible.ensure (starts.segmentBytes = 0) "Excess starts-in-segment allocation"
  let poolLen := tableLen - symbolsOffset
  let names ← (symbols.map fun symbol => layout.db.symbolName symbol.symbolId).foldlM
    (writeSymbolName poolLen) ⟨[], []⟩
  let imports ← (symbols.zip names.symbolOffsets).mapM fun entry =>
    layout.writeImport entry.1 entry.2
  return {
    header
    startsInImage := starts.startsInImage
    startsInSegments := starts.startsInSegments
    imports
    stringPool := names.pool ++ List.replicate (poolLen - names.pool.length) 0 }

end MachOLayout

end JdxLinker.Macho
