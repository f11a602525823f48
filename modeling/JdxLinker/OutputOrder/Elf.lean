import JdxLinker.OutputOrder.Builder

/-!
# Segments of ELF files
-/

namespace JdxLinker.OutputOrder.Elf

/-- A set of flags, by its bits. -/
abbrev Flags := BitVec 64

def Flags.contains (flags other : Flags) : Bool := flags &&& other == other

namespace Shf

def WRITE : Flags := 0x1
def ALLOC : Flags := 0x2
def EXECINSTR : Flags := 0x4
def TLS : Flags := 0x400

end Shf

namespace Pf

def EXECUTABLE : Flags := 0x1
def WRITABLE : Flags := 0x2
def READABLE : Flags := 0x4

end Pf

/-- The type of sections that hold notes. -/
def SHT_NOTE : Nat := 7

inductive SegmentType where
  | phdr
  | interp
  | note
  | gnuProperty
  | load
  | tls
  | gnuEhFrame
  | gnuSframe
  | dynamic
  | gnuRelro
  | riscvAttributes
  | gnuStack
  deriving Repr, DecidableEq

structure ProgramSegmentDef where
  segmentType : SegmentType
  segmentFlags : Flags
  deriving Repr, DecidableEq

/-- The segments that are generated where sections call for them. -/
def PROGRAM_SEGMENT_DEFS : List ProgramSegmentDef := [
  ⟨.phdr, Pf.READABLE⟩,
  ⟨.interp, Pf.READABLE⟩,
  ⟨.note, Pf.READABLE⟩,
  ⟨.gnuProperty, Pf.READABLE⟩,
  ⟨.load, Pf.READABLE⟩,
  ⟨.load, Pf.READABLE ||| Pf.EXECUTABLE⟩,
  ⟨.load, Pf.READABLE ||| Pf.WRITABLE⟩,
  ⟨.load, Pf.READABLE ||| Pf.WRITABLE ||| Pf.EXECUTABLE⟩,
  ⟨.tls, Pf.READABLE⟩,
  ⟨.gnuEhFrame, Pf.READABLE⟩,
  ⟨.gnuSframe, Pf.READABLE⟩,
  ⟨.dynamic, Pf.READABLE ||| Pf.WRITABLE⟩,
  ⟨.gnuRelro, Pf.READABLE⟩,
  ⟨.riscvAttributes, Pf.READABLE⟩]

def STACK_SEGMENT_DEF : ProgramSegmentDef := ⟨.gnuStack, Pf.READABLE ||| Pf.WRITABLE⟩

def ProgramSegmentDef.isWritable (segmentDef : ProgramSegmentDef) : Bool :=
  segmentDef.segmentFlags.contains Pf.WRITABLE

def ProgramSegmentDef.isExecutable (segmentDef : ProgramSegmentDef) : Bool :=
  segmentDef.segmentFlags.contains Pf.EXECUTABLE

structure SectionAttributes where
  flags : Flags
  ty : Nat

structure BuiltInSectionDetails where
  isRelro : Bool := false
  targetSegmentType : Option SegmentType := none

/-- What the built-in sections ask of segments, by section id. The others ask for nothing. -/
def builtInSectionDetails : Nat → BuiltInSectionDetails
  -- PROGRAM_HEADERS
  | 2 => { targetSegmentType := some .phdr }
  -- GOT
  | 6 => { isRelro := true }
  -- EH_FRAME_HDR
  | 11 => { targetSegmentType := some .gnuEhFrame }
  -- SFRAME
  | 12 => { targetSegmentType := some .gnuSframe }
  -- DYNAMIC
  | 13 => { isRelro := true, targetSegmentType := some .dynamic }
  -- INTERP
  | 18 => { targetSegmentType := some .interp }
  -- NOTE_GNU_PROPERTY
  | 22 => { targetSegmentType := some .gnuProperty }
  -- RISCV_ATTRIBUTES
  | 28 => { targetSegmentType := some .riscvAttributes }
  -- RELRO_PADDING
  | 29 => { isRelro := true }
  -- INIT_ARRAY, FINI_ARRAY and PREINIT_ARRAY
  | 35 | 36 | 37 => { isRelro := true }
  -- DATA_REL_RO
  | 48 => { isRelro := true }
  | _ => {}

def NUM_BUILT_IN_SECTIONS : Nat := 49

/-- The details of a built-in section. -/
def optBuiltInDetails (sectionId : Nat) : Option BuiltInSectionDetails :=
  if sectionId < NUM_BUILT_IN_SECTIONS then some (builtInSectionDetails sectionId) else none

def programSegmentShouldIncludeSection {n : Nat} (segmentDef : ProgramSegmentDef)
    (info : SectionOutputInfo SectionAttributes Script.Name n) (sectionId : Fin n)
    (rosegment : Bool) : Bool :=
  let flags := info.sectionAttributes.flags
  match segmentDef.segmentType with
  | .note => info.sectionAttributes.ty == SHT_NOTE
  | .tls => flags.contains Shf.TLS
  | .load =>
      let exec := flags.contains Shf.EXECINSTR || (!rosegment && !flags.contains Shf.WRITE)
      flags.contains Shf.ALLOC && flags.contains Shf.WRITE == segmentDef.isWritable &&
        exec == segmentDef.isExecutable
  | .gnuRelro =>
      flags.contains Shf.TLS ||
        (optBuiltInDetails sectionId).any BuiltInSectionDetails.isRelro
  | other =>
      ((optBuiltInDetails sectionId).bind BuiltInSectionDetails.targetSegmentType).any (· == other)

/-- What an ELF file asks of the order of its sections. -/
def platform : Platform where
  ProgramSegmentDef := ProgramSegmentDef
  SectionAttributes := SectionAttributes
  SectionIdentity := Script.Name
  isWritable := ProgramSegmentDef.isWritable
  isExecutable := ProgramSegmentDef.isExecutable
  isLoadable segmentDef := segmentDef.segmentType == .load
  shouldCutRwSegmentWhenEnding segmentDef := segmentDef.segmentType == .gnuRelro
  isAlloc attributes := attributes.flags.contains Shf.ALLOC
  unconditionalSegmentDefs := [STACK_SEGMENT_DEF]
  programSegmentShouldIncludeSection := programSegmentShouldIncludeSection

theorem programSegmentDefs_nodup : PROGRAM_SEGMENT_DEFS.Nodup := by decide

/-- The builder of an ELF file with default segments. -/
def builderInputs {n : Nat} (outputSections : OutputSections platform n) (outputKind : OutputKind)
    (locationCounters : List (LocationCounter n))
    (countersInRange : ∀ id info, (outputSections.outputInfo id).locationInfo = some info →
      info.locationCounters.2 ≤ locationCounters.length) : BuilderInputs platform n where
  segmentDefs := PROGRAM_SEGMENT_DEFS
  segmentDefs_nodup := programSegmentDefs_nodup
  outputSections := outputSections
  outputKind := outputKind
  hasCustomPhdrs := false
  locationCounters := locationCounters
  countersInRange := countersInRange

end JdxLinker.OutputOrder.Elf
