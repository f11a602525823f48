import JdxLinker.Relocation.Kinds
import JdxLinker.Riscv.Resolutions

/-!
# Applying a relocation

The value of a relocation is computed from the resolution of its symbol and stored at its place.
Debug sections, which are not loaded, have a function of their own for this.
-/

namespace JdxLinker.Relocation

open Fallible Bytes

open Riscv (Resolution ObjectLayout ElfLayout MergedStrings SymtabEntry)

/-- The instructions that can hold an offset of a thread-local. -/
def dtpOffInstructions : List RelocationInstruction :=
  [.aarch64 .movnz, .aarch64 .movkz, .aarch64 .add, .aarch64 .ldSt]

/-- The relocations of an architecture. Only branches are redirected to thunks. -/
structure Arch (T : Type) where
  relocationTypeFromRaw : T → Option (RelocationKindInfo T)
  relTypeToString : T → String
  isDisallowedInSharedObject : T → Bool
  isDisallowedForInterposableSymbols : T → Bool
  thunkable : ∀ rType info, relocationTypeFromRaw rType = some info → info.thunkable = true →
    info.kind = .pltRelative
  dtpOff : ∀ rType info mask, relocationTypeFromRaw rType = some info → info.kind = .dtpOff →
    info.size = .bitMasking mask → mask.instruction ∈ dtpOffInstructions

/-- What a link knows when it applies the relocations of an object. -/
structure Link (M : OffsetMap) where
  layout : ElfLayout
  strings : MergedStrings M
  object : ObjectLayout
  isSharedObject : Bool
  tlsStartAddress : UInt64
  tlsEndAddress : UInt64
  flagsForSymbol : Nat → ValueFlags
  /-- The sections that are discarded, or were not loaded. -/
  unloaded : Nat → Bool

structure SectionInfo where
  sectionAddress : UInt64
  isAlloc : Bool

/-- What is done for the kinds that debug sections do not have, for absolute relocations of sections
that are loaded, and for branches out of range. -/
structure OtherRelocations (T : Type) where
  align : Riscv.Relocation T → List UInt8 → Fallible (List UInt8)
  value : Riscv.Relocation T → UInt64 → Fallible UInt64
  absolute : Riscv.Relocation T → UInt64 → Fallible UInt64
  thunk : Riscv.Relocation T → UInt64 → Fallible UInt64
  branchLocalEntry : Riscv.Relocation T → UInt64

structure PageMaskValue where
  symbolPlusAddend : BitVec 64 := BitVec.allOnes 64
  gotEntry : BitVec 64 := BitVec.allOnes 64
  place : BitVec 64 := BitVec.allOnes 64
  got : BitVec 64 := BitVec.allOnes 64

def getPageMask : Option PageMask → PageMaskValue
  | none => {}
  | some (.symbolPlusAddendAndPosition mask) => { symbolPlusAddend := ~~~mask, place := ~~~mask }
  | some (.gotEntryAndPosition mask) => { gotEntry := ~~~mask, place := ~~~mask }
  | some (.gotBase mask) => { got := ~~~mask }
  | some (.position mask) => { place := ~~~mask }

variable {T : Type} {M : OffsetMap}

def Arch.relocationFromRaw (arch : Arch T) (rType : T) : Fallible (RelocationKindInfo T) :=
  context (arch.relocationTypeFromRaw rType)
    s!"Unsupported relocation type {arch.relTypeToString rType}"

/-- Stores a value at an offset of a section. -/
def RelocationKindInfo.storeAt (lebUnsigned : BitVec 64 → List UInt8) (info : RelocationKindInfo T)
    (value : UInt64) (out : List UInt8) (offset : Nat) : Fallible (List UInt8) := do
  assert (offset ≤ out.length)
  let tail ← info.writeToBuffer lebUnsigned value.toBitVec (out.drop offset)
  .ok (out.take offset ++ tail)

/-- A value as it is stored, where it may be adjusted to what is at its place. -/
def RelocationKindInfo.adjustedValue (adjusts : Bool) (info : RelocationKindInfo T) (value : UInt64)
    (out : List UInt8) (offset : Nat) : Fallible UInt64 :=
  if adjusts then do
    let value ← info.adjustValueBasedOnContent value.toBitVec out offset
    .ok (UInt64.ofBitVec value)
  else .ok value

namespace Link

variable (link : Link M)

def valueWithAddend (resolution : Resolution) (symbolIndex : Nat) (addend : Int64) :
    Fallible UInt64 :=
  resolution.valueWithAddend link.layout link.strings link.object addend symbolIndex
    link.layout.sectionPartIds

/-- The resolution of a symbol, if it has one. -/
def findResolution (symbolIndex : Nat) (sym : SymtabEntry) : Fallible (Option Resolution) :=
  match link.object.mergedSymbolResolution symbolIndex with
  | some resolution => .ok (some resolution)
  | none => do
      let address ← match sym.sectionIndex with
        | none => .ok none
        | some sectionIndex => link.object.sectionOffsetAddress sectionIndex sym.value
      .ok (address.map fun rawValue => { rawValue })

/-- The number that a pair of relocations stores, the second of which is applied. -/
def getPairSubtractionRelocationValue [DecidableEq T] (arch : Arch T) (rel : Riscv.Relocation T)
    (resolution : Resolution) (symbolIndex : Nat) (setRel : Riscv.Relocation T)
    (expectedRType : T) : Fallible UInt64 := do
  ensure (setRel.offset = rel.offset) "PairSubtractionULEB128 relocation must have equal offset"
  ensure (setRel.rawType = expectedRType)
    (s!"unexpected previous relocation: expected: {arch.relTypeToString expectedRType}, "
      ++ s!"was: {arch.relTypeToString setRel.rawType}")
  let (setResolution, setSymbolIndex) ← Riscv.getResolution link.object setRel
  let setResolutionVal ← link.valueWithAddend setResolution setSymbolIndex setRel.addend
  let subResolutionVal ← link.valueWithAddend resolution symbolIndex rel.addend
  .ok (setResolutionVal - subResolutionVal)

def missingPrevious : String := "Missing previous relocation for PairSubtractionULEB128"

/-! ### Sections in general -/

/-- The value of a relocation, before it is adjusted to what is at its place. -/
def relocationValue [DecidableEq T] (arch : Arch T) (others : OtherRelocations T)
    (info : RelocationKindInfo T) (sectionInfo : SectionInfo) (previous : Option (Riscv.Relocation T))
    (rel : Riscv.Relocation T) (place : UInt64) (resolution : Resolution) (symbolIndex : Nat) :
    Fallible UInt64 :=
  let mask := getPageMask info.mask
  let bias := UInt64.ofBitVec info.bias
  match info.kind with
  | .absolute =>
      if sectionInfo.isAlloc then others.absolute rel place
      else link.valueWithAddend resolution symbolIndex rel.addend
  | .absoluteSet | .absoluteSetWord6 | .absoluteAddition | .absoluteAdditionWord6
  | .absoluteSubtraction | .absoluteSubtractionWord6 =>
      link.valueWithAddend resolution symbolIndex rel.addend
  | .relative => do
      let value ← link.valueWithAddend resolution symbolIndex rel.addend
      .ok (((value + others.branchLocalEntry rel + bias) &&& UInt64.ofBitVec mask.symbolPlusAddend)
        - (place &&& UInt64.ofBitVec mask.place))
  | .pairSubtractionUleb128 expectedRType => do
      let previous ← context previous missingPrevious
      link.getPairSubtractionRelocationValue arch rel resolution symbolIndex previous expectedRType
  | .dtpOff =>
      if link.isSharedObject then
        .ok (resolution.rawValue + rel.addend.toUInt64 + bias - link.tlsStartAddress)
      else
        .ok (resolution.rawValue + rel.addend.toUInt64 + bias - link.tlsEndAddress)
  | _ => others.value rel place

/-- The kinds of which the value is adjusted to what is at the place. -/
def adjusted : RelocationKind T → Bool
  | .absoluteAddition | .absoluteAdditionWord6 | .absoluteSubtraction | .absoluteSetWord6
  | .absoluteSubtractionWord6 => true
  | _ => false

/-- A section after a relocation was applied without a relaxation. -/
def applyRelocation [DecidableEq T] (lebUnsigned : BitVec 64 → List UInt8) (arch : Arch T)
    (others : OtherRelocations T) (sectionInfo : SectionInfo)
    (previous : Option (Riscv.Relocation T)) (rel : Riscv.Relocation T) (offsetInSection : UInt64)
    (out : List UInt8) : Fallible (List UInt8) := do
  let info ← arch.relocationFromRaw rel.rawType
  let place := sectionInfo.sectionAddress + offsetInSection
  if info.kind = .none then
    .ok out
  else if info.kind = .alignment then
    others.align rel out
  else if info.kind = .relative ∧ rel.symbol = none then
    ensure (link.layout.positionIndependent = false)
      (s!"relocation of type {arch.relTypeToString rel.rawType} to absolute address cannot be used "
        ++ "in position-independent output; recompile with -fPIC")
    info.storeAt lebUnsigned (rel.addend.toUInt64 - place) out offsetInSection.toNat
  else
    ensure (¬ (info.kind = .absolute ∧ link.isSharedObject = true ∧
        arch.isDisallowedInSharedObject rel.rawType = true))
      (s!"relocation type {arch.relTypeToString rel.rawType} cannot be used when making a shared "
        ++ "object; recompile with -fPIC")
    let (resolution, symbolIndex) ← Riscv.getResolution link.object rel
    let flags := link.flagsForSymbol symbolIndex
    ensure (¬ (link.layout.positionIndependent = true ∧
        (flags.isInterposable = true ∨ flags.dynamic = true) ∧ flags.copyRelocation = false ∧
        flags.plt = false ∧ arch.isDisallowedForInterposableSymbols rel.rawType = true))
      (s!"relocation {arch.relTypeToString rel.rawType} cannot be used against symbol; "
        ++ "recompile with -fPIC")
    let value ← link.relocationValue arch others info sectionInfo previous rel place resolution
      symbolIndex
    let value ← info.adjustedValue (adjusted info.kind) value out offsetInSection.toNat
    let value ←
      if info.thunkable && !info.range.contains value.toBitVec.toInt then others.thunk rel place
      else .ok value
    info.storeAt lebUnsigned value out offsetInSection.toNat

theorem getResolution_symbol {rel : Riscv.Relocation T} {resolution : Resolution}
    {symbolIndex : Nat} (h : Riscv.getResolution link.object rel = .ok (resolution, symbolIndex)) :
    rel.symbol = some symbolIndex := by
  rw [Riscv.getResolution] at h
  obtain ⟨index, hindex, h⟩ := bind_eq_ok.mp h
  obtain ⟨sym, -, h⟩ := bind_eq_ok.mp h
  rw [context_eq_ok] at hindex
  cases hmerged : link.object.mergedSymbolResolution index with
  | some merged =>
      simp only [hmerged] at h
      cases h
      exact hindex
  | none =>
      simp only [hmerged] at h
      cases hsection : sym.sectionIndex with
      | none =>
          simp only [hsection] at h
          obtain ⟨address, -, h⟩ := bind_eq_ok.mp h
          obtain ⟨rawValue, -, h⟩ := bind_eq_ok.mp h
          cases h
          exact hindex
      | some sectionIndex =>
          simp only [hsection] at h
          obtain ⟨address, -, h⟩ := bind_eq_ok.mp h
          obtain ⟨rawValue, -, h⟩ := bind_eq_ok.mp h
          cases h
          exact hindex

/-- What is left of an application where nothing is refused. -/
theorem applyRelocation_of_allowed [DecidableEq T] {lebUnsigned : BitVec 64 → List UInt8}
    {arch : Arch T} {others : OtherRelocations T} {sectionInfo : SectionInfo}
    {previous : Option (Riscv.Relocation T)} {rel : Riscv.Relocation T} {offsetInSection : UInt64}
    {out : List UInt8} {info : RelocationKindInfo T} {resolution : Resolution} {symbolIndex : Nat}
    (hinfo : arch.relocationTypeFromRaw rel.rawType = some info) (hnone : info.kind ≠ .none)
    (halignment : info.kind ≠ .alignment) (habsolute : info.kind ≠ .absolute)
    (hplt : info.kind ≠ .pltRelative)
    (hresolution : Riscv.getResolution link.object rel = .ok (resolution, symbolIndex))
    (hallowed : arch.isDisallowedForInterposableSymbols rel.rawType = false) :
    link.applyRelocation lebUnsigned arch others sectionInfo previous rel offsetInSection out =
      (do
        let value ← link.relocationValue arch others info sectionInfo previous rel
          (sectionInfo.sectionAddress + offsetInSection) resolution symbolIndex
        let value ← info.adjustedValue (adjusted info.kind) value out offsetInSection.toNat
        info.storeAt lebUnsigned value out offsetInSection.toNat) := by
  have hsymbol := link.getResolution_symbol hresolution
  have hthunk : info.thunkable = false := by
    cases h : info.thunkable with
    | false => rfl
    | true => exact absurd (arch.thunkable _ _ hinfo h) hplt
  rw [applyRelocation, Arch.relocationFromRaw, hinfo, context, bind_ok]
  simp only [hnone, halignment, habsolute, hsymbol, hallowed, hthunk, hresolution, if_false,
    reduceCtorEq, and_false, false_and, not_false_eq_true, Bool.false_and, Bool.false_eq_true,
    ensure, if_true, bind_ok]

/-! ### Debug sections -/

/-- The kinds of which a debug section adjusts the value to what is at the place. -/
def debugAdjusted : RelocationKind T → Bool
  | .absoluteAddition | .absoluteSubtraction | .absoluteSetWord6 | .absoluteSubtractionWord6 => true
  | _ => false

/-- The value of a relocation of a debug section whose symbol has a resolution. -/
def debugValue [DecidableEq T] (arch : Arch T) (info : RelocationKindInfo T)
    (previous : Option (Riscv.Relocation T)) (rel : Riscv.Relocation T) (resolution : Resolution)
    (symbolIndex : Nat) (offsetInSection : UInt64) (out : List UInt8) : Fallible UInt64 :=
  match info.kind with
  | .absolute | .absoluteSet | .absoluteSetWord6 | .absoluteAddition | .absoluteAdditionWord6
  | .absoluteSubtraction | .absoluteSubtractionWord6 => do
      let value ← link.valueWithAddend resolution symbolIndex rel.addend
      info.adjustedValue (debugAdjusted info.kind) value out offsetInSection.toNat
  | .dtpOff => .ok (resolution.rawValue - link.tlsEndAddress + rel.addend.toUInt64)
  | .pairSubtractionUleb128 expectedRType => do
      let previous ← context previous missingPrevious
      link.getPairSubtractionRelocationValue arch rel resolution symbolIndex previous expectedRType
  | .relative =>
      if info.size = .byteSize 0 then .ok 0
      else .error (.error "Unsupported debug relocation kind")
  | _ => .error (.error "Unsupported debug relocation kind")

/-- The value for a symbol that has no resolution. -/
def unresolvedValue (sym : SymtabEntry) (symbolIndex : Nat) (addend : Int64)
    (sectionTombstoneValue : UInt64) : Fallible UInt64 :=
  match sym.sectionIndex with
  | none => .ok sectionTombstoneValue
  | some sectionIndex => do
      match ← unwrap link.object.sections[sectionIndex]? with
      | .mergeStrings _ =>
          let address ← Riscv.getMergedStringOutputAddress link.layout link.strings link.object
            symbolIndex addend link.layout.sectionPartIds false
          context address "Cannot get merged string offset for a debug info section"
      | .other =>
          ensure (link.unloaded sectionIndex = true)
            "Could not find a relocation resolution for a debug info section"
          .ok sectionTombstoneValue

/-- A debug section after a relocation was applied. -/
def applyDebugRelocation [DecidableEq T] (lebUnsigned : BitVec 64 → List UInt8) (arch : Arch T)
    (sectionTombstoneValue : UInt64) (previous : Option (Riscv.Relocation T))
    (rel : Riscv.Relocation T) (offsetInSection : UInt64) (out : List UInt8) :
    Fallible (List UInt8) := do
  let symbolIndex ← context rel.symbol "Unsupported absolute relocation"
  let sym ← context link.object.symbols[symbolIndex]? "Invalid ELF symbol index"
  let info ← arch.relocationFromRaw rel.rawType
  let value ← match ← link.findResolution symbolIndex sym with
    | some resolution =>
        link.debugValue arch info previous rel resolution symbolIndex offsetInSection out
    | none => link.unresolvedValue sym symbolIndex rel.addend sectionTombstoneValue
  info.storeAt lebUnsigned value out offsetInSection.toNat

end Link

end JdxLinker.Relocation
