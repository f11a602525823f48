import JdxLinker.Layout.OutputKind
import JdxLinker.Lib.Failure
import JdxLinker.Riscv.RelaxDeltas
import JdxLinker.StringMerge.Schedule

/-!
# The values of symbols

The address that a relocation's symbol stands for: its PLT entry, the merged string it points at,
or the value that the layout gave it.
-/

namespace JdxLinker.Riscv

open Fallible

abbrev PartId := Nat
abbrev OutputSectionId := Nat

def gotEntrySize : UInt64 := 8

structure SymtabEntry where
  hasName : Bool
  sectionIndex : Option Nat
  value : UInt64

inductive SectionSlot where
  | mergeStrings (startInputOffset : UInt64)
  | other

structure Resolution where
  rawValue : UInt64
  gotAddress : Option UInt64 := none
  pltAddress : Option UInt64 := none
  flags : ValueFlags := .empty

/-- The identifiers of an object's sections among those of all objects. -/
structure SectionIdRange where
  startSectionId : Nat
  numSections : Nat

def SectionIdRange.inputToId (range : SectionIdRange) (sectionIndex : Nat) : Nat :=
  range.startSectionId + sectionIndex

/-- The entries of the object's own sections in a table about the sections of all objects. -/
def SectionIdRange.slice {α : Type} (range : SectionIdRange) (table : List α) : List α :=
  (table.drop range.startSectionId).take range.numSections

theorem SectionIdRange.getElem?_slice_eq_none {α : Type} (range : SectionIdRange) {table : List α}
    {i : Nat} (h : table[i]? = none) : (range.slice table)[i]? = none := by
  rw [List.getElem?_eq_none_iff] at h ⊢
  rw [slice, List.length_take, List.length_drop]
  omega

structure ObjectLayout where
  symbols : List SymtabEntry
  sections : List SectionSlot
  sectionResolutions : List (Option UInt64)
  sectionIdRange : SectionIdRange
  sectionRelaxDeltas : Nat → Option SectionRelaxDeltas
  /-- What the layout knows of the definition that each symbol of the object stands for. -/
  mergedSymbolResolution : Nat → Option Resolution

structure ElfLayout where
  sectionPartIds : List PartId
  outputSectionId : PartId → OutputSectionId
  positionIndependent : Bool
  tlsldGotEntry : Option UInt64

structure Relocation (RelocationType : Type) where
  offset : UInt64
  rawType : RelocationType
  symbol : Option Nat
  addend : Int64

/-- The merged sections, and where their buckets start. -/
structure MergedStrings (M : OffsetMap) where
  sections : OutputSectionId → MergedStringsSection M
  startAddresses : OutputSectionId → List UInt64

variable {M : OffsetMap} {T : Type}

/-! ### Merged strings -/

/-- Looks for the string at `inputOffset` in the section that starts at `startInputOffset`, and
backwards from there if no string starts at that offset. -/
def findString (startInputOffset inputOffset : UInt64) (stringsSection : MergedStringsSection M) :
    Fallible BucketOffset :=
  match stringsSection.stringOffset (startInputOffset + inputOffset).toNat with
  | some stringOffset => .ok stringOffset
  | none =>
      let found := (List.range inputOffset.toNat).findSome? fun j =>
        let i := j + 1
        (stringsSection.stringOffset
          (startInputOffset + (inputOffset - UInt64.ofNat i)).toNat).map fun stringOffset =>
            (⟨(stringOffset.val + i) % 2 ^ 32⟩ : BucketOffset)
      context found ("Failed to find merge-string at offset "
        ++ toString (startInputOffset + inputOffset).toNat)

def getMergedStringOutputAddress (layout : ElfLayout) (strings : MergedStrings M)
    (object : ObjectLayout) (symbolIndex : Nat) (addend : Int64) (sectionPartIds : List PartId)
    (zeroUnnamed : Bool) : Fallible (Option UInt64) := do
  let symbol ← context object.symbols[symbolIndex]? "Invalid ELF symbol index"
  match symbol.sectionIndex with
  | none => .ok none
  | some sectionIndex =>
      match ← unwrap object.sections[sectionIndex]? with
      | .other => .ok none
      | .mergeStrings startInputOffset =>
          if !symbol.hasName && zeroUnnamed then
            .ok (some 0)
          else
            let inputOffset :=
              if symbol.hasName then symbol.value else symbol.value + addend.toUInt64
            let inputSectionId := object.sectionIdRange.inputToId sectionIndex
            let sectionId ← unwrap (sectionPartIds[inputSectionId]?.map layout.outputSectionId)
            let stringOffset ←
              findString startInputOffset inputOffset (strings.sections sectionId)
            let bucketBase ← unwrap (strings.startAddresses sectionId)[stringOffset.bucket]?
            let address := bucketBase + UInt64.ofNat stringOffset.offsetInBucket
            .ok (some (if symbol.hasName then address + addend.toUInt64 else address))

/-- Only the output section of the string's part matters. -/
theorem getMergedStringOutputAddress_congr {layout : ElfLayout} {strings : MergedStrings M}
    {object : ObjectLayout} {symbolIndex : Nat} {addend : Int64} {partIds partIds' : List PartId}
    {zeroUnnamed : Bool}
    (h : ∀ symbol idx start, object.symbols[symbolIndex]? = some symbol →
      symbol.sectionIndex = some idx → object.sections[idx]? = some (.mergeStrings start) →
      partIds[object.sectionIdRange.inputToId idx]?.map layout.outputSectionId =
        partIds'[object.sectionIdRange.inputToId idx]?.map layout.outputSectionId) :
    getMergedStringOutputAddress layout strings object symbolIndex addend partIds zeroUnnamed =
      getMergedStringOutputAddress layout strings object symbolIndex addend partIds'
        zeroUnnamed := by
  unfold getMergedStringOutputAddress
  cases hsymbol : object.symbols[symbolIndex]? with
  | none => rfl
  | some symbol =>
      simp only [context, bind_ok]
      cases hidx : symbol.sectionIndex with
      | none => rfl
      | some idx =>
          cases hslot : object.sections[idx]? with
          | none =>
              simp only [hslot]
              rfl
          | some slot =>
              cases slot with
              | other => simp only [hslot, unwrap, bind_ok]
              | mergeStrings start =>
                  simp only [hslot, unwrap, bind_ok, h symbol idx start hsymbol hidx hslot]

/-- What is found at an offset is what the section says of the offset. -/
theorem findString_of_stringOffset {startInputOffset inputOffset : UInt64}
    {stringsSection : MergedStringsSection M} {o : BucketOffset}
    (h : stringsSection.stringOffset (startInputOffset + inputOffset).toNat = some o) :
    findString startInputOffset inputOffset stringsSection = .ok o := by
  rw [findString, h]

/-- Without an overflow the search is that of the merged section. -/
theorem findString_eq_ok {startInputOffset inputOffset : UInt64}
    {stringsSection : MergedStringsSection M} {o : BucketOffset}
    (hsize : startInputOffset.toNat + inputOffset.toNat < 2 ^ 64) :
    findString startInputOffset inputOffset stringsSection = .ok o ↔
      stringsSection.findString startInputOffset.toNat inputOffset.toNat = .ok o := by
  have hsum : (startInputOffset + inputOffset).toNat =
      startInputOffset.toNat + inputOffset.toNat := by
    rw [UInt64.toNat_add, Nat.mod_eq_of_lt hsize]
  have hback : ∀ j < inputOffset.toNat,
      (startInputOffset + (inputOffset - UInt64.ofNat (j + 1))).toNat =
        startInputOffset.toNat + (inputOffset.toNat - (j + 1)) := by
    intro j hj
    have hi : (UInt64.ofNat (j + 1)).toNat = j + 1 := by
      rw [UInt64.toNat_ofNat']
      exact Nat.mod_eq_of_lt (by omega)
    have hle : UInt64.ofNat (j + 1) ≤ inputOffset := by
      rw [UInt64.le_iff_toNat_le, hi]
      omega
    rw [UInt64.toNat_add, UInt64.toNat_sub_of_le _ _ hle, hi, Nat.mod_eq_of_lt (by omega)]
  have hfound : ((List.range inputOffset.toNat).findSome? fun j =>
      (stringsSection.stringOffset
        (startInputOffset + (inputOffset - UInt64.ofNat (j + 1))).toNat).map fun stringOffset =>
          (⟨(stringOffset.val + (j + 1)) % 2 ^ 32⟩ : BucketOffset)) =
      (List.range inputOffset.toNat).findSome? fun j =>
        (stringsSection.stringOffset
          (startInputOffset.toNat + (inputOffset.toNat - (j + 1)))).map fun stringOffset =>
            (⟨(stringOffset.val + (j + 1)) % 2 ^ 32⟩ : BucketOffset) := by
    apply Lists.findSome?_congr
    intro j hj
    rw [hback j (List.mem_range.mp hj)]
  rw [findString, MergedStringsSection.findString, hsum, hfound]
  cases stringsSection.stringOffset (startInputOffset.toNat + inputOffset.toNat) with
  | some stringOffset => simp
  | none =>
      cases (List.range inputOffset.toNat).findSome? fun j =>
        (stringsSection.stringOffset
          (startInputOffset.toNat + (inputOffset.toNat - (j + 1)))).map fun stringOffset =>
            (⟨(stringOffset.val + (j + 1)) % 2 ^ 32⟩ : BucketOffset) <;> simp [context]

/-! ### The accessors of a resolution -/

namespace Resolution

def gotAddressOf (resolution : Resolution) : Fallible UInt64 :=
  context resolution.gotAddress "Missing GOT address"

def gotAddressForRelocation (resolution : Resolution) : Fallible UInt64 := do
  let gotAddress ← resolution.gotAddressOf
  .ok (if resolution.flags.ifuncGotForAddress then gotAddress + gotEntrySize else gotAddress)

/-- Where a symbol has both entries, the one for the offset comes first. -/
def tlsgdGotAddress (resolution : Resolution) : Fallible UInt64 := do
  let gotAddress ← resolution.gotAddressOf
  .ok (if resolution.flags.gotTlsOffset then gotAddress + gotEntrySize else gotAddress)

def pltAddressOf (resolution : Resolution) : Fallible UInt64 :=
  context resolution.pltAddress "Missing PLT address"

def valueWithAddend (resolution : Resolution) (layout : ElfLayout) (strings : MergedStrings M)
    (object : ObjectLayout) (addend : Int64) (symbolIndex : Nat) (sectionPartIds : List PartId) :
    Fallible UInt64 := do
  if resolution.flags.ifunc then
    let pltAddress ← resolution.pltAddressOf
    .ok (pltAddress + addend.toUInt64)
  else if resolution.rawValue = 0 then
    match ← getMergedStringOutputAddress layout strings object symbolIndex addend sectionPartIds
      false with
    | some address => .ok address
    | none => .ok (resolution.rawValue + addend.toUInt64)
  else
    .ok (resolution.rawValue + addend.toUInt64)

end Resolution

/-- The address of an object's section, and of an offset in it. -/
def ObjectLayout.sectionOffsetAddress (object : ObjectLayout) (sectionIndex : Nat)
    (inputOffset : UInt64) : Fallible (Option UInt64) := do
  let sectionAddress ← unwrap object.sectionResolutions[sectionIndex]?
  .ok (sectionAddress.map
    (· + optInputToOutput (object.sectionRelaxDeltas sectionIndex) inputOffset))

/-- The resolution of a relocation's symbol, and the symbol. A symbol that the layout knows nothing
of is where its object has it. -/
def getResolution (object : ObjectLayout) (rel : Relocation T) : Fallible (Resolution × Nat) := do
  let symbolIndex ← context rel.symbol "Unsupported absolute relocation"
  let sym ← context object.symbols[symbolIndex]? "Invalid ELF symbol index"
  match object.mergedSymbolResolution symbolIndex with
  | some resolution => .ok (resolution, symbolIndex)
  | none =>
      let address ← match sym.sectionIndex with
        | none => .ok none
        | some sectionIndex => object.sectionOffsetAddress sectionIndex sym.value
      let rawValue ← context address "Missing resolution"
      .ok ({ rawValue }, symbolIndex)

end JdxLinker.Riscv
