import JdxLinker.Layout.OutputKind
import JdxLinker.Lib.A64
import JdxLinker.Lib.Failure
import JdxLinker.Lib.SortedMap
import JdxLinker.Thunks.Blocks

/-!
# Branches that go through a thunk

A branch whose value is out of range is sent to the thunk of its symbol. The thunks of a block were
given addresses with the layout, in the order of the symbols, and are written in that order.
-/

namespace JdxLinker.Thunks

open A64 (Address)

abbrev SymbolId := Nat

/-! ### Relocations of branches -/

/-- `R_AARCH64_CALL26` and `R_AARCH64_JUMP26`, the relocations that can use a thunk. -/
inductive BranchType where
  | call26
  | jump26
  deriving Repr, DecidableEq

inductive RelocationKind where
  | relative
  | pltRelative
  deriving Repr, DecidableEq

structure AllowedRange where
  min : Int
  max : Int
  deriving Repr, DecidableEq

def AllowedRange.contains (range : AllowedRange) (value : Int) : Bool :=
  range.min ≤ value && value < range.max

/-- How far a value is outside the range. -/
def AllowedRange.overrun (range : AllowedRange) (value : Int) : Int :=
  if value < range.min then value - range.min
  else if value > range.max then value - range.max
  else 0

structure PageMaskValue where
  symbolPlusAddend : Address
  place : Address
  deriving Repr, DecidableEq

/-- The mask of a relocation that does not ask for pages. -/
def PageMaskValue.default : PageMaskValue := ⟨BitVec.allOnes 64, BitVec.allOnes 64⟩

structure RelocationKindInfo where
  kind : RelocationKind
  mask : PageMaskValue
  range : AllowedRange
  alignment : Nat
  bias : Address
  thunkable : Bool
  deriving Repr, DecidableEq

def relocationFromRaw (_ : BranchType) : RelocationKindInfo where
  kind := .pltRelative
  mask := .default
  range := ⟨-2 ^ 27, 2 ^ 27⟩
  alignment := 4
  bias := 0
  thunkable := true

/-- Bits `start` up to `stop` of a value. -/
def extractBitRange (value : BitVec 64) (start stop : Nat) : BitVec 64 :=
  (value >>> start) &&& BitVec.ofNat 64 (2 ^ (stop - start) - 1)

/-- Writes the value to the immediate of a branch, which keeps the bits it has. -/
def RelocationKindInfo.writeToBuffer (info : RelocationKindInfo) (value : BitVec 64)
    (instruction : BitVec 32) : Fallible (BitVec 32) := do
  Fallible.ensure (value.toNat % info.alignment = 0)
    s!"Relocation {value.toInt} not aligned to {info.alignment} bytes"
  Fallible.ensure (info.range.contains value.toInt = true)
    s!"Relocation {value.toInt} outside of bounds [{info.range.min}, {info.range.max})"
  return instruction ||| (extractBitRange value 2 28).setWidth 32

/-! ### Thunks -/

/-- A block with the symbols of its thunks, sorted and without duplicates, and its address. -/
structure PlacedBlock where
  address : Address
  symbols : List SymbolId
  sorted : symbols.Pairwise (· < ·)

/-- The symbols of a block, from those that were collected for it. -/
def PlacedBlock.build (address : Address) (symbols : List SymbolId) : PlacedBlock where
  address := address
  symbols := symbols.mergeSort.dedup
  sorted := by
    have hle : symbols.mergeSort.dedup.Pairwise (· ≤ ·) :=
      (List.pairwise_mergeSort' (· ≤ ·) symbols).sublist (List.dedup_sublist _)
    exact (hle.and (List.nodup_dedup _)).imp fun h => lt_of_le_of_ne h.1 h.2

def thunkSize : Address := 12

/-- The addresses of the thunks of a block, in the order of the symbols. -/
def PlacedBlock.thunkAddresses (block : PlacedBlock) : SortedMap SymbolId Address :=
  (block.symbols.foldl
    (fun (state : SortedMap SymbolId Address × Address) symbol =>
      (state.1.insert symbol state.2, state.2 + thunkSize))
    (SortedMap.empty, block.address)).1

/-- The immediate of `ADRP`. -/
def adrMask (value : BitVec 64) : BitVec 32 :=
  ((extractBitRange value 0 2).setWidth 32 <<< (29 : Nat))
    ||| ((extractBitRange value 2 32).setWidth 32 <<< (5 : Nat))

/-- `ADRP x16`, `ADD x16, x16` and `BR x16`. -/
def writeThunk (thunkAddress targetAddress : Address) : List (BitVec 32) :=
  let thunkPage := thunkAddress &&& ~~~0xfff#64
  let targetPage := targetAddress &&& ~~~0xfff#64
  let pageDiff := targetPage - thunkPage
  let pageCount := (pageDiff.sdiv 0x1000#64) &&& 0x1fffff#64
  [0x90000010#32 ||| adrMask pageCount,
    0x91000210#32 ||| ((targetAddress &&& 0xfff#64).setWidth 32 <<< (10 : Nat)),
    0xd61f0200#32]

/-! ### The layout of a link -/

structure Resolution where
  rawValue : Address
  flags : ValueFlags
  pltAddress : Option Address
  deriving Repr, DecidableEq

structure ThunkLayout where
  /-- The definition of a symbol, found in two steps. -/
  definition : SymbolId → SymbolId
  symbolResolutions : SymbolId → Option Resolution
  flagsForSymbol : SymbolId → ValueFlags
  /-- The address in its section of a symbol that has no resolution. -/
  sectionAddress : SymbolId → Option Address
  blocks : List PlacedBlock
  relax : Bool
  isStaticExecutable : Bool
  symbolName : SymbolId → String

/-- The place of a relocation of a branch. -/
structure BranchSite where
  relocation : BranchType
  symbol : SymbolId
  addend : Int
  place : Address
  instruction : BitVec 32
  isBranch : instruction.extractLsb' 26 5 = 0b00101#5
  isExecutable : Bool
  isPrimary : Bool
  part : String
  /-- The block of the object. -/
  thunkBlockId : ThunkBlockId

namespace ThunkLayout

variable (layout : ThunkLayout)

def mergedSymbolResolution (symbol : SymbolId) : Option Resolution :=
  (layout.symbolResolutions (layout.definition symbol)).map fun resolution =>
    { resolution with flags := resolution.flags.merge (layout.flagsForSymbol symbol) }

def getResolution (symbol : SymbolId) : Fallible Resolution :=
  Fallible.context
    ((layout.mergedSymbolResolution symbol).or
      ((layout.sectionAddress symbol).map fun address => ⟨address, .empty, none⟩))
    s!"Missing resolution for: {layout.symbolName symbol}"

/-- Whether and how the relocation is changed, and whether it has to be. -/
def newRelaxation (site : BranchSite) : Option (RelocationKindInfo × Bool) :=
  let relocation := relocationFromRaw site.relocation
  let flags := layout.flagsForSymbol site.symbol
  if flags.ifunc then some ({ relocation with kind := .pltRelative }, true)
  else if !site.isExecutable then none
  else if !flags.isInterposable then
    some ({ relocation with kind := .relative }, layout.isStaticExecutable)
  else none

def relocationInfo (site : BranchSite) : RelocationKindInfo :=
  match (layout.newRelaxation site).filter fun relaxation => layout.relax || relaxation.2 with
  | some relaxation => relaxation.1
  | none => relocationFromRaw site.relocation

def pltAddress (resolution : Resolution) : Fallible Address :=
  Fallible.context resolution.pltAddress "Missing PLT address"

/-- The address to which the relocation adds its addend: that of the symbol or of its PLT entry. -/
def baseAddress (site : BranchSite) : Fallible Address := do
  let resolution ← layout.getResolution site.symbol
  match (layout.relocationInfo site).kind with
  | .pltRelative => pltAddress resolution
  | .relative => if resolution.flags.ifunc then pltAddress resolution else return resolution.rawValue

def directValue (site : BranchSite) : Fallible Address := do
  let base ← layout.baseAddress site
  let info := layout.relocationInfo site
  return ((base + BitVec.ofInt 64 site.addend + info.bias) &&& info.mask.symbolPlusAddend)
    - (site.place &&& info.mask.place)

/-- The block that has the thunks for a site. -/
def blockOf (site : BranchSite) : Option PlacedBlock :=
  layout.blocks[if site.isPrimary then site.thunkBlockId else ThunkBlockId.first]?

/-- The thunk for a site, if there is one. -/
def thunkAddress (site : BranchSite) : Option Address := do
  let block ← layout.blockOf site
  block.thunkAddresses.get? (layout.definition site.symbol)

def maybeGetThunkForRelocation (site : BranchSite) (value : Address) :
    Fallible (Option Address) :=
  let info := layout.relocationInfo site
  if !info.thunkable then .ok none
  else if info.range.contains value.toInt then .ok none
  else
    match layout.thunkAddress site with
    | some thunkAddress =>
      if thunkAddress = 0 then
        .error (.error s!"Thunk address not yet allocated for symbol {layout.symbolName site.symbol}")
      else
        .ok (some (((thunkAddress + info.bias) &&& info.mask.symbolPlusAddend)
          - (site.place &&& info.mask.place)))
    | none =>
      .error (.error (s!"Branch relocation out of range by {info.range.overrun value.toInt} "
        ++ s!"for symbol {layout.symbolName site.symbol} but no thunk allocated. "
        ++ s!"Part: {site.part}. Offset: {value.toInt}"))

/-- Where the thunk of a symbol goes. -/
def thunkTarget (symbol : SymbolId) : Fallible Address := do
  let resolution ← Fallible.context (layout.mergedSymbolResolution symbol)
    s!"No resolution for symbol {layout.symbolName symbol} needed by thunk"
  return resolution.pltAddress.getD resolution.rawValue

/-- Writes the thunks of a block one after the other, from its address on. -/
def writeThunks : Address → List (SymbolId × Address) → Fallible (List (Address × List (BitVec 32)))
  | _, [] => .ok []
  | position, (symbol, thunkAddress) :: thunks => do
    let target ← layout.thunkTarget symbol
    let rest ← writeThunks (position + thunkSize) thunks
    return (position, writeThunk thunkAddress target) :: rest

end ThunkLayout

end JdxLinker.Thunks
