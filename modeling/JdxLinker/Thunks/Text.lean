import JdxLinker.Layout.Alignment
import JdxLinker.Layout.OutputKind
import JdxLinker.Lib.Placement
import JdxLinker.Thunks.Blocks

/-!
# Executable code and its layout

Most code is in one part of the output, the primary part. The other parts with code come before it.
Whether a branch may need a thunk is decided before the layout, from the bytes of the sections. The
layout rounds the sections up to their alignment, leaves gaps between parts, and adds the thunks.
-/

namespace JdxLinker.Thunks

/-- A file whose sections have been loaded: an object with the sizes of its sections in the primary
part. -/
inductive LoadedFile where
  | object (sections : List Nat)
  | other
  deriving Repr, DecidableEq

def LoadedFile.state : LoadedFile → FileLayoutState
  | object sections => .object sections.sum
  | other => .other

def loadedObjects (groups : List (List LoadedFile)) : List (FileId × List Nat) :=
  groups.zipIdx.flatMap fun group =>
    group.1.zipIdx.filterMap fun file =>
      match file.1 with
      | .object sections => some (⟨group.2, file.2⟩, sections)
      | .other => none

/-- A part of the output with executable code. -/
structure TextPart where
  size : Nat
  alignment : Alignment
  deriving Repr, DecidableEq

structure Text where
  /-- The end of what is before the executable code. -/
  memOffset : Nat
  nonPrimary : List TextPart
  primaryAlignment : Alignment
  /-- The alignment of the sections in the primary part. -/
  sectionAlignment : Alignment
  shouldPack : Bool
  groups : List (List LoadedFile)
  deriving Repr, DecidableEq

namespace Text

variable (text : Text)

def objects : List (FileId × List Nat) := loadedObjects text.groups

def states : List (List FileLayoutState) := text.groups.map fun files => files.map LoadedFile.state

/-! ### Before the layout -/

def computeNonPrimaryTextSize : Nat := (text.nonPrimary.map TextPart.size).sum

def primaryRanges : List PrimaryRange :=
  collectPrimaryRanges text.computeNonPrimaryTextSize (objectsOf text.states)

def assignments (branchRange : Nat) : List Assignment :=
  (assignThunkBlocksToGroups branchRange text.computeNonPrimaryTextSize text.states).2

end Text

/-- A definition that a branch refers to. -/
structure Definition where
  fileId : FileId
  inPrimaryPart : Bool
  flags : ValueFlags
  deriving Repr, DecidableEq

def primaryRangeForSymbol (primaryRanges : List PrimaryRange) (definition : Definition) :
    Option PrimaryRange :=
  if definition.flags.ifunc || definition.flags.dynamic || !definition.inPrimaryPart then none
  else primaryRanges.find? fun range => range.fileId = definition.fileId

/-- Whether a thunk can be skipped, from where the object of the branch and the definition are. -/
def provablyInRange (branchRange : Nat) (primaryRanges : List PrimaryRange) (source : PrimaryRange)
    (definition : Definition) : Bool :=
  match primaryRangeForSymbol primaryRanges definition with
  | some range =>
    -- the branch may go through the PLT, which is in another part
    let defStart := if definition.flags.plt then 0 else range.start
    max source.stop range.stop - min source.start defStart < branchRange
  | none => source.stop < branchRange

/-! ### The layout -/

/-- A section or a part of the output at its address. -/
structure Placed where
  address : Nat
  size : Nat
  deriving Repr, DecidableEq

/-- The parts at their addresses, and the end of the last one. -/
def layoutParts : Nat → List TextPart → List Placed × Nat
  | memOffset, [] => ([], memOffset)
  | memOffset, part :: parts =>
    let address := part.alignment.alignUp memOffset
    let rest := layoutParts (address + part.size) parts
    (⟨address, part.size⟩ :: rest.1, rest.2)

structure PlacedSections where
  fileId : FileId
  sections : List Placed
  deriving Repr, DecidableEq

namespace Text

variable (text : Text)

/-- The space that a section takes up. -/
def capacity (size : Nat) : Nat :=
  if text.shouldPack then size else text.sectionAlignment.alignUp size

abbrev capacityOf (sections : List Nat) : Nat := Placement.extent text.capacity sections

def placedParts : List Placed := (layoutParts text.memOffset text.nonPrimary).1

def primaryAddress : Nat :=
  text.primaryAlignment.alignUp (layoutParts text.memOffset text.nonPrimary).2

def placeSections : Nat → List Nat → List Placed
  | _, [] => []
  | address, size :: sections =>
    ⟨address, size⟩ :: placeSections (address + text.capacity size) sections

/-- The bytes of the block that an object owns, if it owns one. -/
def blockBytes (branchRange : Nat) (blockSize : ThunkBlockId → Nat) (fileId : FileId) : Nat :=
  let assignment := assignmentOf (text.assignments branchRange) fileId
  if assignment.isOwner then blockSize assignment.blockId else 0

/-- What an object takes up in the primary part: its sections and its block. -/
def spaceOf (branchRange : Nat) (blockSize : ThunkBlockId → Nat) (object : FileId × List Nat) : Nat :=
  text.capacityOf object.2 + text.blockBytes branchRange blockSize object.1

def finaliseObjects (branchRange : Nat) (blockSize : ThunkBlockId → Nat) :
    Nat → List (FileId × List Nat) → List PlacedSections
  | _, [] => []
  | address, object :: objects =>
    ⟨object.1, text.placeSections address object.2⟩
      :: finaliseObjects branchRange blockSize
        (address + text.spaceOf branchRange blockSize object) objects

def finalise (branchRange : Nat) (blockSize : ThunkBlockId → Nat) : List PlacedSections :=
  text.finaliseObjects branchRange blockSize text.primaryAddress text.objects

end Text

/-! ### Branches without a thunk -/

/-- An address where a branch to a definition may go: where it is defined in the primary part, or an
address in another part, which is where the PLT is. -/
inductive Definition.At (definition : Definition) (parts : List Placed)
    (placed : List PlacedSections) : Nat → Prop
  | primary {object : PlacedSections} {found : Placed} {offset : Nat}
      (hprimary : definition.inPrimaryPart = true) (hifunc : definition.flags.ifunc = false)
      (hdynamic : definition.flags.dynamic = false) (hobject : object ∈ placed)
      (hid : object.fileId = definition.fileId) (hfound : found ∈ object.sections)
      (hoffset : offset ≤ found.size) :
      definition.At parts placed (found.address + offset)
  | elsewhere {part : Placed} {offset : Nat}
      (helsewhere : definition.flags.plt = true ∨ definition.flags.ifunc = true ∨
        definition.flags.dynamic = true ∨ definition.inPrimaryPart = false)
      (hpart : part ∈ parts) (hoffset : offset ≤ part.size) :
      definition.At parts placed (part.address + offset)

/-- Branches that are provably in range are in the range of a branch instruction, whose range allows
for the largest block. -/
def SkipsSafely (branchRange : Nat) (text : Text) : Prop :=
  ∀ blockSize : ThunkBlockId → Nat, (∀ blockId, blockSize blockId ≤ maximumThunkBytesPerBlock) →
    ∀ object ∈ text.finalise branchRange blockSize, ∀ source ∈ text.primaryRanges,
      source.fileId = object.fileId → ∀ found ∈ object.sections, ∀ offset < found.size,
        ∀ (definition : Definition) (target : Nat),
          definition.At text.placedParts (text.finalise branchRange blockSize) target →
          provablyInRange branchRange text.primaryRanges source definition = true →
          found.address + offset < target + (branchRange + maximumThunkBytesPerBlock) ∧
            target < found.address + offset + (branchRange + maximumThunkBytesPerBlock)

end JdxLinker.Thunks
