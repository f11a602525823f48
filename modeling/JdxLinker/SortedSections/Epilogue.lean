import JdxLinker.Layout.Alignment
import JdxLinker.Lib.Filling
import JdxLinker.SortedSections.Needs

/-!
# Sections that a script sorts

The sections that are to be sorted by name can come from any group, and are placed and written by the
epilogue, which has a group of its own after all others. Loading them reserves entries for their
relocations in the groups that they come from.
-/

namespace JdxLinker.SortedSections

open Filling

variable {T : Type}

/-- A section that is to be sorted, with its relocations as they are loaded and as they are applied. -/
structure SortedSection (T : Type) where
  name : List UInt8
  displayName : String
  partId : Nat
  size : Nat
  flags : SectionFlags
  loaded : List (LoadedRelocation T)
  written : List (WrittenRelocation T)

/-- The parts of the output sections. The sections of a packed part have no padding after them. -/
structure Parts where
  alignment : Nat → Alignment
  shouldPack : Nat → Bool
  hasDataInFile : Nat → Bool

def Parts.capacity (parts : Parts) (partId size : Nat) : Nat :=
  if parts.shouldPack partId then size else (parts.alignment partId).alignUp size

/-- The sorted sections of the groups of a link, the entries that the epilogue has for itself, and where
its bytes of each part start. -/
structure Link (T : Type) where
  options : Options
  parts : Parts
  groups : List (List (SortedSection T))
  epilogueEntries : TableEntries
  startOffsets : Nat → Nat

structure InputSortedSection (T : Type) where
  section_ : SortedSection T
  partId : Nat
  size : Nat
  alignment : Alignment

/-! ### Loading -/

def TableEntries.add (a b : TableEntries) : TableEntries :=
  ⟨a.relative + b.relative, a.general + b.general, a.relr + b.relr⟩

/-- The entries that a group reserves for its sorted sections. -/
def loadGroup (C : ElfClass) (options : Options) : List (SortedSection T) → Fallible TableEntries
  | [] => .ok .zero
  | sec :: secs => do
      let entries ← loadSectionRelocations C options sec.flags sec.loaded
      let rest ← loadGroup C options secs
      .ok (entries.add rest)

def loadGroups (C : ElfClass) (options : Options) :
    List (List (SortedSection T)) → Fallible (List TableEntries)
  | [] => .ok []
  | group :: groups => do
      let entries ← loadGroup C options group
      let rest ← loadGroups C options groups
      .ok (entries :: rest)

/-! ### Layout -/

namespace Link

variable (link : Link T)

def inputSection (sec : SortedSection T) : InputSortedSection T where
  section_ := sec
  partId := sec.partId
  size := link.parts.capacity sec.partId sec.size
  alignment := link.parts.alignment sec.partId

/-- The sorted sections of all groups, by name. Sections of one name stay in their order. -/
def harvestAndSortScriptSections : List (InputSortedSection T) :=
  ((link.groups.flatten.map fun sec => (sec.name, link.inputSection sec)).mergeSort
    fun a b => decide (a.1 ≤ b.1)).map Prod.snd

end Link

def assignAddressesToSortedSections : (Nat → Nat) → List (InputSortedSection T) → List Nat
  | _, [] => []
  | epilogueOffsets, sec :: secs =>
      let offset := sec.alignment.alignUp (epilogueOffsets sec.partId)
      offset :: assignAddressesToSortedSections
        (Function.update epilogueOffsets sec.partId (offset + sec.size)) secs

/-- What the epilogue reserves for sections, in each part. -/
def applyLateSizeAdjustments (secs : List (InputSortedSection T)) : Nat → Nat :=
  secs.foldl (fun extraSizes sec =>
    Function.update extraSizes sec.partId (extraSizes sec.partId + sec.size)) fun _ => 0

/-- Where the epilogue's bytes of each part end. -/
def finaliseLayout (memoryOffsets : Nat → Nat) (secs : List (InputSortedSection T)) : Nat → Nat :=
  secs.foldl (fun memoryOffsets sec => Function.update memoryOffsets sec.partId
    (sec.alignment.alignUp (memoryOffsets sec.partId) + sec.size)) memoryOffsets

/-! ### Writing -/

/-- How much was taken of the buffer of each part, and the tables. -/
structure EpilogueWriter where
  taken : Nat → Nat
  table : TableWriter

/-- The next bytes of a part's buffer, if the part has bytes in the file. -/
def EpilogueWriter.takeBytes (parts : Parts) (sizes : Nat → Nat) (writer : EpilogueWriter)
    (sec : SortedSection T) : Fallible (Option Nat × EpilogueWriter) :=
  if parts.hasDataInFile sec.partId then do
    let allocationSize := parts.capacity sec.partId sec.size
    let remaining := sizes sec.partId - writer.taken sec.partId
    Fallible.ensure (allocationSize ≤ remaining)
      s!"Insufficient space allocated to section `{sec.displayName}`. Tried to take {allocationSize} bytes, but only {remaining} remain"
    .ok (some (writer.taken sec.partId), { writer with
      taken := Function.update writer.taken sec.partId (writer.taken sec.partId + allocationSize) })
  else
    .ok (none, writer)

def writeObjectSection (C : ElfClass) (link : Link T) (sizes : Nat → Nat) (writer : EpilogueWriter)
    (sec : SortedSection T) : Fallible (Option Nat × EpilogueWriter) := do
  let (offset, writer) ← writer.takeBytes link.parts sizes sec
  let table ← applyRelocations C link.options sec.flags sec.written writer.table
  .ok (offset, { writer with table := table })

/-- Writes the sections one after another, for where in the buffers they are. The encoder of `.relr.dyn`
goes on from one section to the next. -/
def writeSortedSections (C : ElfClass) (link : Link T) (sizes : Nat → Nat) :
    EpilogueWriter → List (InputSortedSection T) → Fallible (List (Option Nat) × EpilogueWriter)
  | writer, [] => .ok ([], writer)
  | writer, sec :: secs => do
      let (offset, writer) ← writeObjectSection C link sizes writer sec.section_
      let (offsets, writer) ← writeSortedSections C link sizes writer secs
      .ok (offset :: offsets, writer)

namespace Link

variable (link : Link T)

def sizes : Nat → Nat := applyLateSizeAdjustments link.harvestAndSortScriptSections

/-- The epilogue's writer after it wrote its own entries: none are left, as it has no others. -/
def epilogueWriter : EpilogueWriter where
  taken _ := 0
  table := {
    left := .zero
    relrDyn := link.options.relrEnabled && decide (0 < link.epilogueEntries.relr)
    relrWriter := .noRun }

/-- What was reserved for sorted sections is what is used of it. The writers of the groups that they
come from leave them to the epilogue. -/
structure Agrees (C : ElfClass) (reserved : List TableEntries) : Prop where
  groups : ∀ entries ∈ reserved, entries.validateEmpty entries = .ok ()
  written : ∃ (slices : List (Option Nat)) (writer : EpilogueWriter),
    writeSortedSections C link link.sizes link.epilogueWriter link.harvestAndSortScriptSections =
        .ok (slices, writer) ∧
    writer.table.left.validateEmpty .zero = .ok () ∧
    (∀ partId, link.parts.hasDataInFile partId → writer.taken partId = link.sizes partId) ∧
    ∀ (i address offset : Nat) (sec : InputSortedSection T),
      link.harvestAndSortScriptSections[i]? = some sec →
      (assignAddressesToSortedSections link.startOffsets
        link.harvestAndSortScriptSections)[i]? = some address →
      slices[i]? = some (some offset) → address = link.startOffsets sec.partId + offset
  layout : ∀ partId, finaliseLayout link.startOffsets link.harvestAndSortScriptSections partId =
    link.startOffsets partId + link.sizes partId

end Link

end JdxLinker.SortedSections
