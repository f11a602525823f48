import JdxLinker.Layout.OutputKind
import JdxLinker.Relocation.Kinds
import JdxLinker.Relr.Encoder

/-!
# Dynamic relocation entries

Loading a section reserves entries of `.rela.dyn` and `.relr.dyn` for its relocations, and writing it
takes entries for them. Both go through the relocations in the same way, but decide for themselves
which of them need an entry.
-/

namespace JdxLinker.SortedSections

open Relocation

variable {T : Type}

/-! ### Tables -/

inductive EntryKind where
  | relative
  | general
  | relr
  deriving DecidableEq, Repr

/-- Numbers of entries. -/
structure TableEntries where
  relative : Nat
  general : Nat
  relr : Nat
  deriving DecidableEq, Repr

namespace TableEntries

def zero : TableEntries := ⟨0, 0, 0⟩

def total (entries : TableEntries) : Nat := entries.relative + entries.general + entries.relr

def allocate (entries : TableEntries) : EntryKind → TableEntries
  | .relative => { entries with relative := entries.relative + 1 }
  | .general => { entries with general := entries.general + 1 }
  | .relr => { entries with relr := entries.relr + 1 }

/-- What is left after an entry was taken. -/
def take (entries : TableEntries) : EntryKind → Option TableEntries
  | .relative =>
      if 0 < entries.relative then some { entries with relative := entries.relative - 1 } else none
  | .general =>
      if 0 < entries.general then some { entries with general := entries.general - 1 } else none
  | .relr => if 0 < entries.relr then some { entries with relr := entries.relr - 1 } else none

theorem total_allocate (entries : TableEntries) (kind : EntryKind) :
    (entries.allocate kind).total = entries.total + 1 := by
  cases kind <;> simp only [allocate, total] <;> omega

theorem total_eq_zero {entries : TableEntries} : entries.total = 0 ↔ entries = zero := by
  constructor
  · intro h
    rw [total] at h
    rw [zero, TableEntries.mk.injEq]
    omega
  · intro h
    rw [h]
    rfl

theorem take_zero (kind : EntryKind) : zero.take kind = none := by
  cases kind <;> rfl

/-- Reports entries that no one took. -/
def validateEmpty (left allocated : TableEntries) : Fallible Unit :=
  let excessive (sectionName : String) (remaining allocated : Nat) : Fallible Unit :=
    .error (.error
      s!"Allocated too much space in {sectionName}. {remaining} of {allocated} bytes remain. Setting JDXLD_VERIFY_ALLOCATIONS=1 might give more info")
  if 0 < left.relative then
    excessive ".rela.dyn (relative)" (left.relative * 24) (allocated.relative * 24)
  else if 0 < left.general then
    excessive ".rela.dyn (general)" (left.general * 24) (allocated.general * 24)
  else if 0 < left.relr then
    excessive ".relr.dyn" (left.relr * 8) (allocated.relr * 8)
  else
    .ok ()

theorem validateEmpty_eq_ok {left allocated : TableEntries} :
    left.validateEmpty allocated = .ok () ↔ left = zero := by
  simp only [validateEmpty]
  constructor
  · intro h
    rw [← total_eq_zero, total]
    by_cases hrelative : 0 < left.relative
    · rw [if_pos hrelative] at h
      cases h
    · by_cases hgeneral : 0 < left.general
      · rw [if_neg hrelative, if_pos hgeneral] at h
        cases h
      · by_cases hrelr : 0 < left.relr
        · rw [if_neg hrelative, if_neg hgeneral, if_pos hrelr] at h
          cases h
        · omega
  · intro h
    rw [h]
    rfl

end TableEntries

/-! ### Relocations one after another -/

inductive RelocationModifier where
  | normal
  | skipNextRelocation
  deriving DecidableEq, Repr

section Scan

variable {R σ : Type} (nextModifier : R → RelocationModifier) (step : σ → R → Fallible σ)

/-- Goes through relocations, some of which make the next one be skipped. -/
def scanRelocations : RelocationModifier → σ → List R → Fallible σ
  | _, s, [] => .ok s
  | .skipNextRelocation, s, _ :: rels => scanRelocations .normal s rels
  | .normal, s, rel :: rels => do
      let s ← step s rel
      scanRelocations (nextModifier rel) s rels

/-- The relocations that are not skipped. -/
def visited : RelocationModifier → List R → List R
  | _, [] => []
  | .skipNextRelocation, _ :: rels => visited .normal rels
  | .normal, rel :: rels => rel :: visited (nextModifier rel) rels

theorem scanRelocations_eq (modifier : RelocationModifier) (s : σ) (rels : List R) :
    scanRelocations nextModifier step modifier s rels =
      (visited nextModifier modifier rels).foldlM step s := by
  induction rels generalizing modifier s with
  | nil => cases modifier <;> rfl
  | cons rel rels ih =>
      cases modifier with
      | skipNextRelocation => exact ih .normal s
      | normal =>
          rw [scanRelocations, visited, List.foldlM_cons]
          congr 1
          funext s
          exact ih _ s

end Scan

/-! ### Loading -/

/-- How a symbol is referenced by a relocation. -/
def resolutionFlags : RelocationKind T → ValueFlags
  | .pltRelative | .pltRelGotBase => { plt := true, got := true }
  | .got | .gotRelGotBase | .gotRelative | .gotRelativeLoongArch64 => { got := true }
  | .gotTpOff | .gotTpOffLoongArch64 | .gotTpOffGot | .gotTpOffGotBase => { gotTlsOffset := true }
  | .tlsGd | .tlsGdGot | .tlsGdGotBase => { gotTlsModule := true }
  | .tlsDesc | .tlsDescLoongArch64 | .tlsDescGot | .tlsDescGotBase | .tlsDescCall =>
      { gotTlsDescriptor := true }
  | .absolute | .absoluteSet | .absoluteSetWord6 | .absoluteAddition | .absoluteAdditionWord6
  | .absoluteSubtraction | .absoluteSubtractionWord6 | .relative | .relativeRiscVLow12
  | .relativeLoongArchHigh | .dtpOff | .tpOff | .symRelGotBase | .pairSubtractionUleb128 _ =>
      { direct := true }
  | .tlsLd | .tlsLdGot | .tlsLdGotBase | .none | .absoluteLowPart | .alignment => .empty

def isTls : RelocationKind T → Bool
  | .dtpOff | .gotTpOff | .gotTpOffGotBase | .tlsDesc | .tlsDescCall | .tlsDescGot
  | .tlsDescGotBase | .tlsGd | .tlsGdGot | .tlsGdGotBase | .tlsLd | .tlsLdGot | .tlsLdGotBase
  | .tpOff => true
  | _ => false

def isAbsoluteKind : RelocationKind T → Bool
  | .absolute => true
  | _ => false

structure SectionFlags where
  alloc : Bool
  writable : Bool
  deriving DecidableEq, Repr

/-- The options of a link. Copy relocations can be disabled for a reason. -/
structure Options where
  outputKind : OutputKind
  relrEnabled : Bool
  copyRelocationsDisabled : Option String
  deriving Repr

/-- A relocation as it is classified when its section is loaded. -/
structure LoadedRelocation (T : Type) where
  kind : RelocationKind T
  typeName : String
  disallowedForInterposableSymbols : Bool
  offset : Nat
  flags : ValueFlags
  symbolDebug : String
  nextModifier : RelocationModifier

/-- The encoder of the section, and the entries that were allocated so far. -/
structure LoadState where
  relrWriter : RelrState
  entries : TableEntries

def LoadState.allocate (state : LoadState) (kind : EntryKind) : LoadState :=
  { state with entries := state.entries.allocate kind }

/-- The entries that a relocation of a section makes its group reserve. -/
def materializeRelocationRequirements (C : ElfClass) (options : Options)
    (sectionFlags : SectionFlags) (state : LoadState) (rel : LoadedRelocation T) :
    Fallible LoadState :=
  if !sectionFlags.alloc then
    .ok state
  else if isTls rel.kind then
    .ok state
  else if (resolutionFlags rel.kind).direct && rel.flags.isInterposable then
    if options.outputKind.isSharedObject && rel.disallowedForInterposableSymbols then
      .error (.error
        s!"relocation {rel.typeName} cannot be used when making a shared object; recompile with -fPIC")
    else if sectionFlags.writable then
      .ok (state.allocate .general)
    else if rel.flags.dynamicFunction then
      .ok state
    else if !rel.flags.absolute then
      match options.copyRelocationsDisabled with
      | none => .ok state
      | some reason => .error (.error
          s!"Direct relocation ({rel.typeName}) to dynamic symbol from non-writable section, but copy relocations are disabled because {reason}. {rel.symbolDebug}")
    else
      .ok state
  else if rel.flags.ifunc && isAbsoluteKind rel.kind && sectionFlags.writable
      && options.outputKind.isPositionIndependent then
    .ok (state.allocate .general)
  else if options.outputKind.isPositionIndependent && isAbsoluteKind rel.kind
      && rel.flags.hasLinkTimeAddress then
    if sectionFlags.writable then
      if options.relrEnabled && rel.offset % 2 == 0 then
        let next := { state with relrWriter := state.relrWriter.advance C rel.offset }
        match (state.relrWriter.emitted C rel.offset).2 with
        | .new => .ok (next.allocate .relr)
        | .update => .ok next
      else
        .ok (state.allocate .relative)
    else
      .error (.error
        s!"Cannot apply relocation {rel.typeName} to read-only section. Please recompile with -fPIC or link with -no-pie")
  else
    .ok state

def loadSectionRelocations (C : ElfClass) (options : Options) (sectionFlags : SectionFlags)
    (rels : List (LoadedRelocation T)) : Fallible TableEntries := do
  let state ← scanRelocations LoadedRelocation.nextModifier
    (materializeRelocationRequirements C options sectionFlags) .normal ⟨.noRun, .zero⟩ rels
  .ok state.entries

/-! ### Writing -/

/-- A relocation as it is applied, with the flags of the resolution of its symbol. -/
structure WrittenRelocation (T : Type) where
  kind : RelocationKind T
  place : Nat
  flags : ValueFlags
  dynamicSymbolIndex : Option Nat
  nextModifier : RelocationModifier

/-- The entries that are left. Entries of `.relr.dyn` are only written if there were any. -/
structure TableWriter where
  left : TableEntries
  relrDyn : Bool
  relrWriter : RelrState

namespace TableWriter

def sectionName : EntryKind → String
  | .relative => ".rela.dyn (relative)"
  | .general => ".rela.dyn (non-relative)"
  | .relr => ".relr.dyn"

def take (writer : TableWriter) (kind : EntryKind) : Fallible TableWriter :=
  match writer.left.take kind with
  | some left => .ok { writer with left := left }
  | none => .error (.error
      s!"Insufficient {sectionName kind} allocation. Setting JDXLD_VERIFY_ALLOCATIONS=1 might give more info")

def writeAddressRelocation (C : ElfClass) (writer : TableWriter) (place : Nat) :
    Fallible TableWriter :=
  if writer.relrDyn && place % 2 == 0 then
    let next := { writer with relrWriter := writer.relrWriter.advance C place }
    match (writer.relrWriter.emitted C place).2 with
    | .new => next.take .relr
    | .update => .ok next
  else
    writer.take .relative

end TableWriter

def writeAbsoluteRelocation (C : ElfClass) (options : Options) (sectionFlags : SectionFlags)
    (writer : TableWriter) (rel : WrittenRelocation T) : Fallible TableWriter :=
  if !sectionFlags.alloc then
    .ok writer
  else if rel.flags.dynamic && rel.flags.absolute && !sectionFlags.writable then
    .ok writer
  else if rel.flags.isInterposable && sectionFlags.writable then do
    let _ ← Fallible.context rel.dynamicSymbolIndex "Missing dynamic_symbol_index"
    writer.take .general
  else if rel.flags.ifunc && sectionFlags.writable && options.outputKind.isPositionIndependent then
    writer.take .general
  else if options.outputKind.isPositionIndependent && !rel.flags.absolute then
    writer.writeAddressRelocation C rel.place
  else
    .ok writer

/-- Only absolute relocations take entries. -/
def applyRelocation (C : ElfClass) (options : Options) (sectionFlags : SectionFlags)
    (writer : TableWriter) (rel : WrittenRelocation T) : Fallible TableWriter :=
  if isAbsoluteKind rel.kind then
    writeAbsoluteRelocation C options sectionFlags writer rel
  else
    .ok writer

def applyRelocations (C : ElfClass) (options : Options) (sectionFlags : SectionFlags)
    (rels : List (WrittenRelocation T)) (writer : TableWriter) : Fallible TableWriter :=
  scanRelocations WrittenRelocation.nextModifier (applyRelocation C options sectionFlags) .normal
    writer rels

end JdxLinker.SortedSections
