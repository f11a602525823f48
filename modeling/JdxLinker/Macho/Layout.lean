import JdxLinker.Layout.OutputKind
import JdxLinker.Lib.Failure
import Mathlib

/-!
# What the Mach-O writer knows

The layout that the writer works from: the active segments with their final places, the imported
symbols in the order of their GOT slots, and for each library the ordinal under which the output
refers to it. The ordinal of a library is its place among the dylib load commands, which name every
imported library once by its install name.
-/

namespace JdxLinker.Macho

abbrev SymbolId := Nat
abbrev FileId := Nat
abbrev Bytes := List UInt8

/-- A segment name. Segments of other names come from the input sections. -/
inductive SegmentName where
  | pagezero
  | text
  | data
  | dataConst
  | linkedit
  | llvm
  | other (name : Bytes)
  deriving Repr, DecidableEq

/-- Which segments are mapped writable. -/
def SegmentName.isWritable : SegmentName → Bool
  | .pagezero | .text | .linkedit => false
  | _ => true

/-- The place of a segment in memory and in the file. -/
structure OutputRecordLayout where
  memOffset : UInt64
  fileOffset : Nat
  fileSize : Nat
  deriving Repr, DecidableEq

structure SegmentLayout where
  name : SegmentName
  sizes : OutputRecordLayout
  deriving Repr, DecidableEq

/-- The name of a symbol, as a string table holds it: no NUL byte is part of a name. -/
structure SymbolName where
  bytes : Bytes
  no_nul : 0 ∉ bytes

/-- What the writer asks the symbol database. -/
structure SymbolDb where
  symbolName : SymbolId → SymbolName
  symbolDebug : SymbolId → String
  definition : SymbolId → SymbolId
  flagsForSymbol : SymbolId → ValueFlags
  fileIdForSymbol : SymbolId → FileId
  installName : FileId → Bytes

/-! ### Libraries and their ordinals -/

inductive LibraryKind where
  | stubLibrary
  | dynamic
  deriving Repr, DecidableEq

/-- A stub library or a dylib at the end of the graph traversal. -/
structure LibraryState where
  fileId : FileId
  kind : LibraryKind
  loaded : Bool
  importedSymbols : List SymbolId

structure FinaliseSizesExt where
  importedLibraries : List FileId
  importedSymbols : List SymbolId

/-- The first of the values of each key, in order. -/
def uniqueBy {α β : Type} [DecidableEq β] (key : α → β) : List α → List α
  | [] => []
  | a :: rest => a :: (uniqueBy key rest).filter fun b => key b ≠ key a

def createFinaliseSizesExt (db : SymbolDb) (libraries : List LibraryState) : FinaliseSizesExt where
  importedLibraries :=
    uniqueBy db.installName ((libraries.filter (·.loaded)).map (·.fileId))
  importedSymbols := libraries.flatMap (·.importedSymbols)

/-- The ordinal that the output uses for a library. -/
structure DynamicLayoutExt where
  ordinal : UInt8
  ordinal_ne : ordinal ≠ 0

inductive FileLayout where
  | stubLibrary (formatSpecific : DynamicLayoutExt)
  | dynamic (formatSpecific : DynamicLayoutExt)
  | notLoaded

theorem ordinal_ne_zero {index : Nat} (h : index + 1 < 256) :
    UInt8.ofNat (index + 1) ≠ 0 := by
  intro hzero
  have hnat := congrArg UInt8.toNat hzero
  rw [UInt8.toNat_ofNat_of_lt' h] at hnat
  exact absurd hnat (by simp)

def createDynamicLayoutExt (db : SymbolDb) (importedLibraries : List FileId)
    (targetFileId : FileId) : Fallible (Option DynamicLayoutExt) :=
  match importedLibraries.findIdx? fun fileId =>
      db.installName fileId == db.installName targetFileId with
  | none => .ok none
  | some index =>
      if h : index + 1 < 256 then
        .ok (some ⟨UInt8.ofNat (index + 1), ordinal_ne_zero h⟩)
      else .error (.error "Too many loaded stub libraries")

/-- The layout of a library. One that no load command names is dropped. -/
def finaliseLibrary (db : SymbolDb) (importedLibraries : List FileId) (library : LibraryState) :
    Fallible FileLayout := do
  match ← createDynamicLayoutExt db importedLibraries library.fileId with
  | none => return .notLoaded
  | some formatSpecific =>
      match library.kind with
      | .stubLibrary => return .stubLibrary formatSpecific
      | .dynamic => return .dynamic formatSpecific

/-! ### Imported symbols and GOT entries -/

/-- What the writer uses of the resolution of a symbol. -/
structure Resolution where
  rawValue : UInt64
  flags : ValueFlags
  gotAddress : Option UInt64
  pltAddress : Option UInt64
  directAddress : UInt64

structure ImportedSymbolWithResolution where
  symbolId : SymbolId
  gotAddress : UInt64
  deriving Repr, DecidableEq

structure LocalGotEntry where
  gotAddress : UInt64
  targetAddress : UInt64
  deriving Repr, DecidableEq

structure LayoutExt where
  importedSymbols : List ImportedSymbolWithResolution
  localGotEntries : List LocalGotEntry

/-- An imported symbol needs a resolution and a GOT slot. -/
def importedSymbolWithResolution (resolutions : List (Option Resolution)) (symbolId : SymbolId) :
    Fallible ImportedSymbolWithResolution := do
  let resolution ← Fallible.context resolutions[symbolId]?.join
    "missing resolution for a stub library symbol"
  let gotAddress ← Fallible.context resolution.gotAddress
    "missing GOT entry for a stub library symbol"
  return ⟨symbolId, gotAddress⟩

def localGotEntry (resolution : Resolution) : Option LocalGotEntry :=
  if resolution.flags.dynamic then none
  else resolution.gotAddress.map fun gotAddress => ⟨gotAddress, resolution.directAddress⟩

def createLayoutExt (finaliseSizesExt : FinaliseSizesExt) (resolutions : List (Option Resolution)) :
    Fallible LayoutExt := do
  let importedSymbols ←
    finaliseSizesExt.importedSymbols.mapM (importedSymbolWithResolution resolutions)
  return {
    importedSymbols := importedSymbols.mergeSort fun a b => a.gotAddress ≤ b.gotAddress
    localGotEntries := ((resolutions.filterMap id).filterMap localGotEntry).mergeSort
      fun a b => a.gotAddress ≤ b.gotAddress }

/-! ### The layout -/

structure MachOLayout where
  db : SymbolDb
  segments : List SegmentLayout
  libraries : List LibraryState
  resolutions : List (Option Resolution)
  tlsStart : Option UInt64
  fileLayout : FileId → FileLayout
  formatSpecific : LayoutExt

namespace MachOLayout

variable (layout : MachOLayout)

def finaliseSizesExt : FinaliseSizesExt :=
  createFinaliseSizesExt layout.db layout.libraries

/-- The layout as the earlier phases leave it: every part was computed from the libraries, and the
symbols that a library exports are its own. -/
structure Finalised : Prop where
  symbols : ∀ library ∈ layout.libraries, ∀ symbolId ∈ library.importedSymbols,
    layout.db.fileIdForSymbol symbolId = library.fileId
  files : ∀ library ∈ layout.libraries,
    finaliseLibrary layout.db layout.finaliseSizesExt.importedLibraries library
      = .ok (layout.fileLayout library.fileId)
  extended : createLayoutExt layout.finaliseSizesExt layout.resolutions = .ok layout.formatSpecific

/-- The address that the image is linked at. -/
def imageBase : Option UInt64 :=
  (layout.segments.find? fun segment => segment.name = .text).map (·.sizes.memOffset)

end MachOLayout

/-! ### Consequences -/

theorem importedSymbolWithResolution_symbolId {resolutions : List (Option Resolution)}
    {symbolId : SymbolId} {imported : ImportedSymbolWithResolution}
    (h : importedSymbolWithResolution resolutions symbolId = .ok imported) :
    imported.symbolId = symbolId := by
  obtain ⟨resolution, -, h⟩ := Fallible.bind_eq_ok.mp h
  obtain ⟨gotAddress, -, h⟩ := Fallible.bind_eq_ok.mp h
  cases h
  rfl

/-- The writer sees the symbols that space was reserved for, in another order. -/
theorem createLayoutExt_symbols {sizes : FinaliseSizesExt} {resolutions : List (Option Resolution)}
    {ext : LayoutExt} (h : createLayoutExt sizes resolutions = .ok ext) :
    (ext.importedSymbols.map (·.symbolId)).Perm sizes.importedSymbols := by
  obtain ⟨imported, himported, h⟩ := Fallible.bind_eq_ok.mp h
  cases h
  have hsame : imported.map (·.symbolId) = sizes.importedSymbols.map id :=
    Fallible.mapM_project (fun _ _ h => importedSymbolWithResolution_symbolId h) himported
  rw [List.map_id] at hsame
  rw [← hsame]
  exact (List.mergeSort_perm _ _).map _

/-! ### An image that imports one symbol -/

/-- An image that imports one symbol, called `f`, from the last of `count + 1` stub libraries. -/
def stubLayout (count : Nat) : MachOLayout where
  db := {
    symbolName := fun _ => ⟨[102], by decide⟩
    symbolDebug := fun _ => "f"
    definition := id
    flagsForSymbol := fun _ => { dynamic := true }
    fileIdForSymbol := fun _ => count
    installName := fun fileId => [UInt8.ofNat fileId] }
  segments := [
    ⟨.text, ⟨0x100000000, 0, 0x4000⟩⟩,
    ⟨.dataConst, ⟨0x100004000, 0x4000, 0x4000⟩⟩]
  libraries := (List.range (count + 1)).map fun fileId =>
    ⟨fileId, .stubLibrary, true, if fileId = count then [0] else []⟩
  resolutions := [some ⟨0, { dynamic := true, got := true }, some 0x100004000, none, 0⟩]
  tlsStart := none
  fileLayout := fun fileId =>
    if h : fileId + 1 < 256 then .stubLibrary ⟨UInt8.ofNat (fileId + 1), ordinal_ne_zero h⟩
    else .notLoaded
  formatSpecific := ⟨[⟨0, 0x100004000⟩], []⟩

theorem uniqueBy_eq_self {α β : Type} [DecidableEq β] {key : α → β} {l : List α}
    (h : (l.map key).Nodup) : uniqueBy key l = l := by
  induction l with
  | nil => rfl
  | cons a rest ih =>
      rw [List.map_cons, List.nodup_cons] at h
      rw [uniqueBy, ih h.2, List.filter_eq_self.mpr]
      intro b hb
      refine decide_eq_true fun hsame => h.1 ?_
      rw [← hsame]
      exact List.mem_map_of_mem hb

theorem stubLayout_installName {count a b : Nat} (ha : a + 1 < 256) (hb : b + 1 < 256)
    (h : (stubLayout count).db.installName a = (stubLayout count).db.installName b) : a = b := by
  have hbyte : UInt8.ofNat a = UInt8.ofNat b := List.singleton_inj.mp h
  have hnat := congrArg UInt8.toNat hbyte
  rwa [UInt8.toNat_ofNat_of_lt' (show a < 256 by omega),
    UInt8.toNat_ofNat_of_lt' (show b < 256 by omega)] at hnat

theorem stubLayout_libraries {count : Nat} (h : count < 255) :
    (stubLayout count).finaliseSizesExt = ⟨List.range (count + 1), [0]⟩ := by
  have hids : (((stubLayout count).libraries.filter (·.loaded)).map (·.fileId))
      = List.range (count + 1) := by
    simp [stubLayout, List.filter_map, Function.comp_def]
  have hsymbols : (stubLayout count).libraries.flatMap (·.importedSymbols) = [0] := by
    simp only [stubLayout, List.flatMap_map, List.range_succ, List.flatMap_append]
    rw [List.flatMap_eq_nil_iff.mpr]
    · simp
    · intro fileId hfile
      exact if_neg (Nat.ne_of_lt (List.mem_range.mp hfile))
  have hnodup : ((List.range (count + 1)).map (stubLayout count).db.installName).Nodup := by
    refine List.Nodup.map_on ?_ List.nodup_range
    intro a ha b hb hab
    have hlt : ∀ c ∈ List.range (count + 1), c + 1 < 256 := fun c hc =>
      Nat.lt_of_le_of_lt (List.mem_range.mp hc) (show count + 1 < 256 by omega)
    exact stubLayout_installName (hlt a ha) (hlt b hb) hab
  unfold MachOLayout.finaliseSizesExt createFinaliseSizesExt
  rw [hids, hsymbols, uniqueBy_eq_self hnodup]

theorem stubLayout_finalised {count : Nat} (h : count < 255) : (stubLayout count).Finalised where
  symbols := by
    intro library hlibrary symbolId hsymbol
    obtain ⟨fileId, -, rfl⟩ := List.mem_map.mp hlibrary
    by_cases hlast : fileId = count
    · exact hlast.symm
    · rw [if_neg hlast] at hsymbol
      cases hsymbol
  files := by
    intro library hlibrary
    rw [stubLayout_libraries h]
    obtain ⟨fileId, hfile, rfl⟩ := List.mem_map.mp hlibrary
    have hlt : fileId + 1 < 256 :=
      Nat.lt_of_le_of_lt (List.mem_range.mp hfile) (show count + 1 < 256 by omega)
    have hindex : (List.range (count + 1)).findIdx? (fun other =>
        (stubLayout count).db.installName other == (stubLayout count).db.installName fileId)
        = some fileId := by
      rw [List.findIdx?_eq_some_iff_getElem]
      refine ⟨by simpa using hfile, by simp, ?_⟩
      intro j hj hsame
      rw [List.getElem_range, beq_iff_eq] at hsame
      have hjlt : j + 1 < 256 := Nat.lt_trans (Nat.add_lt_add_right hj 1) hlt
      exact absurd (stubLayout_installName hjlt hlt hsame) (Nat.ne_of_lt hj)
    unfold finaliseLibrary createDynamicLayoutExt
    simp only [hindex]
    rw [dif_pos hlt, Fallible.bind_ok]
    have hfileLayout : (stubLayout count).fileLayout fileId
        = .stubLibrary ⟨UInt8.ofNat (fileId + 1), ordinal_ne_zero hlt⟩ := dif_pos hlt
    rw [hfileLayout]
    rfl
  extended := by
    rw [stubLayout_libraries h]
    simp [createLayoutExt, importedSymbolWithResolution, stubLayout, Fallible.context,
      localGotEntry, bind, Except.bind, pure, Except.pure]

end JdxLinker.Macho
