import JdxLinker.Layout.OutputKind

/-!
# The reference graph

What is loaded is found by following references. Each file belongs to a group, and work on a file is
done by the group's worker: it loads symbols and sections of its files and makes the requests that
their references lead to.
-/

namespace JdxLinker

structure FileId where
  group : Nat
  file : Nat
  deriving DecidableEq, Repr

/-- Symbols are numbered file by file, so that a symbol's id tells the file it is in. -/
structure SymbolId where
  file : FileId
  offset : Nat
  deriving DecidableEq, Repr

inductive WorkItem where
  | loadGlobalSymbol (symbol : SymbolId)
  | copyRelocateSymbol (symbol : SymbolId)
  | loadGcUnit (file : FileId) (gcUnit : Nat)
  | exportDynamic (symbol : SymbolId)
  deriving DecidableEq, Repr

def WorkItem.fileId : WorkItem → FileId
  | .loadGlobalSymbol symbol => symbol.file
  | .copyRelocateSymbol symbol => symbol.file
  | .loadGcUnit file _ => file
  | .exportDynamic symbol => symbol.file

/-! ### Files -/

inductive SectionSlot where
  | discard
  | unloaded (needsSorting : Bool)
  | mustLoad (needsSorting : Bool)
  | loaded
  | sorted
  | frameData
  | mergeStrings
  | unloadedDebugInfo
  | loadedDebugInfo
  | noteGnuProperty
  | riscvVAttributes
  deriving DecidableEq, Repr

/-- A relocation as processing it sees it: the definition of its symbol, the flags that it adds to
those of the symbol, and whether it makes the next one superfluous. What it adds depends on nothing
that changes while references are followed. `refused` is the error of a relocation that cannot be
applied, `undefined` that of a symbol that is not defined. -/
structure Relocation where
  symbol : Option SymbolId
  flagsToAdd : ValueFlags
  skipsNext : Bool := false
  refused : Option String := none
  undefined : Option String := none
  deriving DecidableEq, Repr

/-- A section of an object, with its own relocations and those of its exception frames. -/
structure SectionInput where
  slot : SectionSlot
  size : Nat
  relocations : List Relocation
  frameRelocations : List Relocation
  deriving DecidableEq, Repr

/-- A symbol of an object. `exported` tells whether the object itself exports it, `exportable`
whether it may be exported for a shared object. -/
structure ObjectSymbol where
  sectionIndex : Option Nat
  exported : Bool
  exportable : Bool
  deriving DecidableEq, Repr

/-- An object file. The relocations of the CIEs are processed whatever is loaded. -/
structure ObjectInput where
  sections : List SectionInput
  symbols : List ObjectSymbol
  cieRelocations : List Relocation
  exportsSymbols : Bool
  deriving DecidableEq, Repr

/-- A symbol that the linker or a linker script defines. `redirect` lists the definitions of the
symbols in its expression. -/
structure InternalSymbol where
  canonical : Bool
  hidden : Bool
  named : Bool
  redirect : Option (List SymbolId)
  deriving DecidableEq, Repr

/-- A symbol of a shared object. -/
structure DynamicSymbol where
  definition : SymbolId
  undefinedError : Option String
  deriving DecidableEq, Repr

inductive FileInput where
  | prelude (entry : Option SymbolId) (symbols : List InternalSymbol)
  | object (object : ObjectInput)
  | dynamic (symbols : List DynamicSymbol)
  | linkerScript (locationCounters : List SymbolId) (symbols : List InternalSymbol)
  | syntheticSymbols (sectionIds : List (Option Nat)) (startStopSections : List (List (FileId × Nat)))
  | other
  deriving DecidableEq, Repr

/-- What the traversal starts from. -/
structure GraphInputs where
  groups : List (List FileInput)
  noGc : Bool
  staticExecutable : Bool
  symbolFlags : SymbolId → ValueFlags

/-- The part of a file that work on it changes. -/
inductive FileLayoutState where
  | object (sections : List SectionSlot)
  | syntheticSymbols (startStopSections : List (List (FileId × Nat)))
  | dynamic
  | other
  deriving DecidableEq, Repr

def FileInput.createLayoutState : FileInput → FileLayoutState
  | .object obj => .object (obj.sections.map (·.slot))
  | .syntheticSymbols _ startStopSections => .syntheticSymbols startStopSections
  | .dynamic _ => .dynamic
  | .prelude _ _ => .other
  | .linkerScript _ _ => .other
  | .other => .other

/-! ### Requests -/

/-- A reference to a symbol. `firstFlags` are added by the first reference only. -/
structure Reference where
  symbol : SymbolId
  flagsToAdd : ValueFlags
  firstFlags : ValueFlags
  undefined : Option String
  deriving DecidableEq, Repr

/-- What a worker does to the state that it shares, one access after the other. -/
inductive Request where
  | reference (reference : Reference)
  | setFlags (symbol : SymbolId) (flags : ValueFlags)
  | exportSymbol (symbol : SymbolId)
  | send (item : WorkItem)
  | sendToSlot (item : WorkItem)
  | fail (error : String)
  deriving DecidableEq, Repr

namespace GraphInputs

variable (inputs : GraphInputs)

def file? (fileId : FileId) : Option FileInput :=
  inputs.groups[fileId.group]?.bind (·[fileId.file]?)

def objectSymbol? (symbol : SymbolId) : Option ObjectSymbol :=
  match inputs.file? symbol.file with
  | some (.object object) => object.symbols[symbol.offset]?
  | _ => none

def sectionInput? (fileId : FileId) (gcUnit : Nat) : Option SectionInput :=
  match inputs.file? fileId with
  | some (.object object) => object.sections[gcUnit]?
  | _ => none

/-- Processing one relocation. -/
def processRelocation (rel : Relocation) : List Request :=
  match rel.symbol with
  | none => []
  | some symbol =>
      match rel.refused with
      | some error => [.fail error]
      | none =>
          let firstFlags : ValueFlags :=
            if (inputs.symbolFlags symbol).ifunc && inputs.staticExecutable then
              { got := true, plt := true }
            else
              .empty
          [.reference ⟨symbol, rel.flagsToAdd, firstFlags, rel.undefined⟩]

def loadSectionRelocations (skip : Bool) : List Relocation → List Request
  | [] => []
  | rel :: rels =>
      if skip then
        loadSectionRelocations false rels
      else
        inputs.processRelocation rel
          ++ loadSectionRelocations (rel.symbol.isSome && rel.skipsNext) rels

/-- The references of a section that is loaded. -/
def loadSection (sec : SectionInput) : List Request :=
  inputs.loadSectionRelocations false sec.relocations
    ++ if 0 < sec.size then sec.frameRelocations.flatMap inputs.processRelocation else []

/-- Loading a symbol of an object loads the section that it is in. -/
def loadObjectSymbol (symbol : SymbolId) : List Request :=
  match (inputs.objectSymbol? symbol).bind (·.sectionIndex) with
  | some sectionIndex => [.send (.loadGcUnit symbol.file sectionIndex)]
  | none => []

/-! ### Activation -/

def activateSectionGc (fileId : FileId) (object : ObjectInput) : List Request :=
  (object.sections.zipIdx.flatMap fun (sec, i) =>
    match sec.slot with
    | .mustLoad _ => [.send (.loadGcUnit fileId i)]
    | .unloadedDebugInfo => [.send (.loadGcUnit fileId i)]
    | .mergeStrings => [.send (.loadGcUnit fileId i)]
    | .unloaded _ => if inputs.noGc then [.send (.loadGcUnit fileId i)] else []
    | _ => [])
  ++ object.cieRelocations.flatMap inputs.processRelocation

def loadNonHiddenSymbols (fileId : FileId) (object : ObjectInput) : List Request :=
  object.symbols.zipIdx.flatMap fun (symbol, i) =>
    if symbol.sectionIndex.bind (fun index => object.sections[index]?.map (·.slot)) = some .discard
    then []
    else if symbol.exported then [.exportSymbol ⟨fileId, i⟩] else []

/-- A reference from an expression, or from the entry point. -/
def loadReferencedSymbol (symbol : SymbolId) : Request :=
  .reference ⟨symbol, { direct := true }, .empty, none⟩

def loadRedirectReferencedSymbols (symbol : SymbolId) (expression : List SymbolId) : List Request :=
  .setFlags symbol { direct := true } :: expression.map loadReferencedSymbol

/-- Marks symbols that are defined on the command line as used. -/
def markDefsymsAsUsed (fileId : FileId) (symbols : List InternalSymbol) : List Request :=
  symbols.zipIdx.flatMap fun (symbol, i) =>
    if symbol.canonical then
      (symbol.redirect.map (loadRedirectReferencedSymbols ⟨fileId, i⟩)).getD []
    else []

/-- Activates the symbols that a linker script defines. -/
def activateSymbols (fileId : FileId) (symbols : List InternalSymbol) : List Request :=
  symbols.zipIdx.flatMap fun (symbol, i) =>
    if symbol.canonical && !symbol.hidden then
      (symbol.redirect.map (loadRedirectReferencedSymbols ⟨fileId, i⟩)).getD []
        ++ if symbol.named then [.setFlags ⟨fileId, i⟩ { exportDynamic := true }] else []
    else []

def requestAllUndefinedSymbols (fileId : FileId) (symbols : List DynamicSymbol) : List Request :=
  symbols.zipIdx.flatMap fun (symbol, i) =>
    let flags := inputs.symbolFlags symbol.definition
    if flags.dynamic && flags.absolute then
      (symbol.undefinedError.map Request.fail).toList
    else if symbol.definition ≠ ⟨fileId, i⟩ then [.send (.exportDynamic symbol.definition)] else []

/-- The requests of a file that are made whatever is loaded. -/
def activate (fileId : FileId) : FileInput → List Request
  | .object object =>
      inputs.activateSectionGc fileId object
        ++ if object.exportsSymbols then loadNonHiddenSymbols fileId object else []
  | .prelude entry symbols =>
      (entry.map loadReferencedSymbol).toList ++ markDefsymsAsUsed fileId symbols
  | .dynamic symbols => inputs.requestAllUndefinedSymbols fileId symbols
  | .linkerScript locationCounters symbols =>
      locationCounters.map loadReferencedSymbol ++ activateSymbols fileId symbols
  | .syntheticSymbols _ _ => []
  | .other => []

/-! ### Work -/

/-- Loads a section unless that has been done. -/
def handleSectionLoadRequest (fileId : FileId) (sections : List SectionSlot) (gcUnit : Nat) :
    Except String (FileLayoutState × List Request) :=
  match sections[gcUnit]?, inputs.sectionInput? fileId gcUnit with
  | some (.unloaded needsSorting), some sec =>
      .ok (.object (sections.set gcUnit (if needsSorting then .sorted else .loaded)),
        inputs.loadSection sec)
  | some (.mustLoad needsSorting), some sec =>
      .ok (.object (sections.set gcUnit (if needsSorting then .sorted else .loaded)),
        inputs.loadSection sec)
  | some .unloadedDebugInfo, some _ => .ok (.object (sections.set gcUnit .loadedDebugInfo), [])
  | some .discard, some _ =>
      .error "Don't know what segment to put the section in, but it's referenced"
  | some _, some _ => .ok (.object sections, [])
  | _, _ => .error "Invalid section index"

/-- The sections whose bounds a symbol stands for are all loaded, once. -/
def loadSyntheticSymbol (symbol : SymbolId) (startStopSections : List (List (FileId × Nat))) :
    FileLayoutState × List Request :=
  match inputs.file? symbol.file with
  | some (.syntheticSymbols sectionIds _) =>
      match sectionIds[symbol.offset]?.join with
      | some sectionId =>
          (.syntheticSymbols (startStopSections.set sectionId []),
            (startStopSections[sectionId]?.getD []).map fun (file, gcUnit) =>
              .sendToSlot (.loadGcUnit file gcUnit))
      | none => (.syntheticSymbols startStopSections, [])
  | _ => (.syntheticSymbols startStopSections, [])

/-- Exports a symbol that a shared object refers to, if that is possible. -/
def exportDynamic (symbol : SymbolId) (sections : List SectionSlot) : List Request :=
  match inputs.objectSymbol? symbol with
  | some objectSymbol =>
      if objectSymbol.sectionIndex.bind (sections[·]?) = some .discard then []
      else if objectSymbol.exportable then [.exportSymbol symbol] else []
  | none => [.fail "Invalid symbol index"]

/-- What one work item does to its file, and the requests that follow. -/
def doWork (file : FileLayoutState) : WorkItem → Except String (FileLayoutState × List Request)
  | .loadGlobalSymbol symbol =>
      match file with
      | .object _ => .ok (file, inputs.loadObjectSymbol symbol)
      | .syntheticSymbols startStopSections =>
          .ok (inputs.loadSyntheticSymbol symbol startStopSections)
      | _ => .ok (file, [])
  | .copyRelocateSymbol _ =>
      match file with
      | .dynamic => .ok (file, [])
      | _ => .error "Internal error: ExportCopyRelocation sent to non-dynamic object"
  | .loadGcUnit fileId gcUnit =>
      match file with
      | .object sections => inputs.handleSectionLoadRequest fileId sections gcUnit
      | _ => .error "Request to load GC unit from non-object"
  | .exportDynamic symbol =>
      match file with
      | .object sections => .ok (file, inputs.exportDynamic symbol sections)
      | _ => .ok (file, [])

end GraphInputs

end JdxLinker
