import JdxLinker.Wasm.Linking.ImportResolution

/-!
# The index spaces of the output

The function and global spaces of the output start with the imports that stay unresolved, which
objects share. After them come the entries that the linker defines, and then the live entries of the
objects, one object after the other. Each object gets a map from its own indexes to these.
-/

namespace JdxLinker.Wasm.Linking

open Fallible

/-! ### Shared imports -/

/-- The type of a function import, by the object and the index there. -/
structure FunctionTypeRef where
  firstObject : Nat
  localTypeIndex : Nat
  ty : FuncType
  deriving DecidableEq, Repr

/-- An import that stays in the output, for all objects that have it. -/
structure SharedImport (τ : Type) where
  module : String
  name : String
  ty : τ
  deriving DecidableEq, Repr

/-- The shared import of a module and name, which has to have the same type everywhere. -/
def findOrAddShared {τ : Type} (same : τ → τ → Bool) (shared : List (SharedImport τ))
    (import' : SharedImport τ) : Fallible (List (SharedImport τ) × Nat) :=
  match shared.findIdx? fun other => other.module = import'.module && other.name = import'.name with
  | some i => do
      let existing ← unwrap shared[i]?
      ensure (same existing.ty import'.ty) "conflicting types for import"
      .ok (shared, i)
  | none => .ok (shared ++ [import'], shared.length)

def shareSlot {τ : Type} (same : τ → τ → Bool) (shared : List (SharedImport τ))
    (slot : Option (SharedImport τ)) : Fallible (List (SharedImport τ) × Option Nat) :=
  match slot with
  | none => .ok (shared, none)
  | some import' => do
      let (shared, i) ← findOrAddShared same shared import'
      .ok (shared, some i)

/-- Goes through the imports of one object. Slots that are dead or resolved have no index. -/
def shareSlots {τ : Type} (same : τ → τ → Bool) : List (SharedImport τ) →
    List (Fallible (Option (SharedImport τ))) → Fallible (List (SharedImport τ) × List (Option Nat))
  | shared, [] => .ok (shared, [])
  | shared, slot :: slots => do
      let slot ← slot
      let (shared, i) ← shareSlot same shared slot
      let (shared, rest) ← shareSlots same shared slots
      .ok (shared, i :: rest)

/-- Goes through the imports of all objects. -/
def shareObjects {τ : Type} (same : τ → τ → Bool) : List (SharedImport τ) →
    List (List (Fallible (Option (SharedImport τ)))) →
    Fallible (List (SharedImport τ) × List (List (Option Nat)))
  | shared, [] => .ok (shared, [])
  | shared, slots :: objects => do
      let (shared, indices) ← shareSlots same shared slots
      let (shared, rest) ← shareObjects same shared objects
      .ok (shared, indices :: rest)

def functionSlot (input : WasmObjectLayoutInput) (resolutions : List ImportResolution)
    (objIdx : Nat) (item : WasmFunctionImport × Nat) :
    Fallible (Option (SharedImport FunctionTypeRef)) :=
  if isLive input.liveFunctionImports item.2 && resolutions[item.2]? = some .unresolved then do
    let ty ← context input.types[item.1.typeIndex]? "Wasm type index out of range for import"
    .ok (some ⟨item.1.module, item.1.name, objIdx, item.1.typeIndex, ty⟩)
  else .ok none

def globalSlot (input : WasmObjectLayoutInput) (resolutions : List ImportResolution)
    (item : WasmGlobalImport × Nat) : Fallible (Option (SharedImport GlobalType)) :=
  if isLive input.liveGlobalImports item.2 && resolutions[item.2]? = some .unresolved then
    .ok (some ⟨item.1.module, item.1.name, item.1.ty⟩)
  else .ok none

/-- Unresolved host imports coalesced by `(module, name)` across objects. -/
structure SharedUnresolvedImports where
  functions : List (SharedImport FunctionTypeRef)
  globals : List (SharedImport GlobalType)
  functionIndices : List (List (Option Nat))
  globalIndices : List (List (Option Nat))

def collectSharedUnresolvedImports (inputs : List WasmObjectLayoutInput)
    (resolutions : List ObjectImportResolutions) : Fallible SharedUnresolvedImports := do
  let objects := (inputs.zip resolutions).zipIdx
  let (functions, functionIndices) ← shareObjects (fun a b => a.ty = b.ty) [] <|
    objects.map fun item => item.1.1.functionImports.zipIdx.map
      (functionSlot item.1.1 item.1.2.functionResolutions item.2)
  let (globals, globalIndices) ← shareObjects (fun a b => a = b) [] <|
    objects.map fun item => item.1.1.globalImports.zipIdx.map
      (globalSlot item.1.1 item.1.2.globalResolutions)
  .ok ⟨functions, globals, functionIndices, globalIndices⟩

namespace SharedUnresolvedImports

variable (shared : SharedUnresolvedImports)

def functionIndex (objectIndex localImport : Nat) : Option Nat :=
  shared.functionIndices[objectIndex]?.bind fun indices => indices[localImport]?.join

def globalIndex (objectIndex localImport : Nat) : Option Nat :=
  shared.globalIndices[objectIndex]?.bind fun indices => indices[localImport]?.join

end SharedUnresolvedImports

/-! ### Entries that the linker defines -/

/-- Which linker symbols the imports of the objects ask for. -/
def absorbs (inputs : List WasmObjectLayoutInput) (resolutions : List ObjectImportResolutions)
    (known : WasmLinkerSymbol) : Bool :=
  (inputs.zip resolutions).any fun pair =>
    (pair.2.functionResolutions.zipIdx.any fun item =>
      isLive pair.1.liveFunctionImports item.2 && item.1 = .linkerDefined known)
    || pair.2.globalResolutions.zipIdx.any fun item =>
      isLive pair.1.liveGlobalImports item.2 && item.1 = .linkerDefined known

structure LinkerDefinedIndexRequest where
  hasInitFuncs : Bool
  /-- Linker symbols named by `--export` and `--export-if-defined`. -/
  exportSymbols : List WasmLinkerSymbol
  hasMemory : Bool
  wrapEntry : Bool
  gotMemCount : Nat
  gotFuncCount : Nat
  needsMemoryBase : Bool
  needsTableBase : Bool

namespace LinkerDefinedIndexRequest

variable (request : LinkerDefinedIndexRequest)

/-- Exported linker symbols that become globals with an address. -/
def exportData : List WasmLinkerSymbol :=
  (request.exportSymbols.filter fun known =>
    known.materializeOnExport && known.exportedAsDataGlobal request.hasMemory).eraseDups

def exportNeeds (known : WasmLinkerSymbol) : Bool :=
  request.exportSymbols.contains known && known.materializeOnExport
    && !known.exportedAsDataGlobal request.hasMemory

end LinkerDefinedIndexRequest

/-- Reserved Wasm index-space slots for linker-defined globals and functions. -/
structure LinkerDefinedIndices where
  memoryBaseGlobal : Option Nat
  tableBaseGlobal : Option Nat
  stackPointerGlobal : Option Nat
  tlsBaseGlobal : Option Nat
  callCtorsFunc : Option Nat
  entryWrapperFunc : Option Nat
  weakUndefStubs : List WeakUndefFunctionStub
  numDefinedGlobals : Nat
  numDefinedFunctions : Nat
  gotMemGlobalBase : Nat
  gotMemCount : Nat
  gotFuncGlobalBase : Nat
  gotFuncCount : Nat
  dataAddressGlobals : List (WasmLinkerSymbol × Nat)
  requestedExports : List WasmLinkerSymbol
  memoryBaseInit : Nat

def linkerMemoryBase : Nat := 1024

/-- The next index, if it is needed, and the one after it. -/
def reserve (needed : Bool) (next : Nat) : Option Nat × Nat :=
  if needed then (some next, next + 1) else (none, next)

namespace LinkerDefinedIndices

def compute (inputs : List WasmObjectLayoutInput) (resolutions : List ObjectImportResolutions)
    (functionImportCount globalImportCount : Nat) (weakUndefStubs : List WeakUndefFunctionStub)
    (request : LinkerDefinedIndexRequest) : Fallible LinkerDefinedIndices := do
  let needs known := request.exportNeeds known || absorbs inputs resolutions known
  let memoryBase := reserve (request.needsMemoryBase || needs .memoryBase) globalImportCount
  let tableBase := reserve (request.needsTableBase || needs .tableBase) memoryBase.2
  -- `__stack_pointer` is always defined
  let stackPointer := reserve true tableBase.2
  let tlsBase := reserve (absorbs inputs resolutions .tlsBase) stackPointer.2
  let dataAddressGlobals := request.exportData.zipIdx tlsBase.2
  let gotMemBase ← tryU32 (tlsBase.2 + dataAddressGlobals.length) "Wasm global index overflow"
  let gotFuncBase ← tryU32 (gotMemBase + request.gotMemCount) "Wasm global index overflow"
  let nextGlobal ← tryU32 (gotFuncBase + request.gotFuncCount) "Wasm global index overflow"
  let callCtors := reserve (request.hasInitFuncs || needs .callCtors) functionImportCount
  let entryWrapper := reserve request.wrapEntry callCtors.2
  let stubs := weakUndefStubs.mapIdx fun i stub =>
    { stub with functionIndex := entryWrapper.2 + i }
  let nextFunc ← tryU32 (entryWrapper.2 + stubs.length) "Wasm function index overflow"
  .ok
    { memoryBaseGlobal := memoryBase.1
      tableBaseGlobal := tableBase.1
      stackPointerGlobal := stackPointer.1
      tlsBaseGlobal := tlsBase.1
      callCtorsFunc := callCtors.1
      entryWrapperFunc := entryWrapper.1
      weakUndefStubs := stubs
      numDefinedGlobals := nextGlobal - globalImportCount
      numDefinedFunctions := nextFunc - functionImportCount
      gotMemGlobalBase := gotMemBase
      gotMemCount := request.gotMemCount
      gotFuncGlobalBase := gotFuncBase
      gotFuncCount := request.gotFuncCount
      dataAddressGlobals
      requestedExports := request.exportSymbols
      memoryBaseInit := if request.needsMemoryBase || absorbs inputs resolutions .memoryBase then
        linkerMemoryBase else 0 }

variable (indices : LinkerDefinedIndices)

def globalIndex (known : WasmLinkerSymbol) : Option Nat :=
  match known with
  | .memoryBase => indices.memoryBaseGlobal
  | .tableBase => indices.tableBaseGlobal
  | .stackPointer => indices.stackPointerGlobal
  | .tlsBase => indices.tlsBaseGlobal
  | other => (indices.dataAddressGlobals.find? fun entry => entry.1 = other).map (·.2)

def functionIndex (known : WasmLinkerSymbol) : Option Nat :=
  match known with
  | .callCtors => indices.callCtorsFunc
  | _ => none

end LinkerDefinedIndices

/-! ### Bases of the objects -/

structure WasmObjectIndexBases where
  typeIndexBase : Nat
  definedFunctionBase : Nat
  definedGlobalBase : Nat

/-- The bases of the objects from given ones on. -/
def allocateBasesFrom : WasmObjectIndexBases → List WasmObjectLayoutInput →
    Fallible (List WasmObjectIndexBases)
  | _, [] => .ok []
  | base, input :: inputs => do
      let typeIndexBase ← tryU32 (base.typeIndexBase + input.types.length) "Wasm type index overflow"
      let definedFunctionBase ← tryU32 (base.definedFunctionBase + input.moduleFunctions.length)
        "Wasm function index overflow"
      let definedGlobalBase ← tryU32 (base.definedGlobalBase + input.globals.length)
        "Wasm global index overflow"
      let rest ← allocateBasesFrom ⟨typeIndexBase, definedFunctionBase, definedGlobalBase⟩ inputs
      .ok (base :: rest)

def allocateWasmObjectIndexBases (inputs : List WasmObjectLayoutInput)
    (sharedImports : SharedUnresolvedImports) (indices : LinkerDefinedIndices) :
    Fallible (List WasmObjectIndexBases) := do
  let functionBase ← tryU32 (sharedImports.functions.length + indices.numDefinedFunctions)
    "Wasm function index overflow"
  let globalBase ← tryU32 (sharedImports.globals.length + indices.numDefinedGlobals)
    "Wasm global index overflow"
  allocateBasesFrom ⟨0, functionBase, globalBase⟩ inputs

/-! ### Index maps -/

structure WasmObjectIndexMap where
  /-- Maps this object's local type index to the final output type index. -/
  typeIndices : List Nat
  functionIndices : List Nat
  globalIndices : List Nat
  memoryIndices : List Nat
  functionSymbolRedirects : List (Option Nat)

/-- What the maps of all objects are made from. -/
structure IndexContext where
  bases : List WasmObjectIndexBases
  indices : LinkerDefinedIndices
  sharedImports : SharedUnresolvedImports

/-- An index that is counted from the base of an object. -/
def indexFromBase (bases : List WasmObjectIndexBases) (base : WasmObjectIndexBases → Nat)
    (objectIndex localDefinedIndex : Nat) : Fallible Nat := do
  ensure (localDefinedIndex ≠ wasmDeadIndex) "Wasm import resolved to a GC'd definition"
  let target ← context bases[objectIndex]? "Wasm import resolution references object out of range"
  tryU32 (base target + localDefinedIndex) "Wasm index overflow"

def importedFunctionIndex (ctx : IndexContext) (objectIndex i : Nat) :
    ImportResolution → Fallible Nat
  | .unresolved => context (ctx.sharedImports.functionIndex objectIndex i)
      "missing shared function import index"
  | .linkerDefined known => context (ctx.indices.functionIndex known)
      "missing reserved Wasm function"
  | .weakUndefStub stubIndex => context (ctx.indices.weakUndefStubs[stubIndex]?.map (·.functionIndex))
      "Wasm weak-undef stub index out of range"
  | .resolvedFunction defObject localDefinedIndex =>
      indexFromBase ctx.bases (·.definedFunctionBase) defObject localDefinedIndex
  | _ => .error (.error "function import resolved as global")

def importedGlobalIndex (ctx : IndexContext) (objectIndex i : Nat) :
    ImportResolution → Fallible Nat
  | .unresolved => context (ctx.sharedImports.globalIndex objectIndex i)
      "missing shared global import index"
  | .linkerDefined known => context (ctx.indices.globalIndex known) "missing reserved Wasm global"
  | .directGlobal outputIndex => .ok outputIndex
  | .resolvedGlobal defObject localDefinedIndex =>
      indexFromBase ctx.bases (·.definedGlobalBase) defObject localDefinedIndex
  | _ => .error (.error "global import resolved as function")

/-- The indexes of the imports. Dead slots have none. -/
def importedIndices (live : List Bool) (index : Nat → ImportResolution → Fallible Nat)
    (resolutions : List ImportResolution) : Fallible (List Nat) :=
  resolutions.zipIdx.mapM fun item =>
    if isLive live item.2 then index item.2 item.1 else .ok wasmDeadIndex

/-- The indexes of the object's own entries. Dead ones have none. -/
def definedIndices (base : Nat) (ordinals : List Nat) : Fallible (List Nat) :=
  ordinals.mapM fun dense =>
    if dense = wasmDeadIndex then .ok wasmDeadIndex
    else tryU32 (base + dense) "Wasm index overflow"

def buildObjectIndexMap (ctx : IndexContext) (objectIndex : Nat) (input : WasmObjectLayoutInput)
    (resolutions : ObjectImportResolutions) : Fallible WasmObjectIndexMap := do
  let base ← unwrap ctx.bases[objectIndex]?
  ensure (resolutions.functionResolutions.length = input.functionImports.length)
    "Wasm function import resolution count mismatch"
  ensure (resolutions.globalResolutions.length = input.globalImports.length)
    "Wasm global import resolution count mismatch"
  let importedFunctions ← importedIndices input.liveFunctionImports
    (importedFunctionIndex ctx objectIndex) resolutions.functionResolutions
  let importedGlobals ← importedIndices input.liveGlobalImports
    (importedGlobalIndex ctx objectIndex) resolutions.globalResolutions
  let definedFunctions ← definedIndices base.definedFunctionBase input.definedFunctionLiveOrdinal
  let definedGlobals ← definedIndices base.definedGlobalBase input.definedGlobalLiveOrdinal
  .ok
    { typeIndices := List.range' base.typeIndexBase input.types.length
      functionIndices := importedFunctions ++ definedFunctions
      globalIndices := importedGlobals ++ definedGlobals
      memoryIndices := List.replicate (input.memoryImports + input.memories) 0
      functionSymbolRedirects := [] }

def buildObjectIndexMaps (ctx : IndexContext) (inputs : List WasmObjectLayoutInput)
    (resolutions : List ObjectImportResolutions) : Fallible (List WasmObjectIndexMap) :=
  (inputs.zip resolutions).zipIdx.mapM fun item =>
    buildObjectIndexMap ctx item.2 item.1.1 item.1.2

/-! ### Overridden weak functions -/

/-- The output index of a live function that a symbol defines. -/
def liveFunctionIndex (maps : List WasmObjectIndexMap) (objIdx : Nat) (sym : WasmSymbol) :
    Option Nat :=
  if sym.kind ≠ .func || sym.isUndefined then none
  else (maps[objIdx]?.bind fun map => map.functionIndices[sym.index]?).filter (· ≠ wasmDeadIndex)

/-- The output index of the definition that overrides a weak function symbol. -/
def functionSymbolRedirect (symbolDb : SymbolDb) (inputs : List WasmObjectLayoutInput)
    (maps : List WasmObjectIndexMap) (objIdx : Nat) (item : WasmSymbol × Nat) :
    Fallible (Option Nat) :=
  if item.1.kind ≠ .func || !item.1.isWeak || item.1.isUndefined then .ok none
  else match symbolDb.definition objIdx item.2 with
    | .object defObjIdx offset =>
      if defObjIdx = objIdx ∧ offset = item.2 then .ok none
      else match inputs[defObjIdx]? with
        | none => .ok none
        | some defInput => do
            let defSym ← unwrap defInput.symbols[offset]?
            .ok (liveFunctionIndex maps defObjIdx defSym)
    | _ => .ok none

def objectSymbolRedirects (symbolDb : SymbolDb) (inputs : List WasmObjectLayoutInput)
    (maps : List WasmObjectIndexMap) (item : (WasmObjectLayoutInput × WasmObjectIndexMap) × Nat) :
    Fallible WasmObjectIndexMap := do
  let functionSymbolRedirects ← item.1.1.symbols.zipIdx.mapM
    (functionSymbolRedirect symbolDb inputs maps item.2)
  .ok { item.1.2 with functionSymbolRedirects }

/-- Map defined weak functions to the winning definition's output index. -/
def fillFunctionSymbolRedirects (symbolDb : SymbolDb) (inputs : List WasmObjectLayoutInput)
    (maps : List WasmObjectIndexMap) : Fallible (List WasmObjectIndexMap) :=
  (inputs.zip maps).zipIdx.mapM (objectSymbolRedirects symbolDb inputs maps)

/-- Output function index for a linking-section symbol. -/
def WasmObjectIndexMap.outputFunctionIndex (map : WasmObjectIndexMap) (symbolOffset : Nat)
    (sym : WasmSymbol) : Fallible Nat :=
  match map.functionSymbolRedirects[symbolOffset]?.join with
  | some out => .ok out
  | none => remapWasmIndex map.functionIndices sym.index "function"

end JdxLinker.Wasm.Linking

/-!
## The sections of the output module

The types, imports, functions, globals and exports of the objects are put together in the order of
the index spaces, and equal types are made one.
-/

namespace JdxLinker.Wasm.Linking

open Fallible

inductive OutputImportEntity where
  | function (typeIndex : Nat)
  | global (ty : GlobalType)
  deriving DecidableEq, Repr

structure OutputImport where
  module : String
  name : String
  entity : OutputImportEntity
  deriving DecidableEq, Repr

structure WasmLayout where
  outputTypes : List FuncType
  imports : List OutputImport
  functionTypeIndices : List Nat
  functionBodies : List (List UInt8)
  globals : List OutputGlobal
  exports : List OutputExport
  objectIndexMaps : List WasmObjectIndexMap

def functionOutputImport (bases : List WasmObjectIndexBases)
    (import' : SharedImport FunctionTypeRef) : Fallible OutputImport := do
  let base ← context bases[import'.ty.firstObject]? "Wasm shared import object index out of range"
  let typeIndex ← tryU32 (base.typeIndexBase + import'.ty.localTypeIndex) "Wasm type index overflow"
  .ok ⟨import'.module, import'.name, .function typeIndex⟩

def toOutputImports (shared : SharedUnresolvedImports) (bases : List WasmObjectIndexBases) :
    Fallible (List OutputImport) := do
  let functions ← shared.functions.mapM (functionOutputImport bases)
  .ok (functions ++ shared.globals.map fun import' =>
    ⟨import'.module, import'.name, .global import'.ty⟩)

def remapExport (map : WasmObjectIndexMap) (export' : OutputExport) : Fallible OutputExport :=
  match export'.kind with
  | .func => do
      let index ← remapWasmIndex map.functionIndices export'.index "function"
      .ok { export' with index }
  | .global => do
      let index ← remapWasmIndex map.globalIndices export'.index "global"
      .ok { export' with index }
  | .memory => do
      let index ← remapWasmIndex map.memoryIndices export'.index "memory"
      .ok { export' with index }
  | .table => .ok { export' with index := 0 }
  | .tag => .error (.error "Wasm tag exports are not emitted")

/-- The function and export entries of an object. -/
structure ObjectEntries where
  functionTypeIndices : List Nat
  exports : List OutputExport

def objectEntries (pair : WasmObjectLayoutInput × WasmObjectIndexMap) : Fallible ObjectEntries := do
  let functionTypeIndices ← pair.1.moduleFunctions.mapM fun localTypeIndex =>
    remapWasmIndex pair.2.typeIndices localTypeIndex "type"
  let exports ← pair.1.exports.mapM (remapExport pair.2)
  .ok ⟨functionTypeIndices, exports⟩

/-- The sections of the objects, one object after the other. -/
def mergeSections (inputs : List WasmObjectLayoutInput) (maps : List WasmObjectIndexMap)
    (imports : List OutputImport) : Fallible WasmLayout := do
  let entries ← (inputs.zip maps).mapM objectEntries
  .ok
    { outputTypes := inputs.flatMap (·.types)
      imports
      functionTypeIndices := entries.flatMap (·.functionTypeIndices)
      functionBodies := inputs.flatMap (·.functionBodies)
      globals := inputs.flatMap (·.globals)
      exports := entries.flatMap (·.exports)
      objectIndexMaps := maps }

/-! ### Types -/

/-- The index of a type, which is added where it is missing. -/
def ensureFuncType (types : List FuncType) (ty : FuncType) : Nat × List FuncType :=
  match types.findIdx? (· = ty) with
  | some i => (i, types)
  | none => (types.length, types ++ [ty])

def ensureFuncTypes : List FuncType → List FuncType → List Nat × List FuncType
  | types, [] => ([], types)
  | types, ty :: tys =>
      let ensured := ensureFuncType types ty
      let rest := ensureFuncTypes ensured.2 tys
      (ensured.1 :: rest.1, rest.2)

/-- The different types so far, and the new index of each type. -/
def dedupType (s : List FuncType × List Nat) (ty : FuncType) : List FuncType × List Nat :=
  let ensured := ensureFuncType s.1 ty
  (ensured.2, s.2 ++ [ensured.1])

def remapImport (remap : Nat → Fallible Nat) (import' : OutputImport) : Fallible OutputImport :=
  match import'.entity with
  | .function typeIndex => do
      let typeIndex ← remap typeIndex
      .ok { import' with entity := .function typeIndex }
  | .global _ => .ok import'

def remapTypeIndices (remap : Nat → Fallible Nat) (map : WasmObjectIndexMap) :
    Fallible WasmObjectIndexMap := do
  let typeIndices ← map.typeIndices.mapM remap
  .ok { map with typeIndices }

/-- Collapse identical function types in the output type section and rewrite every type index that
refers into it. -/
def deduplicateOutputTypes (layout : WasmLayout) : Fallible WasmLayout :=
  if layout.outputTypes = [] then .ok layout
  else
    let (uniqueTypes, oldToNew) := layout.outputTypes.foldl dedupType ([], [])
    if oldToNew = List.range oldToNew.length then .ok { layout with outputTypes := uniqueTypes }
    else do
      let remap index := unwrap oldToNew[index]?
      let functionTypeIndices ← layout.functionTypeIndices.mapM remap
      let imports ← layout.imports.mapM (remapImport remap)
      let objectIndexMaps ← layout.objectIndexMaps.mapM (remapTypeIndices remap)
      .ok { layout with outputTypes := uniqueTypes, functionTypeIndices, imports, objectIndexMaps }

end JdxLinker.Wasm.Linking
