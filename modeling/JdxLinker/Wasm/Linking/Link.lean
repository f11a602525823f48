import JdxLinker.Wasm.Linking.IndexSpaces

/-!
# Building the output module

The objects are laid out as one module: imports are resolved, indexes are given out, the sections are
merged, and what the linker defines itself is put in front. Constructors are called by a synthesised
function, and where no object calls that function, a synthesised entry does.
-/

namespace JdxLinker.Wasm.Linking

open Fallible

/-- What the arguments ask for, and what the relocations of the objects need. -/
structure LinkRequest where
  entrySymbolName : Option String
  forceExportSymbolNames : List String
  requiredExportSymbols : List String
  memoryExportName : String
  gotMemNames : List String
  gotFuncNames : List String
  needsMemoryBase : Bool
  needsTableBase : Bool

/-! ### Definitions of names -/

/-- A symbol that an object defines. -/
structure DefinedSymbol where
  objIdx : Nat
  offset : Nat
  sym : WasmSymbol
  deriving DecidableEq, Repr

/-- The object symbol that defines a name. -/
def definedSymbol (inputs : List WasmObjectLayoutInput) (symbolDb : SymbolDb) (name : String) :
    Fallible (Option DefinedSymbol) :=
  match symbolDb.getUnversioned name with
  | some (.object objIdx offset) =>
    match inputs[objIdx]? with
    | none => .ok none
    | some input => do
        let sym ← unwrap input.symbols[offset]?
        .ok (if sym.isUndefined then none else some ⟨objIdx, offset, sym⟩)
  | _ => .ok none

/-- True if inputs import or export `__wasm_call_ctors`. -/
def callCtorsUsedInObjects (inputs : List WasmObjectLayoutInput) : Bool :=
  inputs.any fun input =>
    input.functionImports.any (fun imp => WasmLinkerSymbol.parse imp.name = some .callCtors)
      || input.exports.any fun exp => WasmLinkerSymbol.parse exp.name = some .callCtors

def entryIsDefinedFunction (inputs : List WasmObjectLayoutInput) (symbolDb : SymbolDb)
    (entrySymbolName : Option String) : Fallible Bool :=
  match entrySymbolName with
  | none => .ok false
  | some name => do
      let defined ← definedSymbol inputs symbolDb name
      .ok (defined.any fun found => found.sym.kind = .func)

/-- Resolved user entry function, if present among the linked objects. -/
structure ResolvedEntry where
  exportName : String
  functionIndex : Nat
  deriving DecidableEq, Repr

/-- Resolves the name of the entry. -/
def resolveEntryName (inputs : List WasmObjectLayoutInput) (maps : List WasmObjectIndexMap)
    (symbolDb : SymbolDb) (name : String) : Fallible ResolvedEntry := do
  let defined ← definedSymbol inputs symbolDb name
  let found ← context (defined.filter fun found => found.sym.kind = .func)
    "entry symbol not defined (pass --no-entry to suppress)"
  let map ← context maps[found.objIdx]? "missing Wasm object index map for entry symbol definition"
  let functionIndex ← remapWasmIndex map.functionIndices found.sym.index "function"
  .ok ⟨symbolDb.symbolName found.objIdx found.offset, functionIndex⟩

/-- Find the defined user entry function (default `_start`) without exporting it yet. -/
def resolveEntryFunction (inputs : List WasmObjectLayoutInput) (maps : List WasmObjectIndexMap)
    (symbolDb : SymbolDb) (entrySymbolName : Option String) : Fallible (Option ResolvedEntry) :=
  match entrySymbolName with
  | none => .ok none
  | some name => do
      let entry ← resolveEntryName inputs maps symbolDb name
      .ok (some entry)

/-! ### Constructors -/

/-- The type of the function that a symbol stands for. -/
def functionTypeForSymbol (input : WasmObjectLayoutInput) (sym : WasmSymbol) : Fallible FuncType :=
  match input.functionImports[sym.index]? with
  | some import' => context input.types[import'.typeIndex]? "Wasm type index out of range"
  | none => do
      let dense ← localDefinedFunctionIndex input sym
      let typeIndex ← context input.moduleFunctions[dense]? "Wasm function index out of range"
      context input.types[typeIndex]? "Wasm type index out of range"

/-- A call of a constructor: the function, and how many results it leaves. -/
structure InitCall where
  priority : Nat
  outputIndex : Nat
  resultCount : Nat
  deriving DecidableEq, Repr

def initCall (pair : WasmObjectLayoutInput × WasmObjectIndexMap) (init : WasmInitFunc) :
    Fallible InitCall := do
  let sym ← unwrap pair.1.symbols[init.symbolIndex]?
  ensure (sym.kind = .func ∧ ¬ sym.isUndefined)
    "Wasm init function must be a defined function symbol"
  let ty ← functionTypeForSymbol pair.1 sym
  ensure (ty.params = []) "Wasm constructor must take no parameters"
  let outputIndex ← pair.2.outputFunctionIndex init.symbolIndex sym
  .ok ⟨init.priority, outputIndex, ty.results.length⟩

def objectInitCalls (pair : WasmObjectLayoutInput × WasmObjectIndexMap) :
    Fallible (List InitCall) :=
  pair.1.initFuncs.mapM (initCall pair)

/-- From InitFuncs to `(output function index, result count)`, sorted by ascending priority. -/
def collectSortedInitFunctionCalls (inputs : List WasmObjectLayoutInput)
    (maps : List WasmObjectIndexMap) : Fallible (List (Nat × Nat)) := do
  let items ← (inputs.zip maps).mapM objectInitCalls
  .ok ((items.flatten.mergeSort fun a b => a.priority ≤ b.priority).map fun call =>
    (call.outputIndex, call.resultCount))

/-- Encode a body that calls each function in order. -/
def encodeCallSequenceBody (calls : List (Nat × Nat)) : List UInt8 :=
  -- 0 locals; call and drop each result; end
  0x00 :: (calls.flatMap fun call =>
    0x10 :: (Uleb.encode call.1 ++ List.replicate call.2 0x1a)) ++ [0x0b]

/-- Empty function body: zero locals and `end`. -/
def emptyFunctionBody : List UInt8 := [0x00, 0x0b]

/-- Undefined weak function stubs. -/
def unreachableFunctionBody : List UInt8 := [0x00, 0x00, 0x0b]

/-! ### Definitions of the linker -/

/-- A number as a signed LEB128 number. -/
def encodeSigned : Nat → Int → List UInt8
  | 0, _ => []
  | fuel + 1, value =>
      let byte := (value % 128).toNat
      let rest := value / 128
      if (rest = 0 ∧ byte < 64) ∨ (rest = -1 ∧ 64 ≤ byte) then [UInt8.ofNat byte]
      else UInt8.ofNat (byte + 128) :: encodeSigned fuel rest

/-- Encode a linear-memory address as Wasm `i32.const`. -/
def encodeI32ConstU32 (value : Nat) : List UInt8 :=
  0x41 :: encodeSigned 5 (if value < 2 ^ 31 then value else value - 2 ^ 32)

def linkerMemoryBaseInitExpr : List UInt8 := [0x41, 0x80, 0x08]

def zeroI32InitExpr : List UInt8 := [0x41, 0x00]

def defaultTableBaseInitExpr : List UInt8 := [0x41, 0x01]

def i32Global (isMutable : Bool) (initExprBody : List UInt8) : OutputGlobal :=
  ⟨⟨.i32, isMutable, false⟩, initExprBody⟩

/-- The reserved globals, which get their addresses once the data has its place. -/
def linkerGlobals (indices : LinkerDefinedIndices) : List OutputGlobal :=
  indices.memoryBaseGlobal.toList.map (fun _ =>
      i32Global false (encodeI32ConstU32 indices.memoryBaseInit))
    ++ indices.tableBaseGlobal.toList.map (fun _ => i32Global false defaultTableBaseInitExpr)
    ++ indices.stackPointerGlobal.toList.map (fun _ => i32Global true linkerMemoryBaseInitExpr)
    ++ indices.tlsBaseGlobal.toList.map (fun _ => i32Global false zeroI32InitExpr)
    ++ indices.dataAddressGlobals.map (fun _ => i32Global false zeroI32InitExpr)
    ++ List.replicate indices.gotMemCount (i32Global false zeroI32InitExpr)
    ++ List.replicate indices.gotFuncCount (i32Global false zeroI32InitExpr)

/-- Puts the reserved functions in front. -/
def emitReservedFunctions (layout : WasmLayout) (indices : LinkerDefinedIndices)
    (callCtorsBody entryWrapperBody : Option (List UInt8)) : WasmLayout :=
  if indices.numDefinedFunctions = 0 then layout
  else
    let void := ensureFuncType layout.outputTypes ⟨[], []⟩
    let stubs := ensureFuncTypes void.2 (indices.weakUndefStubs.map (·.ty))
    { layout with
      outputTypes := stubs.2
      functionTypeIndices :=
        indices.callCtorsFunc.toList.map (fun _ => void.1)
          ++ indices.entryWrapperFunc.toList.map (fun _ => void.1)
          ++ stubs.1 ++ layout.functionTypeIndices
      functionBodies :=
        indices.callCtorsFunc.toList.map (fun _ => callCtorsBody.getD emptyFunctionBody)
          ++ indices.entryWrapperFunc.toList.map (fun _ => entryWrapperBody.getD emptyFunctionBody)
          ++ indices.weakUndefStubs.map (fun _ => unreachableFunctionBody)
          ++ layout.functionBodies }

def emitReservedLinkerDefinitions (layout : WasmLayout) (indices : LinkerDefinedIndices)
    (callCtorsBody entryWrapperBody : Option (List UInt8)) : WasmLayout :=
  emitReservedFunctions { layout with globals := linkerGlobals indices ++ layout.globals } indices
    callCtorsBody entryWrapperBody

/-! ### Exports -/

/-- The memory is exported under one name only. -/
def ensureMemoryExport (exports : List OutputExport) (name : String) : List OutputExport :=
  (exports.filter fun exp => exp.kind ≠ .memory) ++ [⟨name, .memory, 0⟩]

def exportNameExists (exports : List OutputExport) (name : String) : Bool :=
  exports.any fun exp => exp.name = name

def pushExport (exports : List OutputExport) (name : String) (kind : ExternalKind) (index : Nat) :
    List OutputExport :=
  if exportNameExists exports name then exports else exports ++ [⟨name, kind, index⟩]

/-- Changes the first export of a name. -/
def retargetFirst (name : String) (index : Nat) : List OutputExport → List OutputExport
  | [] => []
  | exp :: exports =>
      if exp.name = name then { exp with kind := .func, index } :: exports
      else exp :: retargetFirst name index exports

/-- Export the command entry (default `_start`). With a wrapper, retarget any existing export. -/
def ensureEntryExport (exports : List OutputExport) (entry : Option ResolvedEntry)
    (entryWrapperFunc : Option Nat) : List OutputExport :=
  match entry with
  | none => exports
  | some entry =>
    if exportNameExists exports entry.exportName then
      match entryWrapperFunc with
      | some wrapper => retargetFirst entry.exportName wrapper exports
      | none => exports
    else exports ++ [⟨entry.exportName, .func, entryWrapperFunc.getD entry.functionIndex⟩]

/-- Linker symbols named by the arguments, each once. -/
def requestedLinkerExportSymbols (names : List String) : List WasmLinkerSymbol :=
  (names.filterMap WasmLinkerSymbol.parse).eraseDups

/-- Exports what the linker defined for a symbol. -/
def exportLinkerDefined (request : LinkRequest) (indices : LinkerDefinedIndices)
    (exports : List OutputExport) (known : WasmLinkerSymbol) : Fallible (List OutputExport) :=
  match indices.functionIndex known with
  | some index => .ok (pushExport exports known.name .func index)
  | none =>
    match indices.globalIndex known with
    | some index => .ok (pushExport exports known.name .global index)
    | none => do
        ensure (known.name ∉ request.requiredExportSymbols)
          "symbol exported via --export not found"
        .ok exports

/-- The index that an exported function gets: if it is the entry and is wrapped, the wrapper. -/
def exportedFunctionIndex (entry : Option ResolvedEntry) (indices : LinkerDefinedIndices)
    (exportName : String) (index : Nat) : Nat :=
  match entry, indices.entryWrapperFunc with
  | some entry, some wrapper => if exportName = entry.exportName then wrapper else index
  | _, _ => index

/-- Exports a symbol of an object. -/
def exportDefinedSymbol (maps : List WasmObjectIndexMap) (symbolDb : SymbolDb)
    (entry : Option ResolvedEntry) (indices : LinkerDefinedIndices) (exports : List OutputExport)
    (found : DefinedSymbol) : Fallible (List OutputExport) := do
  let map ← context maps[found.objIdx]?
    "missing Wasm object index map for --export symbol definition"
  let exportName := symbolDb.symbolName found.objIdx found.offset
  match found.sym.kind with
  | .func => do
      let index ← remapWasmIndex map.functionIndices found.sym.index "function"
      .ok (pushExport exports exportName .func
        (exportedFunctionIndex entry indices exportName index))
  | .global => do
      let index ← remapWasmIndex map.globalIndices found.sym.index "global"
      .ok (pushExport exports exportName .global index)
  | _ => .error (.error "Wasm --export of non-function/non-global symbols is not yet supported")

/-- Exports a name that the arguments give. -/
def exportName (inputs : List WasmObjectLayoutInput) (maps : List WasmObjectIndexMap)
    (symbolDb : SymbolDb) (request : LinkRequest) (entry : Option ResolvedEntry)
    (indices : LinkerDefinedIndices) (exports : List OutputExport) (name : String) :
    Fallible (List OutputExport) :=
  if indices.requestedExports.any fun known => known.name = name then .ok exports
  else do
    let defined ← definedSymbol inputs symbolDb name
    match defined with
    | none => do
        ensure (name ∉ request.requiredExportSymbols) "symbol exported via --export not found"
        .ok exports
    | some found => exportDefinedSymbol maps symbolDb entry indices exports found

/-- Export symbols requested via `--export` and `--export-if-defined`. -/
def ensureForceExports (inputs : List WasmObjectLayoutInput) (maps : List WasmObjectIndexMap)
    (symbolDb : SymbolDb) (request : LinkRequest) (entry : Option ResolvedEntry)
    (indices : LinkerDefinedIndices) (exports : List OutputExport) :
    Fallible (List OutputExport) := do
  let exports ← indices.requestedExports.foldlM (exportLinkerDefined request indices) exports
  request.forceExportSymbolNames.foldlM
    (exportName inputs maps symbolDb request entry indices) exports

/-! ### The link -/

/-- The imports once they are resolved, and the indexes that are reserved after them. -/
structure IndexSetup where
  resolutions : List ObjectImportResolutions
  weakUndefStubs : List WeakUndefFunctionStub
  sharedImports : SharedUnresolvedImports
  indices : LinkerDefinedIndices

/-- Absorb GOT.mem / GOT.func / weak-undef imports, and reserve indices. -/
def setupGotMemAndIndices (inputs : List WasmObjectLayoutInput) (request : LinkRequest)
    (resolutions : List ObjectImportResolutions) (hasInitFuncs wrapEntry : Bool) :
    Fallible IndexSetup := do
  let resolutions := absorbGotImports "GOT.mem" request.gotMemNames .gotMemSlot inputs resolutions
  let (weakUndefStubs, resolutions) ← absorbWeakUndefFunctionImports inputs resolutions
  let resolutions :=
    absorbGotImports "GOT.func" request.gotFuncNames .gotFuncSlot inputs resolutions
  let sharedImports ← collectSharedUnresolvedImports inputs resolutions
  let indices ← LinkerDefinedIndices.compute inputs resolutions sharedImports.functions.length
    sharedImports.globals.length weakUndefStubs
    { hasInitFuncs
      exportSymbols := requestedLinkerExportSymbols request.forceExportSymbolNames
      hasMemory := true
      wrapEntry
      gotMemCount := request.gotMemNames.length
      gotFuncCount := request.gotFuncNames.length
      needsMemoryBase := request.needsMemoryBase
      needsTableBase := request.needsTableBase }
  .ok
    { resolutions := finalizeGotImportResolutions indices.gotMemGlobalBase
        indices.gotFuncGlobalBase resolutions
      weakUndefStubs
      sharedImports
      indices }

/-- The objects' parts of the module, before the linker adds its own. -/
structure ObjectParts where
  setup : IndexSetup
  maps : List WasmObjectIndexMap
  layout : WasmLayout

/-- Lays out the parts of the objects. -/
def layoutObjects (inputs : List WasmObjectLayoutInput) (symbolDb : SymbolDb)
    (request : LinkRequest) : Fallible ObjectParts := do
  let resolutions ← resolveCrossObjectImports inputs symbolDb
  let hasInitFuncs := inputs.any fun input => !input.initFuncs.isEmpty
  let entryIsDefined ← entryIsDefinedFunction inputs symbolDb request.entrySymbolName
  -- wrap only when InitFuncs exist and crt does not already call `__wasm_call_ctors`
  let wrapEntry := hasInitFuncs && !callCtorsUsedInObjects inputs && entryIsDefined
  let setup ← setupGotMemAndIndices inputs request resolutions hasInitFuncs wrapEntry
  let bases ← allocateWasmObjectIndexBases inputs setup.sharedImports setup.indices
  let indexMaps ← buildObjectIndexMaps ⟨bases, setup.indices, setup.sharedImports⟩ inputs
    setup.resolutions
  let imports ← toOutputImports setup.sharedImports bases
  let layout ← mergeSections inputs indexMaps imports
  let maps ← fillFunctionSymbolRedirects symbolDb inputs indexMaps
  .ok ⟨setup, maps, { layout with objectIndexMaps := maps }⟩

/-- The body of the wrapper: the constructors, and then the entry. -/
def entryWrapperBody (indices : LinkerDefinedIndices) (entry : Option ResolvedEntry) :
    Option (List UInt8) :=
  match indices.entryWrapperFunc, indices.callCtorsFunc, entry with
  | some _, some ctors, some entry =>
      some (encodeCallSequenceBody [(ctors, 0), (entry.functionIndex, 0)])
  | _, _, _ => none

/-- A module that was linked, and what it was made from. -/
structure LinkedModule where
  setup : IndexSetup
  maps : List WasmObjectIndexMap
  entry : Option ResolvedEntry
  layout : WasmLayout

def layoutInputs (inputs : List WasmObjectLayoutInput) (symbolDb : SymbolDb)
    (request : LinkRequest) : Fallible LinkedModule := do
  let parts ← layoutObjects inputs symbolDb request
  let indices := parts.setup.indices
  let initFunctionCalls ← collectSortedInitFunctionCalls inputs parts.maps
  let callCtorsBody := indices.callCtorsFunc.map fun _ => encodeCallSequenceBody initFunctionCalls
  let entry ← resolveEntryFunction inputs parts.maps symbolDb request.entrySymbolName
  let layout ← deduplicateOutputTypes <| emitReservedLinkerDefinitions parts.layout indices
    callCtorsBody (entryWrapperBody indices entry)
  let exports := ensureEntryExport (ensureMemoryExport layout.exports request.memoryExportName)
    entry indices.entryWrapperFunc
  let exports ← ensureForceExports inputs parts.maps symbolDb request entry indices exports
  .ok ⟨parts.setup, parts.maps, entry, { layout with exports }⟩

/-- Links objects into a module. -/
def buildOutputModuleLayout (files : List WasmObject) (symbolDb : SymbolDb)
    (request : LinkRequest) : Fallible LinkedModule := do
  let inputs ← files.mapM WasmObjectLayoutInput.fromFile
  layoutInputs inputs symbolDb request

end JdxLinker.Wasm.Linking
