import JdxLinker.Wasm.Linking.Objects

/-!
# Resolving imports

Each import slot of an object is resolved through the undefined symbols that name it: to a
definition in another object, to something that the linker defines, or not at all. Functions that
are only referenced weakly and stay unresolved get stubs.
-/

namespace JdxLinker.Wasm.Linking

open Fallible

/-- Where the symbol database has the definition of a symbol. -/
inductive DefinitionSite where
  | prelude (known : Option WasmLinkerSymbol)
  | object (objectIndex offset : Nat)
  | elsewhere
  deriving DecidableEq, Repr

structure SymbolDb where
  /-- The definition of the symbol at an offset of an object's symbol table. -/
  definition : Nat → Nat → DefinitionSite
  /-- The definition of a name. -/
  getUnversioned : String → Option DefinitionSite
  /-- The name of the symbol at an offset of an object's symbol table. -/
  symbolName : Nat → Nat → String

inductive ImportResolution where
  | unresolved
  | resolvedFunction (objectIndex localDefinedIndex : Nat)
  | resolvedGlobal (objectIndex localDefinedIndex : Nat)
  | linkerDefined (known : WasmLinkerSymbol)
  | weakUndefStub (stubIndex : Nat)
  | directGlobal (outputIndex : Nat)
  | gotMemSlot (slot : Nat)
  | gotFuncSlot (slot : Nat)
  deriving DecidableEq, Repr

structure ObjectImportResolutions where
  functionResolutions : List ImportResolution
  globalResolutions : List ImportResolution

/-- An entry of a table of marks, which is unmarked outside of it. -/
def isLive (live : List Bool) (i : Nat) : Bool := live[i]?.getD false

/-! ### Definitions in objects -/

/-- The place of a defined function among the live ones of its object. -/
def localDefinedFunctionIndex (input : WasmObjectLayoutInput) (sym : WasmSymbol) : Fallible Nat :=
  do
    let original := sym.index - input.functionImports.length
    let dense := input.definedFunctionLiveOrdinal[original]?.getD wasmDeadIndex
    ensure (dense ≠ wasmDeadIndex) "reference to GC'd Wasm defined function"
    .ok dense

/-- The place of a defined global among the live ones of its object. -/
def localDefinedGlobalIndex (input : WasmObjectLayoutInput) (sym : WasmSymbol) : Fallible Nat := do
  let original := sym.index - input.globalImports.length
  let dense := input.definedGlobalLiveOrdinal[original]?.getD wasmDeadIndex
  ensure (dense ≠ wasmDeadIndex) "reference to GC'd Wasm defined global"
  .ok dense

def linkerDefinedFromPreludeDef (known : Option WasmLinkerSymbol) (expectedKind : WasmSymbolKind) :
    Option ImportResolution :=
  (known.filter (·.matchesImportKind expectedKind)).map .linkerDefined

/-- Resolves an import to a defined symbol of an object. -/
def resolveToSymbol (expectedKind : WasmSymbolKind) (defObjIdx : Nat)
    (defInput : WasmObjectLayoutInput) (defSym : WasmSymbol) : Fallible ImportResolution :=
  if defSym.isUndefined || defSym.kind ≠ expectedKind then .ok .unresolved
  else match expectedKind with
    | .func => do
        ensure (defInput.functionImports.length ≤ defSym.index)
          "defined Wasm function symbol index is within import range"
        let localDefinedIndex ← localDefinedFunctionIndex defInput defSym
        .ok (.resolvedFunction defObjIdx localDefinedIndex)
    | .global => do
        ensure (defInput.globalImports.length ≤ defSym.index)
          "defined Wasm global symbol index is within import range"
        let localDefinedIndex ← localDefinedGlobalIndex defInput defSym
        .ok (.resolvedGlobal defObjIdx localDefinedIndex)
    | _ => .ok .unresolved

/-- Try to resolve a single undefined import symbol. -/
def resolveOneImport (allInputs : List WasmObjectLayoutInput) (symbolDb : SymbolDb)
    (expectedKind : WasmSymbolKind) (objectIndex symOffset : Nat) : Fallible ImportResolution :=
  match symbolDb.definition objectIndex symOffset with
  | .prelude known => .ok ((linkerDefinedFromPreludeDef known expectedKind).getD .unresolved)
  | .elsewhere => .ok .unresolved
  | .object defObjIdx offset =>
    if defObjIdx = objectIndex ∧ offset = symOffset then .ok .unresolved
    else match allInputs[defObjIdx]? with
      | none => .ok .unresolved
      | some defInput => do
          let defSym ← unwrap defInput.symbols[offset]?
          resolveToSymbol expectedKind defObjIdx defInput defSym

/-- Resolve an import name to a prelude platform-specific definition. -/
def linkerDefinedImportResolution (symbolDb : SymbolDb) (expectedKind : WasmSymbolKind)
    (importName : String) : Option ImportResolution :=
  match symbolDb.getUnversioned importName with
  | some (.prelude known) => linkerDefinedFromPreludeDef known expectedKind
  | _ => none

/-! ### The slots of an object -/

/-- The first resolution of a slot stays. -/
def setResolution (resolutions : List ImportResolution) (importIdx : Nat)
    (resolution : ImportResolution) : List ImportResolution :=
  if resolutions[importIdx]? = some .unresolved then resolutions.set importIdx resolution
  else resolutions

/-- Resolves the slot that an undefined symbol names. -/
def resolveSymbolSlot (allInputs : List WasmObjectLayoutInput) (symbolDb : SymbolDb)
    (kind : WasmSymbolKind) (live : List Bool) (objectIndex : Nat)
    (resolutions : List ImportResolution) (item : WasmSymbol × Nat) :
    Fallible (List ImportResolution) :=
  if !item.1.isUndefined || item.1.kind ≠ kind || resolutions.length ≤ item.1.index
      || !isLive live item.1.index then
    .ok resolutions
  else do
    let resolution ← resolveOneImport allInputs symbolDb kind objectIndex item.2
    .ok (setResolution resolutions item.1.index resolution)

/-- Resolves a slot that no symbol resolved by the name of the import. -/
def resolveByName (symbolDb : SymbolDb) (kind : WasmSymbolKind) (live : List Bool)
    (importIdx : Nat) (name : String) (resolution : ImportResolution) : ImportResolution :=
  if !isLive live importIdx || resolution ≠ .unresolved then resolution
  else (linkerDefinedImportResolution symbolDb kind name).getD resolution

def resolveImportSymbols (allInputs : List WasmObjectLayoutInput) (symbolDb : SymbolDb)
    (kind : WasmSymbolKind) (importNames : List String) (live : List Bool)
    (symbols : List WasmSymbol) (objectIndex : Nat) : Fallible (List ImportResolution) := do
  let resolutions ← symbols.zipIdx.foldlM
    (resolveSymbolSlot allInputs symbolDb kind live objectIndex)
    (List.replicate importNames.length .unresolved)
  .ok ((importNames.zip resolutions).mapIdx fun i slot =>
    resolveByName symbolDb kind live i slot.1 slot.2)

def resolveObjectImports (allInputs : List WasmObjectLayoutInput) (symbolDb : SymbolDb)
    (input : WasmObjectLayoutInput) (objectIndex : Nat) : Fallible ObjectImportResolutions := do
  let functionResolutions ← resolveImportSymbols allInputs symbolDb .func
    (input.functionImports.map (·.name)) input.liveFunctionImports input.symbols objectIndex
  let globalResolutions ← resolveImportSymbols allInputs symbolDb .global
    (input.globalImports.map (·.name)) input.liveGlobalImports input.symbols objectIndex
  .ok ⟨functionResolutions, globalResolutions⟩

/-- Resolve cross-object imports. -/
def resolveCrossObjectImports (inputs : List WasmObjectLayoutInput) (symbolDb : SymbolDb) :
    Fallible (List ObjectImportResolutions) :=
  inputs.zipIdx.mapM fun item => resolveObjectImports inputs symbolDb item.1 item.2

/-! ### Stubs -/

/-- Synthetic function produced for an unresolved weak function import. -/
structure WeakUndefFunctionStub where
  name : String
  ty : FuncType
  functionIndex : Nat
  deriving DecidableEq, Repr

/-- Whether every undefined symbol for a function import is weak. -/
def pureWeakFunctionImport (input : WasmObjectLayoutInput) (i : Nat) : Bool :=
  let references := input.symbols.filter fun sym =>
    sym.kind = .func && sym.isUndefined && sym.index = i
  references.any (·.isWeak) && !references.any fun sym => !sym.isWeak

/-- The live imports of an object that are still unresolved, each with its position. -/
def unresolvedImports (input : WasmObjectLayoutInput) (resolutions : List ImportResolution) :
    List (WasmFunctionImport × Nat) :=
  input.functionImports.zipIdx.filter fun item =>
    isLive input.liveFunctionImports item.2 && resolutions[item.2]? = some .unresolved

/-- The names of unresolved imports that something needs for certain. -/
def nonWeakNames (inputs : List WasmObjectLayoutInput) (resolutions : List ObjectImportResolutions) :
    List String :=
  (inputs.zip resolutions).flatMap fun pair =>
    ((unresolvedImports pair.1 pair.2.functionResolutions).filter fun item =>
      !pureWeakFunctionImport pair.1 item.2).map (·.1.name)

/-- The stub for a name, which all imports of that name share. -/
def findOrAddStub (stubs : List WeakUndefFunctionStub) (name : String) (ty : FuncType) :
    Fallible (Nat × List WeakUndefFunctionStub) :=
  match stubs.findIdx? (·.name = name) with
  | some i => do
      let stub ← unwrap stubs[i]?
      ensure (stub.ty = ty) "conflicting types for undefined weak function"
      .ok (i, stubs)
  | none => .ok (stubs.length, stubs ++ [⟨name, ty, 0⟩])

/-- The stubs, and the function resolutions of an object that are made to point at them. -/
abbrev StubState := List WeakUndefFunctionStub × List ImportResolution

def absorbImport (nonWeak : List String) (input : WasmObjectLayoutInput) (s : StubState)
    (item : WasmFunctionImport × Nat) : Fallible StubState :=
  if !pureWeakFunctionImport input item.2 || nonWeak.contains item.1.name then .ok s
  else do
    let ty ← context input.types[item.1.typeIndex]? "Wasm type index out of range for weak import"
    let (stubIndex, stubs) ← findOrAddStub s.1 item.1.name ty
    .ok (stubs, s.2.set item.2 (.weakUndefStub stubIndex))

/-- Absorbs the imports of one object. -/
def absorbObject (nonWeak : List String)
    (stubs : List WeakUndefFunctionStub) (pair : WasmObjectLayoutInput × ObjectImportResolutions) :
    Fallible (List WeakUndefFunctionStub × ObjectImportResolutions) := do
  let (stubs, functionResolutions) ←
    (unresolvedImports pair.1 pair.2.functionResolutions).foldlM (absorbImport nonWeak pair.1)
      (stubs, pair.2.functionResolutions)
  .ok (stubs, { pair.2 with functionResolutions })

def absorbObjects (nonWeak : List String) : List WeakUndefFunctionStub →
    List (WasmObjectLayoutInput × ObjectImportResolutions) →
    Fallible (List WeakUndefFunctionStub × List ObjectImportResolutions)
  | stubs, [] => .ok (stubs, [])
  | stubs, pair :: pairs => do
      let (stubs, resolutions) ← absorbObject nonWeak stubs pair
      let (stubs, rest) ← absorbObjects nonWeak stubs pairs
      .ok (stubs, resolutions :: rest)

/-- Absorb pure undefined-weak function imports into shared `unreachable` stubs. -/
def absorbWeakUndefFunctionImports (inputs : List WasmObjectLayoutInput)
    (resolutions : List ObjectImportResolutions) :
    Fallible (List WeakUndefFunctionStub × List ObjectImportResolutions) :=
  absorbObjects (nonWeakNames inputs resolutions) [] (inputs.zip resolutions)

/-! ### Imports of GOT entries -/

/-- Resolves an import of a GOT entry to its slot. -/
def absorbGotImport (module : String) (names : List String) (toResolution : Nat → ImportResolution)
    (import' : WasmGlobalImport) (resolution : ImportResolution) : ImportResolution :=
  if import'.module ≠ module || resolution ≠ .unresolved then resolution
  else ((names.findIdx? (· = import'.name)).map toResolution).getD resolution

/-- Resolves the imports of GOT entries of a module. The names are those of the entries. -/
def absorbGotImports (module : String) (names : List String) (toResolution : Nat → ImportResolution)
    (inputs : List WasmObjectLayoutInput) (resolutions : List ObjectImportResolutions) :
    List ObjectImportResolutions :=
  (inputs.zip resolutions).map fun pair =>
    { pair.2 with
      globalResolutions := (pair.1.globalImports.zip pair.2.globalResolutions).map fun slot =>
        absorbGotImport module names toResolution slot.1 slot.2 }

/-- The global of a GOT slot. -/
def finalizeGotResolution (gotMemBase gotFuncBase : Nat) : ImportResolution → ImportResolution
  | .gotMemSlot slot => .directGlobal (gotMemBase + slot)
  | .gotFuncSlot slot => .directGlobal (gotFuncBase + slot)
  | resolution => resolution

def finalizeGotImportResolutions (gotMemBase gotFuncBase : Nat)
    (resolutions : List ObjectImportResolutions) : List ObjectImportResolutions :=
  resolutions.map fun res =>
    { res with
      globalResolutions := res.globalResolutions.map (finalizeGotResolution gotMemBase gotFuncBase) }

end JdxLinker.Wasm.Linking
