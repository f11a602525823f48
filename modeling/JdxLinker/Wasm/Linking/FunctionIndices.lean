import JdxLinker.Wasm.Linking.Resolutions

/-!
# Function indexes keep their meaning

A function index of an object stands for one of its own functions, or for an import. After the link,
its new index stands for the same function: for the definition of the import, for a function of the
linker, or for an import of the output with the same module, name and type.
-/

namespace JdxLinker.Wasm.Linking

open Fallible Interning

/-! ### What the indexes of an object mean -/

namespace WasmObject

variable (file : WasmObject)

def definedFunction (j : Nat) : Option OutputFunction := do
  let typeIndex ← file.moduleFunctions[j]?
  let ty ← file.types[typeIndex]?
  let body ← file.functionBodies[j]?
  some (.defined ty body)

def importType (i : Nat) : Option FuncType :=
  file.functionImports[i]?.bind fun import' => file.types[import'.typeIndex]?

/-- Some symbol names the import, and all that do are weak. -/
def WeaklyImported (i : Nat) : Prop :=
  (∃ sym ∈ file.symbols, sym.namesSlot .func i = true) ∧
    ∀ sym ∈ file.symbols, sym.namesSlot .func i = true → sym.isWeak = true

end WasmObject

section

variable (files : List WasmObject) (symbolDb : SymbolDb) (ctors : OutputFunction)

/-- What the linker defines under a name, if it is a function. -/
def preludeFunction (known : Option WasmLinkerSymbol) : Option OutputFunction :=
  if known = some .callCtors then some ctors else none

/-- The function that a symbol is defined as. -/
def definedAs : DefinitionSite → Option OutputFunction
  | .prelude known => preludeFunction ctors known
  | .object d offset => do
      let file ← files[d]?
      let sym ← file.symbols[offset]?
      if sym.isUndefined || sym.kind ≠ .func then none
      else file.definedFunction (sym.index - file.functionImports.length)
  | .elsewhere => none

/-- The function that a name is defined as by the linker. -/
def namedFunction (name : String) : Option OutputFunction :=
  match symbolDb.getUnversioned name with
  | some (.prelude known) => preludeFunction ctors known
  | _ => none

/-- The definition of an import: that of the first symbol for it that has one, or that of its
name. -/
def importDefinition (o : Nat) (file : WasmObject) (i : Nat) (import' : WasmFunctionImport) :
    Option OutputFunction :=
  (slotDefinition file.symbols .func
      (fun offset => definedAs files ctors (symbolDb.definition o offset)) i).or
    (namedFunction symbolDb ctors import'.name)

/-- A live import without a definition. -/
structure Undefined (o : Nat) (file : WasmObject) (i : Nat) (import' : WasmFunctionImport) : Prop where
  hfile : files[o]? = some file
  himport : file.functionImports[i]? = some import'
  hlive : isLive file.liveFunctionImports i = true
  hundefined : importDefinition files symbolDb ctors o file i import' = none

/-- A name that some object imports, other than weakly, without a definition. -/
def Needed (name : String) : Prop :=
  ∃ o file i import', Undefined files symbolDb ctors o file i import' ∧
    ¬ file.WeaklyImported i ∧ import'.name = name

/-- What a function index of an object stands for. -/
inductive FunctionMeans (o : Nat) (file : WasmObject) : Nat → OutputFunction → Prop where
  | own {j : Nat} {f : OutputFunction} (h : file.definedFunction j = some f) :
      FunctionMeans o file (file.functionImports.length + j) f
  | resolved {i : Nat} {import' : WasmFunctionImport} {f : OutputFunction}
      (himport : file.functionImports[i]? = some import')
      (h : importDefinition files symbolDb ctors o file i import' = some f) :
      FunctionMeans o file i f
  | imported {i : Nat} {import' : WasmFunctionImport} {ty : FuncType}
      (h : Undefined files symbolDb ctors o file i import')
      (hneeded : ¬ file.WeaklyImported i ∨ Needed files symbolDb ctors import'.name)
      (hty : file.importType i = some ty) :
      FunctionMeans o file i (.imported import'.module import'.name ty)
  | stub {i : Nat} {import' : WasmFunctionImport} {ty : FuncType}
      (h : Undefined files symbolDb ctors o file i import') (hweak : file.WeaklyImported i)
      (hneeded : ¬ Needed files symbolDb ctors import'.name) (hty : file.importType i = some ty) :
      FunctionMeans o file i (.defined ty unreachableFunctionBody)

end

/-- A function index of an object that is not removed. -/
def WasmObject.LiveIndex (file : WasmObject) (i : Nat) : Prop :=
  (i < file.functionImports.length ∧ isLive file.liveFunctionImports i = true) ∨
    ∃ j, i = file.functionImports.length + j ∧ isLive file.liveFunctions j = true

/-! ### Objects without what is dead -/

/-- An object and what the layout sees of it. -/
structure Packed (file : WasmObject) (input : WasmObjectLayoutInput) : Prop where
  types : input.types = file.types
  functionImports : input.functionImports = file.functionImports
  symbols : input.symbols = file.symbols
  live : input.liveFunctionImports = file.liveFunctionImports
  function {j d : Nat} (h : input.definedFunctionLiveOrdinal[j]? = some d)
    (hd : d ≠ wasmDeadIndex) :
    input.function d = file.definedFunction j ∧ isLive file.liveFunctions j = true
  ordinal {j : Nat} (h : isLive file.liveFunctions j = true) :
    ∃ d, input.definedFunctionLiveOrdinal[j]? = some d ∧ d < input.moduleFunctions.length

theorem isLive_iff {live : List Bool} {i : Nat} : isLive live i = true ↔ live[i]? = some true := by
  rw [isLive]
  cases live[i]? <;> simp

theorem fromFile_packed {file : WasmObject} {input : WasmObjectLayoutInput}
    (h : WasmObjectLayoutInput.fromFile file = .ok input) : Packed file input := by
  rw [WasmObjectLayoutInput.fromFile] at h
  split at h
  case isFalse => cases h
  case isTrue hbodies =>
      cases h
      refine ⟨rfl, rfl, rfl, rfl, fun {j d} hj hd => ?_, fun hj => ?_⟩
      · obtain ⟨-, hfunctions, hlive⟩ :=
          Packing.kept_getElem? wasmDeadIndex file.liveFunctions_length hj hd
        have hbody := (Packing.kept_getElem? wasmDeadIndex
          (file.liveFunctions_length.trans hbodies.symm) hj hd).2.1
        rw [Nat.sub_zero] at hfunctions hbody
        refine ⟨?_, isLive_iff.mpr hlive⟩
        rw [WasmObjectLayoutInput.function, WasmObject.definedFunction]
        simp only [hfunctions, hbody]
      · obtain ⟨d, hd, hlt⟩ := Packing.exists_ordinal wasmDeadIndex file.liveFunctions_length
          0 (isLive_iff.mp hj)
        exact ⟨d, hd, by simpa using hlt⟩

end JdxLinker.Wasm.Linking
