import JdxLinker.Lib.Lists
import JdxLinker.Lib.StackCode
import JdxLinker.Wasm.DataSegments

/-!
# Objects and their index spaces

What the layout of a module reads of each object: its types, imports, functions, globals, exports
and symbols, with the ones that garbage collection removed left out.
-/

namespace JdxLinker.Wasm.Linking

open Fallible

inductive ValType where
  | i32
  | i64
  | f32
  | f64
  | v128
  | ref (encoding : Nat)
  deriving DecidableEq, Repr

abbrev FuncType := StackCode.FuncType ValType

structure GlobalType where
  contentType : ValType
  mutable : Bool
  shared : Bool
  deriving DecidableEq, Repr

inductive WasmSymbolKind where
  | null
  | func
  | data
  | global
  | «section»
  | event
  | table
  deriving DecidableEq, Repr

/-- Wasm symbols synthesized by the linker. -/
inductive WasmLinkerSymbol where
  | dataEnd
  | globalBase
  | heapBase
  | heapEnd
  | wasmFirstPageEnd
  | dsoHandle
  | memoryBase
  | tableBase
  | stackPointer
  | tlsBase
  | callCtors
  deriving DecidableEq, Repr

namespace WasmLinkerSymbol

def all : List WasmLinkerSymbol :=
  [dataEnd, globalBase, heapBase, heapEnd, wasmFirstPageEnd, dsoHandle, memoryBase, tableBase,
    stackPointer, tlsBase, callCtors]

def name : WasmLinkerSymbol → String
  | dataEnd => "__data_end"
  | globalBase => "__global_base"
  | heapBase => "__heap_base"
  | heapEnd => "__heap_end"
  | wasmFirstPageEnd => "__wasm_first_page_end"
  | dsoHandle => "__dso_handle"
  | memoryBase => "__memory_base"
  | tableBase => "__table_base"
  | stackPointer => "__stack_pointer"
  | tlsBase => "__tls_base"
  | callCtors => "__wasm_call_ctors"

def parse (text : String) : Option WasmLinkerSymbol := all.find? fun known => known.name = text

/-- `--export` materializes every linker symbol except `__tls_base`. -/
def materializeOnExport (known : WasmLinkerSymbol) : Bool := known ≠ tlsBase

def exportedAsDataGlobal (known : WasmLinkerSymbol) (hasMemory : Bool) : Bool :=
  match known with
  | dataEnd | globalBase | heapBase | wasmFirstPageEnd | dsoHandle => true
  | heapEnd => hasMemory
  | _ => false

def matchesImportKind (known : WasmLinkerSymbol) (kind : WasmSymbolKind) : Bool :=
  match known with
  | callCtors => kind = .func
  | memoryBase | tableBase | stackPointer | tlsBase => kind = .global
  | _ => false

end WasmLinkerSymbol

structure WasmSymbol where
  kind : WasmSymbolKind
  isUndefined : Bool
  isWeak : Bool
  index : Nat
  deriving DecidableEq, Repr

structure WasmFunctionImport where
  module : String
  name : String
  typeIndex : Nat
  deriving DecidableEq, Repr

structure WasmGlobalImport where
  module : String
  name : String
  ty : GlobalType
  deriving DecidableEq, Repr

inductive ExternalKind where
  | func
  | table
  | memory
  | global
  | tag
  deriving DecidableEq, Repr

structure OutputExport where
  name : String
  kind : ExternalKind
  index : Nat
  deriving DecidableEq, Repr

structure OutputGlobal where
  ty : GlobalType
  initExprBody : List UInt8
  deriving DecidableEq, Repr

structure WasmInitFunc where
  priority : Nat
  symbolIndex : Nat
  deriving DecidableEq, Repr

/-! ### Objects as they were read -/

/-- The contents of an object, and which of its parts garbage collection kept. There is a mark for
each part. -/
structure WasmObject where
  types : List FuncType
  functionImports : List WasmFunctionImport
  globalImports : List WasmGlobalImport
  memoryImports : Nat
  memories : Nat
  moduleFunctions : List Nat
  functionBodies : List (List UInt8)
  globals : List OutputGlobal
  exports : List OutputExport
  symbols : List WasmSymbol
  initFuncs : List WasmInitFunc
  liveFunctionImports : List Bool
  liveGlobalImports : List Bool
  liveFunctions : List Bool
  liveGlobals : List Bool
  liveFunctions_length : liveFunctions.length = moduleFunctions.length
  liveGlobals_length : liveGlobals.length = globals.length

/-- An object as the layout of the module sees it. -/
structure WasmObjectLayoutInput where
  types : List FuncType
  functionImports : List WasmFunctionImport
  globalImports : List WasmGlobalImport
  liveFunctionImports : List Bool
  liveGlobalImports : List Bool
  memoryImports : Nat
  memories : Nat
  moduleFunctions : List Nat
  functionBodies : List (List UInt8)
  globals : List OutputGlobal
  exports : List OutputExport
  symbols : List WasmSymbol
  initFuncs : List WasmInitFunc
  definedFunctionLiveOrdinal : List Nat
  definedGlobalLiveOrdinal : List Nat
  functionBodies_length : functionBodies.length = moduleFunctions.length
  functionOrdinal_lt : ∀ d ∈ definedFunctionLiveOrdinal, d ≠ wasmDeadIndex →
    d < moduleFunctions.length
  globalOrdinal_lt : ∀ d ∈ definedGlobalLiveOrdinal, d ≠ wasmDeadIndex → d < globals.length

/-- The live parts move together, in their order. -/
def packLiveOrdinals (live : List Bool) : List Nat := Packing.ordinalsFrom wasmDeadIndex 0 live

theorem lt_of_mem_packLiveOrdinals {α : Type} {as : List α} {live : List Bool}
    (hlength : live.length = as.length) {d : Nat} (h : d ∈ packLiveOrdinals live)
    (hd : d ≠ wasmDeadIndex) : d < (Packing.kept as live).length := by
  obtain ⟨i, hi⟩ := List.mem_iff_getElem?.mp h
  obtain ⟨-, hget, hlive⟩ := Packing.kept_getElem? wasmDeadIndex hlength hi hd
  have hlt : i < as.length := by
    rw [← hlength]
    exact (List.getElem?_eq_some_iff.mp hlive).1
  rw [Nat.sub_zero, List.getElem?_eq_getElem hlt] at hget
  exact (List.getElem?_eq_some_iff.mp hget).1

/-- Leaves out of an object what is not live. -/
def WasmObjectLayoutInput.fromFile (file : WasmObject) : Fallible WasmObjectLayoutInput :=
  if h : file.functionBodies.length = file.moduleFunctions.length then
    .ok
      { file with
        moduleFunctions := Packing.kept file.moduleFunctions file.liveFunctions
        functionBodies := Packing.kept file.functionBodies file.liveFunctions
        globals := Packing.kept file.globals file.liveGlobals
        definedFunctionLiveOrdinal := packLiveOrdinals file.liveFunctions
        definedGlobalLiveOrdinal := packLiveOrdinals file.liveGlobals
        functionBodies_length := Packing.kept_length_eq h _
        functionOrdinal_lt := fun _ => lt_of_mem_packLiveOrdinals file.liveFunctions_length
        globalOrdinal_lt := fun _ => lt_of_mem_packLiveOrdinals file.liveGlobals_length }
  else .error (.error "Wasm function and code section counts differ")

end JdxLinker.Wasm.Linking
