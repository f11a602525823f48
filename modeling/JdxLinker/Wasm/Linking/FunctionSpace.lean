import JdxLinker.Lib.Lists
import JdxLinker.Wasm.Linking.OutputFunctions

/-!
# The order of the function space

After the imports come the functions that the linker reserves, and then those of the objects. An
object's functions are found from its base on, each with its type and its body.
-/

namespace JdxLinker.Wasm.Linking

open Fallible Interning

/-! ### Bases -/

/-- How many entries the objects before one have. -/
def entriesBefore (inputs : List WasmObjectLayoutInput) (size : WasmObjectLayoutInput → Nat)
    (o : Nat) : Nat :=
  ((inputs.map size).take o).sum

theorem entriesBefore_cons (input : WasmObjectLayoutInput) (inputs : List WasmObjectLayoutInput)
    (size : WasmObjectLayoutInput → Nat) (o : Nat) :
    entriesBefore (input :: inputs) size (o + 1) = size input + entriesBefore inputs size o := by
  rw [entriesBefore, List.map_cons, List.take_succ_cons, List.sum_cons]
  rfl

/-- The bases count the entries of the objects before. -/
structure BasesFrom (start : WasmObjectIndexBases) (inputs : List WasmObjectLayoutInput)
    (o : Nat) (base : WasmObjectIndexBases) : Prop where
  type : base.typeIndexBase = start.typeIndexBase + entriesBefore inputs (·.types.length) o
  function : base.definedFunctionBase
    = start.definedFunctionBase + entriesBefore inputs (·.moduleFunctions.length) o
  global : base.definedGlobalBase
    = start.definedGlobalBase + entriesBefore inputs (·.globals.length) o

theorem allocateBasesFrom_eq_ok {start : WasmObjectIndexBases}
    {inputs : List WasmObjectLayoutInput} {bases : List WasmObjectIndexBases}
    (h : allocateBasesFrom start inputs = .ok bases) :
    bases.length = inputs.length ∧
      ∀ o base, bases[o]? = some base → BasesFrom start inputs o base := by
  induction inputs generalizing start bases with
  | nil =>
      cases h
      exact ⟨rfl, fun o base hbase => by cases hbase⟩
  | cons input inputs ih =>
      rw [allocateBasesFrom] at h
      obtain ⟨typeBase, htype, h⟩ := bind_eq_ok.mp h
      obtain ⟨functionBase, hfunction, h⟩ := bind_eq_ok.mp h
      obtain ⟨globalBase, hglobal, h⟩ := bind_eq_ok.mp h
      obtain ⟨rest, hrest, heq⟩ := bind_eq_ok.mp h
      obtain rfl : start :: rest = bases := Except.ok.inj heq
      obtain ⟨hlength, hbases⟩ := ih hrest
      refine ⟨congrArg (· + 1) hlength, fun o base hbase => ?_⟩
      cases o with
      | zero =>
          obtain rfl : start = base := by simpa using hbase
          exact ⟨rfl, rfl, rfl⟩
      | succ o =>
          have hbase := hbases o base (by simpa using hbase)
          have htype := (tryU32_eq_ok.mp htype).1
          have hfunction := (tryU32_eq_ok.mp hfunction).1
          have hglobal := (tryU32_eq_ok.mp hglobal).1
          refine ⟨hbase.type.trans ?_, hbase.function.trans ?_, hbase.global.trans ?_⟩
          · simp only [← htype, entriesBefore_cons, Nat.add_assoc]
          · simp only [← hfunction, entriesBefore_cons, Nat.add_assoc]
          · simp only [← hglobal, entriesBefore_cons, Nat.add_assoc]

/-- All functions have a number that fits. -/
theorem allocateBasesFrom_total {start : WasmObjectIndexBases}
    {inputs : List WasmObjectLayoutInput} {bases : List WasmObjectIndexBases}
    (hstart : start.definedFunctionBase < 2 ^ 32)
    (h : allocateBasesFrom start inputs = .ok bases) :
    start.definedFunctionBase + (inputs.map (·.moduleFunctions.length)).sum < 2 ^ 32 := by
  induction inputs generalizing start bases with
  | nil => simpa using hstart
  | cons input inputs ih =>
      rw [allocateBasesFrom] at h
      obtain ⟨typeBase, -, h⟩ := bind_eq_ok.mp h
      obtain ⟨functionBase, hfunction, h⟩ := bind_eq_ok.mp h
      obtain ⟨globalBase, -, h⟩ := bind_eq_ok.mp h
      obtain ⟨rest, hrest, -⟩ := bind_eq_ok.mp h
      obtain ⟨rfl, hlt⟩ := tryU32_eq_ok.mp hfunction
      have htotal := ih hlt hrest
      rw [List.map_cons, List.sum_cons, ← Nat.add_assoc]
      exact htotal

/-! ### Functions of the objects -/

/-- A live function of an object, by its place among the live ones. -/
def WasmObjectLayoutInput.function (input : WasmObjectLayoutInput) (d : Nat) :
    Option OutputFunction := do
  let typeIndex ← input.moduleFunctions[d]?
  let ty ← input.types[typeIndex]?
  let body ← input.functionBodies[d]?
  some (.defined ty body)

theorem remapWasmIndex_eq_ok {indices : List Nat} {index mapped : Nat} {kind : String}
    (h : remapWasmIndex indices index kind = .ok mapped) :
    indices[index]? = some mapped ∧ mapped ≠ wasmDeadIndex := by
  obtain ⟨_, hget, h⟩ := bind_eq_ok.mp h
  obtain ⟨_, hlive, h⟩ := bind_eq_ok.mp h
  cases h
  exact ⟨context_eq_ok.mp hget, ensure_eq_ok.mp hlive⟩

/-- Where an object's functions and their types are among those of all objects. -/
structure ObjectFunction (layout : WasmLayout) (d typeIndex : Nat) (ty : FuncType)
    (body : List UInt8) : Prop where
  hindex : layout.functionTypeIndices[d]? = some typeIndex
  hty : layout.outputTypes[typeIndex]? = some ty
  hbody : layout.functionBodies[d]? = some body

theorem objectEntries_length {pair : WasmObjectLayoutInput × WasmObjectIndexMap}
    {entry : ObjectEntries} (h : objectEntries pair = .ok entry) :
    entry.functionTypeIndices.length = pair.1.moduleFunctions.length := by
  obtain ⟨indices, hindices, h⟩ := bind_eq_ok.mp h
  obtain ⟨exports, -, h⟩ := bind_eq_ok.mp h
  cases h
  exact (mapM_eq_ok hindices).length_eq.symm

variable {inputs : List WasmObjectLayoutInput} {maps : List WasmObjectIndexMap}
  {imports : List OutputImport} {layout : WasmLayout}

/-- The maps number the types of each object from its base on. -/
def TypesFrom (inputs : List WasmObjectLayoutInput) (maps : List WasmObjectIndexMap) : Prop :=
  maps.length = inputs.length ∧ ∀ o input map, inputs[o]? = some input → maps[o]? = some map →
    map.typeIndices = List.range' (entriesBefore inputs (·.types.length) o) input.types.length

theorem mergeSections_function (h : mergeSections inputs maps imports = .ok layout)
    (htypes : TypesFrom inputs maps) {o d : Nat} {input : WasmObjectLayoutInput}
    (hinput : inputs[o]? = some input) (hd : d < input.moduleFunctions.length) :
    ∃ typeIndex ty body, input.function d = some (.defined ty body) ∧
      ObjectFunction layout (entriesBefore inputs (·.moduleFunctions.length) o + d) typeIndex ty
        body := by
  obtain ⟨hlength, htypes⟩ := htypes
  obtain ⟨entries, hentries, h⟩ := bind_eq_ok.mp h
  cases h
  have hlt : o < maps.length := hlength ▸ (List.getElem?_eq_some_iff.mp hinput).1
  have hzip : (inputs.zip maps)[o]? = some (input, maps[o]) :=
    List.getElem?_zip_eq_some.mpr ⟨hinput, List.getElem?_eq_getElem hlt⟩
  obtain ⟨entry, hentry, hobject⟩ := mapM_getElem? hentries hzip
  obtain ⟨functionTypeIndices, hfunctions, hobject⟩ := bind_eq_ok.mp hobject
  obtain ⟨exports, -, hobject⟩ := bind_eq_ok.mp hobject
  cases hobject
  -- Each object has as many entries as functions.
  have hsizes : entries.map (fun entry => entry.functionTypeIndices.length)
      = inputs.map (·.moduleFunctions.length) := by
    have hpairs := mapM_project (g := fun entry : ObjectEntries => entry.functionTypeIndices.length)
      (k := fun pair => pair.1.moduleFunctions.length) (fun pair entry => objectEntries_length)
      hentries
    have hzip : (inputs.zip maps).map Prod.fst = inputs := List.map_fst_zip (by omega)
    conv_rhs => rw [← hzip, List.map_map]
    exact hpairs
  have ht : input.moduleFunctions[d]? = some input.moduleFunctions[d] := List.getElem?_eq_getElem hd
  obtain ⟨typeIndex, htypeIndex, hremap⟩ := mapM_getElem? hfunctions ht
  have hmapped := (remapWasmIndex_eq_ok hremap).1
  rw [htypes o input maps[o] hinput (List.getElem?_eq_getElem hlt)] at hmapped
  obtain ⟨hrange, hindex⟩ := List.getElem?_eq_some_iff.mp hmapped
  rw [List.length_range'] at hrange
  rw [List.getElem_range', Nat.one_mul] at hindex
  have hbody : d < input.functionBodies.length := by rwa [input.functionBodies_length]
  refine ⟨typeIndex, input.types[input.moduleFunctions[d]], input.functionBodies[d], ?_, ?_, ?_, ?_⟩
  · rw [WasmObjectLayoutInput.function]
    simp only [List.getElem?_eq_getElem hd, List.getElem?_eq_getElem hrange,
      List.getElem?_eq_getElem hbody, Option.bind_eq_bind, Option.bind_some]
  · have := Lists.getElem?_flatMap ObjectEntries.functionTypeIndices hentry
      (d := d) (List.getElem?_eq_some_iff.mp htypeIndex).1
    rw [hsizes] at this
    exact this.trans htypeIndex
  · rw [← hindex]
    exact (Lists.getElem?_flatMap WasmObjectLayoutInput.types hinput hrange).trans
      (List.getElem?_eq_getElem hrange)
  · have hsame : inputs.map (fun input => input.functionBodies.length)
        = inputs.map (·.moduleFunctions.length) :=
      List.map_congr_left fun input _ => input.functionBodies_length
    have := Lists.getElem?_flatMap WasmObjectLayoutInput.functionBodies hinput hbody
    rw [hsame] at this
    exact this.trans (List.getElem?_eq_getElem hbody)

/-! ### Reserved functions -/

theorem reserve_next (needed : Bool) (next : Nat) :
    (reserve needed next).2 = next + (reserve needed next).1.toList.length := by
  cases needed <;> rfl

theorem reserve_index {needed : Bool} {next i : Nat} (h : (reserve needed next).1 = some i) :
    i = next := by
  cases needed with
  | false => cases h
  | true => exact (Option.some.inj h).symm

/-- The functions of the linker are numbered from the imports on. -/
structure Reserved (indices : LinkerDefinedIndices) (imports : Nat)
    (stubs : List WeakUndefFunctionStub) : Prop where
  callCtors : ∀ c, indices.callCtorsFunc = some c → c = imports
  entryWrapper : ∀ w, indices.entryWrapperFunc = some w →
    w = imports + indices.callCtorsFunc.toList.length
  numbered : indices.weakUndefStubs = stubs.mapIdx fun i stub => { stub with
    functionIndex := imports + indices.callCtorsFunc.toList.length
      + indices.entryWrapperFunc.toList.length + i }
  count : indices.numDefinedFunctions = indices.callCtorsFunc.toList.length
    + indices.entryWrapperFunc.toList.length + stubs.length

theorem compute_reserved {resolutions : List ObjectImportResolutions} {functionImports globalImports : Nat}
    {stubs : List WeakUndefFunctionStub} {request : LinkerDefinedIndexRequest}
    {indices : LinkerDefinedIndices}
    (h : LinkerDefinedIndices.compute inputs resolutions functionImports globalImports stubs request
      = .ok indices) : Reserved indices functionImports stubs := by
  obtain ⟨gotMemBase, -, h⟩ := bind_eq_ok.mp h
  obtain ⟨gotFuncBase, -, h⟩ := bind_eq_ok.mp h
  obtain ⟨nextGlobal, -, h⟩ := bind_eq_ok.mp h
  obtain ⟨nextFunc, hnext, h⟩ := bind_eq_ok.mp h
  cases h
  have hnext := (tryU32_eq_ok.mp hnext).1
  simp only [reserve_next, List.length_mapIdx] at hnext ⊢
  refine ⟨fun c hc => reserve_index hc, fun w hw => ?_, ?_, ?_⟩
  · rw [reserve_index hw]
  · rfl
  · show nextFunc - functionImports
      = (reserve _ _).1.toList.length + (reserve _ _).1.toList.length + stubs.length
    omega

/-- The functions that the linker defines, with their types and bodies. -/
def reservedFunctions (indices : LinkerDefinedIndices)
    (callCtorsBody entryWrapperBody : Option (List UInt8)) : List (FuncType × List UInt8) :=
  indices.callCtorsFunc.toList.map (fun _ => (⟨[], []⟩, callCtorsBody.getD emptyFunctionBody))
    ++ indices.entryWrapperFunc.toList.map
      (fun _ => (⟨[], []⟩, entryWrapperBody.getD emptyFunctionBody))
    ++ indices.weakUndefStubs.map fun stub => (stub.ty, unreachableFunctionBody)

theorem Reserved.length {indices : LinkerDefinedIndices} {imports : Nat}
    {stubs : List WeakUndefFunctionStub} (h : Reserved indices imports stubs)
    (callCtorsBody entryWrapperBody : Option (List UInt8)) :
    (reservedFunctions indices callCtorsBody entryWrapperBody).length
      = indices.numDefinedFunctions := by
  rw [h.count, reservedFunctions, List.length_append, List.length_append, List.length_map,
    List.length_map, List.length_map, h.numbered, List.length_mapIdx]

/-- A layout whose defined functions have others in front of them. -/
structure Prefixed (layout layout' : WasmLayout) (functions : List (FuncType × List UInt8)) :
    Prop where
  imports : layout'.imports = layout.imports
  types : layout.outputTypes <+: layout'.outputTypes
  functionTypeIndices : ∃ typeIndices,
    List.Forall₂ (fun t function => layout'.outputTypes[t]? = some function.1) typeIndices functions ∧
      layout'.functionTypeIndices = typeIndices ++ layout.functionTypeIndices
  functionBodies : layout'.functionBodies = functions.map Prod.snd ++ layout.functionBodies

namespace Prefixed

variable {layout layout' : WasmLayout} {functions : List (FuncType × List UInt8)}

theorem functionImports (h : Prefixed layout layout' functions) :
    layout'.functionImports = layout.functionImports := by
  rw [WasmLayout.functionImports, WasmLayout.functionImports, h.imports]

/-- Imports keep their types. -/
theorem function_imported (h : Prefixed layout layout' functions) {index typeIndex : Nat}
    {module name : String} {ty : FuncType}
    (himport : layout.functionImports[index]? = some (module, name, typeIndex))
    (hty : layout.outputTypes[typeIndex]? = some ty) :
    layout'.function index = some (.imported module name ty) := by
  refine WasmLayout.function_imported ?_ (getElem?_of_grows h.types hty)
  rwa [h.functionImports]

theorem function_added (h : Prefixed layout layout' functions) {r : Nat} {ty : FuncType}
    {body : List UInt8} (hr : functions[r]? = some (ty, body)) :
    layout'.function (layout.functionImports.length + r) = some (.defined ty body) := by
  obtain ⟨typeIndices, hall, hindices⟩ := h.functionTypeIndices
  have hlt : r < functions.length := (List.getElem?_eq_some_iff.mp hr).1
  obtain ⟨typeIndex, htype, hty⟩ := Lists.exists_getElem?_of_forall₂ hall.flip hr
  rw [← h.functionImports]
  have hentry : layout'.functionTypeIndices[r]? = some typeIndex := by
    rwa [hindices, List.getElem?_append_left (hall.length_eq ▸ hlt)]
  refine WasmLayout.function_defined hentry hty ?_
  rw [h.functionBodies, List.getElem?_append_left (by rwa [List.length_map]),
    List.getElem?_map, hr, Option.map_some]

theorem function_object (h : Prefixed layout layout' functions) {d typeIndex : Nat} {ty : FuncType}
    {body : List UInt8} (hobject : ObjectFunction layout d typeIndex ty body) :
    layout'.function (layout.functionImports.length + (functions.length + d))
      = some (.defined ty body) := by
  obtain ⟨typeIndices, hall, hindices⟩ := h.functionTypeIndices
  rw [← h.functionImports]
  refine WasmLayout.function_defined ?_ (getElem?_of_grows h.types hobject.hty) ?_
  · rw [hindices, ← hall.length_eq, List.getElem?_append_right (Nat.le_add_right _ _),
      Nat.add_sub_cancel_left]
    exact hobject.hindex
  · rw [h.functionBodies, List.getElem?_append_right (by rw [List.length_map]; omega),
      List.length_map, Nat.add_sub_cancel_left]
    exact hobject.hbody

end Prefixed

theorem emitReserved_prefixed {indices : LinkerDefinedIndices} {imports : Nat}
    {stubs : List WeakUndefFunctionStub} (h : Reserved indices imports stubs)
    (layout : WasmLayout) (callCtorsBody entryWrapperBody : Option (List UInt8)) :
    Prefixed layout (emitReservedLinkerDefinitions layout indices callCtorsBody entryWrapperBody)
      (reservedFunctions indices callCtorsBody entryWrapperBody) := by
  rw [emitReservedLinkerDefinitions, emitReservedFunctions]
  split
  case isTrue hnone =>
      have hempty : reservedFunctions indices callCtorsBody entryWrapperBody = [] :=
        List.length_eq_zero_iff.mp ((h.length _ _).trans hnone)
      rw [hempty]
      exact ⟨rfl, List.prefix_rfl, ⟨[], .nil, rfl⟩, rfl⟩
  case isFalse =>
      simp only [ensureFuncType_eq, ensureFuncTypes_eq]
      set void := intern id layout.outputTypes ⟨[], []⟩ with hvoid
      set tys := indices.weakUndefStubs.map (·.ty) with htys
      have hstubs := internAll_grows id void.2 tys
      obtain ⟨ty, hget, hty⟩ := intern_getElem? id layout.outputTypes ⟨[], []⟩
      obtain rfl : ty = ⟨[], []⟩ := hty
      have hvoidType := getElem?_of_grows hstubs hget
      refine ⟨rfl, (intern_grows id _ _).trans hstubs, ⟨_, ?_, rfl⟩, ?_⟩
      · rw [reservedFunctions]
        refine List.rel_append (List.rel_append ?_ ?_) ?_
        · rw [List.forall₂_map_left_iff, List.forall₂_map_right_iff, List.forall₂_same]
          exact fun _ _ => hvoidType
        · rw [List.forall₂_map_left_iff, List.forall₂_map_right_iff, List.forall₂_same]
          exact fun _ _ => hvoidType
        · rw [List.forall₂_map_right_iff]
          refine List.forall₂_iff_get.mpr ⟨?_, fun i hi hi' => ?_⟩
          · rw [internAll_length, htys, List.length_map]
          · have hty : tys[i]? = some (indices.weakUndefStubs.get ⟨i, hi'⟩).ty := by
              rw [htys, List.getElem?_map, List.getElem?_eq_getElem hi', Option.map_some]
              rfl
            obtain ⟨k, b, hk, hb, hkey⟩ := internAll_getElem? id void.2 hty
            obtain rfl : b = _ := hkey
            rw [List.getElem?_eq_getElem hi] at hk
            rw [← Option.some.inj hk] at hb
            exact hb
      · simp only [reservedFunctions, List.map_append, List.map_map]
        rfl

end JdxLinker.Wasm.Linking
