import JdxLinker.Wasm.Linking.FunctionsKept

/-!
# The functions of a linked module

The steps of a successful link, and where it leaves the functions: the imports, those that the linker
reserves and those of the objects, in this order.
-/

namespace JdxLinker.Wasm.Linking

open Fallible Interning

/-- What the steps of a successful link gave. -/
structure LinkSteps (inputs : List WasmObjectLayoutInput) (symbolDb : SymbolDb)
    (request : LinkRequest) (linked : LinkedModule) where
  resolutions : List ObjectImportResolutions
  entryIsDefined : Bool
  bases : List WasmObjectIndexBases
  indexMaps : List WasmObjectIndexMap
  imports : List OutputImport
  merged : WasmLayout
  calls : List (Nat × Nat)
  deduplicated : WasmLayout
  hresolutions : resolveCrossObjectImports inputs symbolDb = .ok resolutions
  hentryIsDefined : entryIsDefinedFunction inputs symbolDb request.entrySymbolName
    = .ok entryIsDefined
  hsetup : setupGotMemAndIndices inputs request resolutions
    (inputs.any fun input => !input.initFuncs.isEmpty)
    ((inputs.any fun input => !input.initFuncs.isEmpty) && !callCtorsUsedInObjects inputs
      && entryIsDefined) = .ok linked.setup
  hbases : allocateWasmObjectIndexBases inputs linked.setup.sharedImports linked.setup.indices
    = .ok bases
  hindexMaps : buildObjectIndexMaps ⟨bases, linked.setup.indices, linked.setup.sharedImports⟩ inputs
    linked.setup.resolutions = .ok indexMaps
  himports : toOutputImports linked.setup.sharedImports bases = .ok imports
  hmerged : mergeSections inputs indexMaps imports = .ok merged
  hmaps : fillFunctionSymbolRedirects symbolDb inputs indexMaps = .ok linked.maps
  hcalls : collectSortedInitFunctionCalls inputs linked.maps = .ok calls
  hentry : resolveEntryFunction inputs linked.maps symbolDb request.entrySymbolName
    = .ok linked.entry
  hdeduplicated : deduplicateOutputTypes (emitReservedLinkerDefinitions
    { merged with objectIndexMaps := linked.maps } linked.setup.indices
    (linked.setup.indices.callCtorsFunc.map fun _ => encodeCallSequenceBody calls)
    (entryWrapperBody linked.setup.indices linked.entry)) = .ok deduplicated
  hexports : ensureForceExports inputs linked.maps symbolDb request linked.entry linked.setup.indices
    (ensureEntryExport (ensureMemoryExport deduplicated.exports request.memoryExportName)
      linked.entry linked.setup.indices.entryWrapperFunc) = .ok linked.layout.exports
  hlayout : linked.layout = { deduplicated with exports := linked.layout.exports }

theorem layoutInputs_eq_ok {inputs : List WasmObjectLayoutInput} {symbolDb : SymbolDb}
    {request : LinkRequest} {linked : LinkedModule}
    (h : layoutInputs inputs symbolDb request = .ok linked) :
    Nonempty (LinkSteps inputs symbolDb request linked) := by
  obtain ⟨parts, hparts, h⟩ := bind_eq_ok.mp h
  obtain ⟨calls, hcalls, h⟩ := bind_eq_ok.mp h
  obtain ⟨entry, hentry, h⟩ := bind_eq_ok.mp h
  obtain ⟨deduplicated, hdeduplicated, h⟩ := bind_eq_ok.mp h
  obtain ⟨exports, hexports, h⟩ := bind_eq_ok.mp h
  obtain ⟨resolutions, hresolutions, hparts⟩ := bind_eq_ok.mp hparts
  obtain ⟨entryIsDefined, hentryIsDefined, hparts⟩ := bind_eq_ok.mp hparts
  obtain ⟨setup, hsetup, hparts⟩ := bind_eq_ok.mp hparts
  obtain ⟨bases, hbases, hparts⟩ := bind_eq_ok.mp hparts
  obtain ⟨indexMaps, hindexMaps, hparts⟩ := bind_eq_ok.mp hparts
  obtain ⟨imports, himports, hparts⟩ := bind_eq_ok.mp hparts
  obtain ⟨merged, hmerged, hparts⟩ := bind_eq_ok.mp hparts
  obtain ⟨maps, hmaps, hparts⟩ := bind_eq_ok.mp hparts
  cases hparts
  cases h
  exact ⟨⟨resolutions, entryIsDefined, bases, indexMaps, imports, merged, calls, deduplicated,
    hresolutions, hentryIsDefined, hsetup, hbases, hindexMaps, himports, hmerged, hmaps, hcalls,
    hentry, hdeduplicated, hexports, rfl⟩⟩

/-! ### Index maps -/

theorem importedIndices_eq_ok {live : List Bool} {index : Nat → ImportResolution → Fallible Nat}
    {resolutions : List ImportResolution} {indices : List Nat}
    (h : importedIndices live index resolutions = .ok indices) :
    indices.length = resolutions.length ∧ ∀ i resolution, resolutions[i]? = some resolution →
      isLive live i = true → ∃ out, indices[i]? = some out ∧ index i resolution = .ok out := by
  refine ⟨by rw [← (mapM_eq_ok h).length_eq, List.length_zipIdx], fun i resolution hi hlive => ?_⟩
  have hitem : resolutions.zipIdx[i]? = some (resolution, i) := by
    rw [List.getElem?_zipIdx, hi, Option.map_some, Nat.zero_add]
  obtain ⟨out, hout, hindex⟩ := mapM_getElem? h hitem
  rw [if_pos hlive] at hindex
  exact ⟨out, hout, hindex⟩

theorem definedIndices_eq_ok {base : Nat} {ordinals indices : List Nat}
    (h : definedIndices base ordinals = .ok indices) {j d : Nat} (hj : ordinals[j]? = some d)
    (hd : d ≠ wasmDeadIndex) : indices[j]? = some (base + d) := by
  obtain ⟨out, hout, hindex⟩ := mapM_getElem? h hj
  rw [if_neg hd] at hindex
  obtain ⟨rfl, -⟩ := tryU32_eq_ok.mp hindex
  exact hout

/-- The function part of the index map of an object. -/
structure FunctionMap (ctx : IndexContext) (o : Nat) (input : WasmObjectLayoutInput)
    (slots : List ImportResolution) (base : WasmObjectIndexBases) (map : WasmObjectIndexMap) :
    Prop where
  length : slots.length = input.functionImports.length
  typeIndices : map.typeIndices = List.range' base.typeIndexBase input.types.length
  imported {i : Nat} {resolution : ImportResolution} (hslot : slots[i]? = some resolution)
      (hlive : isLive input.liveFunctionImports i = true) : ∃ out,
    map.functionIndices[i]? = some out ∧ importedFunctionIndex ctx o i resolution = .ok out
  defined {j d : Nat} (hj : input.definedFunctionLiveOrdinal[j]? = some d)
      (hd : d ≠ wasmDeadIndex) :
    map.functionIndices[input.functionImports.length + j]? = some (base.definedFunctionBase + d)

theorem buildObjectIndexMap_functions {ctx : IndexContext} {o : Nat} {input : WasmObjectLayoutInput}
    {resolutions : ObjectImportResolutions} {map : WasmObjectIndexMap}
    (h : buildObjectIndexMap ctx o input resolutions = .ok map) : ∃ base, ctx.bases[o]? = some base ∧
      FunctionMap ctx o input resolutions.functionResolutions base map := by
  obtain ⟨base, hbase, h⟩ := bind_eq_ok.mp h
  obtain ⟨_, hlength, h⟩ := bind_eq_ok.mp h
  obtain ⟨_, -, h⟩ := bind_eq_ok.mp h
  obtain ⟨importedFunctions, himported, h⟩ := bind_eq_ok.mp h
  obtain ⟨importedGlobals, -, h⟩ := bind_eq_ok.mp h
  obtain ⟨definedFunctions, hdefined, h⟩ := bind_eq_ok.mp h
  obtain ⟨definedGlobals, -, h⟩ := bind_eq_ok.mp h
  cases h
  obtain ⟨hsame, hslots⟩ := importedIndices_eq_ok himported
  refine ⟨base, unwrap_eq_ok.mp hbase, ensure_eq_ok.mp hlength, rfl, fun hslot hlive => ?_,
    fun hj hd => ?_⟩
  · obtain ⟨out, hout, hindex⟩ := hslots _ _ hslot hlive
    refine ⟨out, ?_, hindex⟩
    rwa [List.getElem?_append_left (List.getElem?_eq_some_iff.mp hout).1]
  · rw [← ensure_eq_ok.mp hlength, ← hsame, List.getElem?_append_right (Nat.le_add_right _ _),
      Nat.add_sub_cancel_left]
    exact definedIndices_eq_ok hdefined hj hd

/-- What has an index is live. -/
theorem buildObjectIndexMap_live {ctx : IndexContext} {o : Nat} {input : WasmObjectLayoutInput}
    {resolutions : ObjectImportResolutions} {map : WasmObjectIndexMap}
    (h : buildObjectIndexMap ctx o input resolutions = .ok map) {i out : Nat}
    (hout : map.functionIndices[i]? = some out) (hdead : out ≠ wasmDeadIndex) :
    (i < input.functionImports.length ∧ isLive input.liveFunctionImports i = true) ∨
      ∃ j d, i = input.functionImports.length + j ∧
        input.definedFunctionLiveOrdinal[j]? = some d ∧ d ≠ wasmDeadIndex := by
  obtain ⟨base, -, h⟩ := bind_eq_ok.mp h
  obtain ⟨_, hlength, h⟩ := bind_eq_ok.mp h
  obtain ⟨_, -, h⟩ := bind_eq_ok.mp h
  obtain ⟨importedFunctions, himported, h⟩ := bind_eq_ok.mp h
  obtain ⟨importedGlobals, -, h⟩ := bind_eq_ok.mp h
  obtain ⟨definedFunctions, hdefined, h⟩ := bind_eq_ok.mp h
  obtain ⟨definedGlobals, -, h⟩ := bind_eq_ok.mp h
  cases h
  have hsame : importedFunctions.length = input.functionImports.length :=
    (importedIndices_eq_ok himported).1.trans (ensure_eq_ok.mp hlength)
  by_cases hi : i < input.functionImports.length
  · refine .inl ⟨hi, ?_⟩
    rw [List.getElem?_append_left (hsame ▸ hi)] at hout
    have hslot : i < resolutions.functionResolutions.length := by rwa [ensure_eq_ok.mp hlength]
    have hitem : resolutions.functionResolutions.zipIdx[i]?
        = some (resolutions.functionResolutions[i], i) := by
      rw [List.getElem?_zipIdx, List.getElem?_eq_getElem hslot, Option.map_some, Nat.zero_add]
    obtain ⟨found, hfound, hindex⟩ := mapM_getElem? himported hitem
    by_contra hlive
    rw [if_neg hlive] at hindex
    rw [← Except.ok.inj hindex] at hfound
    exact hdead (Option.some.inj (hout.symm.trans hfound))
  · refine .inr ⟨i - input.functionImports.length, ?_⟩
    rw [List.getElem?_append_right (by omega), hsame] at hout
    have hj : i - input.functionImports.length < input.definedFunctionLiveOrdinal.length := by
      rw [(mapM_eq_ok hdefined).length_eq]
      exact (List.getElem?_eq_some_iff.mp hout).1
    have hordinal := List.getElem?_eq_getElem hj
    refine ⟨_, by omega, hordinal, fun hlive => ?_⟩
    obtain ⟨found, hfound, hindex⟩ := mapM_getElem? hdefined hordinal
    rw [if_pos hlive] at hindex
    rw [← Except.ok.inj hindex] at hfound
    exact hdead (Option.some.inj (hout.symm.trans hfound))

/-! ### Where the functions are -/

/-- The functions of a layout: imports, functions of the linker, and functions of the objects. -/
structure FunctionsPlaced (inputs : List WasmObjectLayoutInput) (bases : List WasmObjectIndexBases)
    (shared : SharedUnresolvedImports) (reserved : List (FuncType × List UInt8))
    (layout : WasmLayout) : Prop where
  imports_length : layout.functionImports.length = shared.functions.length
  imported {k : Nat} {b : SharedImport FunctionTypeRef} (hb : shared.functions[k]? = some b) :
    layout.function k = some (.imported b.module b.name b.ty.ty)
  added {r : Nat} {ty : FuncType} {body : List UInt8} (hr : reserved[r]? = some (ty, body)) :
    layout.function (shared.functions.length + r) = some (.defined ty body)
  object {o d : Nat} {input : WasmObjectLayoutInput} {base : WasmObjectIndexBases}
      (hinput : inputs[o]? = some input) (hbase : bases[o]? = some base)
      (hd : d < input.moduleFunctions.length) :
    ∃ f, input.function d = some f ∧ layout.function (base.definedFunctionBase + d) = some f

theorem FunctionsPlaced.mono {inputs : List WasmObjectLayoutInput}
    {bases : List WasmObjectIndexBases} {shared : SharedUnresolvedImports}
    {reserved : List (FuncType × List UInt8)} {layout layout' : WasmLayout}
    (h : FunctionsPlaced inputs bases shared reserved layout)
    (hlength : layout'.functionImports.length = layout.functionImports.length)
    (hkept : ∀ index f, layout.function index = some f → layout'.function index = some f) :
    FunctionsPlaced inputs bases shared reserved layout' := by
  refine ⟨hlength.trans h.imports_length, fun hb => hkept _ _ (h.imported hb), fun hr => hkept _ _ (h.added hr), ?_⟩
  intro o d input base hinput hbase hd
  obtain ⟨f, hf, hfunction⟩ := h.object hinput hbase hd
  exact ⟨f, hf, hkept _ _ hfunction⟩

/-- The function imports of the output are the shared ones, with their types numbered. -/
theorem toOutputImports_functions {shared : SharedUnresolvedImports}
    {bases : List WasmObjectIndexBases} {imports : List OutputImport}
    (h : toOutputImports shared bases = .ok imports) :
    List.Forall₂ (fun b entry => ∃ base, bases[b.ty.firstObject]? = some base ∧
      entry = (b.module, b.name, base.typeIndexBase + b.ty.localTypeIndex))
      shared.functions (imports.filterMap OutputImport.function?) := by
  obtain ⟨functions, hfunctions, h⟩ := bind_eq_ok.mp h
  cases h
  have hglobals : (shared.globals.map fun import' =>
      (⟨import'.module, import'.name, .global import'.ty⟩ : OutputImport)).filterMap
        OutputImport.function? = [] := by
    rw [List.filterMap_eq_nil_iff]
    intro import' hmem
    obtain ⟨global, -, rfl⟩ := List.mem_map.mp hmem
    rfl
  rw [List.filterMap_append, hglobals, List.append_nil]
  have hall := mapM_eq_ok hfunctions
  generalize shared.functions = entries at hall
  clear h hfunctions
  induction hall with
  | nil => exact .nil
  | cons hstep _ ih =>
      obtain ⟨base, hbase, hstep⟩ := bind_eq_ok.mp hstep
      obtain ⟨typeIndex, htype, hstep⟩ := bind_eq_ok.mp hstep
      cases hstep
      obtain ⟨rfl, -⟩ := tryU32_eq_ok.mp htype
      exact .cons ⟨base, context_eq_ok.mp hbase, rfl⟩ ih

namespace LinkSteps

variable {inputs : List WasmObjectLayoutInput} {symbolDb : SymbolDb} {request : LinkRequest}
  {linked : LinkedModule} (steps : LinkSteps inputs symbolDb request linked)

/-- The functions that the linker adds. -/
def reserved : List (FuncType × List UInt8) :=
  reservedFunctions linked.setup.indices
    (linked.setup.indices.callCtorsFunc.map fun _ => encodeCallSequenceBody steps.calls)
    (entryWrapperBody linked.setup.indices linked.entry)

theorem basesFrom : ∃ globalBase, steps.bases.length = inputs.length ∧
    (linked.setup.sharedImports.functions.length + linked.setup.indices.numDefinedFunctions
      + (inputs.map (·.moduleFunctions.length)).sum < 2 ^ 32) ∧
    ∀ o base, steps.bases[o]? = some base → BasesFrom ⟨0, linked.setup.sharedImports.functions.length
      + linked.setup.indices.numDefinedFunctions, globalBase⟩ inputs o base := by
  obtain ⟨functionBase, hfunction, h⟩ := bind_eq_ok.mp steps.hbases
  obtain ⟨globalBase, -, h⟩ := bind_eq_ok.mp h
  obtain ⟨rfl, hlt⟩ := tryU32_eq_ok.mp hfunction
  obtain ⟨hlength, hbases⟩ := allocateBasesFrom_eq_ok h
  exact ⟨globalBase, hlength, allocateBasesFrom_total hlt h, hbases⟩

theorem indexMaps_length (hlength : linked.setup.resolutions.length = inputs.length) :
    steps.indexMaps.length = inputs.length := by
  rw [← (mapM_eq_ok steps.hindexMaps).length_eq, List.length_zipIdx, List.length_zip, hlength,
    min_self]

/-- Each object has a map. -/
theorem indexMap (hlength : linked.setup.resolutions.length = inputs.length) {o : Nat}
    {input : WasmObjectLayoutInput} (hinput : inputs[o]? = some input) : ∃ object map,
      linked.setup.resolutions[o]? = some object ∧ steps.indexMaps[o]? = some map ∧
      buildObjectIndexMap ⟨steps.bases, linked.setup.indices, linked.setup.sharedImports⟩ o input
        object = .ok map := by
  have hlt : o < linked.setup.resolutions.length :=
    hlength ▸ (List.getElem?_eq_some_iff.mp hinput).1
  have hobject := List.getElem?_eq_getElem hlt
  have hzip : (inputs.zip linked.setup.resolutions)[o]? = some (input, linked.setup.resolutions[o]) :=
    List.getElem?_zip_eq_some.mpr ⟨hinput, hobject⟩
  have hitem : (inputs.zip linked.setup.resolutions).zipIdx[o]?
      = some ((input, linked.setup.resolutions[o]), o) := by
    rw [List.getElem?_zipIdx, hzip, Option.map_some, Nat.zero_add]
  obtain ⟨map, hmap, hbuild⟩ := mapM_getElem? steps.hindexMaps hitem
  exact ⟨_, map, hobject, hmap, hbuild⟩

/-- The functions of the map of an object. -/
theorem functionMap (hlength : linked.setup.resolutions.length = inputs.length) {o : Nat}
    {input : WasmObjectLayoutInput} (hinput : inputs[o]? = some input) : ∃ slots base map,
      (functionSlots linked.setup.resolutions)[o]? = some slots ∧ steps.bases[o]? = some base ∧
      steps.indexMaps[o]? = some map ∧
      FunctionMap ⟨steps.bases, linked.setup.indices, linked.setup.sharedImports⟩ o input slots base
        map := by
  obtain ⟨object, map, hobject, hmap, hbuild⟩ := steps.indexMap hlength hinput
  obtain ⟨base, hbase, hfunctions⟩ := buildObjectIndexMap_functions hbuild
  refine ⟨_, base, map, ?_, hbase, hmap, hfunctions⟩
  rw [functionSlots, List.getElem?_map, hobject, Option.map_some]

theorem typesFrom (hlength : linked.setup.resolutions.length = inputs.length) :
    TypesFrom inputs steps.indexMaps := by
  refine ⟨steps.indexMaps_length hlength, fun o input map hinput hmap => ?_⟩
  obtain ⟨globalBase, -, -, hbases⟩ := steps.basesFrom
  obtain ⟨slots, base, found, -, hbase, hfound, hfunctions⟩ := steps.functionMap hlength hinput
  obtain rfl : map = found := Option.some.inj (hmap.symm.trans hfound)
  rw [hfunctions.typeIndices, (hbases o base hbase).type, Nat.zero_add]

/-- The maps of the output have other type indexes, and the targets of overridden symbols. -/
theorem outputMap {o : Nat} {input : WasmObjectLayoutInput} {map : WasmObjectIndexMap}
    (hinput : inputs[o]? = some input) (hmap : steps.indexMaps[o]? = some map) : ∃ typeIndices functionSymbolRedirects,
      input.symbols.zipIdx.mapM (functionSymbolRedirect symbolDb inputs steps.indexMaps o)
        = .ok functionSymbolRedirects ∧
      linked.maps[o]? = some { map with functionSymbolRedirects } ∧
      linked.layout.objectIndexMaps[o]?
        = some { map with typeIndices, functionSymbolRedirects } := by
  have hzip : (inputs.zip steps.indexMaps)[o]? = some (input, map) :=
    List.getElem?_zip_eq_some.mpr ⟨hinput, hmap⟩
  have hitem : (inputs.zip steps.indexMaps).zipIdx[o]? = some ((input, map), o) := by
    rw [List.getElem?_zipIdx, hzip, Option.map_some, Nat.zero_add]
  obtain ⟨redirected, hredirected, h⟩ := mapM_getElem? steps.hmaps hitem
  obtain ⟨functionSymbolRedirects, hredirects, h⟩ := bind_eq_ok.mp h
  obtain rfl := Except.ok.inj h
  have hreserved : (emitReservedLinkerDefinitions
      { steps.merged with objectIndexMaps := linked.maps } linked.setup.indices
      (linked.setup.indices.callCtorsFunc.map fun _ => encodeCallSequenceBody steps.calls)
      (entryWrapperBody linked.setup.indices linked.entry)).objectIndexMaps = linked.maps := by
    rw [emitReservedLinkerDefinitions, emitReservedFunctions]
    split <;> rfl
  have hmaps := (deduplicateOutputTypes_eq_ok steps.hdeduplicated).maps
  rw [hreserved] at hmaps
  obtain ⟨_, hfinal, typeIndices, rfl⟩ := Lists.exists_getElem?_of_forall₂ hmaps hredirected
  refine ⟨typeIndices, functionSymbolRedirects, hredirects, hredirected, ?_⟩
  rw [steps.hlayout]
  exact hfinal

theorem wellTyped (steps : LinkSteps inputs symbolDb request linked) (hlength : linked.setup.resolutions.length = inputs.length) :
    WellTyped inputs := by
  intro o input d hinput hd
  obtain ⟨-, ty, body, hf, -⟩ :=
    mergeSections_function steps.hmerged (steps.typesFrom hlength) hinput hd
  exact ⟨.defined ty body, hf⟩

theorem functionsPlaced (hlength : linked.setup.resolutions.length = inputs.length)
    {slots : List (List ImportResolution)} {stubs : List WeakUndefFunctionStub}
    (hshared : FunctionsShared inputs slots linked.setup.sharedImports)
    (hreserved : Reserved linked.setup.indices linked.setup.sharedImports.functions.length stubs) :
    FunctionsPlaced inputs steps.bases linked.setup.sharedImports steps.reserved
      linked.layout := by
  obtain ⟨globalBase, hbasesLength, -, hbases⟩ := steps.basesFrom
  have hprefixed := emitReserved_prefixed hreserved
    { steps.merged with objectIndexMaps := linked.maps }
    (linked.setup.indices.callCtorsFunc.map fun _ => encodeCallSequenceBody steps.calls)
    (entryWrapperBody linked.setup.indices linked.entry)
  have hdeduplicated := deduplicateOutputTypes_eq_ok steps.hdeduplicated
  have hcount := hreserved.length
    (linked.setup.indices.callCtorsFunc.map fun _ => encodeCallSequenceBody steps.calls)
    (entryWrapperBody linked.setup.indices linked.entry)
  have himports := toOutputImports_functions steps.himports
  obtain ⟨entries, -, hmerged⟩ := bind_eq_ok.mp steps.hmerged
  have hmergedImports : steps.merged.imports = steps.imports := by
    rw [← Except.ok.inj hmerged]
  have hmergedTypes : steps.merged.outputTypes = inputs.flatMap (·.types) := by
    rw [← Except.ok.inj hmerged]
  have hfunctionImports : ({ steps.merged with objectIndexMaps := linked.maps } :
      WasmLayout).functionImports = steps.imports.filterMap OutputImport.function? := by
    rw [WasmLayout.functionImports]
    exact congrArg _ hmergedImports
  have hfunctionImportsLength := himports.length_eq
  rw [← hfunctionImports] at hfunctionImportsLength
  have hplaced : FunctionsPlaced inputs steps.bases linked.setup.sharedImports steps.reserved
      (emitReservedLinkerDefinitions { steps.merged with objectIndexMaps := linked.maps }
        linked.setup.indices
        (linked.setup.indices.callCtorsFunc.map fun _ => encodeCallSequenceBody steps.calls)
        (entryWrapperBody linked.setup.indices linked.entry)) := by
    refine ⟨?_, fun {k b} hb => ?_, fun hr => ?_, fun {o d input base} hinput hbase hd => ?_⟩
    · rw [hprefixed.functionImports, hfunctionImportsLength]
    · obtain ⟨import', himport, base, hbase, rfl⟩ := Lists.exists_getElem?_of_forall₂ himports hb
      obtain ⟨o, input, resolutions, i, import', hinput, -, -, -, heq, hty⟩ :=
        hshared.origin (List.mem_of_getElem? hb)
      have hobject : b.ty.firstObject = o := by rw [heq]
      have htypeIndex : b.ty.localTypeIndex = import'.typeIndex := by rw [heq]
      subst hobject
      rw [htypeIndex, (hbases _ _ hbase).type, Nat.zero_add] at himport
      refine hprefixed.function_imported (by rw [hfunctionImports]; exact himport) ?_
      show steps.merged.outputTypes[_]? = _
      rw [hmergedTypes]
      exact (Lists.getElem?_flatMap WasmObjectLayoutInput.types hinput
        (List.getElem?_eq_some_iff.mp hty).1).trans hty
    · rw [hfunctionImportsLength]
      exact hprefixed.function_added hr
    · obtain ⟨typeIndex, ty, body, hf, hobject⟩ :=
        mergeSections_function steps.hmerged (steps.typesFrom hlength) hinput hd
      refine ⟨_, hf, ?_⟩
      have := hprefixed.function_object (d := entriesBefore inputs (·.moduleFunctions.length) o + d)
        ⟨hobject.hindex, hobject.hty, hobject.hbody⟩
      rw [← hfunctionImportsLength, hcount] at this
      rw [(hbases o base hbase).function, Nat.add_assoc, Nat.add_assoc]
      exact this
  refine hplaced.mono ?_ fun index f hf => ?_
  · rw [steps.hlayout]
    exact hdeduplicated.imports_length
  · rw [steps.hlayout]
    exact hdeduplicated.function hf

/-- No function has the index that marks what is dead. -/
theorem function_lt (steps : LinkSteps inputs symbolDb request linked)
    (hlength : linked.setup.resolutions.length = inputs.length)
    {slots : List (List ImportResolution)} {stubs : List WeakUndefFunctionStub}
    (hshared : FunctionsShared inputs slots linked.setup.sharedImports)
    (hreserved : Reserved linked.setup.indices linked.setup.sharedImports.functions.length stubs)
    {index : Nat} {f : OutputFunction} (h : linked.layout.function index = some f) :
    index < wasmDeadIndex := by
  obtain ⟨-, -, htotal, -⟩ := steps.basesFrom
  have hplaced := steps.functionsPlaced hlength hshared hreserved
  have hprefixed := emitReserved_prefixed hreserved
    { steps.merged with objectIndexMaps := linked.maps }
    (linked.setup.indices.callCtorsFunc.map fun _ => encodeCallSequenceBody steps.calls)
    (entryWrapperBody linked.setup.indices linked.entry)
  have hcount := hreserved.length
    (linked.setup.indices.callCtorsFunc.map fun _ => encodeCallSequenceBody steps.calls)
    (entryWrapperBody linked.setup.indices linked.entry)
  obtain ⟨entries, -, hmerged⟩ := bind_eq_ok.mp steps.hmerged
  have hmergedBodies : steps.merged.functionBodies.length
      = (inputs.map (·.moduleFunctions.length)).sum := by
    rw [← Except.ok.inj hmerged, List.length_flatMap]
    exact congrArg List.sum (List.map_congr_left fun input _ => input.functionBodies_length)
  have hbodies : linked.layout.functionBodies.length
      = linked.setup.indices.numDefinedFunctions + (inputs.map (·.moduleFunctions.length)).sum := by
    rw [steps.hlayout]
    show steps.deduplicated.functionBodies.length = _
    rw [(deduplicateOutputTypes_eq_ok steps.hdeduplicated).functionBodies, hprefixed.functionBodies,
      List.length_append, List.length_map, hcount, hmergedBodies]
  have hindex : index < linked.layout.functionImports.length
      + linked.layout.functionBodies.length := by
    rcases WasmLayout.function_eq_some h with
      ⟨module, name, t, ty, himport, -, -⟩ | ⟨d, t, ty, body, rfl, -, -, hbody, -⟩
    · have := (List.getElem?_eq_some_iff.mp himport).1
      omega
    · have := (List.getElem?_eq_some_iff.mp hbody).1
      omega
  rw [hplaced.imports_length, hbodies] at hindex
  simp only [wasmDeadIndex]
  omega

end LinkSteps

end JdxLinker.Wasm.Linking
