import JdxLinker.Wasm.Linking.Linked

/-!
# What function indexes become

Every live function index of an object becomes an index of the output that stands for what the index
meant. The output imports exactly what stays undefined, once for each module and name.
-/

namespace JdxLinker.Wasm.Linking

open Fallible Interning

section

variable {files : List WasmObject} {inputs : List WasmObjectLayoutInput} {symbolDb : SymbolDb}
  {ctors : OutputFunction} {slots : List (List ImportResolution)}

/-- The slots of the objects, and what their imports are defined as. -/
def SlotsResolved (files : List WasmObject) (inputs : List WasmObjectLayoutInput)
    (symbolDb : SymbolDb) (ctors : OutputFunction) (slots : List (List ImportResolution)) : Prop :=
  ∀ (o i : Nat) (file : WasmObject) (resolutions : List ImportResolution)
    (import' : WasmFunctionImport), files[o]? = some file → slots[o]? = some resolutions →
    file.functionImports[i]? = some import' → isLive file.liveFunctionImports i = true →
    ∃ resolution, resolutions[i]? = some resolution ∧ SlotIs (ResolvesTo inputs ctors) resolution
      (importDefinition files symbolDb ctors o file i import')

theorem pureWeakFunctionImport_iff {file : WasmObject} {input : WasmObjectLayoutInput}
    (h : Packed file input) (i : Nat) :
    pureWeakFunctionImport input i = true ↔ file.WeaklyImported i := by
  rw [pureWeakFunctionImport, h.symbols]
  have hnames : ∀ sym : WasmSymbol,
      (sym.kind = .func && sym.isUndefined && sym.index = i) = sym.namesSlot .func i := by
    intro sym
    rw [WasmSymbol.namesSlot, Bool.and_comm (decide (sym.kind = .func))]
  simp only [hnames, List.any_filter, Bool.and_eq_true, Bool.not_eq_true', List.any_eq_true,
    List.any_eq_false, WasmObject.WeaklyImported]
  constructor
  · rintro ⟨⟨sym, hmem, hslot, -⟩, hall⟩
    refine ⟨⟨sym, hmem, hslot⟩, fun sym hmem hslot => ?_⟩
    by_contra hstrong
    exact hall sym hmem ⟨hslot, by simpa using hstrong⟩
  · rintro ⟨⟨sym, hmem, hslot⟩, hall⟩
    refine ⟨⟨sym, hmem, hslot, hall sym hmem hslot⟩, fun sym hmem hstrong => ?_⟩
    have := hall sym hmem hstrong.1
    rw [this] at hstrong
    exact Bool.noConfusion hstrong.2

/-- A slot stays unresolved if its import has no definition. -/
theorem SlotsResolved.stays_iff (hslots : SlotsResolved files inputs symbolDb ctors slots)
    {o i : Nat} {file : WasmObject} {input : WasmObjectLayoutInput}
    {resolutions : List ImportResolution} {import' : WasmFunctionImport}
    (hfile : files[o]? = some file) (hobject : Packed file input)
    (hresolutions : slots[o]? = some resolutions)
    (himport : file.functionImports[i]? = some import') :
    StaysUnresolved input resolutions i ↔ Undefined files symbolDb ctors o file i import' := by
  constructor
  · rintro ⟨hlive, hunresolved⟩
    rw [hobject.live] at hlive
    obtain ⟨resolution, hget, hdenotes⟩ :=
      hslots o i file resolutions import' hfile hresolutions himport hlive
    obtain rfl : resolution = .unresolved := Option.some.inj (hget.symm.trans hunresolved)
    refine ⟨hfile, himport, hlive, ?_⟩
    cases hdefinition : importDefinition files symbolDb ctors o file i import' with
    | none => rfl
    | some f =>
        rw [hdefinition] at hdenotes
        exact absurd hdenotes (not_resolvesTo_unresolved f)
  · rintro ⟨-, -, hlive, hundefined⟩
    obtain ⟨resolution, hget, hdenotes⟩ :=
      hslots o i file resolutions import' hfile hresolutions himport hlive
    rw [hundefined] at hdenotes
    obtain rfl : resolution = .unresolved := hdenotes
    exact ⟨by rwa [hobject.live], hget⟩

theorem SlotsResolved.needed_iff (hpacked : List.Forall₂ Packed files inputs)
    (hsized : SlotsSized inputs slots) (hslots : SlotsResolved files inputs symbolDb ctors slots)
    (name : String) : NeededBy inputs slots name ↔ Needed files symbolDb ctors name := by
  constructor
  · rintro ⟨o, input, resolutions, i, import', hinput, hresolutions, himport, hstays, hweak, hname⟩
    obtain ⟨file, hfile, hobject⟩ := Lists.exists_getElem?_of_forall₂ hpacked.flip hinput
    rw [hobject.functionImports] at himport
    refine ⟨o, file, i, import', (hslots.stays_iff hfile hobject hresolutions himport).mp hstays,
      fun hweakly => ?_, hname⟩
    rw [(pureWeakFunctionImport_iff hobject i).mpr hweakly] at hweak
    exact Bool.noConfusion hweak
  · rintro ⟨o, file, i, import', hundefined, hweak, hname⟩
    obtain ⟨input, hinput, hobject⟩ := Lists.exists_getElem?_of_forall₂ hpacked hundefined.hfile
    have hlt : o < slots.length := hsized.length ▸ (List.getElem?_eq_some_iff.mp hinput).1
    have hresolutions := List.getElem?_eq_getElem hlt
    refine ⟨o, input, slots[o], i, import', hinput, hresolutions, ?_,
      (hslots.stays_iff hundefined.hfile hobject hresolutions hundefined.himport).mpr hundefined,
      ?_, hname⟩
    · rw [hobject.functionImports]
      exact hundefined.himport
    · rw [← Bool.not_eq_true, pureWeakFunctionImport_iff hobject]
      exact hweak

variable {request : LinkRequest} {linked : LinkedModule}
  {steps : LinkSteps inputs symbolDb request linked}

/-- What is known of a link about the places of functions. -/
structure LinkedFunctions (steps : LinkSteps inputs symbolDb request linked)
    (ctors : OutputFunction) (before : List (List ImportResolution)) (nonWeak : List String) :
    Prop where
  setup : FunctionSetup inputs before linked.setup nonWeak
  placed : FunctionsPlaced inputs steps.bases linked.setup.sharedImports steps.reserved linked.layout
  callCtors : ∀ c, linked.setup.indices.callCtorsFunc = some c →
    linked.layout.function c = some ctors

namespace LinkedFunctions

variable {before : List (List ImportResolution)} {nonWeak : List String}

/-- The context that the index maps are built in. -/
abbrev context (steps : LinkSteps inputs symbolDb request linked) : IndexContext :=
  ⟨steps.bases, linked.setup.indices, linked.setup.sharedImports⟩

theorem function_resolved (h : LinkedFunctions steps ctors before nonWeak) {o i out : Nat}
    {resolution : ImportResolution} {f : OutputFunction}
    (hresolves : ResolvesTo inputs ctors resolution f)
    (hout : importedFunctionIndex (context steps) o i resolution = .ok out) :
    linked.layout.function out = some f := by
  cases hresolves with
  | callCtors => exact h.callCtors out (context_eq_ok.mp hout)
  | object hinput hl hf =>
      obtain ⟨_, -, hout⟩ := bind_eq_ok.mp hout
      obtain ⟨base, hbase, hout⟩ := bind_eq_ok.mp hout
      obtain ⟨rfl, -⟩ := tryU32_eq_ok.mp hout
      obtain ⟨f', hf', hfunction⟩ := h.placed.object hinput (context_eq_ok.mp hbase) hl
      rwa [Option.some.inj (hf.symm.trans hf')]

theorem function_stub (h : LinkedFunctions steps ctors before nonWeak) {o i k out : Nat}
    {stub : WeakUndefFunctionStub} (hstub : linked.setup.weakUndefStubs[k]? = some stub)
    (hout : importedFunctionIndex (context steps) o i (.weakUndefStub k) = .ok out) :
    linked.layout.function out = some (.defined stub.ty unreachableFunctionBody) := by
  have hnumbered := h.setup.reserved.numbered
  have hindex := context_eq_ok.mp hout
  rw [hnumbered, List.getElem?_mapIdx, hstub] at hindex
  have hreserved : steps.reserved[linked.setup.indices.callCtorsFunc.toList.length
      + linked.setup.indices.entryWrapperFunc.toList.length + k]?
      = some (stub.ty, unreachableFunctionBody) := by
    rw [LinkSteps.reserved, reservedFunctions, List.getElem?_append_right (by simp),
      List.getElem?_map, hnumbered, List.getElem?_mapIdx]
    simp [hstub]
  have hplace := h.placed.added hreserved
  rw [← Nat.add_assoc, ← Nat.add_assoc] at hplace
  rwa [← Option.some.inj hindex]

theorem function_shared (h : LinkedFunctions steps ctors before nonWeak) {o i out : Nat}
    {input : WasmObjectLayoutInput} {resolutions : List ImportResolution}
    {import' : WasmFunctionImport} (hinput : inputs[o]? = some input)
    (hresolutions : (functionSlots linked.setup.resolutions)[o]? = some resolutions)
    (himport : input.functionImports[i]? = some import')
    (hstays : StaysUnresolved input resolutions i)
    (hout : importedFunctionIndex (context steps) o i .unresolved = .ok out) :
    ∃ ty, input.types[import'.typeIndex]? = some ty ∧
      linked.layout.function out = some (.imported import'.module import'.name ty) := by
  obtain ⟨k, b, hk, hb, hmodule, hname, hty⟩ :=
    h.setup.shared.slot hinput hresolutions himport hstays
  have hindex := context_eq_ok.mp hout
  obtain rfl : k = out := Option.some.inj (hk.symm.trans hindex)
  exact ⟨b.ty.ty, hty, by rw [h.placed.imported hb, hmodule, hname]⟩

/-- An import index leads to what the import means. -/
theorem imported_means (h : LinkedFunctions steps ctors before nonWeak)
    (hpacked : List.Forall₂ Packed files inputs) (hsized : SlotsSized inputs before)
    (hslots : SlotsResolved files inputs symbolDb ctors before) {o i out : Nat} {file : WasmObject}
    {resolutions : List ImportResolution} {resolution : ImportResolution}
    {import' : WasmFunctionImport} (hfile : files[o]? = some file)
    (himport : file.functionImports[i]? = some import')
    (hlive : isLive file.liveFunctionImports i = true)
    (hresolutions : (functionSlots linked.setup.resolutions)[o]? = some resolutions)
    (hresolution : resolutions[i]? = some resolution)
    (hout : importedFunctionIndex (context steps) o i resolution = .ok out) :
    ∃ f, linked.layout.function out = some f ∧ FunctionMeans files symbolDb ctors o file i f := by
  obtain ⟨input, hinput, hobject⟩ := Lists.exists_getElem?_of_forall₂ hpacked hfile
  have hlt : o < before.length := hsized.length ▸ (List.getElem?_eq_some_iff.mp hinput).1
  have hbefore := List.getElem?_eq_getElem hlt
  have himportInput : input.functionImports[i]? = some import' := by rwa [hobject.functionImports]
  have hstubs := h.setup.stubs hinput hbefore hresolutions
  obtain ⟨first, hfirst, hdenotes⟩ := hslots o i file before[o] import' hfile hbefore himport hlive
  have hstays := hslots.stays_iff hfile hobject hbefore himport
  cases hdefinition : importDefinition files symbolDb ctors o file i import' with
  | some f =>
      rw [hdefinition] at hdenotes
      have hnot : ¬ Absorbed nonWeak input before[o] i import' := by
        intro habsorbed
        have hnone := (hstays.mp habsorbed.stays).hundefined
        rw [hdefinition] at hnone
        cases hnone
      rw [hstubs.kept himportInput hnot, hfirst] at hresolution
      obtain rfl : first = resolution := Option.some.inj hresolution
      exact ⟨f, h.function_resolved hdenotes hout, .resolved himport hdefinition⟩
  | none =>
      rw [hdefinition] at hdenotes
      obtain rfl : first = .unresolved := hdenotes
      have hundefined : Undefined files symbolDb ctors o file i import' :=
        ⟨hfile, himport, hlive, hdefinition⟩
      have hneeded : import'.name ∈ nonWeak ↔ Needed files symbolDb ctors import'.name :=
        h.setup.needed.trans (hslots.needed_iff hpacked hsized import'.name)
      have hweak := pureWeakFunctionImport_iff hobject i
      have htype {ty : FuncType} (hty : input.types[import'.typeIndex]? = some ty) :
          file.importType i = some ty := by
        rwa [WasmObject.importType, himport, Option.bind_some, ← hobject.types]
      by_cases habsorbed : Absorbed nonWeak input before[o] i import'
      · obtain ⟨k, stub, ty, hk, hstub, -, hty, rfl⟩ := hstubs.absorbed himportInput habsorbed
        obtain rfl : resolution = .weakUndefStub k := Option.some.inj (hresolution.symm.trans hk)
        exact ⟨_, h.function_stub hstub hout, .stub hundefined (hweak.mp habsorbed.weak)
          (fun hname => habsorbed.notNeeded (hneeded.mpr hname)) (htype hty)⟩
      · rw [hstubs.kept himportInput habsorbed, hfirst] at hresolution
        obtain rfl := Option.some.inj hresolution
        have hafter : StaysUnresolved input resolutions i :=
          ⟨by rwa [hobject.live], by rw [hstubs.kept himportInput habsorbed, hfirst]⟩
        obtain ⟨ty, hty, hfunction⟩ :=
          h.function_shared hinput hresolutions himportInput hafter hout
        refine ⟨_, hfunction, .imported hundefined ?_ (htype hty)⟩
        by_contra hnot
        rw [not_or, not_not] at hnot
        exact habsorbed ⟨hstays.mpr hundefined, hweak.mpr hnot.1, fun hname =>
          hnot.2 (hneeded.mp hname)⟩

end LinkedFunctions

/-- The function that calls the constructors. -/
def LinkSteps.callCtors (steps : LinkSteps inputs symbolDb request linked) : OutputFunction :=
  .defined ⟨[], []⟩ (encodeCallSequenceBody steps.calls)

theorem LinkSteps.linkedFunctions (steps : LinkSteps inputs symbolDb request linked)
    (hpacked : List.Forall₂ Packed files inputs) : ∃ nonWeak,
      LinkedFunctions steps steps.callCtors (functionSlots steps.resolutions) nonWeak ∧
      SlotsSized inputs (functionSlots steps.resolutions) ∧
      SlotsResolved files inputs symbolDb steps.callCtors (functionSlots steps.resolutions) := by
  have hsized := resolveCrossObjectImports_sized steps.hresolutions
  obtain ⟨nonWeak, hsetup⟩ := setupGotMemAndIndices_functions hsized steps.hsetup
  have hplaced := steps.functionsPlaced hsetup.length hsetup.shared hsetup.reserved
  have htyped := steps.wellTyped hsetup.length
  refine ⟨nonWeak, ⟨hsetup, hplaced, fun c hc => ?_⟩, hsized, ?_⟩
  · have hreserved : steps.reserved[0]? = some (⟨[], []⟩, encodeCallSequenceBody steps.calls) := by
      rw [LinkSteps.reserved, reservedFunctions, hc]
      rfl
    have hfirst := hplaced.added hreserved
    rwa [hsetup.reserved.callCtors c hc]
  · intro o i file resolutions import' hfile hslots himport hlive
    exact resolveCrossObjectImports_slotIs hpacked htyped steps.hresolutions hfile hslots himport
      hlive

/-- The index of a live function leads to what it means. -/
theorem LinkSteps.live_means (steps : LinkSteps inputs symbolDb request linked)
    (hpacked : List.Forall₂ Packed files inputs) {o i : Nat} {file : WasmObject}
    (hfile : files[o]? = some file) (hlive : file.LiveIndex i) : ∃ map out f,
      steps.indexMaps[o]? = some map ∧ map.functionIndices[i]? = some out ∧
      linked.layout.function out = some f ∧
      FunctionMeans files symbolDb steps.callCtors o file i f := by
  obtain ⟨nonWeak, hfunctions, hsized, hslots⟩ := steps.linkedFunctions hpacked
  obtain ⟨input, hinput, hobject⟩ := Lists.exists_getElem?_of_forall₂ hpacked hfile
  obtain ⟨resolutions, base, map, hresolutions, hbase, hmap, hindices⟩ :=
    steps.functionMap hfunctions.setup.length hinput
  rcases hlive with ⟨hi, hlive⟩ | ⟨j, rfl, hlive⟩
  · have himport := List.getElem?_eq_getElem hi
    have hlength : i < resolutions.length := by
      rwa [hindices.length, hobject.functionImports]
    obtain ⟨out, hout, hindex⟩ := hindices.imported (List.getElem?_eq_getElem hlength)
      (by rwa [hobject.live])
    obtain ⟨f, hf, hmeans⟩ := hfunctions.imported_means hpacked hsized hslots hfile himport hlive
      hresolutions (List.getElem?_eq_getElem hlength) hindex
    exact ⟨map, out, f, hmap, hout, hf, hmeans⟩
  · obtain ⟨d, hd, hlt⟩ := hobject.ordinal hlive
    have hdead : d ≠ wasmDeadIndex := by
      obtain ⟨-, -, htotal, -⟩ := steps.basesFrom
      have := List.le_sum_of_mem (List.mem_map_of_mem (f := fun input : WasmObjectLayoutInput =>
        input.moduleFunctions.length) (List.mem_of_getElem? hinput))
      simp only [wasmDeadIndex]
      omega
    obtain ⟨f, hf, hfunction⟩ := hfunctions.placed.object hinput hbase hlt
    have hout := hindices.defined hd hdead
    rw [hobject.functionImports] at hout
    exact ⟨map, _, f, hmap, hout, hfunction, .own (by rw [← (hobject.function hd hdead).1, hf])⟩

end

/-- Every live function index of an object becomes an index of the output that stands for what the
index meant in the object. -/
theorem function_indices_kept {files : List WasmObject} {symbolDb : SymbolDb} {request : LinkRequest}
    {linked : LinkedModule} (h : buildOutputModuleLayout files symbolDb request = .ok linked) :
    ∃ ctors, (∀ c, linked.setup.indices.callCtorsFunc = some c →
        linked.layout.function c = some ctors) ∧
      ∀ o file i, files[o]? = some file → file.LiveIndex i → ∃ map out f,
        linked.layout.objectIndexMaps[o]? = some map ∧ map.functionIndices[i]? = some out ∧
        linked.layout.function out = some f ∧ FunctionMeans files symbolDb ctors o file i f := by
  obtain ⟨inputs, hinputs, h⟩ := bind_eq_ok.mp h
  have hpacked : List.Forall₂ Packed files inputs :=
    (mapM_eq_ok hinputs).imp fun _ _ => fromFile_packed
  obtain ⟨steps⟩ := layoutInputs_eq_ok h
  obtain ⟨nonWeak, hfunctions, -, -⟩ := steps.linkedFunctions hpacked
  refine ⟨steps.callCtors, hfunctions.callCtors, fun o file i hfile hlive => ?_⟩
  obtain ⟨input, hinput, -⟩ := Lists.exists_getElem?_of_forall₂ hpacked hfile
  obtain ⟨map, out, f, hmap, hout, hf, hmeans⟩ := steps.live_means hpacked hfile hlive
  obtain ⟨typeIndices, redirects, -, -, houtputMap⟩ :=
    steps.outputMap hinput hmap
  exact ⟨_, out, f, houtputMap, hout, hf, hmeans⟩

/-- An object with a function that is dropped and one that others may call. -/
def calleeObject : WasmObject where
  types := [⟨[.i32], []⟩, ⟨[], []⟩]
  functionImports := []
  globalImports := []
  memoryImports := 0
  memories := 0
  moduleFunctions := [0, 1]
  functionBodies := [[0, 11], [0, 1, 11]]
  globals := []
  exports := []
  symbols := [⟨.func, false, false, 1⟩]
  initFuncs := []
  liveFunctionImports := []
  liveGlobalImports := []
  liveFunctions := [false, true]
  liveGlobals := []
  liveFunctions_length := rfl
  liveGlobals_length := rfl

/-- An object that imports a function with a definition, a weak one and one that stays imported. Its
own function is a weak definition of the first. -/
def callerObject : WasmObject where
  types := [⟨[], []⟩]
  functionImports := [⟨"env", "f", 0⟩, ⟨"env", "g", 0⟩, ⟨"env", "h", 0⟩]
  globalImports := []
  memoryImports := 0
  memories := 0
  moduleFunctions := [0]
  functionBodies := [[0, 11]]
  globals := []
  exports := []
  symbols := [⟨.func, true, false, 0⟩, ⟨.func, true, true, 1⟩, ⟨.func, true, false, 2⟩,
    ⟨.func, false, true, 3⟩]
  initFuncs := []
  liveFunctionImports := [true, true, true]
  liveGlobalImports := []
  liveFunctions := [true]
  liveGlobals := []
  liveFunctions_length := rfl
  liveGlobals_length := rfl

/-- The caller's first and last symbols have the callee's definition. -/
def calleeDb : SymbolDb where
  definition o offset := if o = 1 ∧ (offset = 0 ∨ offset = 3) then .object 0 0 else .elsewhere
  getUnversioned _ := none
  symbolName _ _ := ""

def plainRequest : LinkRequest := ⟨none, [], [], "memory", [], [], false, false⟩

theorem caller_linked : ∃ linked map,
    buildOutputModuleLayout [calleeObject, callerObject] calleeDb plainRequest = .ok linked ∧
      linked.layout.objectIndexMaps[1]? = some map ∧
      map.outputFunctionIndex 3 ⟨.func, false, true, 3⟩ = .ok 2 := by
  have hcomputed : ((buildOutputModuleLayout [calleeObject, callerObject] calleeDb
      plainRequest).toOption.bind fun linked => linked.layout.objectIndexMaps[1]?.bind fun map =>
        (map.outputFunctionIndex 3 ⟨.func, false, true, 3⟩).toOption) = some 2 := by
    decide +kernel
  obtain ⟨linked, hlinked, hcomputed⟩ := Option.bind_eq_some_iff.mp hcomputed
  obtain ⟨map, hmap, hout⟩ := Option.bind_eq_some_iff.mp hcomputed
  have hok {ε α : Type} {result : Except ε α} {a : α} (h : result.toOption = some a) :
      result = .ok a := by
    cases result <;> cases h
    rfl
  exact ⟨linked, map, hok hlinked, hmap, hok hout⟩

theorem function_indices_kept_caller : ∃ linked,
    buildOutputModuleLayout [calleeObject, callerObject] calleeDb plainRequest = .ok linked ∧
      ∃ ctors map out f, linked.layout.objectIndexMaps[1]? = some map ∧
        map.functionIndices[0]? = some out ∧ linked.layout.function out = some f ∧
        FunctionMeans [calleeObject, callerObject] calleeDb ctors 1 callerObject 0 f := by
  obtain ⟨linked, -, h, -⟩ := caller_linked
  obtain ⟨ctors, -, hkept⟩ := function_indices_kept h
  exact ⟨linked, h, ctors, hkept 1 callerObject 0 rfl (.inl ⟨by decide, rfl⟩)⟩

/-! ### Imports of the output -/

section

variable {files : List WasmObject} {inputs : List WasmObjectLayoutInput} {symbolDb : SymbolDb}
  {request : LinkRequest} {linked : LinkedModule}

theorem preludeFunction_eq_none_iff {ctors : OutputFunction} {known : Option WasmLinkerSymbol} :
    preludeFunction ctors known = none ↔ known ≠ some .callCtors := by
  rw [preludeFunction]
  split <;> simp_all

/-- Whether an import has a definition does not depend on what calls the constructors. -/
theorem importDefinition_eq_none (ctors ctors' : OutputFunction) {o i : Nat} {file : WasmObject}
    {import' : WasmFunctionImport}
    (h : importDefinition files symbolDb ctors o file i import' = none) :
    importDefinition files symbolDb ctors' o file i import' = none := by
  rw [importDefinition, Option.or_eq_none_iff] at h ⊢
  obtain ⟨hsymbols, hnamed⟩ := h
  constructor
  · rw [slotDefinition, List.findSome?_eq_none_iff] at hsymbols ⊢
    intro item hitem
    have hitem := hsymbols item hitem
    split at hitem
    case isTrue hnames =>
        rw [if_pos hnames]
        cases hsite : symbolDb.definition o item.2 with
        | elsewhere => rfl
        | object d offset => rwa [hsite] at hitem
        | prelude known =>
            rw [hsite] at hitem
            exact preludeFunction_eq_none_iff.mpr (preludeFunction_eq_none_iff.mp hitem)
    case isFalse hnames => rw [if_neg hnames]
  · rw [namedFunction] at hnamed ⊢
    split at hnamed
    · exact preludeFunction_eq_none_iff.mpr (preludeFunction_eq_none_iff.mp hnamed)
    · rfl

theorem Undefined.congr {ctors : OutputFunction} (ctors' : OutputFunction) {o i : Nat}
    {file : WasmObject} {import' : WasmFunctionImport}
    (h : Undefined files symbolDb ctors o file i import') :
    Undefined files symbolDb ctors' o file i import' :=
  ⟨h.hfile, h.himport, h.hlive, importDefinition_eq_none ctors ctors' h.hundefined⟩

theorem Needed.congr {ctors : OutputFunction} (ctors' : OutputFunction) {name : String}
    (h : Needed files symbolDb ctors name) : Needed files symbolDb ctors' name := by
  obtain ⟨o, file, i, import', hundefined, hweak, hname⟩ := h
  exact ⟨o, file, i, import', hundefined.congr ctors', hweak, hname⟩

/-- A function that some object imports and that stays imported: it has no definition, and it is
more than weakly needed somewhere. -/
def StaysImported (files : List WasmObject) (symbolDb : SymbolDb) (ctors : OutputFunction)
    (module name : String) (ty : FuncType) : Prop :=
  ∃ o file i import', Undefined files symbolDb ctors o file i import' ∧
    (¬ file.WeaklyImported i ∨ Needed files symbolDb ctors import'.name) ∧
    file.importType i = some ty ∧ import'.module = module ∧ import'.name = name

theorem StaysImported.congr {ctors : OutputFunction} (ctors' : OutputFunction)
    {module name : String} {ty : FuncType} (h : StaysImported files symbolDb ctors module name ty) :
    StaysImported files symbolDb ctors' module name ty := by
  obtain ⟨o, file, i, import', hundefined, hneeded, hty, hmodule, hname⟩ := h
  exact ⟨o, file, i, import', hundefined.congr ctors', hneeded.imp_right (·.congr ctors'), hty,
    hmodule, hname⟩

/-- An imported function of the output is a shared import. -/
theorem FunctionsPlaced.shared_of_imported {bases : List WasmObjectIndexBases}
    {shared : SharedUnresolvedImports} {reserved : List (FuncType × List UInt8)}
    {layout : WasmLayout} (h : FunctionsPlaced inputs bases shared reserved layout) {k : Nat}
    {module name : String} {ty : FuncType} (hk : layout.function k = some (.imported module name ty)) :
    ∃ b, shared.functions[k]? = some b ∧ b.module = module ∧ b.name = name ∧ b.ty.ty = ty := by
  rcases WasmLayout.function_eq_some hk with
    ⟨module', name', t, ty', himport, -, heq⟩ | ⟨d, t, ty', body, -, -, -, -, heq⟩
  · have hlt : k < shared.functions.length := by
      rw [← h.imports_length]
      exact (List.getElem?_eq_some_iff.mp himport).1
    have hb := List.getElem?_eq_getElem hlt
    have hsame := Option.some.inj ((h.imported hb).symm.trans hk)
    cases hsame
    exact ⟨_, hb, rfl, rfl, rfl⟩
  · cases heq

/-- What stays imported is imported. -/
theorem LinkSteps.imported_of_stays (steps : LinkSteps inputs symbolDb request linked)
    (hpacked : List.Forall₂ Packed files inputs) {module name : String} {ty : FuncType}
    (h : StaysImported files symbolDb steps.callCtors module name ty) :
    ∃ k, linked.layout.function k = some (.imported module name ty) := by
  obtain ⟨o, file, i, import', hundefined, hneeded, hty, rfl, rfl⟩ := h
  have hi := (List.getElem?_eq_some_iff.mp hundefined.himport).1
  obtain ⟨map, out, f, -, -, hf, hmeans⟩ :=
    steps.live_means hpacked hundefined.hfile (.inl ⟨hi, hundefined.hlive⟩)
  refine ⟨out, hf.trans (congrArg some ?_)⟩
  cases hmeans with
  | own h => omega
  | resolved himport hdefinition =>
      obtain rfl := Option.some.inj (himport.symm.trans hundefined.himport)
      rw [hundefined.hundefined] at hdefinition
      cases hdefinition
  | imported h _ hty' =>
      obtain rfl := Option.some.inj (h.himport.symm.trans hundefined.himport)
      obtain rfl := Option.some.inj (hty'.symm.trans hty)
      rfl
  | stub h hweak hnot _ =>
      obtain rfl := Option.some.inj (h.himport.symm.trans hundefined.himport)
      rcases hneeded with hstrong | hneeded
      · exact absurd hweak hstrong
      · exact absurd hneeded hnot

/-- What is imported stays imported in some object. -/
theorem LinkSteps.stays_of_imported (steps : LinkSteps inputs symbolDb request linked)
    (hpacked : List.Forall₂ Packed files inputs) {k : Nat} {module name : String} {ty : FuncType}
    (h : linked.layout.function k = some (.imported module name ty)) :
    StaysImported files symbolDb steps.callCtors module name ty := by
  obtain ⟨nonWeak, hfunctions, hsized, hslots⟩ := steps.linkedFunctions hpacked
  obtain ⟨b, hb, rfl, rfl, rfl⟩ := hfunctions.placed.shared_of_imported h
  obtain ⟨o, input, after, i, import', hinput, hafter, himport, hstays, heq, hty⟩ :=
    hfunctions.setup.shared.origin (List.mem_of_getElem? hb)
  obtain ⟨file, hfile, hobject⟩ := Lists.exists_getElem?_of_forall₂ hpacked.flip hinput
  have hlt : o < (functionSlots steps.resolutions).length :=
    hsized.length ▸ (List.getElem?_eq_some_iff.mp hinput).1
  have hbefore := List.getElem?_eq_getElem hlt
  have hstubs := hfunctions.setup.stubs hinput hbefore hafter
  have himportFile : file.functionImports[i]? = some import' := by rwa [← hobject.functionImports]
  by_cases habsorbed : Absorbed nonWeak input (functionSlots steps.resolutions)[o] i import'
  · obtain ⟨stub, -, -, hstub, -⟩ := hstubs.absorbed himport habsorbed
    rw [hstays.unresolved] at hstub
    cases hstub
  have hunresolved := hstubs.kept himport habsorbed
  rw [hstays.unresolved] at hunresolved
  have hstaysBefore : StaysUnresolved input (functionSlots steps.resolutions)[o] i :=
    ⟨hstays.live, hunresolved.symm⟩
  refine ⟨o, file, i, import', (hslots.stays_iff hfile hobject hbefore himportFile).mp hstaysBefore,
    ?_, ?_, by rw [heq], by rw [heq]⟩
  · by_contra hnot
    rw [not_or, not_not] at hnot
    exact habsorbed ⟨hstaysBefore, (pureWeakFunctionImport_iff hobject i).mpr hnot.1, fun hname =>
      hnot.2 ((hfunctions.setup.needed.trans (hslots.needed_iff hpacked hsized _)).mp hname)⟩
  · rw [WasmObject.importType, himportFile, Option.bind_some, ← hobject.types]
    exact hty

end

/-- The output imports a function exactly if it stays imported in some object, and never twice. -/
theorem function_imports_exact {files : List WasmObject} {symbolDb : SymbolDb}
    {request : LinkRequest} {linked : LinkedModule}
    (h : buildOutputModuleLayout files symbolDb request = .ok linked) (ctors : OutputFunction) :
    (∀ module name ty, (∃ k, linked.layout.function k = some (.imported module name ty)) ↔
        StaysImported files symbolDb ctors module name ty) ∧
      ∀ k k' module name ty ty', linked.layout.function k = some (.imported module name ty) →
        linked.layout.function k' = some (.imported module name ty') → k = k' := by
  obtain ⟨inputs, hinputs, h⟩ := bind_eq_ok.mp h
  have hpacked : List.Forall₂ Packed files inputs :=
    (mapM_eq_ok hinputs).imp fun _ _ => fromFile_packed
  obtain ⟨steps⟩ := layoutInputs_eq_ok h
  obtain ⟨nonWeak, hfunctions, -, -⟩ := steps.linkedFunctions hpacked
  constructor
  · intro module name ty
    constructor
    · rintro ⟨k, hk⟩
      exact (steps.stays_of_imported hpacked hk).congr ctors
    · intro hstays
      exact steps.imported_of_stays hpacked (hstays.congr steps.callCtors)
  · intro k k' module name ty ty' hk hk'
    obtain ⟨b, hb, hmodule, hname, -⟩ := hfunctions.placed.shared_of_imported hk
    obtain ⟨b', hb', hmodule', hname', -⟩ := hfunctions.placed.shared_of_imported hk'
    refine Lists.index_eq_of_nodup_map hfunctions.setup.shared.nodup hb hb' ?_
    exact Prod.ext (hmodule.trans hmodule'.symm) (hname.trans hname'.symm)

theorem function_imports_exact_caller : ∃ linked,
    buildOutputModuleLayout [calleeObject, callerObject] calleeDb plainRequest = .ok linked ∧
      ((∃ k, linked.layout.function k = some (.imported "env" "h" ⟨[], []⟩)) ↔
        StaysImported [calleeObject, callerObject] calleeDb (.defined ⟨[], []⟩ []) "env" "h"
          ⟨[], []⟩) := by
  obtain ⟨linked, -, h, -⟩ := caller_linked
  exact ⟨linked, h, (function_imports_exact h (.defined ⟨[], []⟩ [])).1 "env" "h" ⟨[], []⟩⟩

end JdxLinker.Wasm.Linking
