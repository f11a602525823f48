import JdxLinker.Wasm.Linking.FunctionIndices

/-!
# The link keeps the meaning of function indexes

Each live function index of an object is mapped to an index of the output that stands for what the
object's index means. The steps are: what the slots are resolved to, what becomes of the slots that
stay unresolved, and where the functions end up.
-/

namespace JdxLinker.Wasm.Linking

open Fallible Interning

variable {files : List WasmObject} {inputs : List WasmObjectLayoutInput} {symbolDb : SymbolDb}
  {ctors : OutputFunction}

/-! ### Definitions -/

/-- The function that a resolution leads to. -/
inductive ResolvesTo (inputs : List WasmObjectLayoutInput) (ctors : OutputFunction) :
    ImportResolution → OutputFunction → Prop where
  | object {d l : Nat} {input : WasmObjectLayoutInput} {f : OutputFunction}
      (hinput : inputs[d]? = some input) (hl : l < input.moduleFunctions.length)
      (h : input.function l = some f) : ResolvesTo inputs ctors (.resolvedFunction d l) f
  | callCtors : ResolvesTo inputs ctors (.linkerDefined .callCtors) ctors

theorem not_resolvesTo_unresolved (f : OutputFunction) :
    ¬ ResolvesTo inputs ctors .unresolved f := by
  rintro ⟨⟩

/-- All live functions of the objects have a type. -/
def WellTyped (inputs : List WasmObjectLayoutInput) : Prop :=
  ∀ (o : Nat) (input : WasmObjectLayoutInput) (d : Nat), inputs[o]? = some input →
    d < input.moduleFunctions.length → ∃ f, input.function d = some f

theorem preludeFunction_slotIs (known : Option WasmLinkerSymbol) :
    SlotIs (ResolvesTo inputs ctors)
      ((linkerDefinedFromPreludeDef known .func).getD .unresolved) (preludeFunction ctors known) := by
  by_cases h : known = some .callCtors
  · rw [h, preludeFunction, if_pos rfl]
    exact .callCtors
  · rw [preludeFunction, if_neg h]
    cases known with
    | none => rfl
    | some known => cases known <;> first | rfl | exact absurd rfl h

theorem localDefinedFunctionIndex_eq_ok {input : WasmObjectLayoutInput} {sym : WasmSymbol}
    {dense : Nat} (h : localDefinedFunctionIndex input sym = .ok dense) :
    input.definedFunctionLiveOrdinal[sym.index - input.functionImports.length]? = some dense ∧
      dense ≠ wasmDeadIndex := by
  obtain ⟨_, hlive, h⟩ := bind_eq_ok.mp h
  cases h
  have hlive := ensure_eq_ok.mp hlive
  refine ⟨?_, hlive⟩
  cases hget : input.definedFunctionLiveOrdinal[sym.index - input.functionImports.length]? with
  | none => rw [hget] at hlive; exact absurd rfl hlive
  | some d => rfl

theorem resolveToSymbol_slotIs (htyped : WellTyped inputs) {d : Nat} {file : WasmObject}
    {input : WasmObjectLayoutInput} (hinput : inputs[d]? = some input) (hobject : Packed file input) {sym : WasmSymbol}
    {resolution : ImportResolution} (h : resolveToSymbol .func d input sym = .ok resolution) :
    SlotIs (ResolvesTo inputs ctors) resolution
      (if sym.isUndefined || sym.kind ≠ .func then none
        else file.definedFunction (sym.index - file.functionImports.length)) := by
  rw [resolveToSymbol] at h
  split at h
  case isTrue hnone =>
      cases h
      rw [if_pos hnone]
      rfl
  case isFalse hdefined =>
      rw [if_neg hdefined]
      obtain ⟨_, -, h⟩ := bind_eq_ok.mp h
      obtain ⟨dense, hdense, h⟩ := bind_eq_ok.mp h
      cases h
      obtain ⟨hordinal, hlive⟩ := localDefinedFunctionIndex_eq_ok hdense
      have hlt := input.functionOrdinal_lt dense (List.mem_of_getElem? hordinal) hlive
      obtain ⟨f, hf⟩ := htyped d input dense hinput hlt
      rw [← hobject.functionImports, ← (hobject.function hordinal hlive).1, hf]
      exact .object hinput hlt hf

theorem resolveOneImport_slotIs (hpacked : List.Forall₂ Packed files inputs)
    (htyped : WellTyped inputs) {o offset : Nat} {input : WasmObjectLayoutInput} {sym : WasmSymbol}
    {resolution : ImportResolution} (hinput : inputs[o]? = some input)
    (hsym : input.symbols[offset]? = some sym) (hundefined : sym.isUndefined = true)
    (h : resolveOneImport inputs symbolDb .func o offset = .ok resolution) :
    SlotIs (ResolvesTo inputs ctors) resolution
      (definedAs files ctors (symbolDb.definition o offset)) := by
  rw [resolveOneImport] at h
  cases hsite : symbolDb.definition o offset with
  | elsewhere =>
      rw [hsite] at h
      cases h
      rfl
  | prelude known =>
      rw [hsite] at h
      cases h
      exact preludeFunction_slotIs known
  | object d k =>
      simp only [hsite] at h
      simp only [definedAs, Option.bind_eq_bind]
      split at h
      case isTrue hself =>
          obtain ⟨rfl, rfl⟩ := hself
          cases h
          obtain ⟨file, hfile, hobject⟩ := Lists.exists_getElem?_of_forall₂ hpacked.flip hinput
          rw [hfile, Option.bind_some, ← hobject.symbols, hsym, Option.bind_some, hundefined]
          rfl
      case isFalse =>
          cases hdef : inputs[d]? with
          | none =>
              rw [hdef] at h
              cases h
              have : files[d]? = none := by
                rw [List.getElem?_eq_none_iff] at hdef ⊢
                rwa [hpacked.length_eq]
              rw [this]
              rfl
          | some defInput =>
              rw [hdef] at h
              obtain ⟨defSym, hdefSym, h⟩ := bind_eq_ok.mp h
              obtain ⟨file, hfile, hobject⟩ := Lists.exists_getElem?_of_forall₂ hpacked.flip hdef
              rw [hfile, Option.bind_some, ← hobject.symbols, unwrap_eq_ok.mp hdefSym,
                Option.bind_some]
              exact resolveToSymbol_slotIs htyped hdef hobject h

theorem namedFunction_slotIs (name : String) :
    SlotIs (ResolvesTo inputs ctors)
      ((linkerDefinedImportResolution symbolDb .func name).getD .unresolved)
      (namedFunction symbolDb ctors name) := by
  rw [linkerDefinedImportResolution, namedFunction]
  cases symbolDb.getUnversioned name with
  | none => rfl
  | some site =>
      cases site with
      | prelude known => exact preludeFunction_slotIs known
      | object d offset => rfl
      | elsewhere => rfl

/-- There is a slot for each import. -/
structure SlotsSized (inputs : List WasmObjectLayoutInput) (slots : List (List ImportResolution)) :
    Prop where
  length : slots.length = inputs.length
  object {o : Nat} {input : WasmObjectLayoutInput} {resolutions : List ImportResolution}
      (hinput : inputs[o]? = some input) (hslots : slots[o]? = some resolutions) :
    resolutions.length = input.functionImports.length

theorem resolveCrossObjectImports_slots {resolutions : List ObjectImportResolutions}
    (h : resolveCrossObjectImports inputs symbolDb = .ok resolutions) {o : Nat}
    {input : WasmObjectLayoutInput} {slots : List ImportResolution}
    (hinput : inputs[o]? = some input) (hslots : (functionSlots resolutions)[o]? = some slots) :
    resolveImportSymbols inputs symbolDb .func (input.functionImports.map (·.name))
      input.liveFunctionImports input.symbols o = .ok slots := by
  have hitem : inputs.zipIdx[o]? = some (input, o) := by
    rw [List.getElem?_zipIdx, hinput, Option.map_some, Nat.zero_add]
  obtain ⟨object, hobject, h⟩ := mapM_getElem? h hitem
  rw [functionSlots, List.getElem?_map, hobject] at hslots
  obtain ⟨functionResolutions, hfunctions, h⟩ := bind_eq_ok.mp h
  obtain ⟨globalResolutions, -, h⟩ := bind_eq_ok.mp h
  cases h
  rwa [← Option.some.inj hslots]

theorem resolveCrossObjectImports_sized {resolutions : List ObjectImportResolutions}
    (h : resolveCrossObjectImports inputs symbolDb = .ok resolutions) :
    SlotsSized inputs (functionSlots resolutions) := by
  refine ⟨?_, fun hinput hslots => ?_⟩
  · rw [functionSlots, List.length_map, ← (mapM_eq_ok h).length_eq, List.length_zipIdx]
  · rw [resolveImportSymbols_length (resolveCrossObjectImports_slots h hinput hslots),
      List.length_map]

/-- Slots are resolved to the definitions of their imports. -/
theorem resolveCrossObjectImports_slotIs (hpacked : List.Forall₂ Packed files inputs)
    (htyped : WellTyped inputs) {resolutions : List ObjectImportResolutions}
    (h : resolveCrossObjectImports inputs symbolDb = .ok resolutions) {o i : Nat}
    {file : WasmObject} {slots : List ImportResolution} {import' : WasmFunctionImport}
    (hfile : files[o]? = some file) (hslots : (functionSlots resolutions)[o]? = some slots)
    (himport : file.functionImports[i]? = some import')
    (hlive : isLive file.liveFunctionImports i = true) : ∃ resolution,
      slots[i]? = some resolution ∧ SlotIs (ResolvesTo inputs ctors) resolution
        (importDefinition files symbolDb ctors o file i import') := by
  obtain ⟨input, hinput, hobject⟩ := Lists.exists_getElem?_of_forall₂ hpacked hfile
  have hone : ∀ sym offset resolution, input.symbols[offset]? = some sym → sym.isUndefined = true →
      resolveOneImport inputs symbolDb .func o offset = .ok resolution →
      SlotIs (ResolvesTo inputs ctors) resolution
        (definedAs files ctors (symbolDb.definition o offset)) :=
    fun sym offset resolution => resolveOneImport_slotIs hpacked htyped hinput
  have := resolveImportSymbols_slotIs (i := i)
    not_resolvesTo_unresolved hone
    namedFunction_slotIs (resolveCrossObjectImports_slots h hinput hslots)
    (by rw [hobject.functionImports, List.getElem?_map, himport, Option.map_some])
    (by rwa [hobject.live])
  rwa [hobject.symbols] at this

/-! ### Slots that stay unresolved -/

theorem functionSlots_absorbGotImports {resolutions : List ObjectImportResolutions}
    (hlength : resolutions.length = inputs.length) (module : String) (names : List String)
    (toResolution : Nat → ImportResolution) :
    functionSlots (absorbGotImports module names toResolution inputs resolutions)
      = functionSlots resolutions := by
  have hzip : (inputs.zip resolutions).map Prod.snd = resolutions := List.map_snd_zip (by omega)
  rw [functionSlots, functionSlots, absorbGotImports, List.map_map]
  conv_rhs => rw [← hzip, List.map_map]
  rfl

theorem functionSlots_finalize (gotMemBase gotFuncBase : Nat)
    (resolutions : List ObjectImportResolutions) :
    functionSlots (finalizeGotImportResolutions gotMemBase gotFuncBase resolutions)
      = functionSlots resolutions := by
  rw [functionSlots, functionSlots, finalizeGotImportResolutions, List.map_map]
  rfl

/-- A name of a slot that stays unresolved and is not only weak. -/
def NeededBy (inputs : List WasmObjectLayoutInput) (slots : List (List ImportResolution))
    (name : String) : Prop :=
  ∃ (o : Nat) (input : WasmObjectLayoutInput) (resolutions : List ImportResolution) (i : Nat)
    (import' : WasmFunctionImport), inputs[o]? = some input ∧ slots[o]? = some resolutions ∧
    input.functionImports[i]? = some import' ∧ StaysUnresolved input resolutions i ∧
    pureWeakFunctionImport input i = false ∧ import'.name = name

theorem mem_nonWeakNames {resolutions : List ObjectImportResolutions} {name : String} :
    name ∈ nonWeakNames inputs resolutions ↔ NeededBy inputs (functionSlots resolutions) name := by
  rw [nonWeakNames, List.mem_flatMap]
  constructor
  · rintro ⟨⟨input, object⟩, hpair, hname⟩
    obtain ⟨⟨import', i⟩, hitem, rfl⟩ := List.mem_map.mp hname
    obtain ⟨hitem, hweak⟩ := List.mem_filter.mp hitem
    obtain ⟨himport, hstays⟩ := mem_unresolvedImports.mp hitem
    obtain ⟨o, hpair⟩ := List.mem_iff_getElem?.mp hpair
    obtain ⟨hinput, hobject⟩ := List.getElem?_zip_eq_some.mp hpair
    refine ⟨o, input, object.functionResolutions, i, import', hinput, ?_, himport, hstays,
      by simpa using hweak, rfl⟩
    rw [functionSlots, List.getElem?_map]
    exact congrArg _ hobject
  · rintro ⟨o, input, slots, i, import', hinput, hslots, himport, hstays, hweak, rfl⟩
    rw [functionSlots, List.getElem?_map] at hslots
    obtain ⟨object, hobject, rfl⟩ := Option.map_eq_some_iff.mp hslots
    have hpair : (inputs.zip resolutions)[o]? = some (input, object) :=
      List.getElem?_zip_eq_some.mpr ⟨hinput, hobject⟩
    refine ⟨(input, object), List.mem_of_getElem? hpair, List.mem_map.mpr ⟨(import', i), ?_, rfl⟩⟩
    exact List.mem_filter.mpr ⟨mem_unresolvedImports.mpr ⟨himport, hstays⟩, by simp [hweak]⟩

/-- What reserving indexes makes of the function slots. -/
structure FunctionSetup (inputs : List WasmObjectLayoutInput) (slots : List (List ImportResolution))
    (setup : IndexSetup) (nonWeak : List String) : Prop where
  length : setup.resolutions.length = inputs.length
  needed {name : String} : name ∈ nonWeak ↔ NeededBy inputs slots name
  stubs {o : Nat} {input : WasmObjectLayoutInput} {before after : List ImportResolution}
      (hinput : inputs[o]? = some input) (hbefore : slots[o]? = some before)
      (hafter : (functionSlots setup.resolutions)[o]? = some after) :
    WithStubs nonWeak setup.weakUndefStubs input before after
  shared : FunctionsShared inputs (functionSlots setup.resolutions) setup.sharedImports
  reserved : Reserved setup.indices setup.sharedImports.functions.length setup.weakUndefStubs

theorem setupGotMemAndIndices_functions {request : LinkRequest}
    {resolutions : List ObjectImportResolutions} {hasInitFuncs wrapEntry : Bool} {setup : IndexSetup}
    (hslots : SlotsSized inputs (functionSlots resolutions))
    (h : setupGotMemAndIndices inputs request resolutions hasInitFuncs wrapEntry = .ok setup) :
    ∃ nonWeak, FunctionSetup inputs (functionSlots resolutions) setup nonWeak := by
  have hlength : resolutions.length = inputs.length := by
    have := hslots.length
    rwa [functionSlots, List.length_map] at this
  obtain ⟨⟨stubs, absorbed⟩, habsorb, h⟩ := bind_eq_ok.mp h
  obtain ⟨shared, hshared, h⟩ := bind_eq_ok.mp h
  obtain ⟨indices, hindices, h⟩ := bind_eq_ok.mp h
  cases h
  set got := absorbGotImports "GOT.mem" request.gotMemNames .gotMemSlot inputs resolutions with hgot
  have hgotSlots : functionSlots got = functionSlots resolutions :=
    functionSlots_absorbGotImports hlength ..
  have hgotLength : got.length = inputs.length := by
    rw [hgot, absorbGotImports, List.length_map, List.length_zip, hlength, min_self]
  have hlengths : ∀ pair ∈ inputs.zip got,
      pair.2.functionResolutions.length = pair.1.functionImports.length := by
    intro pair hpair
    obtain ⟨o, hpair⟩ := List.mem_iff_getElem?.mp hpair
    obtain ⟨hinput, hobject⟩ := List.getElem?_zip_eq_some.mp hpair
    refine hslots.object hinput ?_
    rw [← hgotSlots, functionSlots, List.getElem?_map]
    exact congrArg _ hobject
  obtain ⟨-, hall⟩ := absorbObjects_eq_ok hlengths habsorb
  have habsorbed : absorbed.length = inputs.length := by
    rw [← hall.length_eq, List.length_zip, hgotLength, min_self]
  have hfinal : functionSlots (absorbGotImports "GOT.func" request.gotFuncNames .gotFuncSlot
      inputs absorbed) = functionSlots absorbed := functionSlots_absorbGotImports habsorbed ..
  refine ⟨nonWeakNames inputs got, ?_, ?_, fun {o input before after} hinput hbefore hafter => ?_,
    ?_, ?_⟩
  · rw [finalizeGotImportResolutions, List.length_map, absorbGotImports, List.length_map,
      List.length_zip, habsorbed, min_self]
  · intro name
    rw [mem_nonWeakNames, hgotSlots]
  · rw [functionSlots_finalize, hfinal, functionSlots, List.getElem?_map] at hafter
    obtain ⟨object', hobject', rfl⟩ := Option.map_eq_some_iff.mp hafter
    rw [← hgotSlots, functionSlots, List.getElem?_map] at hbefore
    obtain ⟨object, hobject, rfl⟩ := Option.map_eq_some_iff.mp hbefore
    have hpair : (inputs.zip got)[o]? = some (input, object) :=
      List.getElem?_zip_eq_some.mpr ⟨hinput, hobject⟩
    obtain ⟨found, hfound, -, hstubs⟩ := Lists.exists_getElem?_of_forall₂ hall hpair
    obtain rfl : object' = found := Option.some.inj (hobject'.symm.trans hfound)
    exact hstubs
  · rw [functionSlots_finalize]
    exact collectSharedUnresolvedImports_functions hshared
  · exact compute_reserved hindices

end JdxLinker.Wasm.Linking
