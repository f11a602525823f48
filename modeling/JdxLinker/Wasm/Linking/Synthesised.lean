import JdxLinker.Lib.StableSort
import JdxLinker.Wasm.Linking.FunctionSymbols

/-!
# Functions that the linker adds

One function calls the constructors of all objects, in the order of their priorities. The entry may be
wrapped in a function that calls that one first.
-/

namespace JdxLinker.Wasm.Linking

open Fallible

/-! ### Bodies -/

theorem decodeInstrs_calls (calls : List (Nat × Nat)) :
    StackCode.decodeInstrs ((calls.map fun call => call.2 + 1).sum + 1)
      ((calls.flatMap fun call => 0x10 :: (Uleb.encode call.1 ++ List.replicate call.2 0x1a))
        ++ [0x0b]) = some (StackCode.callSequence calls) := by
  induction calls with
  | nil => rfl
  | cons call calls ih =>
      have hfuel : ((call :: calls).map fun call => call.2 + 1).sum + 1
          = (calls.map fun call => call.2 + 1).sum + 1 + call.2 + 1 := by
        rw [List.map_cons, List.sum_cons]
        omega
      rw [hfuel, List.flatMap_cons, List.cons_append, List.cons_append, List.append_assoc,
        List.append_assoc, StackCode.decodeInstrs_call, StackCode.decodeInstrs_drops, ih]
      rfl

/-- The body that is written for a sequence of calls is that sequence. -/
theorem decodeBody_encodeCallSequenceBody (calls : List (Nat × Nat)) :
    StackCode.decodeBody (encodeCallSequenceBody calls) = some (StackCode.callSequence calls) := by
  refine StackCode.decodeInstrs_mono ?_ (decodeInstrs_calls calls)
  rw [List.append_eq, List.length_append, List.length_flatMap, List.length_singleton]
  refine Nat.add_le_add_right (List.sum_le_sum fun call _ => ?_) 1
  rw [List.length_cons, List.length_append, List.length_replicate]
  omega

/-! ### Constructors -/

/-- The type that an object gives to a function index. -/
def WasmObject.functionType (file : WasmObject) (i : Nat) : Option FuncType :=
  if i < file.functionImports.length then file.importType i
  else (file.definedFunction (i - file.functionImports.length)).map OutputFunction.ty

/-- The constructors of the objects, each with the number of its object. -/
def constructors (files : List WasmObject) : List (Nat × WasmInitFunc) :=
  (files.zipIdx.map fun item => item.1.initFuncs.map fun init => (item.2, init)).flatten

/-- A call of a constructor: the function that its symbol stands for, and a drop for each result that
the constructor has in its object. -/
inductive CallsConstructor (files : List WasmObject) (symbolDb : SymbolDb) (ctors : OutputFunction)
    (layout : WasmLayout) : Nat × WasmInitFunc → Nat × Nat → Prop where
  | call {o out : Nat} {init : WasmInitFunc} {file : WasmObject} {sym : WasmSymbol} {ty : FuncType}
      {f : OutputFunction} (hfile : files[o]? = some file) (hinit : init ∈ file.initFuncs)
      (hsym : file.symbols[init.symbolIndex]? = some sym) (hkind : sym.kind = .func)
      (hdefined : sym.isUndefined = false) (hty : file.functionType sym.index = some ty)
      (hparams : ty.params = []) (hfunction : layout.function out = some f)
      (hmeans : SymbolMeans files symbolDb ctors o init.symbolIndex file sym f) :
      CallsConstructor files symbolDb ctors layout (o, init) (out, ty.results.length)

theorem fromFile_initFuncs {file : WasmObject} {input : WasmObjectLayoutInput}
    (h : WasmObjectLayoutInput.fromFile file = .ok input) : input.initFuncs = file.initFuncs := by
  rw [WasmObjectLayoutInput.fromFile] at h
  split at h
  · cases h
    rfl
  · cases h

theorem functionTypeForSymbol_eq_ok {file : WasmObject} {input : WasmObjectLayoutInput}
    {sym : WasmSymbol} {ty : FuncType} (hobject : Packed file input)
    (h : functionTypeForSymbol input sym = .ok ty) : file.functionType sym.index = some ty := by
  rw [functionTypeForSymbol] at h
  rw [WasmObject.functionType]
  cases himport : input.functionImports[sym.index]? with
  | some import' =>
      rw [himport] at h
      have hlt := (List.getElem?_eq_some_iff.mp himport).1
      rw [hobject.functionImports] at himport hlt
      rw [if_pos hlt, WasmObject.importType, himport, Option.bind_some, ← hobject.types]
      exact context_eq_ok.mp h
  | none =>
      rw [himport] at h
      have hle := List.getElem?_eq_none_iff.mp himport
      obtain ⟨d, hd, h⟩ := bind_eq_ok.mp h
      obtain ⟨typeIndex, htypeIndex, h⟩ := bind_eq_ok.mp h
      obtain ⟨hordinal, hdead⟩ := localDefinedFunctionIndex_eq_ok hd
      have htypeIndex := context_eq_ok.mp htypeIndex
      have hlt : d < input.functionBodies.length := by
        rw [input.functionBodies_length]
        exact (List.getElem?_eq_some_iff.mp htypeIndex).1
      rw [hobject.functionImports] at hle hordinal
      rw [if_neg (by omega), ← (hobject.function hordinal hdead).1, WasmObjectLayoutInput.function]
      have hty := context_eq_ok.mp h
      simp [htypeIndex, hty, List.getElem?_eq_getElem hlt, OutputFunction.ty]

namespace LinkSteps

variable {files : List WasmObject} {inputs : List WasmObjectLayoutInput} {symbolDb : SymbolDb}
  {request : LinkRequest} {linked : LinkedModule}

/-- A constructor becomes a call of the function that its symbol stands for. -/
theorem initCall_calls (steps : LinkSteps inputs symbolDb request linked)
    (hpacked : List.Forall₂ Packed files inputs) {o : Nat} {file : WasmObject}
    {input : WasmObjectLayoutInput} {outputMap : WasmObjectIndexMap} {init : WasmInitFunc}
    {call : InitCall} (hfile : files[o]? = some file) (hinput : inputs[o]? = some input)
    (hobject : Packed file input) (hmap : linked.maps[o]? = some outputMap)
    (hinit : init ∈ file.initFuncs) (h : initCall (input, outputMap) init = .ok call) :
    init.priority = call.priority ∧ CallsConstructor files symbolDb steps.callCtors linked.layout
      (o, init) (call.outputIndex, call.resultCount) := by
  obtain ⟨sym, hsym, h⟩ := bind_eq_ok.mp h
  obtain ⟨_, hfunction, h⟩ := bind_eq_ok.mp h
  obtain ⟨ty, hty, h⟩ := bind_eq_ok.mp h
  obtain ⟨_, hparams, h⟩ := bind_eq_ok.mp h
  obtain ⟨out, hout, h⟩ := bind_eq_ok.mp h
  cases h
  have hsym := unwrap_eq_ok.mp hsym
  obtain ⟨hkind, hdefined⟩ := ensure_eq_ok.mp hfunction
  obtain ⟨nonWeak, hfunctions, -, -⟩ := steps.linkedFunctions hpacked
  obtain ⟨-, map, -, hindexMap, -⟩ := steps.indexMap hfunctions.setup.length hinput
  obtain ⟨typeIndices, redirects, hredirects, hfound, -⟩ := steps.outputMap hinput hindexMap
  obtain rfl := Option.some.inj (hmap.symm.trans hfound)
  rw [hobject.symbols] at hsym hredirects
  obtain ⟨f, hf, hmeans⟩ := steps.symbol_means hpacked hfile hindexMap hredirects (by rfl) (by rfl)
    hsym hkind hout
  exact ⟨rfl, .call hfile hinit hsym hkind (by simpa using hdefined)
    (functionTypeForSymbol_eq_ok hobject hty) (ensure_eq_ok.mp hparams) hf hmeans⟩

/-- The calls are those of the constructors, sorted by priority. -/
theorem calls_sorted (steps : LinkSteps inputs symbolDb request linked)
    (hinputs : files.mapM WasmObjectLayoutInput.fromFile = .ok inputs) :
    ∃ inits, StableSort.SortedFrom (fun constructor : Nat × WasmInitFunc => constructor.2.priority)
        (constructors files) inits ∧
      List.Forall₂ (CallsConstructor files symbolDb steps.callCtors linked.layout) inits
        steps.calls := by
  have hpacked : List.Forall₂ Packed files inputs :=
    (mapM_eq_ok hinputs).imp fun _ _ => fromFile_packed
  obtain ⟨items, hitems, hcalls⟩ := bind_eq_ok.mp steps.hcalls
  obtain ⟨nonWeak, hfunctions, -, -⟩ := steps.linkedFunctions hpacked
  have hmaps : linked.maps.length = inputs.length := by
    rw [← (mapM_eq_ok steps.hmaps).length_eq, List.length_zipIdx, List.length_zip,
      steps.indexMaps_length hfunctions.setup.length, min_self]
  have hlength : items.length = files.length := by
    rw [← (mapM_eq_ok hitems).length_eq, List.length_zip, hmaps, min_self, hpacked.length_eq]
  -- Each object gives the calls of its own constructors.
  have hobjects : List.Forall₂ (List.Forall₂ fun constructor call =>
      constructor.2.priority = call.priority ∧ CallsConstructor files symbolDb steps.callCtors
        linked.layout constructor (call.outputIndex, call.resultCount))
      (files.zipIdx.map fun item => item.1.initFuncs.map fun init => (item.2, init)) items := by
    refine List.forall₂_iff_get.mpr ⟨by simp [hlength], fun o hfiles hcalls => ?_⟩
    have ho : o < files.length := by simpa using hfiles
    have hfile := List.getElem?_eq_getElem ho
    obtain ⟨input, hinput, hobject⟩ := Lists.exists_getElem?_of_forall₂ hpacked hfile
    obtain ⟨input', hinput', hfrom⟩ := mapM_getElem? hinputs hfile
    obtain rfl := Option.some.inj (hinput.symm.trans hinput')
    have hlt : o < linked.maps.length := by
      rw [hmaps]
      exact (List.getElem?_eq_some_iff.mp hinput).1
    have hmap := List.getElem?_eq_getElem hlt
    have hpair : (inputs.zip linked.maps)[o]? = some (input, linked.maps[o]) :=
      List.getElem?_zip_eq_some.mpr ⟨hinput, hmap⟩
    obtain ⟨calls, hitem, hinit⟩ := mapM_getElem? hitems hpair
    have heq : items.get ⟨o, hcalls⟩ = calls :=
      Option.some.inj ((List.getElem?_eq_getElem hcalls).symm.trans hitem)
    have hinit := mapM_eq_ok hinit
    rw [fromFile_initFuncs hfrom] at hinit
    simp only [List.get_eq_getElem, List.getElem_map, List.getElem_zipIdx, Nat.zero_add] at heq ⊢
    rw [heq, List.forall₂_map_left_iff]
    refine List.forall₂_iff_zip.mpr ⟨hinit.length_eq, fun {init call} hmem => ?_⟩
    exact steps.initCall_calls hpacked hfile hinput hobject hmap (List.of_mem_zip hmem).1
      ((List.forall₂_iff_zip.mp hinit).2 hmem)
  have hsorted := StableSort.forall₂_mergeSort (fun _ _ h => h.1) (List.rel_flatten hobjects)
  refine ⟨_, StableSort.sortedFrom_mergeSort _ (constructors files), ?_⟩
  rw [← Except.ok.inj hcalls, List.forall₂_map_right_iff]
  exact hsorted.imp fun _ _ h => h.2

end LinkSteps

/-- The function that calls the constructors calls those of all objects in the order of their
priorities, and in the order of the objects where these are equal. -/
theorem constructors_called {files : List WasmObject} {symbolDb : SymbolDb} {request : LinkRequest}
    {linked : LinkedModule} (h : buildOutputModuleLayout files symbolDb request = .ok linked)
    {c : Nat} (hc : linked.setup.indices.callCtorsFunc = some c) : ∃ body inits calls,
      linked.layout.function c = some (.defined ⟨[], []⟩ body) ∧
      StackCode.decodeBody body = some (StackCode.callSequence calls) ∧
      StableSort.SortedFrom (fun constructor : Nat × WasmInitFunc => constructor.2.priority)
        (constructors files) inits ∧
      List.Forall₂ (CallsConstructor files symbolDb (.defined ⟨[], []⟩ body) linked.layout) inits
        calls := by
  obtain ⟨inputs, hinputs, h⟩ := bind_eq_ok.mp h
  have hpacked : List.Forall₂ Packed files inputs :=
    (mapM_eq_ok hinputs).imp fun _ _ => fromFile_packed
  obtain ⟨steps⟩ := layoutInputs_eq_ok h
  obtain ⟨nonWeak, hfunctions, -, -⟩ := steps.linkedFunctions hpacked
  obtain ⟨inits, hsorted, hcalls⟩ := steps.calls_sorted hinputs
  exact ⟨_, inits, steps.calls, hfunctions.callCtors c hc,
    decodeBody_encodeCallSequenceBody steps.calls, hsorted, hcalls⟩

/-- An object with two constructors, of which the second has to run first and the first leaves a
result, and with an entry. -/
def startupObject : WasmObject :=
  { calleeObject with
    types := [⟨[], []⟩, ⟨[], [.i32]⟩]
    moduleFunctions := [1, 0, 0]
    functionBodies := [[0, 0x41, 0, 11], [0, 11], [0, 1, 11]]
    symbols := [⟨.func, false, false, 0⟩, ⟨.func, false, false, 1⟩, ⟨.func, false, false, 2⟩]
    initFuncs := [⟨200, 0⟩, ⟨100, 1⟩]
    liveFunctions := [true, true, true]
    liveFunctions_length := rfl }

def startupDb : SymbolDb where
  definition _ _ := .elsewhere
  getUnversioned name := if name = "_start" then some (.object 0 2) else none
  symbolName _ _ := "_start"

def startupRequest : LinkRequest := ⟨some "_start", [], [], "memory", [], [], false, false⟩

theorem startup_linked : ∃ linked,
    buildOutputModuleLayout [startupObject] startupDb startupRequest = .ok linked ∧
      linked.setup.indices.callCtorsFunc = some 0 ∧
      linked.setup.indices.entryWrapperFunc = some 1 := by
  have hcomputed : (buildOutputModuleLayout [startupObject] startupDb startupRequest).toOption.map
      (fun linked => (linked.setup.indices.callCtorsFunc, linked.setup.indices.entryWrapperFunc))
        = some (some 0, some 1) := by
    decide +kernel
  obtain ⟨linked, hlinked, hindices⟩ := Option.map_eq_some_iff.mp hcomputed
  have hok {ε α : Type} {result : Except ε α} {a : α} (h : result.toOption = some a) :
      result = .ok a := by
    cases result <;> cases h
    rfl
  exact ⟨linked, hok hlinked, congrArg Prod.fst hindices, congrArg Prod.snd hindices⟩

theorem constructors_called_startup : ∃ linked body inits calls,
    buildOutputModuleLayout [startupObject] startupDb startupRequest = .ok linked ∧
      linked.layout.function 0 = some (.defined ⟨[], []⟩ body) ∧
      StackCode.decodeBody body = some (StackCode.callSequence calls) ∧
      StableSort.SortedFrom (fun constructor : Nat × WasmInitFunc => constructor.2.priority)
        (constructors [startupObject]) inits ∧
      List.Forall₂ (CallsConstructor [startupObject] startupDb (.defined ⟨[], []⟩ body)
        linked.layout) inits calls := by
  obtain ⟨linked, h, hc, -⟩ := startup_linked
  obtain ⟨body, inits, calls, hcalled⟩ := constructors_called h hc
  exact ⟨linked, body, inits, calls, h, hcalled⟩

/-! ### Validation -/

/-- The type that a module gives to a function index. -/
def WasmLayout.functionType (layout : WasmLayout) (i : Nat) : Option FuncType :=
  (layout.function i).map OutputFunction.ty

/-- The symbols of constructors stand for functions of the types that the constructors have in their
objects. -/
def ConstructorsAgree (files : List WasmObject) (symbolDb : SymbolDb) : Prop :=
  ∀ o file init sym ty f body, files[o]? = some file → init ∈ file.initFuncs →
    file.symbols[init.symbolIndex]? = some sym → file.functionType sym.index = some ty →
    SymbolMeans files symbolDb (.defined ⟨[], []⟩ body) o init.symbolIndex file sym f → f.ty = ty

/-- The calls have signatures without parameters, and as many drops as results. -/
theorem ConstructorsAgree.signatures {files : List WasmObject} {symbolDb : SymbolDb}
    {body : List UInt8} {layout : WasmLayout} (hagree : ConstructorsAgree files symbolDb)
    {inits : List (Nat × WasmInitFunc)} {calls : List (Nat × Nat)}
    (h : List.Forall₂ (CallsConstructor files symbolDb (.defined ⟨[], []⟩ body) layout) inits
      calls) : ∃ signatures : List (FuncType × Nat),
      List.Forall₂ (fun call signature => layout.functionType call.1 = some signature.1 ∧
        call.2 = signature.2) calls signatures ∧
      ∀ signature ∈ signatures,
        signature.1.params = [] ∧ signature.2 = signature.1.results.length := by
  induction h with
  | nil => exact ⟨[], .nil, fun _ hnone => absurd hnone List.not_mem_nil⟩
  | cons hcall _ ih =>
      obtain ⟨signatures, hall, hsignatures⟩ := ih
      cases hcall with
      | @call o out init file sym ty f hfile hinit hsym hkind hdefined hty hparams hfunction hmeans =>
          have htype := hagree o file init sym ty f body hfile hinit hsym hty hmeans
          refine ⟨(ty, ty.results.length) :: signatures, .cons ⟨?_, rfl⟩ hall, ?_⟩
          · rw [WasmLayout.functionType, hfunction, Option.map_some, htype]
          · intro signature hmem
            rcases List.mem_cons.mp hmem with rfl | hmem
            · exact ⟨hparams, rfl⟩
            · exact hsignatures signature hmem

/-- The function that calls the constructors validates, if no constructor is overridden by a function
of another type. -/
theorem constructors_valid {files : List WasmObject} {symbolDb : SymbolDb} {request : LinkRequest}
    {linked : LinkedModule} (h : buildOutputModuleLayout files symbolDb request = .ok linked)
    {c : Nat} (hc : linked.setup.indices.callCtorsFunc = some c)
    (hagree : ConstructorsAgree files symbolDb) (subtype : ValType → ValType → Bool) : ∃ body,
      linked.layout.function c = some (.defined ⟨[], []⟩ body) ∧
      StackCode.ValidBody subtype linked.layout.functionType ⟨[], []⟩ body := by
  obtain ⟨inputs, hinputs, h⟩ := bind_eq_ok.mp h
  have hpacked : List.Forall₂ Packed files inputs :=
    (mapM_eq_ok hinputs).imp fun _ _ => fromFile_packed
  obtain ⟨steps⟩ := layoutInputs_eq_ok h
  obtain ⟨nonWeak, hfunctions, -, -⟩ := steps.linkedFunctions hpacked
  obtain ⟨inits, -, hcalls⟩ := steps.calls_sorted hinputs
  obtain ⟨signatures, hall, hsignatures⟩ := hagree.signatures hcalls
  refine ⟨_, hfunctions.callCtors c hc, _, decodeBody_encodeCallSequenceBody steps.calls, ?_⟩
  rw [StackCode.validates_callSequence_iff subtype _ hall]
  exact StackCode.balanced_of_params_nil subtype hsignatures

theorem startup_agree : ConstructorsAgree [startupObject] startupDb := by
  intro o file init sym ty f body hfile hinit hsym hty hmeans
  obtain rfl : file = startupObject := List.mem_singleton.mp (List.mem_of_getElem? hfile)
  cases hmeans with
  | overridden hoverrides _ =>
      obtain ⟨offset, hsite, -⟩ := hoverrides.definition
      cases hsite
  | own _ hmeans =>
      generalize sym.index = i at hty hmeans
      cases hmeans with
      | own h =>
          rw [WasmObject.functionType, if_neg (by omega), Nat.add_sub_cancel_left, h] at hty
          exact Option.some.inj hty
      | resolved himport _ => cases himport
      | imported h _ _ => cases h.himport
      | stub h _ _ _ => cases h.himport

theorem constructors_valid_startup : ∃ linked body,
    buildOutputModuleLayout [startupObject] startupDb startupRequest = .ok linked ∧
      linked.layout.function 0 = some (.defined ⟨[], []⟩ body) ∧
      StackCode.ValidBody (fun actual expected => actual = expected) linked.layout.functionType
        ⟨[], []⟩ body := by
  obtain ⟨linked, h, hc, -⟩ := startup_linked
  obtain ⟨body, hvalid⟩ :=
    constructors_valid h hc startup_agree fun actual expected => actual = expected
  exact ⟨linked, body, h, hvalid⟩

/-! ### The wrapper of the entry -/

/-- What the name of the entry stands for. -/
inductive EntryMeans (files : List WasmObject) (symbolDb : SymbolDb) (ctors : OutputFunction)
    (name : String) : OutputFunction → Prop where
  | function {o offset : Nat} {file : WasmObject} {sym : WasmSymbol} {f : OutputFunction}
      (hdefinition : symbolDb.getUnversioned name = some (.object o offset))
      (hfile : files[o]? = some file) (hsym : file.symbols[offset]? = some sym)
      (hkind : sym.kind = .func) (hdefined : sym.isUndefined = false)
      (hmeans : FunctionMeans files symbolDb ctors o file sym.index f) :
      EntryMeans files symbolDb ctors name f

theorem reserve_eq_some {needed : Bool} {next index : Nat} (h : (reserve needed next).1 = some index) :
    needed = true := by
  cases needed with
  | true => rfl
  | false => cases h

/-- There is a wrapper only where it was asked for, and where there are constructors it finds the
function that calls them. -/
theorem setupGotMemAndIndices_wrapper {inputs : List WasmObjectLayoutInput} {request : LinkRequest}
    {resolutions : List ObjectImportResolutions} {hasInitFuncs wrapEntry : Bool} {setup : IndexSetup}
    {w : Nat} (h : setupGotMemAndIndices inputs request resolutions hasInitFuncs wrapEntry = .ok setup)
    (hw : setup.indices.entryWrapperFunc = some w) : wrapEntry = true ∧
      (hasInitFuncs = true → ∃ c, setup.indices.callCtorsFunc = some c) := by
  obtain ⟨_, -, h⟩ := bind_eq_ok.mp h
  obtain ⟨shared, -, h⟩ := bind_eq_ok.mp h
  obtain ⟨indices, hindices, h⟩ := bind_eq_ok.mp h
  cases h
  obtain ⟨gotMemBase, -, h⟩ := bind_eq_ok.mp hindices
  obtain ⟨gotFuncBase, -, h⟩ := bind_eq_ok.mp h
  obtain ⟨nextGlobal, -, h⟩ := bind_eq_ok.mp h
  obtain ⟨nextFunc, -, h⟩ := bind_eq_ok.mp h
  cases h
  refine ⟨reserve_eq_some hw, ?_⟩
  rintro rfl
  exact ⟨_, rfl⟩

theorem definedSymbol_eq_ok {inputs : List WasmObjectLayoutInput} {symbolDb : SymbolDb}
    {name : String} {found : DefinedSymbol}
    (h : definedSymbol inputs symbolDb name = .ok (some found)) : ∃ input,
      symbolDb.getUnversioned name = some (.object found.objIdx found.offset) ∧
      inputs[found.objIdx]? = some input ∧ input.symbols[found.offset]? = some found.sym ∧
      found.sym.isUndefined = false := by
  rw [definedSymbol] at h
  split at h
  case h_1 objIdx offset hname =>
      split at h
      case h_1 => cases h
      case h_2 input hinput =>
          obtain ⟨sym, hsym, h⟩ := bind_eq_ok.mp h
          have h := Except.ok.inj h
          split at h
          case isTrue => cases h
          case isFalse hdefined =>
              cases h
              exact ⟨input, hname, hinput, unwrap_eq_ok.mp hsym, by simpa using hdefined⟩
  case h_2 => cases h

namespace LinkSteps

variable {files : List WasmObject} {inputs : List WasmObjectLayoutInput} {symbolDb : SymbolDb}
  {request : LinkRequest} {linked : LinkedModule}

/-- The index of the entry leads to what its name means. -/
theorem entry_means (steps : LinkSteps inputs symbolDb request linked)
    (hpacked : List.Forall₂ Packed files inputs) {name : String} {entry : ResolvedEntry}
    (h : resolveEntryName inputs linked.maps symbolDb name = .ok entry) : ∃ f,
      linked.layout.function entry.functionIndex = some f ∧
      EntryMeans files symbolDb steps.callCtors name f := by
  obtain ⟨defined, hdefined, h⟩ := bind_eq_ok.mp h
  obtain ⟨found, hfound, h⟩ := bind_eq_ok.mp h
  obtain ⟨outputMap, houtputMap, h⟩ := bind_eq_ok.mp h
  obtain ⟨functionIndex, hindex, h⟩ := bind_eq_ok.mp h
  cases h
  obtain ⟨hsome, hkind⟩ := Option.filter_eq_some_iff.mp (context_eq_ok.mp hfound)
  rw [hsome] at hdefined
  obtain ⟨input, hname, hinput, hsym, hnot⟩ := definedSymbol_eq_ok hdefined
  obtain ⟨file, hfile, hobject⟩ := Lists.exists_getElem?_of_forall₂ hpacked.flip hinput
  obtain ⟨nonWeak, hfunctions, -, -⟩ := steps.linkedFunctions hpacked
  obtain ⟨-, map, -, hmap, -⟩ := steps.indexMap hfunctions.setup.length hinput
  obtain ⟨typeIndices, redirects, -, hmaps, -⟩ := steps.outputMap hinput hmap
  obtain rfl := Option.some.inj ((context_eq_ok.mp houtputMap).symm.trans hmaps)
  obtain ⟨hown, hdead⟩ := remapWasmIndex_eq_ok hindex
  obtain ⟨f, hf, hmeans⟩ := steps.means_of_getElem? hpacked hfile hmap hown hdead
  rw [hobject.symbols] at hsym
  exact ⟨f, hf, .function hname hfile hsym (of_decide_eq_true hkind) hnot hmeans⟩

/-- A module with a wrapper has an entry and a function that calls the constructors. -/
theorem entry_of_wrapper (steps : LinkSteps inputs symbolDb request linked)
    (hpacked : List.Forall₂ Packed files inputs) {w : Nat}
    (hw : linked.setup.indices.entryWrapperFunc = some w) : ∃ c name entry f,
      linked.setup.indices.callCtorsFunc = some c ∧ request.entrySymbolName = some name ∧
      linked.entry = some entry ∧ linked.layout.function entry.functionIndex = some f ∧
      EntryMeans files symbolDb steps.callCtors name f := by
  obtain ⟨hwrap, hctors⟩ := setupGotMemAndIndices_wrapper steps.hsetup hw
  simp only [Bool.and_eq_true] at hwrap
  obtain ⟨⟨hinit, -⟩, hentryIsDefined⟩ := hwrap
  obtain ⟨c, hc⟩ := hctors hinit
  have hdefined := steps.hentryIsDefined
  have hentry := steps.hentry
  cases hname : request.entrySymbolName with
  | none =>
      rw [hname] at hdefined
      have hdefined : false = steps.entryIsDefined := Except.ok.inj hdefined
      rw [hentryIsDefined] at hdefined
      cases hdefined
  | some name =>
      rw [hname] at hentry
      obtain ⟨entry, hresolved, hentry⟩ := bind_eq_ok.mp hentry
      obtain ⟨f, hf, hmeans⟩ := steps.entry_means hpacked hresolved
      exact ⟨c, name, entry, f, hc, rfl, (Except.ok.inj hentry).symm, hf, hmeans⟩

/-- The wrapper calls the constructors, and then the entry. -/
theorem function_wrapper (steps : LinkSteps inputs symbolDb request linked)
    (hpacked : List.Forall₂ Packed files inputs) {w c : Nat} {entry : ResolvedEntry}
    (hw : linked.setup.indices.entryWrapperFunc = some w)
    (hc : linked.setup.indices.callCtorsFunc = some c) (hentry : linked.entry = some entry) :
    linked.layout.function w
      = some (.defined ⟨[], []⟩ (encodeCallSequenceBody [(c, 0), (entry.functionIndex, 0)])) := by
  obtain ⟨nonWeak, hfunctions, -, -⟩ := steps.linkedFunctions hpacked
  have hbody : entryWrapperBody linked.setup.indices linked.entry
      = some (encodeCallSequenceBody [(c, 0), (entry.functionIndex, 0)]) := by
    simp only [entryWrapperBody, hentry, hw, hc]
  have hreserved : steps.reserved[1]?
      = some (⟨[], []⟩, encodeCallSequenceBody [(c, 0), (entry.functionIndex, 0)]) := by
    rw [LinkSteps.reserved, reservedFunctions, hbody, hc, hw]
    rfl
  have hindex := hfunctions.setup.reserved.entryWrapper w hw
  rw [hc] at hindex
  rw [hindex]
  exact hfunctions.placed.added hreserved

end LinkSteps

/-- The wrapper calls the constructors and then the function that the name of the entry stands for. It
validates if and only if that function takes and returns nothing. -/
theorem entry_wrapper_valid_iff {files : List WasmObject} {symbolDb : SymbolDb}
    {request : LinkRequest} {linked : LinkedModule}
    (h : buildOutputModuleLayout files symbolDb request = .ok linked) {w : Nat}
    (hw : linked.setup.indices.entryWrapperFunc = some w) (subtype : ValType → ValType → Bool) :
    ∃ body c ctors name entry f,
      linked.layout.function w = some (.defined ⟨[], []⟩ body) ∧
      linked.setup.indices.callCtorsFunc = some c ∧
      linked.layout.function c = some (.defined ⟨[], []⟩ ctors) ∧
      request.entrySymbolName = some name ∧ linked.layout.function entry = some f ∧
      EntryMeans files symbolDb (.defined ⟨[], []⟩ ctors) name f ∧
      StackCode.decodeBody body = some (StackCode.callSequence [(c, 0), (entry, 0)]) ∧
      (StackCode.ValidBody subtype linked.layout.functionType ⟨[], []⟩ body ↔
        f.ty = ⟨[], []⟩) := by
  obtain ⟨inputs, hinputs, h⟩ := bind_eq_ok.mp h
  have hpacked : List.Forall₂ Packed files inputs :=
    (mapM_eq_ok hinputs).imp fun _ _ => fromFile_packed
  obtain ⟨steps⟩ := layoutInputs_eq_ok h
  obtain ⟨nonWeak, hfunctions, -, -⟩ := steps.linkedFunctions hpacked
  obtain ⟨c, name, entry, f, hc, hname, hentry, hf, hmeans⟩ := steps.entry_of_wrapper hpacked hw
  have hctors := hfunctions.callCtors c hc
  have hdecode := decodeBody_encodeCallSequenceBody [(c, 0), (entry.functionIndex, 0)]
  refine ⟨_, c, _, name, entry.functionIndex, f, steps.function_wrapper hpacked hw hc hentry, hc,
    hctors, hname, hf, hmeans, hdecode, ?_⟩
  have hsignatures : List.Forall₂ (fun (call : Nat × Nat) (signature : FuncType × Nat) =>
      linked.layout.functionType call.1 = some signature.1 ∧ call.2 = signature.2)
      [(c, 0), (entry.functionIndex, 0)] [(⟨[], []⟩, 0), (f.ty, 0)] := by
    refine .cons ⟨?_, rfl⟩ (.cons ⟨?_, rfl⟩ .nil)
    · rw [WasmLayout.functionType, hctors]
      rfl
    · rw [WasmLayout.functionType, hf]
      rfl
  have hvalid := StackCode.validates_callSequence_iff subtype linked.layout.functionType hsignatures
  have hbalanced : StackCode.Balanced subtype [] [(⟨[], []⟩, 0), (f.ty, 0)] ↔
      StackCode.Balanced subtype [] [(f.ty, 0)] := by
    constructor
    · rintro ⟨below, hbelow, -, hrest⟩
      cases hbelow
      exact hrest
    · intro hrest
      exact ⟨[], rfl, Nat.zero_le _, hrest⟩
  rw [hbalanced, StackCode.balanced_single_iff] at hvalid
  constructor
  · rintro ⟨instrs, hinstrs, hvalidates⟩
    obtain rfl := Option.some.inj (hdecode.symm.trans hinstrs)
    obtain ⟨hparams, hresults⟩ := hvalid.mp hvalidates
    show (⟨f.ty.params, f.ty.results⟩ : FuncType) = ⟨[], []⟩
    rw [hparams, hresults]
  · intro hty
    refine ⟨_, hdecode, hvalid.mpr ?_⟩
    rw [hty]
    exact ⟨rfl, rfl⟩

theorem entry_wrapper_valid_iff_startup : ∃ linked body, ∃ f : OutputFunction,
    buildOutputModuleLayout [startupObject] startupDb startupRequest = .ok linked ∧
      linked.layout.function 1 = some (.defined ⟨[], []⟩ body) ∧
      (StackCode.ValidBody (fun actual expected => actual = expected) linked.layout.functionType
        ⟨[], []⟩ body ↔ f.ty = ⟨[], []⟩) := by
  obtain ⟨linked, h, -, hw⟩ := startup_linked
  obtain ⟨body, c, ctors, name, entry, f, hbody, -, -, -, -, -, -, hvalid⟩ :=
    entry_wrapper_valid_iff h hw fun actual expected => actual = expected
  exact ⟨linked, body, f, h, hbody, hvalid⟩

end JdxLinker.Wasm.Linking
