import JdxLinker.Wasm.Linking.LinkedFunctions

/-!
# Function symbols

Relocations and constructors name a function by a symbol. A weak definition that another one overrides
leads to the function of that other one, and every other symbol to the function of its index.
-/

namespace JdxLinker.Wasm.Linking

open Fallible

/-- A live definition that is chosen in place of a weak one. -/
structure Overrides (files : List WasmObject) (symbolDb : SymbolDb) (o k : Nat) (sym : WasmSymbol)
    (d : Nat) (file' : WasmObject) (sym' : WasmSymbol) : Prop where
  weak : sym.isWeak = true
  defined : sym.isUndefined = false
  definition : ∃ offset, symbolDb.definition o k = .object d offset ∧ ¬ (d = o ∧ offset = k) ∧
    file'.symbols[offset]? = some sym'
  hfile : files[d]? = some file'
  kind : sym'.kind = .func
  defined' : sym'.isUndefined = false
  live : file'.LiveIndex sym'.index

theorem Overrides.site {files : List WasmObject} {symbolDb : SymbolDb} {o k d : Nat}
    {sym sym' : WasmSymbol} {file' : WasmObject} {site : DefinitionSite}
    (h : Overrides files symbolDb o k sym d file' sym') (hsite : symbolDb.definition o k = site) :
    ∃ offset, site = .object d offset ∧ ¬ (d = o ∧ offset = k) ∧
      file'.symbols[offset]? = some sym' :=
  hsite ▸ h.definition

/-- Definitions that override are in objects. -/
theorem Overrides.not_elsewhere {files : List WasmObject} {symbolDb : SymbolDb} {o k d : Nat}
    {sym sym' : WasmSymbol} {file' : WasmObject} {site : DefinitionSite}
    (h : Overrides files symbolDb o k sym d file' sym') (hsite : symbolDb.definition o k = site)
    (hobject : ∀ d offset, site ≠ .object d offset) : False := by
  obtain ⟨offset, heq, -⟩ := h.site hsite
  exact hobject d offset heq

/-- What a function symbol of an object stands for. -/
inductive SymbolMeans (files : List WasmObject) (symbolDb : SymbolDb) (ctors : OutputFunction)
    (o k : Nat) (file : WasmObject) (sym : WasmSymbol) : OutputFunction → Prop where
  | overridden {d : Nat} {file' : WasmObject} {sym' : WasmSymbol} {f : OutputFunction}
      (h : Overrides files symbolDb o k sym d file' sym')
      (hmeans : FunctionMeans files symbolDb ctors d file' sym'.index f) :
      SymbolMeans files symbolDb ctors o k file sym f
  | own {f : OutputFunction}
      (h : ∀ d file' sym', ¬ Overrides files symbolDb o k sym d file' sym')
      (hmeans : FunctionMeans files symbolDb ctors o file sym.index f) :
      SymbolMeans files symbolDb ctors o k file sym f

/-- Where a symbol is redirected to: the definition that overrides its own, if there is one. -/
def Redirects (files : List WasmObject) (symbolDb : SymbolDb) (maps : List WasmObjectIndexMap)
    (o k : Nat) (sym : WasmSymbol) : Option Nat → Prop
  | none => ∀ d file' sym', ¬ Overrides files symbolDb o k sym d file' sym'
  | some out => ∃ (d : Nat) (file' : WasmObject) (sym' : WasmSymbol) (map : WasmObjectIndexMap),
      Overrides files symbolDb o k sym d file' sym' ∧ maps[d]? = some map ∧
        map.functionIndices[sym'.index]? = some out ∧ out ≠ wasmDeadIndex

variable {files : List WasmObject} {inputs : List WasmObjectLayoutInput} {symbolDb : SymbolDb}
  {request : LinkRequest} {linked : LinkedModule}

namespace LinkSteps

/-- A function index is not that of something dead exactly if the function is live. -/
theorem liveIndex_iff (steps : LinkSteps inputs symbolDb request linked)
    (hpacked : List.Forall₂ Packed files inputs) {o i : Nat} {file : WasmObject}
    {map : WasmObjectIndexMap} (hfile : files[o]? = some file)
    (hmap : steps.indexMaps[o]? = some map) :
    (∃ out, map.functionIndices[i]? = some out ∧ out ≠ wasmDeadIndex) ↔ file.LiveIndex i := by
  obtain ⟨nonWeak, hfunctions, -, -⟩ := steps.linkedFunctions hpacked
  obtain ⟨input, hinput, hobject⟩ := Lists.exists_getElem?_of_forall₂ hpacked hfile
  constructor
  · rintro ⟨out, hout, hdead⟩
    obtain ⟨object, found, -, hfound, hbuild⟩ := steps.indexMap hfunctions.setup.length hinput
    obtain rfl : map = found := Option.some.inj (hmap.symm.trans hfound)
    rcases buildObjectIndexMap_live hbuild hout hdead with ⟨hi, hlive⟩ | ⟨j, d, rfl, hd, hlive⟩
    · rw [hobject.functionImports] at hi
      rw [hobject.live] at hlive
      exact .inl ⟨hi, hlive⟩
    · exact .inr ⟨j, by rw [hobject.functionImports], (hobject.function hd hlive).2⟩
  · intro hlive
    obtain ⟨found, out, f, hfound, hout, hf, -⟩ := steps.live_means hpacked hfile hlive
    obtain rfl : map = found := Option.some.inj (hmap.symm.trans hfound)
    have hlt := steps.function_lt hfunctions.setup.length hfunctions.setup.shared
      hfunctions.setup.reserved hf
    exact ⟨out, hout, by omega⟩

/-- The index of what is live leads to what it means. -/
theorem means_of_getElem? (steps : LinkSteps inputs symbolDb request linked)
    (hpacked : List.Forall₂ Packed files inputs) {o i out : Nat} {file : WasmObject}
    {map : WasmObjectIndexMap} (hfile : files[o]? = some file)
    (hmap : steps.indexMaps[o]? = some map) (hout : map.functionIndices[i]? = some out)
    (hdead : out ≠ wasmDeadIndex) : ∃ f, linked.layout.function out = some f ∧
      FunctionMeans files symbolDb steps.callCtors o file i f := by
  have hlive := (steps.liveIndex_iff hpacked hfile hmap).mp ⟨out, hout, hdead⟩
  obtain ⟨found, out', f, hfound, hout', hf, hmeans⟩ := steps.live_means hpacked hfile hlive
  obtain rfl : map = found := Option.some.inj (hmap.symm.trans hfound)
  obtain rfl : out = out' := Option.some.inj (hout.symm.trans hout')
  exact ⟨f, hf, hmeans⟩

theorem liveFunctionIndex_eq_some {maps : List WasmObjectIndexMap} {d out : Nat} {sym : WasmSymbol} :
    liveFunctionIndex maps d sym = some out ↔ sym.kind = .func ∧ sym.isUndefined = false ∧
      ∃ map, maps[d]? = some map ∧ map.functionIndices[sym.index]? = some out ∧
        out ≠ wasmDeadIndex := by
  rw [liveFunctionIndex]
  split
  case isTrue h =>
      rw [Bool.or_eq_true, decide_eq_true_eq] at h
      constructor
      · intro hnone
        cases hnone
      · rintro ⟨hkind, hdefined, -⟩
        rcases h with h | h
        · exact absurd hkind h
        · rw [hdefined] at h
          cases h
  case isFalse h =>
      rw [Bool.or_eq_true, decide_eq_true_eq, not_or, not_not, Bool.not_eq_true] at h
      rw [Option.filter_eq_some_iff, Option.bind_eq_some_iff, decide_eq_true_eq]
      constructor
      · rintro ⟨⟨map, hmap, hout⟩, hdead⟩
        exact ⟨h.1, h.2, map, hmap, hout, hdead⟩
      · rintro ⟨-, -, map, hmap, hout, hdead⟩
        exact ⟨⟨map, hmap, hout⟩, hdead⟩

/-- A weak definition is redirected if the definition that is chosen is live. -/
theorem redirect_of_definition (steps : LinkSteps inputs symbolDb request linked)
    (hpacked : List.Forall₂ Packed files inputs) {o k d offset : Nat} {sym sym' : WasmSymbol}
    {file' : WasmObject} (hweak : sym.isWeak = true) (hdefined : sym.isUndefined = false)
    (hsite : symbolDb.definition o k = .object d offset) (hother : ¬ (d = o ∧ offset = k))
    (hfile' : files[d]? = some file') (hsym' : file'.symbols[offset]? = some sym') :
    Redirects files symbolDb steps.indexMaps o k sym (liveFunctionIndex steps.indexMaps d sym') := by
  cases hindex : liveFunctionIndex steps.indexMaps d sym' with
  | some out =>
      obtain ⟨hkind', hdefined', map, hmap, hout, hdead⟩ := liveFunctionIndex_eq_some.mp hindex
      refine ⟨d, file', sym', map, ?_, hmap, hout, hdead⟩
      exact ⟨hweak, hdefined, ⟨offset, hsite, hother, hsym'⟩, hfile', hkind', hdefined',
        (steps.liveIndex_iff hpacked hfile' hmap).mp ⟨out, hout, hdead⟩⟩
  | none =>
      intro d' file'' sym'' hoverrides
      obtain ⟨offset', heq, -, hget⟩ := hoverrides.site hsite
      cases heq
      obtain rfl := Option.some.inj (hfile'.symm.trans hoverrides.hfile)
      obtain rfl := Option.some.inj (hsym'.symm.trans hget)
      obtain ⟨map, out, f, hmap, -⟩ := steps.live_means hpacked hfile' hoverrides.live
      obtain ⟨out, hout, hdead⟩ := (steps.liveIndex_iff hpacked hfile' hmap).mpr hoverrides.live
      rw [liveFunctionIndex_eq_some.mpr ⟨hoverrides.kind, hoverrides.defined', map, hmap, hout,
        hdead⟩] at hindex
      cases hindex

/-- A symbol is redirected exactly if its definition is overridden. -/
theorem functionSymbolRedirect_eq_ok (steps : LinkSteps inputs symbolDb request linked)
    (hpacked : List.Forall₂ Packed files inputs) {o k : Nat} {sym : WasmSymbol} {redirect : Option Nat}
    (hkind : sym.kind = .func)
    (h : functionSymbolRedirect symbolDb inputs steps.indexMaps o (sym, k) = .ok redirect) :
    Redirects files symbolDb steps.indexMaps o k sym redirect := by
  rw [functionSymbolRedirect] at h
  split at h
  case isTrue hown =>
      cases h
      intro d file' sym' hoverrides
      simp [hkind, hoverrides.weak, hoverrides.defined] at hown
  case isFalse hweak =>
      simp only [hkind, not_true_eq_false, decide_false, Bool.false_or, Bool.or_eq_true,
        Bool.not_eq_true', not_or, Bool.not_eq_false, Bool.not_eq_true, ne_eq] at hweak
      cases hsite : symbolDb.definition o k with
      | prelude known =>
          simp only [hsite] at h
          cases h
          exact fun d file' sym' hoverrides => hoverrides.not_elsewhere hsite (by simp)
      | elsewhere =>
          simp only [hsite] at h
          cases h
          exact fun d file' sym' hoverrides => hoverrides.not_elsewhere hsite (by simp)
      | object d offset =>
          simp only [hsite] at h
          split at h
          case isTrue hself =>
              cases h
              intro d' file' sym' hoverrides
              obtain ⟨offset', heq, hother, -⟩ := hoverrides.site hsite
              cases heq
              exact hother hself
          case isFalse hother =>
              cases hinput : inputs[d]? with
              | none =>
                  rw [hinput] at h
                  cases h
                  intro d' file' sym' hoverrides
                  obtain ⟨offset', heq, -⟩ := hoverrides.site hsite
                  cases heq
                  obtain ⟨input, hinput', -⟩ :=
                    Lists.exists_getElem?_of_forall₂ hpacked hoverrides.hfile
                  rw [hinput] at hinput'
                  cases hinput'
              | some input =>
                  rw [hinput] at h
                  obtain ⟨sym', hsym', h⟩ := bind_eq_ok.mp h
                  have hsym' := unwrap_eq_ok.mp hsym'
                  obtain ⟨file', hfile', hobject⟩ :=
                    Lists.exists_getElem?_of_forall₂ hpacked.flip hinput
                  rw [hobject.symbols] at hsym'
                  rw [← Except.ok.inj h]
                  exact steps.redirect_of_definition hpacked hweak.1 hweak.2 hsite hother hfile'
                    hsym'

/-- The index of a symbol leads to what the symbol means. -/
theorem symbol_means (steps : LinkSteps inputs symbolDb request linked)
    (hpacked : List.Forall₂ Packed files inputs) {o k out : Nat} {file : WasmObject}
    {sym : WasmSymbol} {map outputMap : WasmObjectIndexMap} {redirects : List (Option Nat)}
    (hfile : files[o]? = some file) (hmap : steps.indexMaps[o]? = some map)
    (hredirects : file.symbols.zipIdx.mapM (functionSymbolRedirect symbolDb inputs steps.indexMaps o)
      = .ok redirects)
    (hindices : outputMap.functionIndices = map.functionIndices)
    (hsame : outputMap.functionSymbolRedirects = redirects)
    (hsym : file.symbols[k]? = some sym) (hkind : sym.kind = .func)
    (hout : outputMap.outputFunctionIndex k sym = .ok out) :
    ∃ f, linked.layout.function out = some f ∧
      SymbolMeans files symbolDb steps.callCtors o k file sym f := by
  have hitem : file.symbols.zipIdx[k]? = some (sym, k) := by
    rw [List.getElem?_zipIdx, hsym, Option.map_some, Nat.zero_add]
  obtain ⟨redirect, hget, hredirect⟩ := mapM_getElem? hredirects hitem
  have hredirect := steps.functionSymbolRedirect_eq_ok hpacked hkind hredirect
  rw [WasmObjectIndexMap.outputFunctionIndex, hsame, hget, hindices] at hout
  cases redirect with
  | some target =>
      obtain rfl : target = out := Except.ok.inj hout
      obtain ⟨d, file', sym', map', hoverrides, hmap', htarget, hdead⟩ := hredirect
      obtain ⟨f, hf, hmeans⟩ :=
        steps.means_of_getElem? hpacked hoverrides.hfile hmap' htarget hdead
      exact ⟨f, hf, .overridden hoverrides hmeans⟩
  | none =>
      obtain ⟨hown, hdead⟩ := remapWasmIndex_eq_ok hout
      obtain ⟨f, hf, hmeans⟩ := steps.means_of_getElem? hpacked hfile hmap hown hdead
      exact ⟨f, hf, .own hredirect hmeans⟩

end LinkSteps

/-- The function index that the linked module has for a function symbol of an object stands for the
function of that symbol. -/
theorem function_symbols_kept {files : List WasmObject} {symbolDb : SymbolDb} {request : LinkRequest}
    {linked : LinkedModule} (h : buildOutputModuleLayout files symbolDb request = .ok linked) :
    ∃ ctors, (∀ c, linked.setup.indices.callCtorsFunc = some c →
        linked.layout.function c = some ctors) ∧
      ∀ o file map k sym out, files[o]? = some file →
        linked.layout.objectIndexMaps[o]? = some map → file.symbols[k]? = some sym →
        sym.kind = .func → map.outputFunctionIndex k sym = .ok out →
        ∃ f, linked.layout.function out = some f ∧
          SymbolMeans files symbolDb ctors o k file sym f := by
  obtain ⟨inputs, hinputs, h⟩ := bind_eq_ok.mp h
  have hpacked : List.Forall₂ Packed files inputs :=
    (mapM_eq_ok hinputs).imp fun _ _ => fromFile_packed
  obtain ⟨steps⟩ := layoutInputs_eq_ok h
  obtain ⟨nonWeak, hfunctions, -, -⟩ := steps.linkedFunctions hpacked
  refine ⟨steps.callCtors, hfunctions.callCtors, ?_⟩
  intro o file outputMap k sym out hfile houtputMap hsym hkind hout
  obtain ⟨input, hinput, hobject⟩ := Lists.exists_getElem?_of_forall₂ hpacked hfile
  obtain ⟨-, map, -, hmap, -⟩ := steps.indexMap hfunctions.setup.length hinput
  obtain ⟨typeIndices, redirects, hredirects, -, hfound⟩ := steps.outputMap hinput hmap
  obtain rfl := Option.some.inj (houtputMap.symm.trans hfound)
  rw [hobject.symbols] at hredirects
  exact steps.symbol_means hpacked hfile hmap hredirects (by rfl) (by rfl) hsym hkind hout

theorem function_symbols_kept_caller : ∃ linked,
    buildOutputModuleLayout [calleeObject, callerObject] calleeDb plainRequest = .ok linked ∧
      ∃ ctors f, linked.layout.function 2 = some f ∧
        SymbolMeans [calleeObject, callerObject] calleeDb ctors 1 3 callerObject
          ⟨.func, false, true, 3⟩ f := by
  obtain ⟨linked, map, h, hmap, hout⟩ := caller_linked
  obtain ⟨ctors, -, hkept⟩ := function_symbols_kept h
  exact ⟨linked, h, ctors, hkept 1 callerObject map 3 _ 2 rfl hmap rfl rfl hout⟩

end JdxLinker.Wasm.Linking
