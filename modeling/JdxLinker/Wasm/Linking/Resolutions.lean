import JdxLinker.Wasm.Linking.SharedImports

/-!
# What the slots of an object are resolved to

The undefined symbols that name a slot are tried in order, and then the name of the import. What the
slot is resolved to is found from the definitions of these symbols alone.
-/

namespace JdxLinker.Wasm.Linking

open Fallible Interning

section

variable {β : Type}

/-- A slot is resolved to something, or is left unresolved where there is nothing. -/
def SlotIs (Denotes : ImportResolution → β → Prop) (resolution : ImportResolution) :
    Option β → Prop
  | none => resolution = .unresolved
  | some b => Denotes resolution b

variable {Denotes : ImportResolution → β → Prop}

/-- Whether a symbol is an undefined one for a slot. -/
def WasmSymbol.namesSlot (sym : WasmSymbol) (kind : WasmSymbolKind) (i : Nat) : Bool :=
  sym.isUndefined && sym.kind = kind && sym.index = i

/-- What the first symbol of a slot that has a definition of the right kind is defined as. -/
def slotDefinition (symbols : List WasmSymbol) (kind : WasmSymbolKind) (definition : Nat → Option β)
    (i : Nat) : Option β :=
  symbols.zipIdx.findSome? fun item =>
    if item.1.namesSlot kind i then definition item.2 else none

variable {allInputs : List WasmObjectLayoutInput} {symbolDb : SymbolDb} {kind : WasmSymbolKind}
  {live : List Bool} {objectIndex : Nat} {definition : Nat → Option β}

theorem setResolution_length (resolutions : List ImportResolution) (i : Nat)
    (resolution : ImportResolution) :
    (setResolution resolutions i resolution).length = resolutions.length := by
  rw [setResolution]
  split
  · rw [List.length_set]
  · rfl

theorem resolveSymbolSlot_length {resolutions resolutions' : List ImportResolution}
    {item : WasmSymbol × Nat}
    (h : resolveSymbolSlot allInputs symbolDb kind live objectIndex resolutions item
      = .ok resolutions') : resolutions'.length = resolutions.length := by
  rw [resolveSymbolSlot] at h
  split at h
  · cases h
    rfl
  · obtain ⟨resolution, -, h⟩ := bind_eq_ok.mp h
    cases h
    exact setResolution_length _ _ _

theorem resolveImportSymbols_length {symbols : List WasmSymbol} {importNames : List String}
    {resolutions : List ImportResolution}
    (h : resolveImportSymbols allInputs symbolDb kind importNames live symbols objectIndex
      = .ok resolutions) : resolutions.length = importNames.length := by
  obtain ⟨bySymbol, hbySymbol, h⟩ := bind_eq_ok.mp h
  cases h
  have hlength : bySymbol.length = importNames.length :=
    foldlM_kept (fun s => s.length = importNames.length) hbySymbol
      (fun item _ s s' hstep hs => (resolveSymbolSlot_length hstep).trans hs) List.length_replicate
  rw [List.length_mapIdx, List.length_zip, hlength, min_self]

theorem resolveSymbolSlot_eq_ok {resolutions resolutions' : List ImportResolution}
    {item : WasmSymbol × Nat}
    (h : resolveSymbolSlot allInputs symbolDb kind live objectIndex resolutions item
      = .ok resolutions') {i : Nat} (hi : i < resolutions.length) (hlive : isLive live i = true) :
    (item.1.namesSlot kind i = false ∧ resolutions'[i]? = resolutions[i]?) ∨
      (item.1.namesSlot kind i = true ∧ ∃ resolution,
        resolveOneImport allInputs symbolDb kind objectIndex item.2 = .ok resolution ∧
        resolutions'[i]? = if resolutions[i]? = some .unresolved then some resolution
          else resolutions[i]?) := by
  obtain ⟨sym, offset⟩ := item
  rw [resolveSymbolSlot] at h
  split at h
  case isTrue hskip =>
      cases h
      refine .inl ⟨?_, rfl⟩
      by_contra hnames
      simp only [WasmSymbol.namesSlot, Bool.not_eq_false, Bool.and_eq_true, decide_eq_true_eq] at hnames
      obtain ⟨⟨hundefined, hkind⟩, rfl⟩ := hnames
      simp only [hundefined, hkind, hlive, Bool.or_eq_true, Bool.not_eq_true', decide_eq_true_eq]
        at hskip
      have : ¬ resolutions.length ≤ sym.index := by omega
      simp [this] at hskip
  case isFalse hskip =>
      obtain ⟨resolution, hresolution, h⟩ := bind_eq_ok.mp h
      cases h
      by_cases hindex : sym.index = i
      · subst hindex
        refine .inr ⟨?_, resolution, hresolution, ?_⟩
        · simp only [hlive, Bool.or_eq_true, Bool.not_eq_true', decide_eq_true_eq, not_or,
            Bool.not_eq_false, not_not] at hskip
          simp [WasmSymbol.namesSlot, hskip.1.1.1, hskip.1.1.2]
        · rw [setResolution]
          split
          · rw [List.getElem?_set_self hi]
          · rfl
      · refine .inl ⟨by simp [WasmSymbol.namesSlot, hindex], ?_⟩
        rw [setResolution]
        split
        · rw [List.getElem?_set_ne hindex]
        · rfl

/-- The first symbol with a definition decides. -/
theorem resolveSymbols_slotIs {symbols : List WasmSymbol} {n : Nat}
    {resolutions : List ImportResolution} (hunresolved : ∀ b, ¬ Denotes .unresolved b)
    (hone : ∀ sym offset resolution, symbols[offset]? = some sym → sym.isUndefined = true →
      resolveOneImport allInputs symbolDb kind objectIndex offset = .ok resolution →
      SlotIs Denotes resolution (definition offset))
    (h : symbols.zipIdx.foldlM (resolveSymbolSlot allInputs symbolDb kind live objectIndex)
      (List.replicate n .unresolved) = .ok resolutions) :
    resolutions.length = n ∧ ∀ i, i < n → isLive live i = true → ∃ resolution,
      resolutions[i]? = some resolution ∧
        SlotIs Denotes resolution (slotDefinition symbols kind definition i) := by
  let found (i : Nat) (item : WasmSymbol × Nat) : Option β :=
    if item.1.namesSlot kind i then definition item.2 else none
  have hrun := foldlM_invariant (fun visited (s : List ImportResolution) =>
    s.length = n ∧ ((∀ item ∈ visited, symbols[item.2]? = some item.1) →
      ∀ i, i < n → isLive live i = true → ∃ resolution, s[i]? = some resolution ∧
        SlotIs Denotes resolution (visited.findSome? (found i)))) h ?_ ?_
  · refine ⟨hrun.1, hrun.2 fun item hitem => ?_⟩
    exact List.mem_zipIdx_iff_getElem?.mp hitem
  · refine ⟨List.length_replicate, fun _ i hi _ => ⟨.unresolved, ?_, rfl⟩⟩
    rw [List.getElem?_replicate, if_pos hi]
  · rintro visited ⟨sym, offset⟩ s s' ⟨hlength, hslots⟩ hstep
    refine ⟨(resolveSymbolSlot_length hstep).trans hlength, fun hproper i hi hlive => ?_⟩
    obtain ⟨before, hbefore, hdenotes⟩ :=
      hslots (fun item hitem => hproper item (List.mem_append_left _ hitem)) i hi hlive
    have hsym : symbols[offset]? = some sym :=
      hproper (sym, offset) (List.mem_append_right _ List.mem_cons_self)
    rw [List.findSome?_append, List.findSome?_singleton]
    rcases resolveSymbolSlot_eq_ok hstep (hlength ▸ hi) hlive with ⟨hnames, hs'⟩ | ⟨hnames, resolution, hresolve, hs'⟩
    · refine ⟨before, hs'.trans hbefore, ?_⟩
      have hfound : found i (sym, offset) = none := if_neg (by rw [hnames]; exact Bool.false_ne_true)
      rwa [hfound, Option.or_none]
    · have hfound : found i (sym, offset) = definition offset := if_pos hnames
      rw [hbefore] at hs'
      rw [hfound]
      cases hdefined : visited.findSome? (found i) with
      | none =>
          rw [hdefined] at hdenotes
          obtain rfl : before = .unresolved := hdenotes
          rw [if_pos rfl] at hs'
          have hundefined : sym.isUndefined = true := by
            simp only [WasmSymbol.namesSlot, Bool.and_eq_true] at hnames
            exact hnames.1.1
          exact ⟨resolution, hs', hone sym offset resolution hsym hundefined hresolve⟩
      | some b =>
          rw [hdefined] at hdenotes
          have hne : before ≠ .unresolved := by
            rintro rfl
            exact hunresolved b hdenotes
          rw [if_neg (by rwa [Option.some.injEq])] at hs'
          exact ⟨before, hs', hdenotes⟩

/-- What a slot is resolved to, through its symbols or the name of its import. -/
theorem resolveImportSymbols_slotIs {symbols : List WasmSymbol} {importNames : List String}
    {named : String → Option β} {resolutions : List ImportResolution}
    (hunresolved : ∀ b, ¬ Denotes .unresolved b)
    (hone : ∀ sym offset resolution, symbols[offset]? = some sym → sym.isUndefined = true →
      resolveOneImport allInputs symbolDb kind objectIndex offset = .ok resolution →
      SlotIs Denotes resolution (definition offset))
    (hnamed : ∀ name, SlotIs Denotes
      ((linkerDefinedImportResolution symbolDb kind name).getD .unresolved) (named name))
    (h : resolveImportSymbols allInputs symbolDb kind importNames live symbols objectIndex
      = .ok resolutions) {i : Nat} {name : String} (hname : importNames[i]? = some name)
    (hlive : isLive live i = true) :
    ∃ resolution, resolutions[i]? = some resolution ∧ SlotIs Denotes resolution
      ((slotDefinition symbols kind definition i).or (named name)) := by
  obtain ⟨bySymbol, hbySymbol, h⟩ := bind_eq_ok.mp h
  cases h
  obtain ⟨-, hslots⟩ := resolveSymbols_slotIs hunresolved hone hbySymbol
  obtain ⟨resolution, hget, hdenotes⟩ :=
    hslots i (List.getElem?_eq_some_iff.mp hname).1 hlive
  refine ⟨resolveByName symbolDb kind live i name resolution, ?_, ?_⟩
  · have hzip : (importNames.zip bySymbol)[i]? = some (name, resolution) :=
      List.getElem?_zip_eq_some.mpr ⟨hname, hget⟩
    rw [List.getElem?_mapIdx, hzip, Option.map_some]
  · rw [resolveByName]
    cases hdefined : slotDefinition symbols kind definition i with
    | none =>
        rw [hdefined] at hdenotes
        obtain rfl : resolution = .unresolved := hdenotes
        simp only [hlive, Bool.not_true, Bool.false_or, ne_eq, not_true_eq_false, decide_false,
          Bool.false_eq_true, if_false, Option.none_or]
        exact hnamed name
    | some b =>
        rw [hdefined] at hdenotes
        have hne : resolution ≠ .unresolved := by
          rintro rfl
          exact hunresolved b hdenotes
        simp only [hlive, Bool.not_true, Bool.false_or, ne_eq, hne, not_false_eq_true, decide_true,
          if_true, Option.some_or]
        exact hdenotes

end

/-! ### Stubs -/

/-- An unresolved import that only weak symbols name, of a name that nothing else needs. -/
structure Absorbed (nonWeak : List String) (input : WasmObjectLayoutInput)
    (resolutions : List ImportResolution) (i : Nat) (import' : WasmFunctionImport) : Prop where
  stays : StaysUnresolved input resolutions i
  weak : pureWeakFunctionImport input i = true
  notNeeded : import'.name ∉ nonWeak

/-- A resolution to the stub of an import's name and type. -/
def PointsToStub (stubs : List WeakUndefFunctionStub) (input : WasmObjectLayoutInput)
    (import' : WasmFunctionImport) (resolution : Option ImportResolution) : Prop :=
  ∃ k stub ty, resolution = some (.weakUndefStub k) ∧ stubs[k]? = some stub ∧
    stub.name = import'.name ∧ input.types[import'.typeIndex]? = some ty ∧ stub.ty = ty

theorem PointsToStub.mono {stubs stubs' : List WeakUndefFunctionStub} (h : stubs <+: stubs')
    {input : WasmObjectLayoutInput} {import' : WasmFunctionImport}
    {resolution : Option ImportResolution} (hpoints : PointsToStub stubs input import' resolution) :
    PointsToStub stubs' input import' resolution := by
  obtain ⟨k, stub, ty, hk, hget, hname, hty, hstub⟩ := hpoints
  exact ⟨k, stub, ty, hk, getElem?_of_grows h hget, hname, hty, hstub⟩

theorem findOrAddStub_eq_ok {stubs stubs' : List WeakUndefFunctionStub} {name : String}
    {ty : FuncType} {k : Nat} (h : findOrAddStub stubs name ty = .ok (k, stubs')) :
    stubs <+: stubs' ∧ ∃ stub, stubs'[k]? = some stub ∧ stub.name = name ∧ stub.ty = ty := by
  rw [findOrAddStub] at h
  split at h
  case h_1 i hfind =>
      obtain ⟨stub, hstub, h⟩ := bind_eq_ok.mp h
      obtain ⟨_, hty, h⟩ := bind_eq_ok.mp h
      cases h
      obtain ⟨hlt, hname, -⟩ := List.findIdx?_eq_some_iff_getElem.mp hfind
      have hget := unwrap_eq_ok.mp hstub
      refine ⟨List.prefix_rfl, stub, hget, ?_, ensure_eq_ok.mp hty⟩
      rw [List.getElem?_eq_getElem hlt] at hget
      rw [← Option.some.inj hget]
      exact of_decide_eq_true hname
  case h_2 =>
      cases h
      exact ⟨List.prefix_append _ _, ⟨name, ty, 0⟩, List.getElem?_concat_length .., rfl, rfl⟩

theorem absorbImport_eq_ok {nonWeak : List String} {input : WasmObjectLayoutInput}
    {s s' : StubState} {import' : WasmFunctionImport} {i : Nat} (hi : i < s.2.length)
    (h : absorbImport nonWeak input s (import', i) = .ok s') :
    s.1 <+: s'.1 ∧ s'.2.length = s.2.length ∧ (∀ j, j ≠ i → s'.2[j]? = s.2[j]?) ∧
      if pureWeakFunctionImport input i = true ∧ import'.name ∉ nonWeak then
        PointsToStub s'.1 input import' s'.2[i]?
      else s' = s := by
  rw [absorbImport] at h
  split at h
  case isTrue hskip =>
      cases h
      refine ⟨List.prefix_rfl, rfl, fun _ _ => rfl, ?_⟩
      rw [if_neg]
      rintro ⟨hweak, hneeded⟩
      simp [hweak, hneeded] at hskip
  case isFalse hskip =>
      obtain ⟨ty, hty, h⟩ := bind_eq_ok.mp h
      obtain ⟨⟨k, stubs⟩, hadd, h⟩ := bind_eq_ok.mp h
      cases h
      obtain ⟨hgrows, stub, hget, hname, hstub⟩ := findOrAddStub_eq_ok hadd
      refine ⟨hgrows, List.length_set, fun j hj => List.getElem?_set_ne hj.symm, ?_⟩
      rw [if_pos (by simpa using hskip)]
      exact ⟨k, stub, ty, List.getElem?_set_self hi, hget, hname, context_eq_ok.mp hty, hstub⟩

/-- The resolutions of an object once its weak imports have their stubs. -/
structure WithStubs (nonWeak : List String) (stubs : List WeakUndefFunctionStub)
    (input : WasmObjectLayoutInput) (before after : List ImportResolution) : Prop where
  length : after.length = before.length
  absorbed {i : Nat} {import' : WasmFunctionImport} (himport : input.functionImports[i]? = some import')
    (h : Absorbed nonWeak input before i import') : PointsToStub stubs input import' after[i]?
  kept {i : Nat} {import' : WasmFunctionImport} (himport : input.functionImports[i]? = some import')
    (h : ¬ Absorbed nonWeak input before i import') : after[i]? = before[i]?

theorem WithStubs.mono {nonWeak : List String} {stubs stubs' : List WeakUndefFunctionStub}
    {input : WasmObjectLayoutInput} {before after : List ImportResolution}
    (h : WithStubs nonWeak stubs input before after) (hle : stubs <+: stubs') :
    WithStubs nonWeak stubs' input before after :=
  ⟨h.length, fun himport habsorbed => (h.absorbed himport habsorbed).mono hle, h.kept⟩

theorem mem_unresolvedImports {input : WasmObjectLayoutInput} {resolutions : List ImportResolution}
    {import' : WasmFunctionImport} {i : Nat} :
    (import', i) ∈ unresolvedImports input resolutions ↔
      input.functionImports[i]? = some import' ∧ StaysUnresolved input resolutions i := by
  rw [unresolvedImports, List.mem_filter, List.mem_zipIdx_iff_getElem?, Bool.and_eq_true,
    decide_eq_true_eq]
  exact and_congr_right fun _ => ⟨fun h => ⟨h.1, h.2⟩, fun h => ⟨h.live, h.unresolved⟩⟩

theorem absorbObject_eq_ok {nonWeak : List String} {stubs stubs' : List WeakUndefFunctionStub}
    {pair : WasmObjectLayoutInput × ObjectImportResolutions} {after : ObjectImportResolutions}
    (hlength : pair.2.functionResolutions.length = pair.1.functionImports.length)
    (h : absorbObject nonWeak stubs pair = .ok (stubs', after)) :
    stubs <+: stubs' ∧ after.globalResolutions = pair.2.globalResolutions ∧
      WithStubs nonWeak stubs' pair.1 pair.2.functionResolutions after.functionResolutions := by
  obtain ⟨⟨final, functionResolutions⟩, hrun, h⟩ := bind_eq_ok.mp h
  cases h
  obtain ⟨input, before⟩ := pair
  have hinv := foldlM_invariant (fun visited (s : StubState) =>
    (∀ item ∈ visited, item ∈ unresolvedImports input before.functionResolutions) →
      stubs <+: s.1 ∧ s.2.length = before.functionResolutions.length ∧
        ∀ i import', input.functionImports[i]? = some import' →
          if (import', i) ∈ visited ∧ pureWeakFunctionImport input i = true ∧ import'.name ∉ nonWeak
          then PointsToStub s.1 input import' s.2[i]?
          else s.2[i]? = before.functionResolutions[i]?) hrun ?_ ?_
  · obtain ⟨hgrows, hsame, hslots⟩ := hinv fun _ hitem => hitem
    refine ⟨hgrows, rfl, hsame, fun himport habsorbed => ?_, fun himport hnot => ?_⟩
    · have := hslots _ _ himport
      rwa [if_pos ⟨mem_unresolvedImports.mpr ⟨himport, habsorbed.stays⟩, habsorbed.weak,
        habsorbed.notNeeded⟩] at this
    · have := hslots _ _ himport
      rwa [if_neg] at this
      rintro ⟨hmem, hweak, hneeded⟩
      exact hnot ⟨(mem_unresolvedImports.mp hmem).2, hweak, hneeded⟩
  · refine fun _ => ⟨List.prefix_rfl, rfl, fun i import' _ => ?_⟩
    rw [if_neg fun hmem => List.not_mem_nil hmem.1]
  · rintro visited ⟨new, j⟩ s s' hinv hstep hproper
    obtain ⟨hgrows, hsame, hslots⟩ :=
      hinv fun item hitem => hproper item (List.mem_append_left _ hitem)
    have hnew := mem_unresolvedImports.mp (hproper (new, j) (List.mem_append_right _ List.mem_cons_self))
    have hj : j < s.2.length := by
      rw [hsame, hlength]
      exact (List.getElem?_eq_some_iff.mp hnew.1).1
    obtain ⟨hadds, hkeeps, hothers, hpoints⟩ := absorbImport_eq_ok hj hstep
    refine ⟨hgrows.trans hadds, hkeeps.trans hsame, fun i import' himport => ?_⟩
    have hslot := hslots i import' himport
    by_cases hij : i = j
    · subst hij
      obtain rfl : import' = new := Option.some.inj (himport.symm.trans hnew.1)
      by_cases hweak : pureWeakFunctionImport input i = true ∧ import'.name ∉ nonWeak
      · rw [if_pos hweak] at hpoints
        rwa [if_pos ⟨List.mem_append_right _ List.mem_cons_self, hweak⟩]
      · rw [if_neg hweak] at hpoints
        rw [if_neg fun h => hweak h.2] at hslot
        rwa [if_neg fun h => hweak h.2, hpoints]
    · rw [hothers i hij]
      have hmem : (import', i) ∈ visited ++ [(new, j)] ↔ (import', i) ∈ visited := by
        rw [List.mem_append, List.mem_singleton, or_iff_left]
        intro heq
        exact hij (congrArg Prod.snd heq)
      split at hslot
      case isTrue h =>
          rw [if_pos ⟨hmem.mpr h.1, h.2⟩]
          exact hslot.mono hadds
      case isFalse h => rwa [if_neg fun h' => h ⟨hmem.mp h'.1, h'.2⟩]

/-- The stubs of all objects. -/
theorem absorbObjects_eq_ok {nonWeak : List String} {stubs stubs' : List WeakUndefFunctionStub}
    {pairs : List (WasmObjectLayoutInput × ObjectImportResolutions)}
    {after : List ObjectImportResolutions}
    (hlength : ∀ pair ∈ pairs, pair.2.functionResolutions.length = pair.1.functionImports.length)
    (h : absorbObjects nonWeak stubs pairs = .ok (stubs', after)) :
    stubs <+: stubs' ∧ List.Forall₂ (fun pair object =>
      object.globalResolutions = pair.2.globalResolutions ∧
        WithStubs nonWeak stubs' pair.1 pair.2.functionResolutions object.functionResolutions)
      pairs after := by
  induction pairs generalizing stubs after with
  | nil =>
      cases h
      exact ⟨List.prefix_rfl, .nil⟩
  | cons pair pairs ih =>
      rw [absorbObjects] at h
      obtain ⟨⟨added, object⟩, hobject, h⟩ := bind_eq_ok.mp h
      obtain ⟨⟨final, rest⟩, hrest, h⟩ := bind_eq_ok.mp h
      cases h
      obtain ⟨hadds, hglobals, hstubs⟩ := absorbObject_eq_ok (hlength pair List.mem_cons_self) hobject
      obtain ⟨hgrows, hall⟩ := ih (fun pair hpair => hlength pair (List.mem_cons_of_mem _ hpair)) hrest
      exact ⟨hadds.trans hgrows, .cons ⟨hglobals, hstubs.mono hgrows⟩ hall⟩

end JdxLinker.Wasm.Linking
