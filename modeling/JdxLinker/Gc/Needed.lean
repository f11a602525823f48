import JdxLinker.Gc.Delivery

/-!
# What is needed

A symbol or a section is needed if activation asks for it or something that is needed does. This is
the least set closed under requests, and it knows nothing of workers or of their order.
-/

namespace JdxLinker

inductive Target where
  | symbol (symbol : SymbolId)
  | gcUnit (file : FileId) (gcUnit : Nat)
  | exportDynamic (symbol : SymbolId)
  deriving DecidableEq, Repr

def WorkItem.target : WorkItem → Option Target
  | .loadGlobalSymbol symbol => some (.symbol symbol)
  | .loadGcUnit file gcUnit => some (.gcUnit file gcUnit)
  | .exportDynamic symbol => some (.exportDynamic symbol)
  | .copyRelocateSymbol _ => none

/-- What becomes of a section that is asked for. -/
def SectionSlot.load : SectionSlot → SectionSlot
  | .unloaded needsSorting => if needsSorting then .sorted else .loaded
  | .mustLoad needsSorting => if needsSorting then .sorted else .loaded
  | .unloadedDebugInfo => .loadedDebugInfo
  | slot => slot

@[simp] theorem SectionSlot.load_load (slot : SectionSlot) : slot.load.load = slot.load := by
  cases slot with
  | unloaded needsSorting => cases needsSorting <;> rfl
  | mustLoad needsSorting => cases needsSorting <;> rfl
  | _ => rfl

theorem SectionSlot.load_eq_discard {slot : SectionSlot} : slot.load = .discard ↔ slot = .discard := by
  cases slot with
  | unloaded needsSorting => cases needsSorting <;> simp [SectionSlot.load]
  | mustLoad needsSorting => cases needsSorting <;> simp [SectionSlot.load]
  | _ => simp [SectionSlot.load]

namespace GraphInputs

variable (inputs : GraphInputs)

/-- What a request asks for. Symbols that had a resolution to begin with are not asked for. -/
def requestTarget : Request → Option Target
  | .reference reference =>
      if (inputs.symbolFlags reference.symbol).hasResolution then none
      else some (.symbol reference.symbol)
  | .exportSymbol symbol =>
      if (inputs.symbolFlags symbol).hasResolution then none else some (.symbol symbol)
  | .send item => item.target
  | .sendToSlot item => item.target
  | .setFlags _ _ => none
  | .fail _ => none

/-- The work that loading a symbol leads to. -/
def symbolItems (symbol : SymbolId) : List WorkItem :=
  match inputs.file? symbol.file with
  | some (.object obj) =>
      match obj.symbols[symbol.offset]?.bind (·.sectionIndex) with
      | some sectionIndex => [.loadGcUnit symbol.file sectionIndex]
      | none => []
  | some (.syntheticSymbols sectionIds startStopSections) =>
      match sectionIds[symbol.offset]?.join with
      | some sectionId => (startStopSections[sectionId]?.getD []).map fun (file, gcUnit) =>
          .loadGcUnit file gcUnit
      | none => []
  | _ => []

/-- The requests of a section that is asked for while its slot is `slot`. -/
def slotRequests (slot : SectionSlot) (sec : SectionInput) : List Request :=
  match slot with
  | .unloaded _ => inputs.loadSection sec
  | .mustLoad _ => inputs.loadSection sec
  | _ => []

def sectionRequests (sec : SectionInput) : List Request := inputs.slotRequests sec.slot sec

/-- What a target asks for in turn. -/
def targetRequests : Target → List Request
  | .symbol symbol => (inputs.symbolItems symbol).map Request.send
  | .gcUnit file gcUnit => ((inputs.sectionInput? file gcUnit).map inputs.sectionRequests).getD []
  | .exportDynamic symbol =>
      match inputs.file? symbol.file with
      | some (.object obj) => inputs.exportDynamic symbol (obj.sections.map (·.slot))
      | _ => []

/-- The least set that has what activation asks for and what its members ask for. -/
inductive Needed : Target → Prop
  | activated {fileId : FileId} {file : FileInput} {request : Request} {target : Target}
      (hfile : inputs.file? fileId = some file) (hrequest : request ∈ inputs.activate fileId file)
      (htarget : inputs.requestTarget request = some target) : Needed target
  | requested {source target : Target} {request : Request} (hsource : Needed source)
      (hrequest : request ∈ inputs.targetRequests source)
      (htarget : inputs.requestTarget request = some target) : Needed target

/-- The set that is needed is the least closed one. -/
theorem Needed.least {P : Target → Prop} {target : Target} (h : inputs.Needed target)
    (hactivated : ∀ fileId file request target, inputs.file? fileId = some file →
      request ∈ inputs.activate fileId file → inputs.requestTarget request = some target → P target)
    (hrequested : ∀ source request target, P source → request ∈ inputs.targetRequests source →
      inputs.requestTarget request = some target → P target) : P target := by
  induction h with
  | activated hfile hrequest htarget => exact hactivated _ _ _ _ hfile hrequest htarget
  | requested _ hrequest htarget ih => exact hrequested _ _ _ ih hrequest htarget

/-- A section that has been loaded asks for nothing more. -/
theorem slotRequests_load (slot : SectionSlot) (sec : SectionInput) :
    inputs.slotRequests slot.load sec = [] := by
  cases slot with
  | unloaded needsSorting => cases needsSorting <;> rfl
  | mustLoad needsSorting => cases needsSorting <;> rfl
  | _ => rfl

theorem handleSectionLoadRequest_ok {fileId : FileId} {sections : List SectionSlot} {gcUnit : Nat}
    {file' : FileLayoutState} {requests : List Request}
    (h : inputs.handleSectionLoadRequest fileId sections gcUnit = .ok (file', requests)) :
    ∃ slot sec, sections[gcUnit]? = some slot ∧ inputs.sectionInput? fileId gcUnit = some sec
      ∧ file' = .object (sections.set gcUnit slot.load) ∧ requests = inputs.slotRequests slot sec := by
  have hsame : ∀ slot, sections[gcUnit]? = some slot → sections.set gcUnit slot = sections := by
    intro slot hslot
    obtain ⟨hlt, rfl⟩ := List.getElem?_eq_some_iff.mp hslot
    exact List.set_getElem_self hlt
  unfold handleSectionLoadRequest at h
  cases hslot : sections[gcUnit]? with
  | none => simp [hslot] at h
  | some slot =>
      cases hsec : inputs.sectionInput? fileId gcUnit with
      | none => cases slot <;> simp [hslot, hsec] at h
      | some sec =>
          refine ⟨slot, sec, rfl, rfl, ?_⟩
          have hset := hsame slot hslot
          cases slot with
          | discard => simp [hslot, hsec] at h
          | _ => simp_all [SectionSlot.load, slotRequests]

/-- What follows a reference asks for its symbol, if it has no resolution yet. -/
theorem follow_target {reference : Reference} {previous : ValueFlags} {request : Request}
    {target : Target} (h : request ∈ reference.follow previous)
    (htarget : inputs.requestTarget request = some target) :
    previous.hasResolution = false ∧ target = .symbol reference.symbol := by
  simp only [Reference.follow, List.mem_append] at h
  rcases h with (h | h) | h
  · split at h
    · simp at h
    · rename_i hflags
      simp only [List.mem_cons, List.not_mem_nil, or_false] at h
      rcases h with rfl | rfl
      · cases htarget
      · cases htarget
        exact ⟨by simpa using hflags, rfl⟩
  · obtain ⟨error, -, rfl⟩ := Option.map_eq_some_iff.mp (Option.mem_toList.mp h)
    cases htarget
  · split at h
    · obtain rfl := List.mem_singleton.mp h
      cases htarget
    · simp at h

/-! ### Requests of inputs -/

/-- What holds of the requests that the inputs themselves give rise to: flags are only set for
symbols that lead to no work, and only symbols of objects are exported. -/
def InputRequest : Request → Prop
  | .setFlags symbol _ => inputs.symbolItems symbol = []
  | .exportSymbol symbol => (inputs.objectSymbol? symbol).isSome
  | _ => True

theorem processRelocation_input (rel : Relocation) :
    ∀ request ∈ inputs.processRelocation rel, inputs.InputRequest request := by
  intro request hrequest
  unfold processRelocation at hrequest
  split at hrequest
  · simp at hrequest
  · split at hrequest <;> obtain rfl := List.mem_singleton.mp hrequest <;> trivial

theorem loadSectionRelocations_input (skip : Bool) (rels : List Relocation) :
    ∀ request ∈ inputs.loadSectionRelocations skip rels, inputs.InputRequest request := by
  induction rels generalizing skip with
  | nil => simp [loadSectionRelocations]
  | cons rel rels ih =>
      intro request hrequest
      unfold loadSectionRelocations at hrequest
      split at hrequest
      · exact ih _ request hrequest
      · rcases List.mem_append.mp hrequest with hrequest | hrequest
        · exact inputs.processRelocation_input rel request hrequest
        · exact ih _ request hrequest

theorem flatMap_processRelocation_input (rels : List Relocation) :
    ∀ request ∈ rels.flatMap inputs.processRelocation, inputs.InputRequest request := by
  intro request hrequest
  obtain ⟨rel, -, hrel⟩ := List.mem_flatMap.mp hrequest
  exact inputs.processRelocation_input rel request hrel

theorem loadSection_input (sec : SectionInput) :
    ∀ request ∈ inputs.loadSection sec, inputs.InputRequest request := by
  intro request hrequest
  rcases List.mem_append.mp hrequest with hrequest | hrequest
  · exact inputs.loadSectionRelocations_input _ _ request hrequest
  · split at hrequest
    · exact inputs.flatMap_processRelocation_input _ request hrequest
    · simp at hrequest

theorem objectSymbol?_isSome {symbol : SymbolId} (h : (inputs.objectSymbol? symbol).isSome) :
    ∃ obj, inputs.file? symbol.file = some (.object obj) := by
  unfold objectSymbol? at h
  split at h
  · exact ⟨_, by assumption⟩
  · simp at h

theorem loadObjectSymbol_eq {symbol : SymbolId} {obj : ObjectInput}
    (h : inputs.file? symbol.file = some (.object obj)) :
    inputs.loadObjectSymbol symbol = (inputs.symbolItems symbol).map Request.send := by
  simp only [loadObjectSymbol, symbolItems, objectSymbol?, h]
  split <;> simp [*]

theorem loadObjectSymbol_input (symbol : SymbolId) :
    ∀ request ∈ inputs.loadObjectSymbol symbol, inputs.InputRequest request := by
  intro request hrequest
  unfold loadObjectSymbol at hrequest
  split at hrequest
  · obtain rfl := List.mem_singleton.mp hrequest
    trivial
  · simp at hrequest

theorem exportDynamic_input (symbol : SymbolId) (sections : List SectionSlot) :
    ∀ request ∈ inputs.exportDynamic symbol sections, inputs.InputRequest request := by
  intro request hrequest
  unfold exportDynamic at hrequest
  split at hrequest
  · rename_i objectSymbol hsymbol
    split at hrequest
    · simp at hrequest
    · split at hrequest
      · obtain rfl := List.mem_singleton.mp hrequest
        exact Option.isSome_iff_exists.mpr ⟨objectSymbol, hsymbol⟩
      · simp at hrequest
  · obtain rfl := List.mem_singleton.mp hrequest
    trivial

theorem redirect_input {fileId : FileId} {i : Nat} (hitems : inputs.symbolItems ⟨fileId, i⟩ = [])
    (redirect : Option (List SymbolId)) :
    ∀ request ∈ (redirect.map (loadRedirectReferencedSymbols ⟨fileId, i⟩)).getD [],
      inputs.InputRequest request := by
  intro request hrequest
  cases redirect with
  | none => simp at hrequest
  | some expression =>
      rcases List.mem_cons.mp hrequest with rfl | hrequest
      · exact hitems
      · obtain ⟨symbol, -, rfl⟩ := List.mem_map.mp hrequest
        trivial

theorem activateSectionGc_input (fileId : FileId) (obj : ObjectInput) :
    ∀ request ∈ inputs.activateSectionGc fileId obj, inputs.InputRequest request := by
  intro request hrequest
  rcases List.mem_append.mp hrequest with hrequest | hrequest
  · obtain ⟨⟨sec, i⟩, -, hrequest⟩ := List.mem_flatMap.mp hrequest
    have hsend : request = .send (.loadGcUnit fileId i) := by
      simp only at hrequest
      split at hrequest
      · simpa using hrequest
      · simpa using hrequest
      · simpa using hrequest
      · split at hrequest
        · simpa using hrequest
        · simp at hrequest
      · simp at hrequest
    rw [hsend]
    trivial
  · exact inputs.flatMap_processRelocation_input _ request hrequest

theorem loadNonHiddenSymbols_input {fileId : FileId} {obj : ObjectInput}
    (hfile : inputs.file? fileId = some (.object obj)) :
    ∀ request ∈ loadNonHiddenSymbols fileId obj, inputs.InputRequest request := by
  intro request hrequest
  obtain ⟨⟨symbol, i⟩, hsymbol, hrequest⟩ := List.mem_flatMap.mp hrequest
  have hget := List.mem_zipIdx_iff_getElem?.mp hsymbol
  simp only at hrequest
  split at hrequest
  · simp at hrequest
  · split at hrequest
    · obtain rfl := List.mem_singleton.mp hrequest
      simp only [InputRequest, objectSymbol?, hfile]
      exact Option.isSome_iff_exists.mpr ⟨symbol, hget⟩
    · simp at hrequest

theorem markDefsymsAsUsed_input {fileId : FileId} (symbols : List InternalSymbol)
    (hitems : ∀ i, inputs.symbolItems ⟨fileId, i⟩ = []) :
    ∀ request ∈ markDefsymsAsUsed fileId symbols, inputs.InputRequest request := by
  intro request hrequest
  obtain ⟨⟨symbol, i⟩, -, hrequest⟩ := List.mem_flatMap.mp hrequest
  simp only at hrequest
  split at hrequest
  · exact inputs.redirect_input (hitems i) _ request hrequest
  · simp at hrequest

theorem activateSymbols_input {fileId : FileId} (symbols : List InternalSymbol)
    (hitems : ∀ i, inputs.symbolItems ⟨fileId, i⟩ = []) :
    ∀ request ∈ activateSymbols fileId symbols, inputs.InputRequest request := by
  intro request hrequest
  obtain ⟨⟨symbol, i⟩, -, hrequest⟩ := List.mem_flatMap.mp hrequest
  simp only at hrequest
  split at hrequest
  · rcases List.mem_append.mp hrequest with hrequest | hrequest
    · exact inputs.redirect_input (hitems i) _ request hrequest
    · split at hrequest
      · obtain rfl := List.mem_singleton.mp hrequest
        exact hitems i
      · simp at hrequest
  · simp at hrequest

theorem requestAllUndefinedSymbols_input (fileId : FileId) (symbols : List DynamicSymbol) :
    ∀ request ∈ inputs.requestAllUndefinedSymbols fileId symbols, inputs.InputRequest request := by
  intro request hrequest
  obtain ⟨⟨symbol, i⟩, -, hrequest⟩ := List.mem_flatMap.mp hrequest
  simp only at hrequest
  split at hrequest
  · cases hundefined : symbol.undefinedError with
    | none => simp [hundefined] at hrequest
    | some error =>
        obtain rfl : request = .fail error := by simpa [hundefined] using hrequest
        trivial
  · split at hrequest
    · obtain rfl := List.mem_singleton.mp hrequest
      trivial
    · simp at hrequest

theorem activate_input {fileId : FileId} {file : FileInput} (hfile : inputs.file? fileId = some file) :
    ∀ request ∈ inputs.activate fileId file, inputs.InputRequest request := by
  intro request hrequest
  cases file with
  | object obj =>
      rcases List.mem_append.mp hrequest with hrequest | hrequest
      · exact inputs.activateSectionGc_input fileId obj request hrequest
      · split at hrequest
        · exact inputs.loadNonHiddenSymbols_input hfile request hrequest
        · simp at hrequest
  | prelude entry symbols =>
      rcases List.mem_append.mp hrequest with hrequest | hrequest
      · obtain ⟨symbol, -, rfl⟩ := Option.map_eq_some_iff.mp (Option.mem_toList.mp hrequest)
        trivial
      · exact inputs.markDefsymsAsUsed_input symbols
          (fun i => by simp only [symbolItems, hfile]) request hrequest
  | dynamic symbols => exact inputs.requestAllUndefinedSymbols_input fileId symbols request hrequest
  | linkerScript locationCounters symbols =>
      rcases List.mem_append.mp hrequest with hrequest | hrequest
      · obtain ⟨symbol, -, rfl⟩ := List.mem_map.mp hrequest
        trivial
      · exact inputs.activateSymbols_input symbols
          (fun i => by simp only [symbolItems, hfile]) request hrequest
  | syntheticSymbols sectionIds startStopSections => simp [activate] at hrequest
  | other => simp [activate] at hrequest

end GraphInputs

end JdxLinker
