import JdxLinker.Resolution.Tracking

/-!
# The files that are needed

The files that have to be loaded, by what they and the command line refer to: the least set that
contains the files that are not optional and is closed under references. While the versions of the
symbols in the chunks are those that the symbols have, these are the files that are activated.
-/

namespace JdxLinker.Resolution

open Activation

/-- The symbols that a definition by an expression mentions. -/
def InternalSymDefInfo.mentioned (defInfo : InternalSymDefInfo) : List Name :=
  match defInfo.placement with
  | .redirect expression => expression.symbols
  | _ => []

/-- The symbol itself, if it is undefined at the user's request. -/
def InternalSymDefInfo.forced (defInfo : InternalSymDefInfo) : List Name :=
  match defInfo.placement with
  | .forceUndefined => [defInfo.name]
  | _ => []

/-- The names that the entry, symbols that are forced to be undefined, and expressions require. -/
def Group.requiredNames (entrySymbolName : Option Name) : Group → List Name
  | prelude symbolDefinitions => entrySymbolName.toList ++
      symbolDefinitions.flatMap fun defInfo => defInfo.forced ++ defInfo.mentioned
  | linkerScripts scripts => scripts.flatten.flatMap InternalSymDefInfo.mentioned
  | _ => []

namespace ResolutionInputs

variable (inputs : ResolutionInputs)

/-- The names that the groups require whose symbols have not been resolved before. -/
def requiredNames : List Name :=
  (inputs.groups.drop inputs.preExistingGroups).flatMap
    (Group.requiredNames inputs.entrySymbolName)

/-- The definitions of a file, as the table is before. -/
def fileDefinitions (fileId : FileId) : List SymbolId :=
  (inputs.definitionsPerFile.find? fun file => decide (file.fileId = fileId)).elim [] fun file =>
    file.definitionsOut.map fun place => inputs.symbolDefinitions.getD place undefinedId

/-- A file that can be loaded, and has not been before. -/
def IsLoadable (fileId : FileId) : Prop :=
  ∃ file, inputs.file? fileId = some file ∧ file.isLoadable = true ∧
    (fileId.group < inputs.preExistingGroups → inputs.wasLoaded fileId = false)

/-- A file has an undefined symbol that is not weak, by its name, whether it may be defined by a
shared library, and whether the file is one. -/
inductive References (fileId : FileId) : PreHashedSymbolName → Bool → Bool → Prop
  | object {obj : SequencedInputObject} {index : Nat} {symbol : InputSymbol} {definition : SymbolId}
      {nameBytes : Name} {verneedTable : VerneedTable}
      (hfile : inputs.file? fileId = some (.object obj))
      (hresolved : IsResolved inputs.platform obj.toInputObject (inputs.fileDefinitions fileId) index
        symbol definition)
      (hweak : symbol.isWeak = false) (hname : symbol.name = .ok nameBytes)
      (hverneed : obj.verneedTable = .ok verneedTable) :
      References fileId
        (.fromRaw (inputs.platform.rawSymbolName nameBytes verneedTable index))
        symbol.isInterposable obj.isDynamic
  | ltoInput {obj : LtoInput} {index : Nat} {symbol : PluginSymbol}
      (hfile : inputs.file? fileId = some (.ltoInput obj))
      (hsymbol : obj.symbols[index]? = some symbol) (hdefinition : symbol.isDefinition = false)
      (hweak : symbol.isWeak = false) :
      References fileId (.fromRaw symbol.rawName) symbol.defaultVisibility false

/-- The least set of files that contains those that are not optional, and those of the definitions of
names that are required or that a file of the set refers to, unless a shared library refers to
another one. -/
inductive Needed : FileId → Prop
  | nonOptional {fileId : FileId} {file : InputFile} (hfile : inputs.file? fileId = some file)
      (hnew : inputs.preExistingGroups ≤ fileId.group) (hloadable : file.isLoadable = true)
      (hoptional : file.isOptional = false) : Needed fileId
  | name {name : Name} {symbolId : SymbolId} (hname : name ∈ inputs.requiredNames)
      (hget : inputs.db.getUnversioned name = some symbolId)
      (hloadable : inputs.IsLoadable (inputs.db.symbolFileIds symbolId)) :
      Needed (inputs.db.symbolFileIds symbolId)
  | reference {fileId : FileId} {key : PreHashedSymbolName} {allowDynamic isDynamic : Bool}
      {symbolId : SymbolId} (hneeded : Needed fileId)
      (hreferences : inputs.References fileId key allowDynamic isDynamic)
      (hget : inputs.db.get key allowDynamic = some symbolId)
      (hshared : ¬ (isDynamic = true ∧
        inputs.db.isDynamic (inputs.db.symbolFileIds symbolId) = true))
      (hloadable : inputs.IsLoadable (inputs.db.symbolFileIds symbolId)) :
      Needed (inputs.db.symbolFileIds symbolId)

/-- The versions of the symbols of a file that are looked up are those at their indices. -/
def VersionsAgreeIn (fileId : FileId) : Prop :=
  ∀ obj, inputs.file? fileId = some (.object obj) →
    VersionsAgree inputs.platform obj.toInputObject MAX_SYMBOLS_PER_WORK_ITEM
      (inputs.fileDefinitions fileId)

variable {inputs} {file : FileDefinitions} {fileId : FileId} {a : Action} {resolved : Resolved}

theorem fileDefinitions_eq (h : file ∈ inputs.definitionsPerFile) :
    inputs.fileDefinitions file.fileId
      = file.definitionsOut.map fun place => inputs.symbolDefinitions.getD place undefinedId := by
  unfold fileDefinitions
  cases hfind : inputs.definitionsPerFile.find? fun other => decide (other.fileId = file.fileId) with
  | none => simpa using List.find?_eq_none.mp hfind file h
  | some other =>
      have hid : other.fileId = file.fileId := by simpa using List.find?_some hfind
      rw [eq_of_fileId_eq (List.mem_of_find?_eq_some hfind) h hid]
      rfl

theorem isLoadable_iff (h : file ∈ inputs.definitionsPerFile) :
    inputs.IsLoadable file.fileId ↔ inputs.mayTake file = true ∨
      inputs.isRoot file = true ∧ file.file.isLoadable = true := by
  have hoptional : file.file.isOptional = true → file.file.isLoadable = true := by
    cases file.file <;> simp [InputFile.isOptional, InputFile.isLoadable]
  have hfile := file?_eq_some h
  unfold IsLoadable mayTake isRoot isNew
  rw [hfile]
  by_cases hnew : inputs.preExistingGroups ≤ file.fileId.group
  · simp only [Option.some.injEq, exists_eq_left', Nat.not_lt.mpr hnew, false_imp_iff, and_true, hnew,
      decide_true, if_true, Bool.true_and, Bool.not_eq_true']
    cases hopt : file.file.isOptional
    · simp
    · simp [hoptional hopt]
  · simp [hnew, Nat.not_le.mp hnew]

/-! ### What a step asks for -/

theorem request_resolveSymbol {db : SymbolDb} {localSymbolId definition : SymbolId}
    {attributes : SymbolAttributes} {isDynamic fromIr : Bool} {requested : FileId} :
    (resolveSymbol db localSymbolId attributes definition isDynamic fileId fromIr).request
        = some requested ↔
      attributes.isWeak = false ∧ ∃ symbolId,
        db.get (.fromRaw attributes.nameInfo) attributes.defaultVisibility = some symbolId ∧
        db.symbolFileIds symbolId = requested ∧ requested ≠ fileId ∧
        ¬ (isDynamic = true ∧ db.isDynamic requested = true) := by
  unfold resolveSymbol
  cases hget : db.get (.fromRaw attributes.nameInfo) attributes.defaultVisibility with
  | none => simp [hget]
  | some symbolId =>
      simp only [hget, Option.some.injEq, exists_eq_left']
      by_cases hother : db.symbolFileIds symbolId ≠ fileId ∧ attributes.isWeak = false
      · rw [if_pos hother]
        by_cases hshared : !isDynamic || !db.isDynamic (db.symbolFileIds symbolId)
        · rw [if_pos hshared]
          constructor
          · intro heq
            obtain rfl : db.symbolFileIds symbolId = requested := Option.some.inj heq
            refine ⟨hother.2, rfl, hother.1, fun hboth => ?_⟩
            rw [hboth.1, hboth.2] at hshared
            cases hshared
          · rintro ⟨-, rfl, -, -⟩
            rfl
        · rw [if_neg hshared]
          constructor
          · intro heq
            cases heq
          · rintro ⟨-, rfl, -, hnot⟩
            exact absurd (by simpa using hshared) hnot
      · rw [if_neg hother]
        have hnone : (if db.symbolFileIds symbolId ≠ PRELUDE_FILE_ID then
            ({ definition := symbolId
               undefined := some ⟨some (db.symbolFileIds symbolId), .fromRaw attributes.nameInfo,
                 localSymbolId⟩
               orAssigned := referenceFlags db localSymbolId attributes symbolId fromIr } : Resolved)
            else { definition := symbolId
                   orAssigned := referenceFlags db localSymbolId attributes symbolId fromIr }).request
            = none := by
          split <;> rfl
        rw [hnone]
        constructor
        · intro heq
          cases heq
        · rintro ⟨hweak, rfl, hne, -⟩
          exact absurd ⟨hne, hweak⟩ hother

/-! ### Names that are required -/

theorem request_of_name {name : Name} (h : a.name = some name) :
    ∃ resolved, inputs.runFirst a = .ok resolved ∧
      resolved.request = (inputs.db.getUnversioned name).map inputs.db.symbolFileIds := by
  cases a with
  | entrySymbol name' =>
      obtain rfl := Option.some.inj h
      refine ⟨_, rfl, ?_⟩
      change (loadSymbolNamed inputs.db undefinedId name').request = _
      unfold loadSymbolNamed
      cases inputs.db.getUnversioned name' <;> rfl
  | forceUndefined name' place =>
      obtain rfl := Option.some.inj h
      refine ⟨_, rfl, ?_⟩
      unfold loadSymbolNamed
      cases inputs.db.getUnversioned name' <;> rfl
  | redirectTarget name' =>
      obtain rfl := Option.some.inj h
      refine ⟨_, rfl, ?_⟩
      unfold loadRedirectTarget
      cases inputs.db.getUnversioned name' <;> rfl
  | objectSymbol => cases h
  | ltoSymbol => cases h
  | fail => cases h

theorem mem_requiredNames {name : Name} : name ∈ inputs.requiredNames ↔
    ∃ index group, inputs.preExistingGroups ≤ index ∧ inputs.groups[index]? = some group ∧
      name ∈ group.requiredNames inputs.entrySymbolName := by
  unfold requiredNames
  rw [List.mem_flatMap]
  constructor
  · rintro ⟨group, hgroup, hname⟩
    obtain ⟨i, hi⟩ := List.mem_iff_getElem?.mp hgroup
    rw [List.getElem?_drop] at hi
    exact ⟨_, group, Nat.le_add_right _ _, hi, hname⟩
  · rintro ⟨index, group, hnew, hgroup, hname⟩
    refine ⟨group, List.mem_iff_getElem?.mpr ⟨index - inputs.preExistingGroups, ?_⟩, hname⟩
    rw [List.getElem?_drop, Nat.add_sub_cancel' hnew, hgroup]

theorem filterMap_name_loadSymbolsInRedirect (expression : Script.Expression) :
    (loadSymbolsInRedirect expression).filterMap Action.name = expression.symbols := by
  unfold loadSymbolsInRedirect
  rw [List.filterMap_map]
  exact List.filterMap_some

theorem filterMap_name_loadScripts (symbolDefs : List InternalSymDefInfo) :
    (loadScripts symbolDefs).filterMap Action.name
      = symbolDefs.flatMap InternalSymDefInfo.mentioned := by
  unfold loadScripts
  rw [List.filterMap_flatMap]
  refine List.flatMap_congr fun defInfo _ => ?_
  unfold InternalSymDefInfo.mentioned
  cases defInfo.placement with
  | forceUndefined => rfl
  | redirect expression => exact filterMap_name_loadSymbolsInRedirect expression
  | other => rfl

theorem filterMap_name_loadPrelude {entrySymbolName : Option Name}
    {symbolDefinitions : List InternalSymDefInfo} {definitionsOut : List SymbolId}
    (hlength : definitionsOut.length = symbolDefinitions.length) :
    (loadPrelude entrySymbolName symbolDefinitions definitionsOut).filterMap Action.name
      = (Group.prelude symbolDefinitions).requiredNames entrySymbolName := by
  have hentry : (entrySymbolName.toList.map Action.entrySymbol).filterMap Action.name
      = entrySymbolName.toList := by
    cases entrySymbolName <;> rfl
  unfold loadPrelude Group.requiredNames
  rw [List.filterMap_append, hentry, List.append_cancel_left_eq]
  induction symbolDefinitions generalizing definitionsOut with
  | nil => rfl
  | cons defInfo symbolDefinitions ih =>
      cases definitionsOut with
      | nil => cases hlength
      | cons place definitionsOut =>
          rw [List.zip_cons_cons, List.flatMap_cons, List.flatMap_cons, List.filterMap_append,
            ih (Nat.succ.inj hlength), List.append_cancel_right_eq]
          unfold InternalSymDefInfo.forced InternalSymDefInfo.mentioned
          cases defInfo.placement with
          | forceUndefined => rfl
          | redirect expression => exact filterMap_name_loadSymbolsInRedirect expression
          | other => rfl

theorem exists_group (h : file ∈ inputs.definitionsPerFile) :
    ∃ group, inputs.groups[file.fileId.group]? = some group ∧
      group.files[file.fileId.file]? = some file.file :=
  Option.bind_eq_some_iff.mp (file?_eq_some h)

theorem filterMap_name_eq_nil (h : file ∈ inputs.definitionsPerFile)
    (hloadable : file.file.isLoadable = true) :
    (inputs.steps file).flatten.filterMap Action.name = [] := by
  refine List.filterMap_eq_nil_iff.mpr fun a ha => ?_
  cases hfile : file.file with
  | object obj =>
      cases hverneed : obj.verneedTable with
      | ok verneedTable =>
          rw [steps_object h hfile hverneed] at ha
          obtain ⟨index, symbol, place, -, -, rfl⟩ := Indexed.mem_map₂.mp ha
          rfl
      | error failure =>
          rw [steps_unreadable h hfile hverneed] at ha
          obtain ⟨item, -, rfl⟩ := List.mem_map.mp ha
          rfl
  | ltoInput obj =>
      rw [steps_ltoInput h hfile] at ha
      obtain ⟨index, symbol, place, -, -, rfl⟩ := Indexed.mem_map₂.mp ha
      rfl
  | prelude => simp [hfile, InputFile.isLoadable] at hloadable
  | stubLibrary => simp [hfile, InputFile.isLoadable] at hloadable
  | linkerScript => simp [hfile, InputFile.isLoadable] at hloadable
  | syntheticSymbols => simp [hfile, InputFile.isLoadable] at hloadable

theorem name_ne_none_of_redirect {expression : Script.Expression}
    (ha : a ∈ loadSymbolsInRedirect expression) : a.name ≠ none := by
  obtain ⟨name, -, rfl⟩ := List.mem_map.mp ha
  exact Option.some_ne_none name

/-- The steps of a file that cannot be loaded look up names only. -/
theorem name_ne_none (h : file ∈ inputs.definitionsPerFile) (hnot : file.file.isLoadable = false)
    (ha : a ∈ (inputs.steps file).flatten) : a.name ≠ none := by
  cases hfile : file.file with
  | prelude symbolDefinitions =>
      rw [steps_prelude h hfile] at ha
      rcases List.mem_append.mp ha with ha | ha
      · obtain ⟨name, -, rfl⟩ := List.mem_map.mp ha
        exact Option.some_ne_none name
      · obtain ⟨entry, -, ha⟩ := List.mem_flatMap.mp ha
        split at ha
        · rw [List.mem_singleton.mp ha]
          exact Option.some_ne_none _
        · exact name_ne_none_of_redirect ha
        · cases ha
  | linkerScript symbolDefs =>
      rw [steps_linkerScript h hfile] at ha
      obtain ⟨defInfo, -, ha⟩ := List.mem_flatMap.mp ha
      split at ha
      · exact name_ne_none_of_redirect ha
      · cases ha
  | stubLibrary n =>
      rw [steps_other (.inl ⟨n, hfile⟩)] at ha
      cases ha
  | syntheticSymbols n =>
      rw [steps_other (.inr ⟨n, hfile⟩)] at ha
      cases ha
  | object obj => simp [hfile, InputFile.isLoadable] at hnot
  | ltoInput obj => simp [hfile, InputFile.isLoadable] at hnot

/-- The names that the steps of a file look up for the entry, forced symbols and expressions are those
that its group requires. -/
theorem filterMap_name_steps (h : file ∈ inputs.definitionsPerFile) {group : Group}
    (hgroup : inputs.groups[file.fileId.group]? = some group)
    (hfiles : group.files[file.fileId.file]? = some file.file) :
    (inputs.steps file).flatten.filterMap Action.name
      = group.requiredNames inputs.entrySymbolName := by
  have hlength := length_definitionsOut h
  have hmem := List.mem_of_getElem? hfiles
  cases group with
  | prelude symbolDefinitions =>
      have hfile : file.file = .prelude symbolDefinitions := List.mem_singleton.mp hmem
      rw [hfile] at hlength
      rw [steps_prelude h hfile, filterMap_name_loadPrelude hlength]
  | linkerScripts scripts =>
      obtain ⟨symbolDefs, -, hfile⟩ := List.mem_map.mp hmem
      rw [steps_linkerScript h hfile.symm, hgroup, filterMap_name_loadScripts]
      rfl
  | objects parsed =>
      obtain ⟨obj, -, hfile⟩ := List.mem_map.mp hmem
      exact filterMap_name_eq_nil h (by rw [← hfile]; rfl)
  | ltoInputs lto =>
      obtain ⟨obj, -, hfile⟩ := List.mem_map.mp hmem
      exact filterMap_name_eq_nil h (by rw [← hfile]; rfl)
  | stubLibraries numSymbols =>
      obtain ⟨n, -, hfile⟩ := List.mem_map.mp hmem
      rw [steps_other (.inl ⟨n, hfile.symm⟩)]
      rfl
  | syntheticSymbols n =>
      rw [steps_other (.inr ⟨n, List.mem_singleton.mp hmem⟩)]
      rfl

theorem mem_initialWork : a ∈ inputs.initialWork.flatten ↔
    ∃ file ∈ inputs.rootFiles, a ∈ (inputs.steps file).flatten := by
  unfold initialWork
  rw [List.flatMap_def, List.flatten_flatten, List.map_map, ← List.flatMap_def, List.mem_flatMap]
  rfl

/-- The names that are required are looked up from the start. -/
theorem exists_initialWork_iff {name : Name} :
    (∃ a ∈ inputs.initialWork.flatten, a.name = some name) ↔ name ∈ inputs.requiredNames := by
  rw [mem_requiredNames]
  constructor
  · rintro ⟨a, ha, hname⟩
    obtain ⟨file, hfile, hstep⟩ := mem_initialWork.mp ha
    obtain ⟨hmem, hroot⟩ := mem_rootFiles.mp hfile
    obtain ⟨group, hgroup, hfiles⟩ := exists_group hmem
    have hnames := filterMap_name_steps hmem hgroup hfiles
    unfold isRoot isNew at hroot
    rw [Bool.and_eq_true, decide_eq_true_eq] at hroot
    exact ⟨file.fileId.group, group, hroot.1, hgroup,
      hnames ▸ List.mem_filterMap.mpr ⟨a, hstep, hname⟩⟩
  · rintro ⟨index, group, hnew, hgroup, hname⟩
    -- the group has a file that is processed from the start, of a kind that looks names up
    have hfirst : ∃ file, group.files[0]? = some file ∧ file.isOptional = false := by
      cases group with
      | prelude symbolDefinitions => exact ⟨_, rfl, rfl⟩
      | linkerScripts scripts =>
          cases scripts with
          | nil => cases hname
          | cons script scripts => exact ⟨_, rfl, rfl⟩
      | objects => cases hname
      | stubLibraries => cases hname
      | syntheticSymbols => cases hname
      | ltoInputs => cases hname
    obtain ⟨inputFile, hfirst, hoptional⟩ := hfirst
    have hfile? : inputs.file? ⟨index, 0⟩ = some inputFile := by
      unfold file?
      rw [hgroup]
      exact hfirst
    obtain ⟨file, hmem, hid, rfl⟩ := exists_mem_definitionsPerFile hfile?
    have hroot : file ∈ inputs.rootFiles := by
      refine mem_rootFiles.mpr ⟨hmem, ?_⟩
      unfold isRoot isNew
      rw [hid, hoptional, decide_eq_true hnew]
      rfl
    have hnames := filterMap_name_steps hmem (by rw [hid]; exact hgroup)
      (by rw [hid]; exact hfirst)
    rw [← hnames] at hname
    obtain ⟨a, ha, hname⟩ := List.mem_filterMap.mp hname
    exact ⟨a, mem_initialWork.mpr ⟨file, hroot, ha⟩, hname⟩

/-! ### References -/

theorem runFirst_objectSymbol {obj : InputObject} {verneedTable : VerneedTable} {index : Nat}
    {symbol : InputSymbol} {place : SymbolId} :
    inputs.runFirst (.objectSymbol obj verneedTable (index - index % MAX_SYMBOLS_PER_WORK_ITEM)
        (index % MAX_SYMBOLS_PER_WORK_ITEM) symbol place)
      = resolveInChunk inputs.platform inputs.db obj verneedTable MAX_SYMBOLS_PER_WORK_ITEM index
        symbol (inputs.symbolDefinitions.getD place undefinedId) := rfl

theorem runFirst_ltoSymbol {obj : LtoInput} {index : Nat} {symbol : PluginSymbol}
    {place : SymbolId} :
    inputs.runFirst (.ltoSymbol obj index symbol place)
      = .ok (resolveLtoSymbol inputs.db obj index symbol
        (inputs.symbolDefinitions.getD place undefinedId)) := rfl

/-- The symbols of an object that are looked up, by the steps that do so. -/
theorem isResolved_iff (h : file ∈ inputs.definitionsPerFile) {obj : SequencedInputObject}
    {index : Nat} {symbol : InputSymbol} {definition : SymbolId} :
    IsResolved inputs.platform obj.toInputObject (inputs.fileDefinitions file.fileId) index symbol
        definition ↔
      ∃ place, obj.symbols[index]? = some symbol ∧ file.definitionsOut[index]? = some place ∧
        definition = inputs.symbolDefinitions.getD place undefinedId ∧
        isSkipped inputs.platform obj.toInputObject index symbol definition = false := by
  constructor
  · rintro ⟨hsymbol, hdefinition, hskipped⟩
    rw [fileDefinitions_eq h, List.getElem?_map, Option.map_eq_some_iff] at hdefinition
    obtain ⟨place, hplace, hdefinition⟩ := hdefinition
    exact ⟨place, hsymbol, hplace, hdefinition.symm, hskipped⟩
  · rintro ⟨place, hsymbol, hplace, rfl, hskipped⟩
    refine ⟨hsymbol, ?_, hskipped⟩
    rw [fileDefinitions_eq h, List.getElem?_map, hplace]
    rfl

theorem mem_steps_object (h : file ∈ inputs.definitionsPerFile) {obj : SequencedInputObject}
    {verneedTable : VerneedTable} (hfile : file.file = .object obj)
    (hverneed : obj.verneedTable = .ok verneedTable) :
    a ∈ (inputs.steps file).flatten ↔ ∃ (index : Nat) (symbol : InputSymbol) (place : SymbolId),
      obj.symbols[index]? = some symbol ∧ file.definitionsOut[index]? = some place ∧
      a = .objectSymbol obj.toInputObject verneedTable (index - index % MAX_SYMBOLS_PER_WORK_ITEM)
        (index % MAX_SYMBOLS_PER_WORK_ITEM) symbol place := by
  rw [steps_object h hfile hverneed, Indexed.mem_map₂]
  simp only [Nat.zero_add]

/-- Where no step fails, the symbols that are looked up have the names at their indices. -/
theorem name_eq (h : file ∈ inputs.definitionsPerFile) {obj : SequencedInputObject}
    {verneedTable : VerneedTable} (hfile : file.file = .object obj)
    (hverneed : obj.verneedTable = .ok verneedTable)
    (hok : ∀ a ∈ (inputs.steps file).flatten, ∃ resolved, inputs.runFirst a = .ok resolved)
    (hversions : inputs.VersionsAgreeIn file.fileId) {index : Nat} {symbol : InputSymbol}
    {definition : SymbolId}
    (hresolved : IsResolved inputs.platform obj.toInputObject (inputs.fileDefinitions file.fileId)
      index symbol definition) :
    ∃ nameBytes, symbol.name = .ok nameBytes ∧
      PreHashedSymbolName.fromRaw (inputs.platform.rawSymbolName nameBytes verneedTable
          (index % MAX_SYMBOLS_PER_WORK_ITEM))
        = PreHashedSymbolName.fromRaw (inputs.platform.rawSymbolName nameBytes verneedTable
          index) := by
  have hreadable : ∀ index symbol definition,
      IsResolved inputs.platform obj.toInputObject (inputs.fileDefinitions file.fileId) index symbol
        definition → ∃ nameBytes, symbol.name = .ok nameBytes := by
    intro index symbol definition hresolved
    obtain ⟨place, hsymbol, hplace, rfl, hskipped⟩ := (isResolved_iff h).mp hresolved
    obtain ⟨resolved, hrun⟩ := hok _ ((mem_steps_object h hfile hverneed).mpr
      ⟨index, symbol, place, hsymbol, hplace, rfl⟩)
    cases hname : symbol.name with
    | ok nameBytes => exact ⟨nameBytes, rfl⟩
    | error failure =>
        rw [runFirst_objectSymbol, resolveInChunk_eq_error.mpr ⟨hskipped, hname⟩] at hrun
        cases hrun
  obtain ⟨nameBytes, hname⟩ := hreadable index symbol definition hresolved
  have hfile? := file?_eq_some h
  rw [hfile] at hfile?
  exact ⟨nameBytes, hname, hversions obj hfile? verneedTable hverneed hreadable index symbol
    definition nameBytes hresolved hname⟩

/-- A step that looks up a symbol of a file asks for the file of a definition that the file refers
to. -/
theorem reference_of_request (h : file ∈ inputs.definitionsPerFile)
    (hok : ∀ a ∈ (inputs.steps file).flatten, ∃ resolved, inputs.runFirst a = .ok resolved)
    (hversions : inputs.VersionsAgreeIn file.fileId) (ha : a ∈ (inputs.steps file).flatten)
    (hname : a.name = none) (hrequest : inputs.rules.request a = some fileId) :
    ∃ key allowDynamic isDynamic symbolId,
      inputs.References file.fileId key allowDynamic isDynamic ∧
        inputs.db.get key allowDynamic = some symbolId ∧
        inputs.db.symbolFileIds symbolId = fileId ∧
        ¬ (isDynamic = true ∧ inputs.db.isDynamic fileId = true) := by
  obtain ⟨resolved, hrun⟩ := hok a ha
  rw [request_eq hrun] at hrequest
  have hfile? := file?_eq_some h
  cases hfile : file.file with
  | object obj =>
      rw [hfile] at hfile?
      cases hverneed : obj.verneedTable with
      | error failure =>
          rw [steps_unreadable h hfile hverneed] at ha
          obtain ⟨item, -, rfl⟩ := List.mem_map.mp ha
          cases hrun
      | ok verneedTable =>
          obtain ⟨index, symbol, place, hsymbol, hplace, rfl⟩ :=
            (mem_steps_object h hfile hverneed).mp ha
          rw [runFirst_objectSymbol] at hrun
          cases hskipped : isSkipped inputs.platform obj.toInputObject index symbol
              (inputs.symbolDefinitions.getD place undefinedId) with
          | true =>
              rw [resolveInChunk_skipped hskipped] at hrun
              obtain rfl := Except.ok.inj hrun
              cases hrequest
          | false =>
              have hresolved := (isResolved_iff h).mpr ⟨place, hsymbol, hplace, rfl, hskipped⟩
              obtain ⟨nameBytes, hname, hkey⟩ := name_eq h hfile hverneed hok hversions hresolved
              rw [resolveInChunk_ok hskipped hname] at hrun
              obtain rfl := Except.ok.inj hrun
              obtain ⟨hweak, symbolId, hget, hid, -, hshared⟩ := request_resolveSymbol.mp hrequest
              rw [hkey] at hget
              exact ⟨_, _, _, symbolId, .object hfile? hresolved hweak hname hverneed, hget, hid,
                hshared⟩
  | ltoInput obj =>
      rw [hfile] at hfile?
      rw [steps_ltoInput h hfile] at ha
      obtain ⟨index, symbol, place, hsymbol, -, rfl⟩ := Indexed.mem_map₂.mp ha
      rw [runFirst_ltoSymbol] at hrun
      obtain rfl := Except.ok.inj hrun
      unfold resolveLtoSymbol at hrequest
      cases hdefinition : symbol.isDefinition with
      | true =>
          rw [hdefinition] at hrequest
          cases hrequest
      | false =>
          rw [hdefinition] at hrequest
          obtain ⟨hweak, symbolId, hget, hid, -, hshared⟩ := request_resolveSymbol.mp hrequest
          exact ⟨_, _, _, symbolId, .ltoInput hfile? hsymbol hdefinition hweak, hget, hid, hshared⟩
  | prelude symbolDefinitions => exact absurd hname (name_ne_none h (by rw [hfile]; rfl) ha)
  | stubLibrary n => exact absurd hname (name_ne_none h (by rw [hfile]; rfl) ha)
  | linkerScript symbolDefs => exact absurd hname (name_ne_none h (by rw [hfile]; rfl) ha)
  | syntheticSymbols n => exact absurd hname (name_ne_none h (by rw [hfile]; rfl) ha)

/-- A reference of a file to a definition in another one is looked up by one of its steps. -/
theorem exists_request (h : file ∈ inputs.definitionsPerFile)
    (hok : ∀ a ∈ (inputs.steps file).flatten, ∃ resolved, inputs.runFirst a = .ok resolved)
    (hversions : inputs.VersionsAgreeIn file.fileId) {key : PreHashedSymbolName}
    {allowDynamic isDynamic : Bool} {symbolId : SymbolId}
    (hreferences : inputs.References file.fileId key allowDynamic isDynamic)
    (hget : inputs.db.get key allowDynamic = some symbolId)
    (hother : inputs.db.symbolFileIds symbolId ≠ file.fileId)
    (hshared : ¬ (isDynamic = true ∧
      inputs.db.isDynamic (inputs.db.symbolFileIds symbolId) = true)) :
    ∃ a ∈ (inputs.steps file).flatten,
      inputs.rules.request a = some (inputs.db.symbolFileIds symbolId) := by
  have hfile? := file?_eq_some h
  cases hreferences with
  | @object obj index symbol definition nameBytes verneedTable hobject hresolved hweak hname
      hverneed =>
      rw [hfile?] at hobject
      have hfile := Option.some.inj hobject
      obtain ⟨place, hsymbol, hplace, rfl, hskipped⟩ := (isResolved_iff h).mp hresolved
      obtain ⟨nameBytes', hname', hkey⟩ := name_eq h hfile hverneed hok hversions hresolved
      rw [hname] at hname'
      obtain rfl := Except.ok.inj hname'
      rw [← hkey] at hget
      refine ⟨_, (mem_steps_object h hfile hverneed).mpr
        ⟨index, symbol, place, hsymbol, hplace, rfl⟩, ?_⟩
      have hid := inputs.object_fileId file.fileId obj (hfile ▸ mem_numberedFiles_of_mem h)
      rw [request_eq (runFirst_objectSymbol.trans (resolveInChunk_ok hskipped hname)),
        request_resolveSymbol]
      exact ⟨hweak, symbolId, hget, rfl, hid ▸ hother, hshared⟩
  | @ltoInput obj index symbol hobject hsymbol hdefinition hweak =>
      rw [hfile?] at hobject
      have hfile := Option.some.inj hobject
      have hlength := length_definitionsOut h
      rw [hfile] at hlength
      have hlt : index < file.definitionsOut.length := by
        rw [hlength]
        exact (List.getElem?_eq_some_iff.mp hsymbol).1
      refine ⟨.ltoSymbol obj index symbol file.definitionsOut[index], ?_, ?_⟩
      · rw [steps_ltoInput h hfile, Indexed.mem_map₂]
        exact ⟨index, symbol, _, hsymbol, List.getElem?_eq_getElem hlt, by rw [Nat.zero_add]⟩
      · have hid := inputs.ltoInput_fileId file.fileId obj (hfile ▸ mem_numberedFiles_of_mem h)
        rw [request_eq runFirst_ltoSymbol]
        unfold resolveLtoSymbol
        rw [hdefinition, if_neg Bool.false_ne_true, request_resolveSymbol]
        exact ⟨hweak, symbolId, hget, rfl, hid ▸ hother, hshared⟩

end ResolutionInputs

end JdxLinker.Resolution
