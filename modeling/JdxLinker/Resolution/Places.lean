import JdxLinker.Resolution.Selection
import JdxLinker.Resolution.WorkItems

/-!
# The places that steps write

The definitions of different files are apart in the table, and so are those of the work items of one
file. Hence no two steps of files that are processed once write the same place.
-/

namespace JdxLinker.Resolution

open Indexed

/-! ### The files and their definitions -/

theorem mem_numberedFiles {groups : List Group} {fileId : FileId} {file : InputFile} :
    (fileId, file) ∈ numberedFiles groups ↔
      (groups[fileId.group]?.bind fun group => group.files[fileId.file]?) = some file := by
  simp only [numberedFiles, List.mem_flatMap, List.mem_map, Prod.mk.injEq, Prod.exists,
    List.mem_zipIdx_iff_getElem?, Option.bind_eq_some_iff]
  constructor
  · rintro ⟨group, g, hgroup, _, f, hfile, rfl, rfl⟩
    exact ⟨group, hgroup, hfile⟩
  · rintro ⟨group, hgroup, hfile⟩
    exact ⟨group, fileId.group, hgroup, file, fileId.file, hfile, rfl, rfl⟩

theorem numberedFiles_nodup (groups : List Group) :
    ((numberedFiles groups).map Prod.fst).Nodup := by
  have hids : (numberedFiles groups).map Prod.fst = groups.zipIdx.flatMap fun numbered =>
      (List.range numbered.1.files.length).map fun file => (⟨numbered.2, file⟩ : FileId) := by
    unfold numberedFiles
    rw [List.map_flatMap]
    refine List.flatMap_congr fun numbered _ => ?_
    rw [List.map_map, List.range_eq_range', ← List.zipIdx_map_snd 0 numbered.1.files, List.map_map]
    rfl
  rw [hids, List.nodup_flatMap]
  refine ⟨fun numbered _ => ?_, ?_⟩
  · refine List.nodup_range.map fun file file' heq => ?_
    exact congrArg FileId.file heq
  · have hsnd : groups.zipIdx.Pairwise fun numbered numbered' => numbered.2 ≠ numbered'.2 := by
      rw [← List.pairwise_map, List.zipIdx_map_snd]
      exact List.nodup_range'
    refine hsnd.imp fun hne => ?_
    intro fileId hmem hmem'
    obtain ⟨file, -, rfl⟩ := List.mem_map.mp hmem
    obtain ⟨file', -, heq⟩ := List.mem_map.mp hmem'
    exact hne (congrArg FileId.group heq).symm

theorem splitDefinitions_files (files : List (FileId × InputFile)) (definitions : List SymbolId) :
    (splitDefinitions files definitions).map (fun file => (file.fileId, file.file)) = files := by
  induction files generalizing definitions with
  | nil => rfl
  | cons file files ih => exact congrArg (file :: ·) (ih _)

theorem splitDefinitions_sublist (files : List (FileId × InputFile))
    (definitions : List SymbolId) :
    ((splitDefinitions files definitions).flatMap FileDefinitions.definitionsOut).Sublist
      definitions := by
  induction files generalizing definitions with
  | nil => exact List.nil_sublist _
  | cons file files ih =>
      have happend := (List.Sublist.refl (definitions.take file.2.numSymbols)).append
        (ih (definitions.drop file.2.numSymbols))
      rw [List.take_append_drop] at happend
      exact happend

theorem splitDefinitions_length {files : List (FileId × InputFile)} {definitions : List SymbolId}
    (h : (files.map fun file => file.2.numSymbols).sum ≤ definitions.length) :
    ∀ file ∈ splitDefinitions files definitions,
      file.definitionsOut.length = file.file.numSymbols := by
  induction files generalizing definitions with
  | nil => intro file hfile; cases hfile
  | cons first files ih =>
      rw [List.map_cons, List.sum_cons] at h
      intro file hfile
      rcases List.mem_cons.mp hfile with rfl | hfile
      · exact List.length_take_of_le (by omega)
      · exact ih (by rw [List.length_drop]; omega) file hfile

namespace ResolutionInputs

variable {inputs : ResolutionInputs} {file file' : FileDefinitions} {fileId : FileId}

theorem file?_eq_some (h : file ∈ inputs.definitionsPerFile) :
    inputs.file? file.fileId = some file.file := by
  have hmem := List.mem_map_of_mem (f := fun file => (file.fileId, file.file)) h
  unfold definitionsPerFile at hmem
  rw [splitDefinitions_files] at hmem
  exact mem_numberedFiles.mp hmem

theorem mem_numberedFiles_of_mem (h : file ∈ inputs.definitionsPerFile) :
    (file.fileId, file.file) ∈ numberedFiles inputs.groups :=
  mem_numberedFiles.mpr (file?_eq_some h)

theorem exists_mem_definitionsPerFile {inputFile : InputFile}
    (h : inputs.file? fileId = some inputFile) :
    ∃ file ∈ inputs.definitionsPerFile, file.fileId = fileId ∧ file.file = inputFile := by
  have hmem := mem_numberedFiles.mpr h
  rw [← splitDefinitions_files (numberedFiles inputs.groups)
    (List.range inputs.symbolDefinitions.length)] at hmem
  obtain ⟨file, hfile, heq⟩ := List.mem_map.mp hmem
  exact ⟨file, hfile, congrArg Prod.fst heq, congrArg Prod.snd heq⟩

theorem fileIds_nodup (inputs : ResolutionInputs) :
    (inputs.definitionsPerFile.map FileDefinitions.fileId).Nodup := by
  have hfiles := congrArg (List.map Prod.fst) (splitDefinitions_files (numberedFiles inputs.groups)
    (List.range inputs.symbolDefinitions.length))
  rw [List.map_map] at hfiles
  exact hfiles ▸ numberedFiles_nodup inputs.groups

theorem eq_of_fileId_eq (h : file ∈ inputs.definitionsPerFile)
    (h' : file' ∈ inputs.definitionsPerFile) (heq : file.fileId = file'.fileId) : file = file' :=
  List.inj_on_of_nodup_map inputs.fileIds_nodup h h' heq

theorem length_definitionsOut (h : file ∈ inputs.definitionsPerFile) :
    file.definitionsOut.length = file.file.numSymbols := by
  refine splitDefinitions_length ?_ file h
  rw [List.length_range, inputs.length_symbolDefinitions]
  rfl

theorem optionalFile_eq_some : inputs.optionalFile fileId = some file ↔
    file ∈ inputs.definitionsPerFile ∧ file.fileId = fileId ∧ inputs.mayTake file = true := by
  constructor
  · intro h
    have hfound := List.find?_some h
    rw [Bool.and_eq_true, decide_eq_true_eq] at hfound
    exact ⟨List.mem_of_find?_eq_some h, hfound⟩
  · rintro ⟨hmem, hid, hmay⟩
    cases h : inputs.optionalFile fileId with
    | none =>
        have hnone := List.find?_eq_none.mp h file hmem
        rw [hmay, hid] at hnone
        simp at hnone
    | some file' =>
        have hfound := List.find?_some h
        rw [Bool.and_eq_true, decide_eq_true_eq] at hfound
        rw [eq_of_fileId_eq hmem (List.mem_of_find?_eq_some h) (hid.trans hfound.1.symm)]

end ResolutionInputs

/-! ### The steps of a file -/

section WorkItems

variable {chunkSize fuel start : Nat} {fileId : FileId} {definitions : List SymbolId}

theorem fileId_of_mem_workItems {item : LoadObjectSymbolsRequest}
    (h : item ∈ workItems chunkSize fileId fuel start definitions) : item.fileId = fileId := by
  induction fuel generalizing start definitions with
  | zero => cases h
  | succ fuel ih =>
      rw [workItems] at h
      rcases List.mem_cons.mp h with rfl | h
      · rfl
      · split at h
        · cases h
        · exact ih h

/-- All chunks together go through the symbols once. -/
theorem workItems_flatMap {α γ : Type} (f : Nat → Nat → α → SymbolId → γ) (symbols : List α)
    (hchunk : 0 < chunkSize) (hstart : chunkSize ∣ start) (hfuel : definitions.length < fuel) :
    (workItems chunkSize fileId fuel start definitions).flatMap (fun item =>
        map₂ (f item.symbolStartOffset) 0 (symbols.drop item.symbolStartOffset) item.definitionsOut)
      = map₂ (fun index => f (index - index % chunkSize) (index % chunkSize)) start
        (symbols.drop start) definitions := by
  have hchunk_eq : ∀ {start : Nat} {definitions : List SymbolId}, chunkSize ∣ start →
      definitions.length ≤ chunkSize →
      map₂ (f start) 0 (symbols.drop start) definitions
        = map₂ (fun index => f (index - index % chunkSize) (index % chunkSize)) start
          (symbols.drop start) definitions := by
    intro start definitions hstart hlength
    have hshift := map₂_shift (fun index => f (index - index % chunkSize) (index % chunkSize)) 0
      start (symbols.drop start) definitions
    rw [Nat.zero_add] at hshift
    rw [hshift]
    refine map₂_congr fun i _ _ _ hdefinition => ?_
    have hi : i < chunkSize := (List.getElem?_eq_some_iff.mp hdefinition).1.trans_le hlength
    have hmod : (0 + i + start) % chunkSize = i := by
      obtain ⟨n, rfl⟩ := hstart
      rw [Nat.zero_add, Nat.add_mul_mod_self_left, Nat.mod_eq_of_lt hi]
    rw [hmod, Nat.zero_add, Nat.add_sub_cancel_left]
  induction fuel generalizing start definitions with
  | zero => exact absurd hfuel (Nat.not_lt_zero _)
  | succ fuel ih =>
      rcases Nat.lt_or_ge chunkSize definitions.length with hlength | hlength
      · -- the chunk is full, and there is a rest
        have htake : (definitions.take chunkSize).length = chunkSize := by
          rw [List.length_take]
          omega
        have hrest : (definitions.drop chunkSize).isEmpty = false := by
          rw [List.isEmpty_eq_false_iff]
          exact List.ne_nil_of_length_pos (by rw [List.length_drop]; omega)
        have htail := ih (Nat.dvd_add hstart (Nat.dvd_refl chunkSize))
          (by rw [List.length_drop]; omega : (definitions.drop chunkSize).length < fuel)
        have happend := map₂_append (fun index => f (index - index % chunkSize) (index % chunkSize))
          start (symbols.drop start) (definitions.take chunkSize) (definitions.drop chunkSize)
        rw [List.take_append_drop, htake, List.drop_drop, ← htail] at happend
        rw [workItems, Nat.min_eq_left hlength.le, hrest, List.flatMap_cons, happend,
          ← hchunk_eq hstart htake.le]
        rfl
      · -- the last chunk
        rw [workItems, Nat.min_eq_right hlength, List.take_length, List.drop_length,
          ← hchunk_eq hstart hlength]
        simp

end WorkItems

namespace ResolutionInputs

variable {inputs : ResolutionInputs} {file : FileDefinitions}

theorem workItems_fileId {item : LoadObjectSymbolsRequest} (h : item ∈ file.workItems) :
    item.fileId = file.fileId := by
  unfold FileDefinitions.workItems workItemsDo at h
  split at h
  · exact fileId_of_mem_workItems h
  · exact fileId_of_mem_workItems h
  · rw [List.mem_singleton.mp h]
  · rw [List.mem_singleton.mp h]
  · cases h
  · cases h

theorem steps_object {obj : SequencedInputObject} {verneedTable : VerneedTable}
    (h : file ∈ inputs.definitionsPerFile) (hfile : file.file = .object obj)
    (hverneed : obj.verneedTable = .ok verneedTable) :
    (inputs.steps file).flatten
      = map₂ (fun index => Action.objectSymbol obj.toInputObject verneedTable
          (index - index % MAX_SYMBOLS_PER_WORK_ITEM) (index % MAX_SYMBOLS_PER_WORK_ITEM))
        0 obj.symbols file.definitionsOut := by
  have hitems : (inputs.steps file).flatten
      = file.workItems.flatMap fun item => map₂
          (Action.objectSymbol obj.toInputObject verneedTable item.symbolStartOffset) 0
          (obj.symbols.drop item.symbolStartOffset) item.definitionsOut := by
    unfold steps
    rw [← List.flatMap_def]
    refine List.flatMap_congr fun item hitem => ?_
    have hfile? := file?_eq_some h
    rw [hfile] at hfile?
    unfold processObject
    rw [workItems_fileId hitem, hfile?]
    unfold objectSymbols
    simp only [hverneed]
  have hwork : file.workItems
      = workItemsDo MAX_SYMBOLS_PER_WORK_ITEM file.fileId file.definitionsOut := by
    unfold FileDefinitions.workItems
    rw [hfile]
  rw [hitems, hwork, workItemsDo, workItems_flatMap _ _ (by decide) (Nat.dvd_zero _)
    (Nat.lt_succ_self _), List.drop_zero]

theorem steps_unreadable {obj : SequencedInputObject} {failure : Failure}
    (h : file ∈ inputs.definitionsPerFile) (hfile : file.file = .object obj)
    (hverneed : obj.verneedTable = .error failure) :
    (inputs.steps file).flatten = file.workItems.map fun _ => .fail failure := by
  have hfile? := file?_eq_some h
  rw [hfile] at hfile?
  have hitems : ∀ item ∈ file.workItems, inputs.processObject item = [.fail failure] := by
    intro item hitem
    unfold processObject
    rw [workItems_fileId hitem, hfile?]
    unfold objectSymbols
    simp only [hverneed]
  unfold steps
  rw [← List.flatMap_def, List.flatMap_congr hitems, List.map_eq_flatMap]

theorem steps_ltoInput {obj : LtoInput} (h : file ∈ inputs.definitionsPerFile)
    (hfile : file.file = .ltoInput obj) :
    (inputs.steps file).flatten = map₂ (Action.ltoSymbol obj) 0 obj.symbols file.definitionsOut := by
  have hfile? := file?_eq_some h
  rw [hfile] at hfile?
  unfold steps FileDefinitions.workItems
  rw [hfile]
  simp only [List.map_singleton, List.flatten_singleton]
  unfold processObject
  rw [hfile?]
  rfl

theorem steps_linkerScript {symbolDefs : List InternalSymDefInfo}
    (h : file ∈ inputs.definitionsPerFile) (hfile : file.file = .linkerScript symbolDefs) :
    (inputs.steps file).flatten
      = loadScripts (((inputs.groups[file.fileId.group]?).map Group.scriptDefinitions).getD []) := by
  have hfile? := file?_eq_some h
  rw [hfile] at hfile?
  unfold steps FileDefinitions.workItems
  rw [hfile]
  simp only [List.map_singleton, List.flatten_singleton]
  unfold processObject
  rw [hfile?]

theorem steps_prelude {symbolDefinitions : List InternalSymDefInfo}
    (h : file ∈ inputs.definitionsPerFile) (hfile : file.file = .prelude symbolDefinitions) :
    (inputs.steps file).flatten
      = loadPrelude inputs.entrySymbolName symbolDefinitions file.definitionsOut := by
  have hfile? := file?_eq_some h
  rw [hfile] at hfile?
  have hwork : file.workItems = [⟨file.fileId, 0, file.definitionsOut⟩] := by
    unfold FileDefinitions.workItems
    rw [hfile]
    simp only [workItemsDo, workItems, Nat.min_self, List.take_length, List.drop_length,
      List.isEmpty_nil, if_true]
  unfold steps
  rw [hwork, List.map_singleton, List.flatten_singleton]
  unfold processObject
  rw [hfile?]

theorem steps_other (hfile : (∃ n, file.file = .stubLibrary n) ∨ ∃ n, file.file = .syntheticSymbols n) :
    inputs.steps file = [] := by
  unfold steps FileDefinitions.workItems
  rcases hfile with ⟨n, hfile⟩ | ⟨n, hfile⟩
  · rw [hfile]
    rfl
  · rw [hfile]
    rfl

/-! ### Where they write -/

theorem filterMap_place_loadSymbolsInRedirect (expression : Script.Expression) :
    (loadSymbolsInRedirect expression).filterMap Action.place = [] := by
  rw [List.filterMap_eq_nil_iff]
  intro a ha
  obtain ⟨name, -, rfl⟩ := List.mem_map.mp ha
  rfl

theorem filterMap_place_loadScripts (symbolDefs : List InternalSymDefInfo) :
    (loadScripts symbolDefs).filterMap Action.place = [] := by
  unfold loadScripts
  rw [List.filterMap_flatMap, List.flatMap_eq_nil_iff]
  intro defInfo _
  split
  · exact filterMap_place_loadSymbolsInRedirect _
  · rfl

theorem filterMap_place_loadPrelude (entrySymbolName : Option Name)
    (symbolDefinitions : List InternalSymDefInfo) (definitionsOut : List SymbolId) :
    ((loadPrelude entrySymbolName symbolDefinitions definitionsOut).filterMap Action.place).Sublist
      definitionsOut := by
  have hentry : (entrySymbolName.toList.map Action.entrySymbol).filterMap Action.place = [] := by
    cases entrySymbolName <;> rfl
  unfold loadPrelude
  rw [List.filterMap_append, hentry, List.nil_append]
  induction symbolDefinitions generalizing definitionsOut with
  | nil => exact List.nil_sublist _
  | cons defInfo symbolDefinitions ih =>
      cases definitionsOut with
      | nil => exact List.nil_sublist _
      | cons place definitionsOut =>
          rw [List.zip_cons_cons, List.flatMap_cons, List.filterMap_append]
          change List.Sublist _ ([place] ++ definitionsOut)
          refine List.Sublist.append ?_ (ih definitionsOut)
          split
          · exact List.Sublist.refl _
          · rw [filterMap_place_loadSymbolsInRedirect]
            exact List.nil_sublist _
          · exact List.nil_sublist _

/-- The steps of a file write definitions of that file, each place at most once. -/
theorem filterMap_place_steps (h : file ∈ inputs.definitionsPerFile) :
    ((inputs.steps file).flatten.filterMap Action.place).Sublist file.definitionsOut := by
  cases hfile : file.file with
  | prelude symbolDefinitions =>
      rw [steps_prelude h hfile]
      exact filterMap_place_loadPrelude _ _ _
  | object obj =>
      cases hverneed : obj.verneedTable with
      | ok verneedTable =>
          rw [steps_object h hfile hverneed, 
            filterMap_map₂ (g := Action.place) (h := fun _ _ place => place) fun _ _ _ => rfl,
            map₂_right]
          exact List.take_sublist _ _
      | error failure =>
          have hnone : (inputs.steps file).flatten.filterMap Action.place = [] := by
            rw [steps_unreadable h hfile hverneed, List.filterMap_map, List.filterMap_eq_nil_iff]
            exact fun _ _ => rfl
          rw [hnone]
          exact List.nil_sublist _
  | stubLibrary n =>
      rw [steps_other (.inl ⟨n, hfile⟩)]
      exact List.nil_sublist _
  | linkerScript symbolDefs =>
      rw [steps_linkerScript h hfile, filterMap_place_loadScripts]
      exact List.nil_sublist _
  | syntheticSymbols n =>
      rw [steps_other (.inr ⟨n, hfile⟩)]
      exact List.nil_sublist _
  | ltoInput obj =>
      rw [steps_ltoInput h hfile, 
            filterMap_map₂ (g := Action.place) (h := fun _ _ place => place) fun _ _ _ => rfl,
            map₂_right]
      exact List.take_sublist _ _

/-- The symbols of a file that is loaded, unless they cannot be read at all. -/
theorem filterMap_symbol_steps (h : file ∈ inputs.definitionsPerFile)
    (hreadable : ∀ a ∈ (inputs.steps file).flatten, ∀ failure, a ≠ .fail failure) :
    (inputs.steps file).flatten.filterMap Action.symbol
      = if file.file.isLoadable then
          (List.range file.file.numSymbols).map fun index => (file.fileId, index)
        else [] := by
  have hlength := length_definitionsOut h
  cases hfile : file.file with
  | prelude symbolDefinitions =>
      rw [steps_prelude h hfile, if_neg (by simp [InputFile.isLoadable]), List.filterMap_eq_nil_iff]
      intro a ha
      rcases List.mem_append.mp ha with ha | ha
      · obtain ⟨name, -, rfl⟩ := List.mem_map.mp ha
        rfl
      · obtain ⟨entry, -, ha⟩ := List.mem_flatMap.mp ha
        split at ha
        · rw [List.mem_singleton.mp ha]
          rfl
        · obtain ⟨name, -, rfl⟩ := List.mem_map.mp ha
          rfl
        · cases ha
  | object obj =>
      rw [hfile] at hlength
      have hid := inputs.object_fileId file.fileId obj (hfile ▸ mem_numberedFiles_of_mem h)
      cases hverneed : obj.verneedTable with
      | ok verneedTable =>
          have hsymbol : ∀ (index : Nat) (symbol : InputSymbol) (place : SymbolId),
              (Action.objectSymbol obj.toInputObject verneedTable
                (index - index % MAX_SYMBOLS_PER_WORK_ITEM) (index % MAX_SYMBOLS_PER_WORK_ITEM)
                symbol place).symbol = some (file.fileId, index) := by
            intro index symbol place
            rw [Action.symbol, chunk_index, hid]
          rw [steps_object h hfile hverneed, filterMap_map₂ hsymbol, map₂_index _ _ _ _ hlength.symm,
            List.range_eq_range']
          rfl
      | error failure =>
          have hwork : file.workItems ≠ [] := by
            unfold FileDefinitions.workItems
            rw [hfile]
            exact List.cons_ne_nil _ _
          obtain ⟨item, hitem⟩ := List.exists_mem_of_ne_nil _ hwork
          refine absurd rfl (hreadable (.fail failure) ?_ failure)
          rw [steps_unreadable h hfile hverneed]
          exact List.mem_map_of_mem hitem
  | stubLibrary n =>
      rw [steps_other (.inl ⟨n, hfile⟩)]
      rfl
  | linkerScript symbolDefs =>
      rw [steps_linkerScript h hfile, if_neg (by simp [InputFile.isLoadable]),
        List.filterMap_eq_nil_iff]
      intro a ha
      obtain ⟨defInfo, -, ha⟩ := List.mem_flatMap.mp ha
      split at ha
      · obtain ⟨name, -, rfl⟩ := List.mem_map.mp ha
        rfl
      · cases ha
  | syntheticSymbols n =>
      rw [steps_other (.inr ⟨n, hfile⟩)]
      rfl
  | ltoInput obj =>
      rw [hfile] at hlength
      have hid := inputs.ltoInput_fileId file.fileId obj (hfile ▸ mem_numberedFiles_of_mem h)
      have hsymbol : ∀ (index : Nat) (symbol : PluginSymbol) (place : SymbolId),
          (Action.ltoSymbol obj index symbol place).symbol = some (file.fileId, index) := by
        intro index symbol place
        rw [Action.symbol, hid]
      rw [steps_ltoInput h hfile, filterMap_map₂ hsymbol, map₂_index _ _ _ _ hlength.symm,
        List.range_eq_range']
      rfl

theorem place_lt (h : file ∈ inputs.definitionsPerFile) {a : Action}
    (ha : a ∈ (inputs.steps file).flatten) {place : SymbolId} (hplace : a.place = some place) :
    place < inputs.symbolDefinitions.length := by
  have hmem := (filterMap_place_steps h).subset (List.mem_filterMap.mpr ⟨a, ha, hplace⟩)
  have hsplit := (splitDefinitions_sublist (numberedFiles inputs.groups)
    (List.range inputs.symbolDefinitions.length)).subset (List.mem_flatMap.mpr ⟨file, h, hmem⟩)
  exact List.mem_range.mp hsplit

/-- No place is written by two of the steps of different files. -/
theorem places_nodup {files : List FileDefinitions} (hnodup : files.Nodup)
    (hfiles : files ⊆ inputs.definitionsPerFile) :
    ((files.flatMap fun file => (inputs.steps file).flatten).filterMap Action.place).Nodup := by
  obtain ⟨files', hperm, hsublist⟩ := hnodup.subperm hfiles
  have hflat : ((files'.flatMap fun file => (inputs.steps file).flatten).filterMap
      Action.place).Sublist (List.range inputs.symbolDefinitions.length) := by
    rw [List.filterMap_flatMap]
    refine (List.Sublist.flatMap_right files' fun file hfile =>
      filterMap_place_steps (hsublist.subset hfile)).trans ?_
    exact (hsublist.flatMap _).trans (splitDefinitions_sublist _ _)
  have hperm' := (hperm.flatMap_right fun file => (inputs.steps file).flatten).filterMap Action.place
  exact hperm'.nodup_iff.mp (hflat.nodup List.nodup_range)

end ResolutionInputs

end JdxLinker.Resolution
