import JdxLinker.Resolution.NeededFiles
import JdxLinker.Resolution.Progress

/-!
# The files that are loaded

In every order of the work items, the files that are loaded are those that are needed, each once, and
each of their symbols is resolved once. A symbol whose version is looked up at its index in its chunk
may be taken for another one, and then activate a file that is not needed.
-/

namespace JdxLinker.Resolution

open TaskSystem Activation

namespace ResolutionInputs

variable {inputs : ResolutionInputs} {active : List FileId} {file : FileDefinitions}
  {fileId : FileId} {trace : List Action} {s : Resolving} {a : Action}

/-- The number of symbols of a file. -/
def numSymbols (inputs : ResolutionInputs) (fileId : FileId) : Nat :=
  (inputs.file? fileId).elim 0 InputFile.numSymbols

theorem isLoadable_of_mayTake (h : inputs.mayTake file = true) : file.file.isLoadable = true := by
  unfold mayTake at h
  split at h
  · cases hfile : file.file <;> rw [hfile] at h <;> first | rfl | cases h
  · rw [Bool.and_eq_true] at h
    exact h.1

/-- The loaded files are those that are processed, but for those that are no objects. -/
theorem Tracks.loaded_eq {c : Config Resolving (List Action)} (h : inputs.Tracks trace c active) :
    c.shared.loaded
      = ((inputs.processedFiles active).filter fun file => file.file.isLoadable).map
        FileDefinitions.fileId := by
  have hactive : ∀ fileIds : List FileId,
      (∀ fileId ∈ fileIds, inputs.rules.mayActivate fileId = true) →
      ((fileIds.filterMap inputs.optionalFile).filter fun file => file.file.isLoadable).map
        FileDefinitions.fileId = fileIds := by
    intro fileIds hmay
    induction fileIds with
    | nil => rfl
    | cons fileId fileIds ih =>
        obtain ⟨file, hfile⟩ := Option.isSome_iff_exists.mp (hmay fileId List.mem_cons_self)
        obtain ⟨-, hid, htake⟩ := optionalFile_eq_some.mp hfile
        rw [List.filterMap_cons_some hfile, List.filter_cons,
          if_pos (isLoadable_of_mayTake htake), List.map_cons, ih fun fileId hmem => hmay fileId (List.mem_cons_of_mem _ hmem), hid]
  rw [h.loaded, processedFiles, List.filter_append, List.map_append,
    hactive active h.sound.mayActivate]
  rfl

theorem Tracks.mem_loaded {c : Config Resolving (List Action)} (h : inputs.Tracks trace c active) :
    fileId ∈ c.shared.loaded ↔
      ∃ file ∈ inputs.processedFiles active, file.file.isLoadable = true ∧ file.fileId = fileId := by
  rw [h.loaded_eq, List.mem_map]
  simp only [List.mem_filter, and_assoc]

theorem Tracks.nodup_loaded {c : Config Resolving (List Action)} (h : inputs.Tracks trace c active) :
    c.shared.loaded.Nodup := by
  rw [h.loaded_eq]
  refine ((processedFiles_nodup h.sound.nodup).filter _).map_on fun file hfile file' hfile' heq => ?_
  exact eq_of_fileId_eq (mem_processedFiles.mp (List.mem_of_mem_filter hfile)).1
    (mem_processedFiles.mp (List.mem_of_mem_filter hfile')).1 heq

section Finished

variable (h : inputs.Tracks trace ⟨s, 0⟩ active)

include h

/-- At the end, the steps of the processed files have been taken. -/
theorem Tracks.perm_allSteps : trace.Perm (inputs.allSteps (inputs.processedFiles active)) := by
  have hperm := h.perm
  rwa [outstanding_zero, Multiset.toList_zero, List.append_nil] at hperm

theorem Tracks.steps_ok (hfile : file ∈ inputs.processedFiles active) :
    ∀ a ∈ (inputs.steps file).flatten, ∃ resolved, inputs.runFirst a = .ok resolved := by
  intro a ha
  have hmem := h.perm_allSteps.mem_iff.mpr (List.mem_flatMap.mpr ⟨file, hfile, ha⟩)
  obtain ⟨resolved, hrun, -⟩ := h.written a hmem
  exact ⟨resolved, hrun⟩

/-- A file that is asked for at some time is loaded, unless it cannot be. -/
theorem Tracks.loaded_of_request (hfile : file ∈ inputs.processedFiles active)
    (ha : a ∈ (inputs.steps file).flatten) (hrequest : inputs.rules.request a = some fileId)
    (hloadable : inputs.IsLoadable fileId) : fileId ∈ s.loaded := by
  obtain ⟨inputFile, hfile?, -, -⟩ := id hloadable
  obtain ⟨target, htarget, rfl, -⟩ := exists_mem_definitionsPerFile hfile?
  have hmem := h.perm_allSteps.mem_iff.mpr (List.mem_flatMap.mpr ⟨file, hfile, ha⟩)
  refine h.mem_loaded.mpr ⟨target, mem_processedFiles.mpr ⟨htarget, ?_⟩, ?_, rfl⟩
  · rcases (isLoadable_iff htarget).mp hloadable with htake | ⟨hroot, -⟩
    · have hmay : inputs.rules.mayActivate target.fileId = true := by
        change (inputs.optionalFile target.fileId).isSome = true
        rw [optionalFile_eq_some.mpr ⟨htarget, rfl, htake⟩]
        rfl
      exact .inr ⟨htake, h.sound.answered a hmem target.fileId hrequest hmay⟩
    · exact .inl hroot
  · rcases (isLoadable_iff htarget).mp hloadable with htake | ⟨-, hloadable⟩
    · exact isLoadable_of_mayTake htake
    · exact hloadable

theorem Tracks.loaded_of_needed (hversions : ∀ fileId, inputs.Needed fileId →
    inputs.VersionsAgreeIn fileId) (hneeded : inputs.Needed fileId) : fileId ∈ s.loaded := by
  induction hneeded with
  | nonOptional hfile hnew hloadable hoptional =>
      obtain ⟨target, htarget, rfl, rfl⟩ := exists_mem_definitionsPerFile hfile
      refine h.mem_loaded.mpr ⟨target, mem_processedFiles.mpr ⟨htarget, .inl ?_⟩, hloadable, rfl⟩
      unfold isRoot isNew
      rw [decide_eq_true hnew, hoptional]
      rfl
  | name hname hget hloadable =>
      obtain ⟨a, ha, hname⟩ := exists_initialWork_iff.mpr hname
      obtain ⟨file, hfile, hstep⟩ := mem_initialWork.mp ha
      obtain ⟨resolved, hrun, hrequest⟩ := request_of_name hname
      rw [hget] at hrequest
      exact h.loaded_of_request (List.mem_append_left _ hfile) hstep
        ((request_eq hrun).trans hrequest) hloadable
  | @reference source key allowDynamic isDynamic symbolId hsource hreferences hget hshared hloadable
      ih =>
      obtain ⟨file, hfile, -, rfl⟩ := h.mem_loaded.mp ih
      by_cases hother : inputs.db.symbolFileIds symbolId = file.fileId
      · rwa [hother]
      · obtain ⟨a, ha, hrequest⟩ := exists_request (mem_processedFiles.mp hfile).1 (h.steps_ok hfile)
          (hversions file.fileId hsource) hreferences hget hother hshared
        exact h.loaded_of_request hfile ha hrequest hloadable

/-- What a step of a file that is processed asks for is needed, if the file is, or is not an
object. -/
theorem Tracks.needed_of_request (hfile : file ∈ inputs.processedFiles active)
    (hneeded : file.file.isLoadable = true → inputs.Needed file.fileId)
    (hversions : inputs.Needed file.fileId → inputs.VersionsAgreeIn file.fileId)
    (hroot : ∀ name, a.name = some name → name ∈ inputs.requiredNames)
    (ha : a ∈ (inputs.steps file).flatten) (hrequest : inputs.rules.request a = some fileId)
    (hmay : inputs.rules.mayActivate fileId = true) : inputs.Needed fileId := by
  have hmem := (mem_processedFiles.mp hfile).1
  have hloadable : inputs.IsLoadable fileId := by
    obtain ⟨target, htarget⟩ := Option.isSome_iff_exists.mp hmay
    obtain ⟨hmem, rfl, htake⟩ := optionalFile_eq_some.mp htarget
    exact (isLoadable_iff hmem).mpr (.inl htake)
  cases hname : a.name with
  | some name =>
      obtain ⟨resolved, hrun, hresolved⟩ := request_of_name hname
      rw [request_eq hrun, hresolved] at hrequest
      obtain ⟨symbolId, hget, rfl⟩ := Option.map_eq_some_iff.mp hrequest
      exact .name (hroot name hname) hget hloadable
  | none =>
      have hfileLoadable : file.file.isLoadable = true := by
        by_contra hnot
        exact name_ne_none hmem (Bool.not_eq_true _ ▸ hnot) ha hname
      have hsource := hneeded hfileLoadable
      obtain ⟨key, allowDynamic, isDynamic, symbolId, hreferences, hget, rfl, hshared⟩ :=
        reference_of_request hmem (h.steps_ok hfile) (hversions hsource) ha hname hrequest
      exact .reference hsource hreferences hget hshared hloadable

theorem Tracks.needed_of_reached (hversions : ∀ fileId, inputs.Needed fileId →
    inputs.VersionsAgreeIn fileId) (hreached : Activation.Reached inputs.rules inputs.initialWork fileId) :
    inputs.Needed fileId := by
  induction hreached with
  | root ha hrequest hmay =>
      obtain ⟨file, hfile, hstep⟩ := mem_initialWork.mp ha
      obtain ⟨hmem, hroot⟩ := mem_rootFiles.mp hfile
      refine h.needed_of_request (List.mem_append_left _ hfile) (fun hloadable => ?_)
        (hversions _) (fun name hname => exists_initialWork_iff.mp ⟨_, ha, hname⟩) hstep hrequest hmay
      unfold isRoot isNew at hroot
      rw [Bool.and_eq_true, decide_eq_true_eq, Bool.not_eq_true'] at hroot
      exact .nonOptional (file?_eq_some hmem) hroot.1 hloadable hroot.2
  | @step source target a hsource ha hrequest hmay ih =>
      have hactive := h.sound.mem_iff_reached.mpr hsource
      obtain ⟨file, hfile⟩ := Option.isSome_iff_exists.mp (h.sound.mayActivate source hactive)
      obtain ⟨hmem, rfl, htake⟩ := optionalFile_eq_some.mp hfile
      have hstep : a ∈ (inputs.steps file).flatten := by
        change a ∈ ((inputs.optionalFile file.fileId).elim [] inputs.steps).flatten at ha
        rwa [hfile] at ha
      refine h.needed_of_request (mem_processedFiles.mpr ⟨hmem, .inr ⟨htake, hactive⟩⟩) (fun _ => ih)
        (hversions _) (fun name hname => ?_) hstep hrequest hmay
      have hnames := List.filterMap_eq_nil_iff.mp
        (filterMap_name_eq_nil hmem (isLoadable_of_mayTake htake)) a hstep
      rw [hname] at hnames
      cases hnames

theorem Tracks.mem_loaded_iff_needed (hversions : ∀ fileId, inputs.Needed fileId →
    inputs.VersionsAgreeIn fileId) : fileId ∈ s.loaded ↔ inputs.Needed fileId := by
  refine ⟨fun hloaded => ?_, h.loaded_of_needed hversions⟩
  obtain ⟨file, hfile, hloadable, rfl⟩ := h.mem_loaded.mp hloaded
  obtain ⟨hmem, hroot | ⟨-, hactive⟩⟩ := mem_processedFiles.mp hfile
  · unfold isRoot isNew at hroot
    rw [Bool.and_eq_true, decide_eq_true_eq, Bool.not_eq_true'] at hroot
    exact .nonOptional (file?_eq_some hmem) hroot.1 hloadable hroot.2
  · exact h.needed_of_reached hversions (h.sound.mem_iff_reached.mp hactive)

/-- Each symbol of each loaded file is resolved once, and no others are. -/
theorem Tracks.perm_symbols : (trace.filterMap Action.symbol).Perm
    (s.loaded.flatMap fun fileId => (List.range (inputs.numSymbols fileId)).map fun index =>
      (fileId, index)) := by
  have hloaded : s.loaded = _ := h.loaded_eq
  have hall : (inputs.allSteps (inputs.processedFiles active)).filterMap Action.symbol
      = s.loaded.flatMap fun fileId => (List.range (inputs.numSymbols fileId)).map fun index =>
        (fileId, index) := by
    have hfiles : ∀ files : List FileDefinitions, files ⊆ inputs.processedFiles active →
        (inputs.allSteps files).filterMap Action.symbol
          = ((files.filter fun file => file.file.isLoadable).map FileDefinitions.fileId).flatMap
            fun fileId => (List.range (inputs.numSymbols fileId)).map fun index => (fileId, index) := by
      intro files hsubset
      induction files with
      | nil => rfl
      | cons file files ih =>
          have hfile := hsubset List.mem_cons_self
          have hmem := (mem_processedFiles.mp hfile).1
          have hsteps := filterMap_symbol_steps hmem fun a ha failure heq => by
            obtain ⟨resolved, hrun⟩ := h.steps_ok hfile a ha
            rw [heq] at hrun
            cases hrun
          have hnum : inputs.numSymbols file.fileId = file.file.numSymbols := by
            unfold numSymbols
            rw [file?_eq_some hmem]
            rfl
          change ((inputs.steps file).flatten ++ inputs.allSteps files).filterMap Action.symbol = _
          rw [List.filterMap_append, hsteps,
            ih fun other hother => hsubset (List.mem_cons_of_mem _ hother)]
          by_cases hloadable : file.file.isLoadable = true
          · rw [if_pos hloadable, List.filter_cons, if_pos hloadable, List.map_cons,
              List.flatMap_cons, hnum]
          · rw [if_neg hloadable, List.filter_cons, if_neg hloadable, List.nil_append]
    rw [hloaded]
    exact hfiles _ fun _ hmem => hmem
  exact hall ▸ h.perm_allSteps.filterMap Action.symbol

/-- The table that is left does not depend on the run. -/
theorem Tracks.definitions_eq {trace' : List Action} {s' : Resolving} {active' : List FileId}
    (h' : inputs.Tracks trace' ⟨s', 0⟩ active') : s'.definitions = s.definitions := by
  have hactive : active'.Perm active := by
    refine (List.perm_ext_iff_of_nodup h'.sound.nodup h.sound.nodup).mpr fun fileId => ?_
    rw [h'.sound.mem_iff_reached, h.sound.mem_iff_reached]
  have hperm : trace'.Perm trace := by
    refine h'.perm_allSteps.trans (List.Perm.trans ?_ h.perm_allSteps.symm)
    refine List.Perm.flatMap_right _ (List.Perm.append_left _ ?_)
    exact hactive.filterMap inputs.optionalFile
  refine List.ext_getElem? fun place => ?_
  by_cases hwritten : ∃ a ∈ trace, a.place = some place
  · obtain ⟨a, ha, hplace⟩ := hwritten
    obtain ⟨resolved, hrun, hvalue⟩ := h.written a ha
    obtain ⟨resolved', hrun', hvalue'⟩ := h'.written a (hperm.mem_iff.mpr ha)
    rw [hrun] at hrun'
    obtain rfl := Except.ok.inj hrun'
    exact (hvalue' place hplace).trans (hvalue place hplace).symm
  · push Not at hwritten
    have huntouched := h.untouched place hwritten
    have huntouched' := h'.untouched place fun a ha => hwritten a (hperm.mem_iff.mp ha)
    exact huntouched'.trans huntouched.symm

end Finished

/-- Where no step can fail, no run has an error. -/
theorem error_of_run (hsafe : ∀ file ∈ inputs.definitionsPerFile, ∀ a ∈ (inputs.steps file).flatten,
      ∀ definition, ∃ resolved, a.run inputs.platform inputs.db definition = .ok resolved)
    {c : Config Resolving (List Action)} (hrun : TaskSystem.Run inputs.act inputs.start trace c) :
    c.shared.error = none := by
  have hall : c.shared.error = none ∧ inputs.OnlyOptional c.shared ∧ ∀ a ∈ outstanding c.tasks,
      ∀ definition, ∃ resolved, a.run inputs.platform inputs.db definition = .ok resolved := by
    refine hrun.invariant (I := fun _ c => c.shared.error = none ∧ inputs.OnlyOptional c.shared ∧
      ∀ a ∈ outstanding c.tasks, ∀ definition, ∃ resolved,
        a.run inputs.platform inputs.db definition = .ok resolved) ?_ ?_
    · refine ⟨rfl, onlyOptional_start, fun a ha => ?_⟩
      change a ∈ outstanding (inputs.initialWork : Multiset (List Action)) at ha
      rw [outstanding_coe, Multiset.mem_coe] at ha
      obtain ⟨file, hfile, hstep⟩ := mem_initialWork.mp ha
      exact hsafe file (mem_rootFiles.mp hfile).1 a hstep
    · rintro trace s t ts ⟨herror, honly, hpending⟩
      refine ⟨?_, honly.step, ?_⟩
      · cases t with
        | nil => exact herror
        | cons a rest =>
            obtain ⟨resolved, hrun⟩ := hpending a (by simp) (a.definition s.definitions)
            have hact : inputs.act (a :: rest) s = inputs.proceed s a rest (.ok resolved) :=
              congrArg (inputs.proceed s a rest) hrun
            unfold exec
            rw [hact]
            cases hfile : tryRequestFileId s resolved.request with
            | none =>
                simp only [proceed, hfile]
                exact herror
            | some file =>
                simp only [proceed, hfile]
                exact herror
      · cases t with
        | nil =>
            have hexec : exec inputs.act s [] ts = ⟨s, ts⟩ := by simp [exec, act]
            rw [hexec]
            exact fun a ha => hpending a (by simpa using ha)
        | cons a rest =>
            obtain ⟨resolved, hrun⟩ := hpending a (by simp) (a.definition s.definitions)
            have hact : inputs.act (a :: rest) s = inputs.proceed s a rest (.ok resolved) :=
              congrArg (inputs.proceed s a rest) hrun
            unfold exec
            rw [hact]
            intro b hb
            cases hfile : tryRequestFileId s resolved.request with
            | none =>
                simp only [proceed, hfile, outstanding_add, outstanding_coe, List.flatten_singleton,
                  Multiset.mem_add, Multiset.mem_coe] at hb
                exact hpending b (by simp [or_assoc, hb])
            | some file =>
                simp only [proceed, hfile, outstanding_add, outstanding_coe, List.flatten_cons,
                  Multiset.mem_add, Multiset.mem_coe, List.mem_append] at hb
                rcases hb with (hb | hb) | hb
                · exact hpending b (by simp [hb])
                · exact hsafe file (mem_of_tryRequestFileId honly hfile).1 b hb
                · exact hpending b (by simp [hb])
  exact hall.1

/-! ### The files that are loaded -/

/-- In every run without error, whatever the order of the work items, the files that are loaded are
those that are needed, each once, their symbols are resolved once each, and the definitions that are
left are the same, if no symbol of a needed file is taken for one with another version. -/
theorem selectArchiveEntries (inputs : ResolutionInputs)
    (hversions : ∀ fileId, inputs.Needed fileId → inputs.VersionsAgreeIn fileId)
    {trace : List Action} {s : Resolving} (hrun : TaskSystem.Run inputs.act inputs.start trace ⟨s, 0⟩)
    (hok : s.error = none) :
    (∀ fileId, fileId ∈ s.loaded ↔ inputs.Needed fileId) ∧ s.loaded.Nodup ∧
      (trace.filterMap Action.symbol).Perm
        (s.loaded.flatMap fun fileId => (List.range (inputs.numSymbols fileId)).map fun index =>
          (fileId, index)) ∧
      ∀ trace' s', TaskSystem.Run inputs.act inputs.start trace' ⟨s', 0⟩ → s'.error = none →
        s'.definitions = s.definitions := by
  obtain ⟨active, htracks⟩ := tracks_of_run hrun hok
  refine ⟨fun fileId => htracks.mem_loaded_iff_needed hversions, htracks.nodup_loaded,
    htracks.perm_symbols, fun trace' s' hrun' hok' => ?_⟩
  obtain ⟨active', htracks'⟩ := tracks_of_run hrun' hok'
  exact htracks.definitions_eq htracks'

end ResolutionInputs

/-! ### A version that is misread -/

namespace VersionedReference

/-- A shared library whose last symbol is an undefined one with a version. -/
def library (count : Nat) : SequencedInputObject where
  fileId := ⟨1, 1⟩
  symbols := List.replicate count ⟨.ok [0x67], true, true, false⟩ ++ [⟨.ok [0x66], false, true, false⟩]
  symbolIdStart := 3
  isDynamic := true
  verneedTable := .ok ⟨List.replicate count 0 ++ [2], [none, none, some [0x56]]⟩
  isOptional := false

/-- An archive entry that defines the symbol without a version. -/
def entry : SequencedInputObject where
  fileId := ⟨1, 0⟩
  symbols := [⟨.ok [], false, true, false⟩, ⟨.ok [0x66], false, true, false⟩]
  symbolIdStart := 1
  isDynamic := false
  verneedTable := .ok ⟨[], []⟩
  isOptional := true

def db : SymbolDb where
  buckets := [⟨⟨[], []⟩, [([0x66], 2)], []⟩]
  hash _ := 0
  symbolFileIds symbolId := if symbolId = 0 then ⟨0, 0⟩ else if symbolId ≤ 2 then ⟨1, 0⟩ else ⟨1, 1⟩
  isDynamic fileId := decide (fileId = ⟨1, 1⟩)
  symbolStrength _ := .undefined
  inputSymbolVisibility _ := .default
  flags _ := .empty

def inputs (count : Nat) : ResolutionInputs where
  platform := elf
  db := db
  groups := [.prelude [⟨.other, []⟩], .objects [entry, library count]]
  preExistingGroups := 0
  wasLoaded _ := false
  entrySymbolName := none
  symbolDefinitions := [0, 0, 2] ++ List.replicate (count + 1) 0
  length_symbolDefinitions := by
    simp [Resolution.numSymbols, numberedFiles, Group.files, InputFile.numSymbols, entry, library]
    omega
  object_fileId fileId obj h := by
    simp [numberedFiles, Group.files] at h
    rcases h with ⟨rfl, rfl⟩ | ⟨rfl, rfl⟩ <;> rfl
  ltoInput_fileId fileId obj h := by
    simp [numberedFiles, Group.files] at h

variable {count : Nat}

theorem file?_eq_object {fileId : FileId} {obj : SequencedInputObject}
    (h : (inputs count).file? fileId = some (.object obj)) :
    (fileId = ⟨1, 0⟩ ∧ obj = entry) ∨ (fileId = ⟨1, 1⟩ ∧ obj = library count) := by
  have hmem := mem_numberedFiles.mpr h
  simpa [numberedFiles, inputs, Group.files] using hmem

theorem getElem?_symbols {index : Nat} {symbol : InputSymbol}
    (h : (library count).symbols[index]? = some symbol) :
    symbol.isHidden = true ∨ index = count ∧ symbol = ⟨.ok [0x66], false, true, false⟩ := by
  change (List.replicate count _ ++ [_])[index]? = some symbol at h
  rcases Nat.lt_or_ge index count with hlt | hge
  · rw [List.getElem?_append_left (by rwa [List.length_replicate]),
      List.getElem?_replicate_of_lt hlt] at h
    exact .inl (by rw [← Option.some.inj h])
  · rw [List.getElem?_append_right (by rwa [List.length_replicate]), List.length_replicate] at h
    obtain ⟨hzero, hsymbol⟩ := List.getElem?_eq_some_iff.mp h
    rw [List.length_singleton] at hzero
    refine .inr ⟨by omega, ?_⟩
    rw [← hsymbol, List.getElem_singleton]

theorem name_ok {obj : SequencedInputObject} {fileId : FileId} {symbol : InputSymbol}
    (hfile : (inputs count).file? fileId = some (.object obj)) (h : symbol ∈ obj.symbols) :
    ∃ nameBytes, symbol.name = .ok nameBytes := by
  rcases file?_eq_object hfile with ⟨-, rfl⟩ | ⟨-, rfl⟩
  · rcases List.mem_cons.mp h with rfl | h
    · exact ⟨_, rfl⟩
    · rw [List.mem_singleton.mp h]
      exact ⟨_, rfl⟩
  · rcases List.mem_append.mp h with h | h
    · rw [List.eq_of_mem_replicate h]
      exact ⟨_, rfl⟩
    · rw [List.mem_singleton.mp h]
      exact ⟨_, rfl⟩

theorem run_ok {file : FileDefinitions} (hfile : file ∈ (inputs count).definitionsPerFile)
    {a : Action} (ha : a ∈ ((inputs count).steps file).flatten) (definition : SymbolId) :
    ∃ resolved, a.run elf db definition = .ok resolved := by
  cases hkind : file.file with
  | object obj =>
      have hfile? := ResolutionInputs.file?_eq_some hfile
      rw [hkind] at hfile?
      obtain ⟨verneedTable, hverneed⟩ : ∃ verneedTable, obj.verneedTable = .ok verneedTable := by
        rcases file?_eq_object hfile? with ⟨-, rfl⟩ | ⟨-, rfl⟩
        · exact ⟨_, rfl⟩
        · exact ⟨_, rfl⟩
      obtain ⟨index, symbol, place, hsymbol, -, rfl⟩ :=
        (ResolutionInputs.mem_steps_object hfile hkind hverneed).mp ha
      obtain ⟨nameBytes, hname⟩ := name_ok hfile? (List.mem_of_getElem? hsymbol)
      change ∃ resolved, resolveEntry elf db obj.toInputObject verneedTable _ _ symbol definition
        = .ok resolved
      cases hresult : resolveEntry elf db obj.toInputObject verneedTable
          (index - index % MAX_SYMBOLS_PER_WORK_ITEM) (index % MAX_SYMBOLS_PER_WORK_ITEM) symbol
          definition with
      | ok resolved => exact ⟨resolved, rfl⟩
      | error failure =>
          have hunreadable := (resolveEntry_eq_error.mp hresult).2
          rw [hname] at hunreadable
          cases hunreadable
  | prelude symbolDefinitions =>
      have hmem := ResolutionInputs.mem_numberedFiles_of_mem hfile
      simp [numberedFiles, inputs, Group.files, hkind] at hmem
      rw [ResolutionInputs.steps_prelude hfile hkind, hmem.2] at ha
      cases hdefinitions : file.definitionsOut <;> rw [hdefinitions] at ha <;> cases ha
  | _ =>
      have hmem := ResolutionInputs.mem_numberedFiles_of_mem hfile
      simp [numberedFiles, inputs, Group.files, hkind] at hmem

theorem exists_run (count : Nat) : ∃ trace s,
    TaskSystem.Run (inputs count).act (inputs count).start trace ⟨s, 0⟩ ∧ s.error = none := by
  have hstart : (inputs count).OnlyOptional (inputs count).start.shared :=
    ResolutionInputs.onlyOptional_start
  obtain ⟨trace, s, hrun⟩ := ResolutionInputs.exists_finished hstart
  exact ⟨trace, s, hrun, ResolutionInputs.error_of_run (fun _ hfile _ ha => run_ok hfile ha) hrun⟩

/-- The version is part of the name that the library refers to, and nothing has that name. -/
theorem not_needed_entry (count : Nat) : ¬ (inputs count).Needed ⟨1, 0⟩ := by
  have hall : ∀ fileId, (inputs count).Needed fileId → fileId ≠ ⟨1, 0⟩ := by
    intro fileId hneeded
    induction hneeded with
    | nonOptional hfile hnew hloadable hoptional =>
        rintro rfl
        obtain rfl := Option.some.inj hfile
        cases hoptional
    | name hname => cases hname
    | reference hsource hreferences hget hshared hloadable ih =>
        cases hreferences with
        | @object obj index symbol definition nameBytes verneedTable hfile hresolved hweak hname
            hverneed =>
            obtain ⟨rfl, rfl⟩ := (file?_eq_object hfile).resolve_left fun h => ih h.1
            rcases getElem?_symbols hresolved.hasSymbol with hhidden | ⟨rfl, rfl⟩
            · have hskipped := hresolved.notSkipped
              unfold isSkipped at hskipped
              rw [hhidden] at hskipped
              simp [library] at hskipped
            · obtain rfl := Except.ok.inj hname
              obtain rfl := Except.ok.inj hverneed
              have hversion : VerneedTable.versionName
                  ⟨List.replicate index 0 ++ [2], [none, none, some [0x56]]⟩ index
                  = some [0x56] := by
                unfold VerneedTable.versionName
                rw [List.getElem?_append_right (by rw [List.length_replicate]),
                  List.length_replicate, Nat.sub_self]
                rfl
              have hkey : PreHashedSymbolName.fromRaw ((inputs index).platform.rawSymbolName [0x66]
                  ⟨List.replicate index 0 ++ [2], [none, none, some [0x56]]⟩ index)
                  = .versioned [0x66] [0x56] := by
                change PreHashedSymbolName.fromRaw (elf.rawSymbolName [0x66] _ index) = _
                unfold elf
                dsimp only
                rw [hversion]
                rfl
              rw [hkey] at hget
              cases hget
        | ltoInput hfile =>
            have hmem := mem_numberedFiles.mpr hfile
            simp [numberedFiles, inputs, Group.files] at hmem
  exact fun h => hall _ h rfl

/-- In its chunk the symbol has the index of one without a version. -/
theorem entry_loaded (hcount : 0 < count) (hmod : count % MAX_SYMBOLS_PER_WORK_ITEM = 0)
    {trace : List Action} {s : Resolving}
    (hrun : TaskSystem.Run (inputs count).act (inputs count).start trace ⟨s, 0⟩) (hok : s.error = none) :
    ⟨1, 0⟩ ∈ s.loaded := by
  obtain ⟨active, htracks⟩ := ResolutionInputs.tracks_of_run hrun hok
  let file : FileDefinitions := ⟨⟨1, 1⟩, .object (library count),
    (((List.range (inputs count).symbolDefinitions.length).drop 1).drop 2).take
      (library count).symbols.length⟩
  have hfile : file ∈ (inputs count).definitionsPerFile :=
    List.mem_cons_of_mem _ (List.mem_cons_of_mem _ List.mem_cons_self)
  have hlength : (library count).symbols.length = count + 1 := by
    simp [library]
  have hsymbol : (library count).symbols[count]? = some ⟨.ok [0x66], false, true, false⟩ := by
    change (List.replicate count _ ++ [_])[count]? = some _
    rw [List.getElem?_append_right (by rw [List.length_replicate]), List.length_replicate,
      Nat.sub_self]
    rfl
  have htotal : (inputs count).symbolDefinitions.length = count + 4 := by
    simp [inputs]
  have hplace : file.definitionsOut[count]? = some (count + 3) := by
    change ((((List.range _).drop 1).drop 2).take _)[count]? = _
    rw [hlength, htotal, List.getElem?_take_of_lt (Nat.lt_succ_self count), List.getElem?_drop,
      List.getElem?_drop, List.getElem?_range (by omega), Nat.add_comm 2, ← Nat.add_assoc,
      Nat.add_comm 1, Nat.add_right_comm]
  have hdefinition : (inputs count).symbolDefinitions.getD (count + 3) undefinedId
      = undefinedId := by
    change ([0, 0, 2] ++ List.replicate (count + 1) 0).getD (count + 3) undefinedId = _
    rw [List.getD_eq_getElem?_getD, List.getElem?_append_right (by simp),
      List.getElem?_replicate_of_lt (by simp)]
    rfl
  have hskipped : isSkipped elf (library count).toInputObject count
      ⟨.ok [0x66], false, true, false⟩
      ((inputs count).symbolDefinitions.getD (count + 3) undefinedId) = false := by
    have hne : decide (count = 0) = false := decide_eq_false (Nat.ne_of_gt hcount)
    rw [hdefinition]
    unfold isSkipped
    rw [hne]
    rfl
  have hversion : VerneedTable.versionName
      ⟨List.replicate count 0 ++ [2], [none, none, some [0x56]]⟩ 0 = none := by
    unfold VerneedTable.versionName
    rw [List.getElem?_append_left (by rwa [List.length_replicate]),
      List.getElem?_replicate_of_lt hcount]
    rfl
  have hkey : PreHashedSymbolName.fromRaw (elf.rawSymbolName [0x66]
      ⟨List.replicate count 0 ++ [2], [none, none, some [0x56]]⟩
      (count % MAX_SYMBOLS_PER_WORK_ITEM)) = .unversioned [0x66] := by
    rw [hmod]
    unfold elf
    dsimp only
    rw [hversion]
    rfl
  have hrequest : (inputs count).rules.request (.objectSymbol (library count).toInputObject
      ⟨List.replicate count 0 ++ [2], [none, none, some [0x56]]⟩
      (count - count % MAX_SYMBOLS_PER_WORK_ITEM) (count % MAX_SYMBOLS_PER_WORK_ITEM)
      ⟨.ok [0x66], false, true, false⟩ (count + 3)) = some ⟨1, 0⟩ := by
    rw [ResolutionInputs.request_eq (ResolutionInputs.runFirst_objectSymbol.trans
      (resolveInChunk_ok hskipped rfl)), ResolutionInputs.request_resolveSymbol]
    have hother : (⟨1, 0⟩ : FileId) ≠ ⟨1, 1⟩ := by decide
    have hshared : ¬ (true = true ∧ db.isDynamic ⟨1, 0⟩ = true) := by decide
    have hget : db.get (.fromRaw (elf.rawSymbolName [0x66]
        ⟨List.replicate count 0 ++ [2], [none, none, some [0x56]]⟩
        (count % MAX_SYMBOLS_PER_WORK_ITEM))) true = some 2 := by
      rw [hkey]
      rfl
    exact ⟨rfl, 2, hget, rfl, hother, hshared⟩
  refine htracks.loaded_of_request (ResolutionInputs.mem_processedFiles.mpr ⟨hfile, .inl rfl⟩)
    ((ResolutionInputs.mem_steps_object hfile rfl rfl).mpr ⟨count, _, _, hsymbol, hplace, rfl⟩)
    hrequest ⟨.object entry, rfl, rfl, fun h => absurd h (Nat.not_lt_zero _)⟩

theorem versionsAgreeIn_of_lt (hcount : count < MAX_SYMBOLS_PER_WORK_ITEM) (fileId : FileId) :
    (inputs count).VersionsAgreeIn fileId := by
  intro obj hfile verneedTable _ _ index symbol definition nameBytes hresolved _
  have hlt : index < obj.symbols.length := (List.getElem?_eq_some_iff.mp hresolved.hasSymbol).1
  have hmod : index % MAX_SYMBOLS_PER_WORK_ITEM = index := by
    refine Nat.mod_eq_of_lt (hlt.trans_le ?_)
    rcases file?_eq_object hfile with ⟨-, rfl⟩ | ⟨-, rfl⟩
    · decide
    · simpa [library] using hcount
  rw [hmod]

end VersionedReference

namespace ResolutionInputs

theorem selectArchiveEntries_library : ∃ trace s,
    TaskSystem.Run (VersionedReference.inputs 1).act (VersionedReference.inputs 1).start trace ⟨s, 0⟩ ∧
      (∀ fileId, fileId ∈ s.loaded ↔ (VersionedReference.inputs 1).Needed fileId) ∧
      s.loaded.Nodup := by
  obtain ⟨trace, s, hrun, hok⟩ := VersionedReference.exists_run 1
  have hresult := selectArchiveEntries (VersionedReference.inputs 1)
    (fun fileId _ => VersionedReference.versionsAgreeIn_of_lt (by decide) fileId) hrun hok
  exact ⟨trace, s, hrun, hresult.1, hresult.2.1⟩

/-- The symbol at index 5000 of a library is taken for one without a version, and activates an
archive entry that nothing refers to. -/
theorem selectArchiveEntries_counterexample :
    ¬ ∀ (inputs : ResolutionInputs) (trace : List Action) (s : Resolving),
      TaskSystem.Run inputs.act inputs.start trace ⟨s, 0⟩ → s.error = none →
      ∀ fileId, fileId ∈ s.loaded ↔ inputs.Needed fileId := by
  intro h
  obtain ⟨trace, s, hrun, hok⟩ := VersionedReference.exists_run 5000
  have hloaded := VersionedReference.entry_loaded (by decide) (by decide) hrun hok
  exact VersionedReference.not_needed_entry 5000 ((h _ trace s hrun hok _).mp hloaded)

end ResolutionInputs

end JdxLinker.Resolution
