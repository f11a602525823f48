import JdxLinker.Resolution.Places

/-!
# Resolution as activation

While no step fails, the steps do what they would do first, on the table as it was before, since each
place is written by one step at most. Files are then activated by steps that ask for them, and the
table has what each step that was taken has written.
-/

namespace JdxLinker.Resolution

open TaskSystem Activation

namespace ResolutionInputs

variable (inputs : ResolutionInputs)

/-- What a step does on the table as it was before. -/
def runFirst (a : Action) : Fallible Resolved :=
  a.run inputs.platform inputs.db (a.definition inputs.symbolDefinitions)

/-- The files that may be left out are activated by the steps that ask for them. -/
def rules : Rules FileId Action where
  request a := (inputs.runFirst a).toOption.bind Resolved.request
  mayActivate fileId := (inputs.optionalFile fileId).isSome
  work fileId := (inputs.optionalFile fileId).elim [] inputs.steps

/-- The files that are processed once some are active. -/
def processedFiles (active : List FileId) : List FileDefinitions :=
  inputs.rootFiles ++ active.filterMap inputs.optionalFile

/-- All steps of some files. -/
def allSteps (files : List FileDefinitions) : List Action :=
  files.flatMap fun file => (inputs.steps file).flatten

variable {inputs} {active : List FileId} {file : FileDefinitions} {fileId : FileId}
  {trace : List Action} {c : Config Resolving (List Action)} {a : Action} {resolved : Resolved}

theorem request_eq (h : inputs.runFirst a = .ok resolved) :
    inputs.rules.request a = resolved.request := by
  change (inputs.runFirst a).toOption.bind Resolved.request = resolved.request
  rw [h]
  rfl

theorem allSteps_append (files files' : List FileDefinitions) :
    inputs.allSteps (files ++ files') = inputs.allSteps files ++ inputs.allSteps files' :=
  List.flatMap_append

theorem allSteps_processedFiles (active : List FileId) :
    (inputs.allSteps (inputs.processedFiles active) : Multiset Action)
      = (inputs.initialWork.flatten : Multiset Action) + workOf inputs.rules active := by
  have hroots : inputs.initialWork.flatten = inputs.allSteps inputs.rootFiles := by
    unfold initialWork allSteps
    rw [List.flatMap_def, List.flatten_flatten, List.map_map]
    rfl
  have hwork : workOf inputs.rules active
      = (inputs.allSteps (active.filterMap inputs.optionalFile) : Multiset Action) := by
    unfold workOf allSteps
    refine congrArg _ ?_
    induction active with
    | nil => rfl
    | cons fileId active ih =>
        rw [List.flatMap_cons, ih]
        change ((inputs.optionalFile fileId).elim [] inputs.steps).flatten ++ _ = _
        cases hfile : inputs.optionalFile fileId with
        | none => rw [List.filterMap_cons_none hfile]; rfl
        | some file => rw [List.filterMap_cons_some hfile]; rfl
  unfold processedFiles
  rw [allSteps_append, ← Multiset.coe_add, hroots, hwork]

theorem mem_rootFiles :
    file ∈ inputs.rootFiles ↔ file ∈ inputs.definitionsPerFile ∧ inputs.isRoot file = true :=
  List.mem_filter

theorem isRoot_of_mayTake (h : inputs.mayTake file = true) : inputs.isRoot file = false := by
  unfold mayTake at h
  unfold isRoot
  split at h
  · rw [h, Bool.not_true, Bool.and_false]
  · rename_i hnew
    rw [Bool.not_eq_true] at hnew
    rw [hnew, Bool.false_and]

theorem mem_processedFiles :
    file ∈ inputs.processedFiles active ↔ file ∈ inputs.definitionsPerFile ∧
      (inputs.isRoot file = true ∨ inputs.mayTake file = true ∧ file.fileId ∈ active) := by
  unfold processedFiles
  rw [List.mem_append, mem_rootFiles, List.mem_filterMap]
  constructor
  · rintro (⟨hmem, hroot⟩ | ⟨fileId, hactive, hfile⟩)
    · exact ⟨hmem, .inl hroot⟩
    · obtain ⟨hmem, rfl, hmay⟩ := optionalFile_eq_some.mp hfile
      exact ⟨hmem, .inr ⟨hmay, hactive⟩⟩
  · rintro ⟨hmem, hroot | ⟨hmay, hactive⟩⟩
    · exact .inl ⟨hmem, hroot⟩
    · exact .inr ⟨file.fileId, hactive, optionalFile_eq_some.mpr ⟨hmem, rfl, hmay⟩⟩

theorem processedFiles_nodup (h : active.Nodup) : (inputs.processedFiles active).Nodup := by
  have hfiles : inputs.definitionsPerFile.Nodup := .of_map _ inputs.fileIds_nodup
  refine List.nodup_append.mpr ⟨hfiles.filter _, ?_, ?_⟩
  · refine h.filterMap fun fileId fileId' file hfile hfile' => ?_
    rw [← (optionalFile_eq_some.mp hfile).2.1, ← (optionalFile_eq_some.mp hfile').2.1]
  · intro file hroot file' hactive heq
    obtain ⟨fileId, -, hfile⟩ := List.mem_filterMap.mp hactive
    have hnot := isRoot_of_mayTake (optionalFile_eq_some.mp hfile).2.2
    rw [← heq, (mem_rootFiles.mp hroot).2] at hnot
    cases hnot

variable (inputs) in
/-- What a run has done so far, if no step has failed. -/
structure Tracks (trace : List Action) (c : Config Resolving (List Action)) (active : List FileId) :
    Prop where
  run : TaskSystem.Run (Activation.act inputs.rules) ⟨[], (inputs.initialWork : Multiset (List Action))⟩ trace
    ⟨active, c.tasks⟩
  loaded : c.shared.loaded = inputs.initialLoaded ++ active
  available : ∀ fileId, c.shared.definitionsPerFile fileId
    = if fileId ∈ active then none else inputs.optionalFile fileId
  length : c.shared.definitions.length = inputs.symbolDefinitions.length
  written : ∀ a ∈ trace, ∃ resolved, inputs.runFirst a = .ok resolved ∧
    ∀ place, a.place = some place → c.shared.definitions[place]? = some resolved.definition
  untouched : ∀ place, (∀ a ∈ trace, a.place ≠ some place) →
    c.shared.definitions[place]? = inputs.symbolDefinitions[place]?

theorem Tracks.sound (h : inputs.Tracks trace c active) :
    Sound inputs.rules inputs.initialWork trace ⟨active, c.tasks⟩ := sound_of_run h.run

/-- Steps that have been taken and those that are left are steps of the files that are processed. -/
theorem Tracks.perm (h : inputs.Tracks trace c active) :
    (trace ++ (outstanding c.tasks).toList).Perm (inputs.allSteps (inputs.processedFiles active)) := by
  rw [← Multiset.coe_eq_coe, ← Multiset.coe_add, Multiset.coe_toList, allSteps_processedFiles]
  exact h.sound.steps

theorem Tracks.places_nodup (h : inputs.Tracks trace c active) :
    ((trace ++ (outstanding c.tasks).toList).filterMap Action.place).Nodup := by
  refine (h.perm.filterMap Action.place).nodup_iff.mpr (ResolutionInputs.places_nodup
    (processedFiles_nodup h.sound.nodup) fun file hfile => (mem_processedFiles.mp hfile).1)

theorem Tracks.place_lt (h : inputs.Tracks trace c active) (ha : a ∈ outstanding c.tasks)
    {place : SymbolId} (hplace : a.place = some place) : place < inputs.symbolDefinitions.length := by
  have hmem := h.perm.subset (List.mem_append_right trace (Multiset.mem_toList.mpr ha))
  obtain ⟨file, hfile, hstep⟩ := List.mem_flatMap.mp hmem
  exact ResolutionInputs.place_lt (mem_processedFiles.mp hfile).1 hstep hplace

/-- A place that is still to be written has not been. -/
theorem Tracks.fresh (h : inputs.Tracks trace c active) (ha : a ∈ outstanding c.tasks) {place : SymbolId}
    (hplace : a.place = some place) : ∀ b ∈ trace, b.place ≠ some place := by
  intro b hb hbplace
  have hnodup := h.places_nodup
  rw [List.filterMap_append, List.nodup_append] at hnodup
  exact hnodup.2.2 place (List.mem_filterMap.mpr ⟨b, hb, hbplace⟩) place
    (List.mem_filterMap.mpr ⟨a, Multiset.mem_toList.mpr ha, hplace⟩) rfl

theorem Tracks.definition_eq (h : inputs.Tracks trace c active) (ha : a ∈ outstanding c.tasks) :
    a.definition c.shared.definitions = a.definition inputs.symbolDefinitions := by
  unfold Action.definition
  cases hplace : a.place with
  | none => rfl
  | some place =>
      change c.shared.definitions.getD place undefinedId = inputs.symbolDefinitions.getD place undefinedId
      rw [List.getD_eq_getElem?_getD, List.getD_eq_getElem?_getD, h.untouched place (h.fresh ha hplace)]

theorem Tracks.tryRequestFileId_eq_some (h : inputs.Tracks trace c active)
    (hrun : inputs.runFirst a = .ok resolved)
    (hfile : tryRequestFileId c.shared resolved.request = some file) :
    activated inputs.rules a active = some file.fileId ∧
      inputs.optionalFile file.fileId = some file := by
  obtain ⟨fileId, hrequest, havailable⟩ := Option.bind_eq_some_iff.mp hfile
  rw [h.available] at havailable
  split at havailable
  · cases havailable
  · rename_i hnot
    obtain ⟨-, rfl, -⟩ := optionalFile_eq_some.mp havailable
    refine ⟨activated_eq_some.mpr ⟨(request_eq hrun).trans hrequest, ?_, hnot⟩, havailable⟩
    change (inputs.optionalFile file.fileId).isSome = true
    rw [havailable]
    rfl

theorem Tracks.tryRequestFileId_eq_none (h : inputs.Tracks trace c active)
    (hrun : inputs.runFirst a = .ok resolved)
    (hnone : tryRequestFileId c.shared resolved.request = none) :
    activated inputs.rules a active = none := by
  cases hactivated : activated inputs.rules a active with
  | none => rfl
  | some fileId =>
      obtain ⟨hrequest, hmay, hnot⟩ := activated_eq_some.mp hactivated
      rw [request_eq hrun] at hrequest
      unfold tryRequestFileId at hnone
      rw [hrequest, Option.bind_some, h.available, if_neg hnot] at hnone
      change (inputs.optionalFile fileId).isSome = true at hmay
      rw [hnone] at hmay
      cases hmay

/-- The table after a step. -/
theorem Tracks.record {ts : Multiset (List Action)} {s : Resolving} {rest : List Action}
    (h : inputs.Tracks trace ⟨s, (a :: rest) ::ₘ ts⟩ active)
    (hrun : inputs.runFirst a = .ok resolved) :
    ((s.record a resolved).definitions.length = inputs.symbolDefinitions.length) ∧
      (∀ b ∈ trace ++ [a], ∃ resolved', inputs.runFirst b = .ok resolved' ∧
        ∀ place, b.place = some place →
          (s.record a resolved).definitions[place]? = some resolved'.definition) ∧
      ∀ place, (∀ b ∈ trace ++ [a], b.place ≠ some place) →
        (s.record a resolved).definitions[place]? = inputs.symbolDefinitions[place]? := by
  have hmem : a ∈ outstanding ((a :: rest) ::ₘ ts) := by simp
  have hlength : s.definitions.length = inputs.symbolDefinitions.length := h.length
  cases hplace : a.place with
  | none =>
      have hdefinitions : (s.record a resolved).definitions = s.definitions := by
        unfold Resolving.record
        rw [hplace]
        rfl
      rw [hdefinitions]
      refine ⟨hlength, fun b hb => ?_, fun place hplaces => ?_⟩
      · rcases List.mem_append.mp hb with hb | hb
        · exact h.written b hb
        · obtain rfl := List.mem_singleton.mp hb
          refine ⟨resolved, hrun, fun place hplace' => ?_⟩
          rw [hplace] at hplace'
          cases hplace'
      · exact h.untouched place fun b hb => hplaces b (List.mem_append_left _ hb)
  | some written =>
      have hfresh := h.fresh hmem hplace
      have hdefinitions : (s.record a resolved).definitions
          = s.definitions.set written resolved.definition := by
        unfold Resolving.record
        rw [hplace]
        rfl
      rw [hdefinitions]
      refine ⟨by rw [List.length_set, hlength], fun b hb => ?_, fun place hplaces => ?_⟩
      · rcases List.mem_append.mp hb with hb | hb
        · obtain ⟨resolved', hrun', hwritten⟩ := h.written b hb
          refine ⟨resolved', hrun', fun place hplace' => ?_⟩
          have hne : written ≠ place := fun heq => hfresh b hb (heq ▸ hplace')
          rw [List.getElem?_set_ne hne]
          exact hwritten place hplace'
        · obtain rfl := List.mem_singleton.mp hb
          refine ⟨resolved, hrun, fun place hplace' => ?_⟩
          rw [hplace] at hplace'
          obtain rfl := Option.some.inj hplace'
          exact List.getElem?_set_self (hlength ▸ h.place_lt hmem hplace)
      · have hne : written ≠ place := fun heq =>
          hplaces a (List.mem_append_right _ (List.mem_singleton.mpr rfl)) (heq ▸ hplace)
        rw [List.getElem?_set_ne hne]
        exact h.untouched place fun b hb => hplaces b (List.mem_append_left _ hb)

theorem tracks_start : inputs.Tracks [] inputs.start [] where
  run := .refl
  loaded := (List.append_nil _).symm
  available fileId := by simp [start]
  length := rfl
  written := by simp
  untouched place _ := rfl

theorem handleError_error (s : Resolving) (failure : Failure) :
    (s.handleError failure).error ≠ none := by
  unfold Resolving.handleError
  cases s.error <;> simp

theorem Tracks.step {ts : Multiset (List Action)} {s : Resolving} {t : List Action}
    (h : inputs.Tracks trace ⟨s, t ::ₘ ts⟩ active)
    (hok : (inputs.act t s).shared.error = none) :
    ∃ active', inputs.Tracks (trace ++ (inputs.act t s).events) (exec inputs.act s t ts) active' := by
  have hstep : TaskSystem.Run (Activation.act inputs.rules) _
      (trace ++ (Activation.act inputs.rules t active).events)
      (exec (Activation.act inputs.rules) active t ts) := h.run.step
  cases t with
  | nil =>
      have htrace : trace ++ (inputs.act [] s).events = trace := List.append_nil _
      have hexec : exec inputs.act s [] ts = ⟨s, ts⟩ := by simp [exec, act]
      rw [htrace, hexec]
      simp only [Activation.act, exec, List.append_nil, Multiset.coe_nil, zero_add] at hstep
      exact ⟨active, hstep, h.loaded, h.available, h.length, h.written, h.untouched⟩
  | cons a rest =>
      have hmem : a ∈ outstanding ((a :: rest) ::ₘ ts) := by simp
      have hdefinition : a.definition s.definitions = a.definition inputs.symbolDefinitions :=
        h.definition_eq hmem
      have hact : inputs.act (a :: rest) s = inputs.proceed s a rest (inputs.runFirst a) := by
        unfold runFirst
        rw [← hdefinition]
        rfl
      unfold exec
      rw [hact] at hok ⊢
      cases hrun : inputs.runFirst a with
      | error failure =>
          rw [hrun] at hok
          exact absurd hok (handleError_error s failure)
      | ok resolved =>
          obtain ⟨hlength, hwritten, huntouched⟩ := h.record hrun
          cases hfile : tryRequestFileId s resolved.request with
          | none =>
              have hactivated := h.tryRequestFileId_eq_none hrun hfile
              simp only [Activation.act, hactivated, exec] at hstep
              simp only [proceed, hfile]
              exact ⟨active, hstep, h.loaded, h.available, hlength, hwritten, huntouched⟩
          | some file =>
              obtain ⟨hactivated, hoptional⟩ := h.tryRequestFileId_eq_some hrun hfile
              have hwork : inputs.rules.work file.fileId = inputs.steps file := by
                change (inputs.optionalFile file.fileId).elim [] inputs.steps = _
                rw [hoptional]
                rfl
              simp only [Activation.act, hactivated, exec, hwork] at hstep
              simp only [proceed, hfile]
              refine ⟨active ++ [file.fileId], hstep, ?_, ?_, hlength, hwritten, huntouched⟩
              · change s.loaded ++ [file.fileId] = _
                have hloaded : s.loaded = inputs.initialLoaded ++ active := h.loaded
                rw [hloaded, List.append_assoc]
              · intro fileId
                change Function.update s.definitionsPerFile file.fileId none fileId = _
                have havailable : s.definitionsPerFile fileId = _ := h.available fileId
                by_cases heq : fileId = file.fileId
                · subst heq
                  simp
                · rw [Function.update_of_ne heq, havailable]
                  simp [heq]

/-- An error is not forgotten. -/
theorem error_of_act {t : List Action} {s : Resolving} (h : (inputs.act t s).shared.error = none) :
    s.error = none := by
  cases t with
  | nil => exact h
  | cons a rest =>
      change (inputs.proceed s a rest _).shared.error = none at h
      cases hrun : a.run inputs.platform inputs.db (a.definition s.definitions) with
      | error failure =>
          rw [hrun] at h
          exact absurd h (handleError_error s failure)
      | ok resolved =>
          rw [hrun] at h
          unfold proceed at h
          cases hfile : tryRequestFileId s resolved.request with
          | none =>
              simp only [hfile] at h
              exact h
          | some file =>
              simp only [hfile] at h
              exact h

/-- In a run without error, files are activated one by one. -/
theorem tracks_of_run (hrun : TaskSystem.Run inputs.act inputs.start trace c) (hok : c.shared.error = none) :
    ∃ active, inputs.Tracks trace c active := by
  induction hrun with
  | refl => exact ⟨[], tracks_start⟩
  | step _ ih =>
      obtain ⟨active, htracks⟩ := ih (error_of_act hok)
      exact htracks.step hok

end ResolutionInputs

end JdxLinker.Resolution
