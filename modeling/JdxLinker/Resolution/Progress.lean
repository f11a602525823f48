import JdxLinker.Lib.Sums
import JdxLinker.Resolution.Places

/-!
# Runs end

Every step takes something off the work that is left, where the work of the files that have not been
loaded counts too. So a run can always be finished. It has no error unless some step fails.
-/

namespace JdxLinker.Resolution

open TaskSystem Sums

namespace ResolutionInputs

variable {inputs : ResolutionInputs} {s : Resolving} {file : FileDefinitions}

/-- The steps of a work item, and its end. -/
def itemSize (steps : List Action) : Nat := steps.length + 1

/-- The work of a file that has not been loaded. -/
def fileSize (inputs : ResolutionInputs) (s : Resolving) (file : FileDefinitions) : Nat :=
  if (s.definitionsPerFile file.fileId).isSome then taskSum itemSize (inputs.steps file) else 0

/-- The work that is left. -/
def workLeft (inputs : ResolutionInputs) (c : Config Resolving (List Action)) : Nat :=
  taskSum itemSize c.tasks + slotSum (inputs.fileSize c.shared) inputs.definitionsPerFile

/-- Only files that may be left out are still to be taken. -/
def OnlyOptional (inputs : ResolutionInputs) (s : Resolving) : Prop :=
  ∀ fileId file, s.definitionsPerFile fileId = some file → inputs.optionalFile fileId = some file

theorem definitionsPerFile_take_self (s : Resolving) (file : FileDefinitions) :
    (s.take file).definitionsPerFile file.fileId = none := Function.update_self _ _ _

theorem definitionsPerFile_take_of_ne {fileId : FileId} (h : fileId ≠ file.fileId) :
    (s.take file).definitionsPerFile fileId = s.definitionsPerFile fileId :=
  Function.update_of_ne h _ _

theorem OnlyOptional.take (h : inputs.OnlyOptional s) (file : FileDefinitions) :
    inputs.OnlyOptional (s.take file) := by
  intro fileId file' hfile
  by_cases heq : fileId = file.fileId
  · subst heq
    rw [definitionsPerFile_take_self] at hfile
    cases hfile
  · rw [definitionsPerFile_take_of_ne heq] at hfile
    exact h fileId file' hfile

theorem OnlyOptional.step {t : List Action} (h : inputs.OnlyOptional s) :
    inputs.OnlyOptional (inputs.act t s).shared := by
  cases t with
  | nil => exact h
  | cons a rest =>
      change inputs.OnlyOptional (inputs.proceed s a rest _).shared
      cases a.run inputs.platform inputs.db (a.definition s.definitions) with
      | error failure => exact h
      | ok resolved =>
          cases hfile : tryRequestFileId s resolved.request with
          | none =>
              simp only [proceed, hfile]
              exact h
          | some file =>
              simp only [proceed, hfile]
              exact OnlyOptional.take (s := s.record a resolved) h file

theorem onlyOptional_start : inputs.OnlyOptional inputs.start.shared := fun _ _ h => h

theorem mem_of_tryRequestFileId (h : inputs.OnlyOptional s) {request : Option FileId}
    (hfile : tryRequestFileId s request = some file) :
    file ∈ inputs.definitionsPerFile ∧ s.definitionsPerFile file.fileId = some file := by
  obtain ⟨fileId, -, hfile⟩ := Option.bind_eq_some_iff.mp hfile
  obtain ⟨hmem, rfl, -⟩ := optionalFile_eq_some.mp (h fileId file hfile)
  exact ⟨hmem, hfile⟩

/-- The work of a file that is taken is left no more. -/
theorem slotSum_take (h : file ∈ inputs.definitionsPerFile)
    (hfile : s.definitionsPerFile file.fileId = some file) :
    slotSum (inputs.fileSize (s.take file)) inputs.definitionsPerFile
        + taskSum itemSize (inputs.steps file)
      ≤ slotSum (inputs.fileSize s) inputs.definitionsPerFile := by
  refine slotSum_add_le h (fun other _ => ?_) ?_
  · by_cases heq : other.fileId = file.fileId
    · have hnone := definitionsPerFile_take_self s file
      rw [← heq] at hnone
      simp [fileSize, hnone]
    · simp [fileSize, definitionsPerFile_take_of_ne heq]
  · simp [fileSize, definitionsPerFile_take_self, hfile]

theorem workLeft_step {t : List Action} {ts : Multiset (List Action)}
    (h : inputs.OnlyOptional s) :
    inputs.workLeft (exec inputs.act s t ts) < inputs.workLeft ⟨s, t ::ₘ ts⟩ := by
  unfold workLeft exec
  dsimp only
  rw [taskSum_add, taskSum_cons]
  cases t with
  | nil =>
      simp only [act, taskSum_coe_nil, itemSize, List.length_nil]
      omega
  | cons a rest =>
      have hact : inputs.act (a :: rest) s = inputs.proceed s a rest
        (a.run inputs.platform inputs.db (a.definition s.definitions)) := rfl
      rw [hact]
      cases a.run inputs.platform inputs.db (a.definition s.definitions) with
      | error failure =>
          simp only [proceed, taskSum_coe_nil, itemSize, List.length_cons]
          have hsame : inputs.fileSize (s.handleError failure) = inputs.fileSize s := rfl
          rw [hsame]
          omega
      | ok resolved =>
          have hsame : inputs.fileSize (s.record a resolved) = inputs.fileSize s := rfl
          cases hfile : tryRequestFileId s resolved.request with
          | none =>
              simp only [proceed, hfile, taskSum_coe_cons, taskSum_coe_nil, itemSize,
                List.length_cons, hsame]
              omega
          | some file =>
              obtain ⟨hmem, havailable⟩ := mem_of_tryRequestFileId h hfile
              have hlost := slotSum_take (s := s.record a resolved) hmem havailable
              rw [hsame] at hlost
              simp only [proceed, hfile, taskSum_coe_cons, itemSize, List.length_cons]
              omega

/-- Every run can be finished. -/
theorem exists_finished {c : Config Resolving (List Action)} (h : inputs.OnlyOptional c.shared) :
    ∃ trace s', TaskSystem.Run inputs.act c trace ⟨s', 0⟩ := by
  obtain ⟨trace, s', hrun, -⟩ := TaskSystem.exists_finished
    (I := fun c => inputs.OnlyOptional c.shared) (μ := inputs.workLeft)
    (fun _ _ _ h => h.step) (fun _ _ _ h => workLeft_step h) h
  exact ⟨trace, s', hrun⟩

end ResolutionInputs

end JdxLinker.Resolution
