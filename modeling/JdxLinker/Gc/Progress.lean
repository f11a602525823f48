import JdxLinker.Gc.Closure

/-!
# Progress of the traversal

Processing an item asks for exactly what its target asks for, unless that has been asked for before,
and leaves its file in a good state.
-/

namespace JdxLinker

open TaskSystem Sums

variable {inputs : GraphInputs} {trace trace' : List GcEvent} {tasks tasks' : Multiset GcTask}

theorem FileOk.mono {fileId : FileId} {file : FileInput} {state : FileLayoutState}
    (h : FileOk inputs trace tasks fileId file state)
    (hprocessed : ∀ i, .processed (.loadGcUnit fileId i) ∈ trace' →
      .processed (.loadGcUnit fileId i) ∈ trace)
    (hasked : ∀ item, Asked trace tasks item → Asked trace' tasks' item)
    (hanswered : ∀ request, Answered inputs trace tasks request →
      Answered inputs trace' tasks' request) : FileOk inputs trace' tasks' fileId file state := by
  cases file with
  | object obj =>
      cases state with
      | object sections =>
          refine ⟨h.1, fun i sec slot hsec hslot => ?_⟩
          rcases h.2 i sec slot hsec hslot with ⟨hsame, hload⟩ | ⟨hsame, hneeded, hrequests⟩
          · exact Or.inl ⟨hsame, fun hmem => hload (hprocessed i hmem)⟩
          · exact Or.inr ⟨hsame, hneeded, fun r hr => hanswered r (hrequests r hr)⟩
      | _ => exact h
  | syntheticSymbols sectionIds initial =>
      cases state with
      | syntheticSymbols startStopSections =>
          intro j
          rcases h j with hsame | ⟨hempty, hcandidates⟩
          · exact Or.inl hsame
          · exact Or.inr ⟨hempty, fun c hc => hasked _ (hcandidates c hc)⟩
      | _ => exact h
  | _ => cases state <;> exact h

/-! ### One item -/

section DoWork

variable {item : WorkItem} {file : FileInput} {state state' : FileLayoutState}
  {requests : List Request}

theorem doWork_input (hdo : inputs.doWork state item = .ok (state', requests)) :
    ∀ request ∈ requests, inputs.InputRequest request := by
  intro request hrequest
  cases item with
  | loadGlobalSymbol symbol =>
      cases state with
      | object sections =>
          cases hdo
          exact inputs.loadObjectSymbol_input symbol request hrequest
      | syntheticSymbols startStopSections =>
          simp only [GraphInputs.doWork, GraphInputs.loadSyntheticSymbol] at hdo
          split at hdo
          · split at hdo
            · cases hdo
              obtain ⟨candidate, -, rfl⟩ := List.mem_map.mp hrequest
              trivial
            · cases hdo
              simp at hrequest
          · cases hdo
            simp at hrequest
      | dynamic =>
          cases hdo
          simp at hrequest
      | other =>
          cases hdo
          simp at hrequest
  | copyRelocateSymbol symbol =>
      cases state <;> cases hdo
      simp at hrequest
  | loadGcUnit fileId gcUnit =>
      cases state with
      | object sections =>
          obtain ⟨slot, sec, -, -, -, rfl⟩ := inputs.handleSectionLoadRequest_ok hdo
          unfold GraphInputs.slotRequests at hrequest
          split at hrequest
          · exact inputs.loadSection_input sec request hrequest
          · exact inputs.loadSection_input sec request hrequest
          · simp at hrequest
      | _ => cases hdo
  | exportDynamic symbol =>
      cases state with
      | object sections =>
          cases hdo
          exact inputs.exportDynamic_input symbol sections request hrequest
      | _ =>
          cases hdo
          simp at hrequest

/-- A section's slot is the discarded one from the start or never. -/
theorem FileOk.discard {fileId : FileId} {obj : ObjectInput} {sections : List SectionSlot}
    (h : FileOk inputs trace tasks fileId (.object obj) (.object sections)) (i : Nat) :
    sections[i]? = some .discard ↔ (obj.sections.map (·.slot))[i]? = some .discard := by
  rw [List.getElem?_map]
  cases hsec : obj.sections[i]? with
  | none =>
      have hslot : sections[i]? = none := by
        rw [List.getElem?_eq_none_iff] at hsec ⊢
        exact h.1 ▸ hsec
      simp [hslot]
  | some sec =>
      have hlt : i < sections.length := h.1 ▸ (List.getElem?_eq_some_iff.mp hsec).1
      have hslot := List.getElem?_eq_getElem hlt
      rw [hslot]
      rcases h.2 i sec _ hsec hslot with ⟨hsame, -⟩ | ⟨hsame, -, -⟩
      · simp [hsame]
      · simp [hsame, SectionSlot.load_eq_discard]

theorem FileOk.exportDynamic {fileId : FileId} {obj : ObjectInput} {sections : List SectionSlot}
    (h : FileOk inputs trace tasks fileId (.object obj) (.object sections)) (symbol : SymbolId) :
    inputs.exportDynamic symbol sections
      = inputs.exportDynamic symbol (obj.sections.map (·.slot)) := by
  unfold GraphInputs.exportDynamic
  split
  · rename_i objectSymbol _
    cases hindex : objectSymbol.sectionIndex with
    | none => rfl
    | some i => simp only [Option.bind_some, h.discard i]
  · rfl

/-- What processing an item asks for is needed if the item is. -/
theorem doWork_needed (hfile : inputs.file? item.fileId = some file)
    (hok : FileOk inputs trace tasks item.fileId file state)
    (hdo : inputs.doWork state item = .ok (state', requests))
    (hneeded : ∀ source, item.target = some source → inputs.Needed source) :
    ∀ request target, request ∈ requests → inputs.requestTarget request = some target →
      inputs.Needed target := by
  intro request target hrequest htarget
  cases item with
  | loadGlobalSymbol symbol =>
      have hsource := hneeded _ rfl
      cases state with
      | object sections =>
          cases file with
          | object obj =>
              cases hdo
              rw [inputs.loadObjectSymbol_eq hfile] at hrequest
              exact .requested hsource hrequest htarget
          | _ => exact hok.elim
      | syntheticSymbols startStopSections =>
          cases file with
          | syntheticSymbols sectionIds initial =>
              have hfile' : inputs.file? symbol.file = some (.syntheticSymbols sectionIds initial) :=
                hfile
              simp only [GraphInputs.doWork, GraphInputs.loadSyntheticSymbol, hfile'] at hdo
              cases hid : sectionIds[symbol.offset]?.join with
              | none =>
                  rw [hid] at hdo
                  cases hdo
                  simp at hrequest
              | some sectionId =>
                  rw [hid] at hdo
                  cases hdo
                  obtain ⟨candidate, hcandidate, rfl⟩ := List.mem_map.mp hrequest
                  rcases hok sectionId with hsame | ⟨hempty, -⟩
                  · have hsent : inputs.requestTarget
                        (.send (.loadGcUnit candidate.1 candidate.2)) = some target := htarget
                    refine GraphInputs.Needed.requested hsource ?_ hsent
                    simp only [GraphInputs.targetRequests, GraphInputs.symbolItems, hfile', hid]
                    exact List.mem_map_of_mem (List.mem_map_of_mem (hsame ▸ hcandidate))
                  · simp [hempty] at hcandidate
          | _ => exact hok.elim
      | dynamic =>
          cases hdo
          simp at hrequest
      | other =>
          cases hdo
          simp at hrequest
  | copyRelocateSymbol symbol =>
      cases state <;> cases hdo
      simp at hrequest
  | loadGcUnit fileId gcUnit =>
      cases state with
      | object sections =>
          cases file with
          | object obj =>
              obtain ⟨slot, sec, hslot, hsec, -, rfl⟩ := inputs.handleSectionLoadRequest_ok hdo
              have hsec' : obj.sections[gcUnit]? = some sec := by
                simpa only [GraphInputs.sectionInput?, show inputs.file? fileId = _ from hfile]
                  using hsec
              rcases hok.2 gcUnit sec slot hsec' hslot with ⟨rfl, -⟩ | ⟨rfl, -, -⟩
              · refine .requested (hneeded _ rfl) ?_ htarget
                simp only [GraphInputs.targetRequests, hsec, Option.map_some, Option.getD_some]
                exact hrequest
              · rw [inputs.slotRequests_load] at hrequest
                simp at hrequest
          | _ => exact hok.elim
      | _ => cases hdo
  | exportDynamic symbol =>
      cases state with
      | object sections =>
          cases file with
          | object obj =>
              cases hdo
              refine .requested (hneeded _ rfl) ?_ htarget
              simp only [GraphInputs.targetRequests, show inputs.file? symbol.file = _ from hfile]
              rwa [← hok.exportDynamic]
          | _ => exact hok.elim
      | _ =>
          cases hdo
          simp at hrequest

/-- A section that is asked for is loaded, and its requests are taken care of. -/
theorem SectionOk.load {fileId : FileId} {i : Nat} {sec : SectionInput} {slot : SectionSlot}
    (h : SectionOk inputs trace tasks fileId i sec slot)
    (hrequests : ∀ request ∈ inputs.slotRequests slot sec, Outstanding tasks' request)
    (hanswered : ∀ request, Answered inputs trace tasks request →
      Answered inputs trace' tasks' request) :
    slot.load = sec.slot.load ∧ ∀ request ∈ inputs.sectionRequests sec,
      Answered inputs trace' tasks' request := by
  rcases h with ⟨rfl, -⟩ | ⟨rfl, -, hold⟩
  · exact ⟨rfl, fun r hr => Or.inl (hrequests r hr)⟩
  · exact ⟨sec.slot.load_load, fun r hr => hanswered r (hold r hr)⟩

/-- What the target of an item asks for is taken care of once the item has been processed. -/
theorem doWork_answered {target : Target} (hfile : inputs.file? item.fileId = some file)
    (hok : FileOk inputs trace tasks item.fileId file state)
    (hdo : inputs.doWork state item = .ok (state', requests)) (htarget : item.target = some target)
    (hrequests : ∀ request ∈ requests, Outstanding tasks' request)
    (hasked : ∀ item, Asked trace tasks item → Asked trace' tasks' item)
    (hanswered : ∀ request, Answered inputs trace tasks request →
      Answered inputs trace' tasks' request) :
    ∀ request ∈ inputs.targetRequests target, Answered inputs trace' tasks' request := by
  intro request hrequest
  cases item with
  | loadGlobalSymbol symbol =>
      cases htarget
      have hfile' : inputs.file? symbol.file = some file := hfile
      cases file with
      | object obj =>
          cases state with
          | object sections =>
              cases hdo
              rw [inputs.loadObjectSymbol_eq hfile] at hrequests
              exact Or.inl (hrequests request hrequest)
          | _ => exact hok.elim
      | syntheticSymbols sectionIds initial =>
          cases state with
          | syntheticSymbols startStopSections =>
              simp only [GraphInputs.doWork, GraphInputs.loadSyntheticSymbol, hfile'] at hdo
              simp only [GraphInputs.targetRequests, GraphInputs.symbolItems, hfile'] at hrequest
              cases hid : sectionIds[symbol.offset]?.join with
              | none => simp [hid] at hrequest
              | some sectionId =>
                  rw [hid] at hdo
                  cases hdo
                  simp only [hid, List.map_map] at hrequest
                  obtain ⟨candidate, hcandidate, rfl⟩ := List.mem_map.mp hrequest
                  refine Or.inr ?_
                  rcases hok sectionId with hsame | ⟨-, hcandidates⟩
                  · rw [hsame] at hrequests
                    exact Or.inr (Or.inr (hrequests _ (List.mem_map_of_mem hcandidate)))
                  · exact hasked _ (hcandidates candidate hcandidate)
          | _ => exact hok.elim
      | _ => simp [GraphInputs.targetRequests, GraphInputs.symbolItems, hfile'] at hrequest
  | copyRelocateSymbol symbol => cases htarget
  | loadGcUnit fileId gcUnit =>
      cases htarget
      cases state with
      | object sections =>
          cases file with
          | object obj =>
              obtain ⟨slot, sec, hslot, hsec, -, rfl⟩ := inputs.handleSectionLoadRequest_ok hdo
              have hsec' : obj.sections[gcUnit]? = some sec := by
                simpa only [GraphInputs.sectionInput?, show inputs.file? fileId = _ from hfile]
                  using hsec
              simp only [GraphInputs.targetRequests, hsec, Option.map_some, Option.getD_some]
                at hrequest
              exact ((hok.2 gcUnit sec slot hsec' hslot).load hrequests hanswered).2
                request hrequest
          | _ => exact hok.elim
      | _ => cases hdo
  | exportDynamic symbol =>
      cases htarget
      have hfile' : inputs.file? symbol.file = some file := hfile
      cases file with
      | object obj =>
          cases state with
          | object sections =>
              cases hdo
              simp only [GraphInputs.targetRequests, hfile'] at hrequest
              rw [hok.exportDynamic] at hrequests
              exact Or.inl (hrequests request hrequest)
          | _ => exact hok.elim
      | _ => simp [GraphInputs.targetRequests, hfile'] at hrequest

theorem doWork_fileOk (hfile : inputs.file? item.fileId = some file)
    (hok : FileOk inputs trace tasks item.fileId file state)
    (hdo : inputs.doWork state item = .ok (state', requests))
    (hneeded : ∀ source, item.target = some source → inputs.Needed source)
    (hrequests : ∀ request ∈ requests, Outstanding tasks' request)
    (hprocessed : ∀ item', .processed item' ∈ trace' → .processed item' ∈ trace ∨ item' = item)
    (hasked : ∀ item, Asked trace tasks item → Asked trace' tasks' item)
    (hanswered : ∀ request, Answered inputs trace tasks request →
      Answered inputs trace' tasks' request) :
    FileOk inputs trace' tasks' item.fileId file state' := by
  have hsame : (∀ i, item ≠ .loadGcUnit item.fileId i) →
      FileOk inputs trace' tasks' item.fileId file state := fun hother =>
    hok.mono (fun i hmem => (hprocessed _ hmem).resolve_right fun heq => hother i heq.symm) hasked
      hanswered
  cases item with
  | loadGlobalSymbol symbol =>
      have hother : FileOk inputs trace' tasks' symbol.file file state := hsame (by simp)
      cases state with
      | object sections =>
          cases hdo
          exact hother
      | syntheticSymbols startStopSections =>
          cases file with
          | syntheticSymbols sectionIds initial =>
              have hfile' : inputs.file? symbol.file = some (.syntheticSymbols sectionIds initial) :=
                hfile
              simp only [GraphInputs.doWork, GraphInputs.loadSyntheticSymbol, hfile'] at hdo
              cases hid : sectionIds[symbol.offset]?.join with
              | none =>
                  rw [hid] at hdo
                  cases hdo
                  exact hother
              | some sectionId =>
                  rw [hid] at hdo
                  cases hdo
                  intro j
                  by_cases hj : j = sectionId
                  · subst hj
                    refine Or.inr ⟨?_, fun candidate hcandidate => ?_⟩
                    · rw [List.getElem?_set_self']
                      cases startStopSections[j]? <;> rfl
                    · rcases hok j with hsame | ⟨-, hcandidates⟩
                      · rw [hsame] at hrequests
                        exact Or.inr (Or.inr (hrequests _ (List.mem_map_of_mem hcandidate)))
                      · exact hasked _ (hcandidates candidate hcandidate)
                  · rw [List.getElem?_set_ne (Ne.symm hj)]
                    exact hother j
          | _ => exact hok.elim
      | dynamic =>
          cases hdo
          exact hother
      | other =>
          cases hdo
          exact hother
  | copyRelocateSymbol symbol =>
      cases state <;> cases hdo
      exact hsame (by simp)
  | loadGcUnit fileId gcUnit =>
      cases state with
      | object sections =>
          cases file with
          | object obj =>
              obtain ⟨slot, sec, hslot, hsec, rfl, rfl⟩ := inputs.handleSectionLoadRequest_ok hdo
              have hsec' : obj.sections[gcUnit]? = some sec := by
                simpa only [GraphInputs.sectionInput?, show inputs.file? fileId = _ from hfile]
                  using hsec
              obtain ⟨hload, hdone⟩ := (hok.2 gcUnit sec slot hsec' hslot).load hrequests
                hanswered
              refine ⟨by rw [List.length_set, hok.1], fun i sec' slot' hsec'' hslot' => ?_⟩
              by_cases hi : gcUnit = i
              · subst hi
                obtain rfl := Option.some.inj (hsec'.symm.trans hsec'')
                rw [List.getElem?_set_self (List.getElem?_eq_some_iff.mp hslot).1] at hslot'
                obtain rfl := Option.some.inj hslot'
                exact Or.inr ⟨hload, hneeded _ rfl, hdone⟩
              · rw [List.getElem?_set_ne hi] at hslot'
                rcases hok.2 i sec' slot' hsec'' hslot' with ⟨heq, hmem⟩ | ⟨heq, hneed, hold⟩
                · refine Or.inl ⟨heq, fun h => hmem ((hprocessed _ h).resolve_right fun heq' => ?_)⟩
                  simp only [WorkItem.loadGcUnit.injEq] at heq'
                  exact hi heq'.2.symm
                · exact Or.inr ⟨heq, hneed, fun r hr => hanswered r (hold r hr)⟩
          | _ => exact hok.elim
      | _ => cases hdo
  | exportDynamic symbol =>
      have hother : FileOk inputs trace' tasks' symbol.file file state := hsame (by simp)
      cases state <;> cases hdo <;> exact hother

end DoWork

end JdxLinker
