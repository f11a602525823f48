import JdxLinker.Gc.Preservation

/-!
# The traversal

Whatever the order, a traversal without errors does every piece of work once, puts every worker back
into its slot, and loads the sections that are needed and no others.
-/

namespace JdxLinker

open TaskSystem Sums

variable {inputs : GraphInputs} {trace : List GcEvent} {s : GraphResources}

/-! ### The start -/

theorem mem_initialTasks {t : GcTask} (h : t ∈ (inputs.initialTasks : Multiset GcTask)) :
    ∃ index files, inputs.groups[index]? = some files ∧ t = inputs.initialTask index files := by
  obtain ⟨⟨files, index⟩, hmem, rfl⟩ := List.mem_map.mp (Multiset.mem_coe.mp h)
  exact ⟨index, files, List.mem_zipIdx_iff_getElem?.mp hmem, rfl⟩

theorem file?_of_group {index f : Nat} {files : List FileInput}
    (h : inputs.groups[index]? = some files) : inputs.file? ⟨index, f⟩ = files[f]? := by
  simp [GraphInputs.file?, h]

theorem outstanding_initialTasks {request : Request} :
    Outstanding inputs.initialTasks request
      ↔ ∃ fileId file, inputs.file? fileId = some file ∧ request ∈ inputs.activate fileId file := by
  constructor
  · rintro ⟨t, ht, hrequest⟩
    obtain ⟨index, files, hfiles, rfl⟩ := mem_initialTasks ht
    obtain ⟨requests, hrequests, hrequest⟩ := List.mem_flatten.mp hrequest
    obtain ⟨⟨file, f⟩, hfile, rfl⟩ := List.mem_map.mp hrequests
    exact ⟨⟨index, f⟩, file, (file?_of_group hfiles).trans (List.mem_zipIdx_iff_getElem?.mp hfile),
      hrequest⟩
  · rintro ⟨fileId, file, hfile, hrequest⟩
    obtain ⟨files, hfiles, hfile⟩ := Option.bind_eq_some_iff.mp hfile
    refine ⟨inputs.initialTask fileId.group files, ?_, ?_⟩
    · exact List.mem_map.mpr ⟨(files, fileId.group), List.mem_zipIdx_iff_getElem?.mpr hfiles, rfl⟩
    · exact List.mem_flatten.mpr ⟨_, List.mem_map.mpr
        ⟨(file, fileId.file), List.mem_zipIdx_iff_getElem?.mpr hfile, rfl⟩, hrequest⟩

theorem createLayoutState_ok (tasks : Multiset GcTask) (fileId : FileId) (file : FileInput) :
    FileOk inputs [] tasks fileId file file.createLayoutState := by
  cases file with
  | object obj =>
      refine ⟨List.length_map _, fun i sec slot hsec hslot => Or.inl ⟨?_, by simp⟩⟩
      rw [List.getElem?_map, hsec] at hslot
      exact (Option.some.inj hslot).symm
  | syntheticSymbols sectionIds startStopSections => exact fun j => Or.inl rfl
  | _ => trivial

theorem init_closureInv (inputs : GraphInputs) :
    ClosureInv inputs [] ⟨inputs.initialResources, inputs.initialTasks⟩ where
  grown _ h := h
  flags _ h := Or.inl h
  setFlags symbol flags h := by
    obtain ⟨fileId, file, hfile, hrequest⟩ := outstanding_initialTasks.mp h
    refine Or.inr (Or.inr fun item hitem => ?_)
    rw [show inputs.symbolItems symbol = [] from inputs.activate_input hfile _ hrequest] at hitem
    simp at hitem
  exports symbol h := by
    obtain ⟨fileId, file, hfile, hrequest⟩ := outstanding_initialTasks.mp h
    exact inputs.activate_input hfile _ hrequest
  activated fileId file hfile request hrequest :=
    Or.inl (outstanding_initialTasks.mpr ⟨fileId, file, hfile, hrequest⟩)
  processed _ _ h := by simp at h
  needed request target h htarget := by
    obtain ⟨fileId, file, hfile, hrequest⟩ := outstanding_initialTasks.mp h
    exact .activated hfile hrequest htarget
  sent _ _ h := by simp at h
  taskFiles t ht f := by
    obtain ⟨index, files, hfiles, rfl⟩ := mem_initialTasks ht
    simp only [GraphInputs.initialTask, GcTask.group, GraphInputs.newGroup, List.getElem?_map,
      file?_of_group hfiles]
    cases files[f]? with
    | none => exact .none
    | some file => exact .some (createLayoutState_ok _ _ file)
  slotFiles slot hslot worker hworker := by
    rw [List.eq_of_mem_replicate hslot] at hworker
    cases hworker
  taskWork t ht item hitem := by
    obtain ⟨index, files, hfiles, rfl⟩ := mem_initialTasks ht
    simp [GraphInputs.initialTask, GcTask.group, GraphInputs.newGroup] at hitem
  slotWork i slot hslot item hitem := by
    rw [List.eq_of_mem_replicate (List.mem_of_getElem? hslot)] at hitem
    simp at hitem

theorem GraphInputs.TraversalRun.closure {c : Config GraphResources GcTask}
    (hrun : inputs.TraversalRun trace c) (herrors : c.shared.errors = []) :
    ClosureInv inputs trace c := by
  refine (Run.invariant hrun (I := fun trace c => c.shared.errors = [] →
    DeliveryInv inputs.groups.length trace c ∧ ClosureInv inputs trace c) ?_ ?_ herrors).2
  · exact fun _ => ⟨init_deliveryInv inputs, init_closureInv inputs⟩
  · intro trace s t ts ih herrors
    obtain ⟨hdelivery, hclosure⟩ := ih (GraphInputs.act_errors herrors)
    have hact := GraphInputs.act_action herrors
    exact ⟨hdelivery.action_inv hact, hclosure.action_inv hdelivery hact⟩

/-! ### The end -/

/-- What a target asked for has been done. -/
def Reached (inputs : GraphInputs) (trace : List GcEvent) : Target → Prop
  | .symbol symbol => ∀ item ∈ inputs.symbolItems symbol, .processed item ∈ trace
  | .gcUnit file gcUnit => .processed (.loadGcUnit file gcUnit) ∈ trace
  | .exportDynamic symbol => .processed (.exportDynamic symbol) ∈ trace

namespace DeliveryInv

variable {numGroups : Nat}

/-- When no task is left, every slot has its worker and no work. -/
theorem slot_eq (h : DeliveryInv numGroups trace ⟨s, 0⟩) {i : Nat} (hi : i < numGroups) :
    ∃ worker, s.workerSlots[i]? = some ⟨[], some worker⟩ ∧ worker.index = i
      ∧ worker.localWork = [] := by
  have howner : i ∈ slotSum WorkerSlot.owner s.workerSlots := by
    have howners := h.owners
    rw [JdxLinker.owners, taskSum_zero, add_zero] at howners
    rw [howners]
    exact Multiset.mem_range.mpr hi
  obtain ⟨slot, hslot, howner⟩ := mem_slotSum howner
  obtain ⟨j, hj⟩ := List.mem_iff_getElem?.mp hslot
  cases hworker : slot.worker with
  | none => simp [WorkerSlot.owner, hworker] at howner
  | some worker =>
      have hok := h.waiting j slot worker hj hworker
      obtain rfl : i = j := by
        have hindex : i = worker.index := by simpa [WorkerSlot.owner, hworker] using howner
        exact hindex.trans hok.index
      refine ⟨worker, ?_, hok.index, hok.localWork⟩
      rw [hj, ← hok.work, ← hworker]

theorem sent_eq (h : DeliveryInv numGroups trace ⟨s, 0⟩) :
    sentItems trace = processedItems trace := by
  have hpending : slotSum (fun slot => (slot.work : Multiset WorkItem)) s.workerSlots = 0 := by
    refine List.sum_eq_zero fun work hwork => ?_
    obtain ⟨slot, hslot, rfl⟩ := List.mem_map.mp hwork
    obtain ⟨i, hi⟩ := List.mem_iff_getElem?.mp hslot
    have hlt : i < numGroups := h.slots_length ▸ (List.getElem?_eq_some_iff.mp hi).1
    obtain ⟨worker, hworker, -, -⟩ := h.slot_eq hlt
    rw [hi] at hworker
    rw [Option.some.inj hworker]
    rfl
  rw [h.sent, pending, hpending, taskSum_zero, add_zero, add_zero]

theorem processed_of_sent (h : DeliveryInv numGroups trace ⟨s, 0⟩) {item : WorkItem}
    (hitem : .sent item ∈ trace) : .processed item ∈ trace := by
  have hsent : item ∈ sentItems trace :=
    Multiset.mem_coe.mpr (List.mem_filterMap.mpr ⟨_, hitem, rfl⟩)
  rw [h.sent_eq] at hsent
  obtain ⟨event, hevent, hsome⟩ := List.mem_filterMap.mp (Multiset.mem_coe.mp hsent)
  cases event with
  | sent item' => cases hsome
  | processed item' =>
      cases hsome
      exact hevent

/-- The workers come back in the order of their groups. -/
theorem unwrap_eq (h : DeliveryInv numGroups trace ⟨s, 0⟩) :
    (unwrapWorkerStates s.workerSlots).map some = s.workerSlots.map (·.worker) := by
  have hsome : ∀ slot ∈ s.workerSlots, slot.worker.isSome := by
    intro slot hslot
    obtain ⟨i, hi⟩ := List.mem_iff_getElem?.mp hslot
    have hlt : i < numGroups := h.slots_length ▸ (List.getElem?_eq_some_iff.mp hi).1
    obtain ⟨worker, hworker, -, -⟩ := h.slot_eq hlt
    rw [hi] at hworker
    rw [Option.some.inj hworker]
    rfl
  unfold unwrapWorkerStates
  generalize s.workerSlots = slots at hsome ⊢
  induction slots with
  | nil => rfl
  | cons slot slots ih =>
      obtain ⟨worker, hworker⟩ := Option.isSome_iff_exists.mp (hsome slot List.mem_cons_self)
      rw [List.filterMap_cons_some hworker, List.map_cons, List.map_cons, hworker,
        ih fun slot' hslot' => hsome slot' (List.mem_cons_of_mem _ hslot')]

theorem unwrap_getElem? (h : DeliveryInv numGroups trace ⟨s, 0⟩) {i : Nat} (hi : i < numGroups) :
    ∃ worker, (unwrapWorkerStates s.workerSlots)[i]? = some worker
      ∧ s.workerSlots[i]? = some ⟨[], some worker⟩ ∧ worker.index = i ∧ worker.localWork = [] := by
  obtain ⟨worker, hslot, hindex, hwork⟩ := h.slot_eq hi
  have hget := congrArg (·[i]?) h.unwrap_eq
  simp only [List.getElem?_map, hslot, Option.map_some] at hget
  obtain ⟨worker', hworker', heq⟩ := Option.map_eq_some_iff.mp hget
  exact ⟨worker, by rw [hworker', Option.some.inj heq], hslot, hindex, hwork⟩

end DeliveryInv

section End

variable (hd : DeliveryInv inputs.groups.length trace ⟨s, 0⟩) (hc : ClosureInv inputs trace ⟨s, 0⟩)

include hd in
theorem asked_processed {item : WorkItem} (h : Asked trace 0 item) : .processed item ∈ trace := by
  rcases h with h | ⟨t, ht, -⟩ | ⟨t, ht, -⟩
  · exact hd.processed_of_sent h
  · simp at ht
  · simp at ht

include hd hc in
theorem covered_reached {symbol : SymbolId} (h : Covered inputs trace 0 symbol)
    (hstart : (inputs.symbolFlags symbol).hasResolution = false) :
    Reached inputs trace (.symbol symbol) := by
  rcases h with h | h | h
  · simp [hstart] at h
  · intro item hitem
    have hmem : Request.send item ∈ inputs.targetRequests (.symbol symbol) :=
      List.mem_map_of_mem hitem
    rcases hc.processed _ _ (asked_processed hd h) rfl _ hmem with ⟨t, ht, -⟩ | hasked
    · simp at ht
    · exact asked_processed hd hasked
  · exact fun item hitem => asked_processed hd (h item hitem)

include hd hc in
theorem item_reached {item : WorkItem} {target : Target} (hitem : .processed item ∈ trace)
    (htarget : item.target = some target) : Reached inputs trace target := by
  cases item with
  | loadGlobalSymbol symbol =>
      cases htarget
      intro item' hitem'
      have hmem : Request.send item' ∈ inputs.targetRequests (.symbol symbol) :=
        List.mem_map_of_mem hitem'
      rcases hc.processed _ _ hitem rfl _ hmem with ⟨t, ht, -⟩ | hasked
      · simp at ht
      · exact asked_processed hd hasked
  | copyRelocateSymbol symbol => cases htarget
  | loadGcUnit fileId gcUnit =>
      cases htarget
      exact hitem
  | exportDynamic symbol =>
      cases htarget
      exact hitem

include hd hc in
theorem answered_reached {request : Request} {target : Target}
    (h : Answered inputs trace 0 request) (htarget : inputs.requestTarget request = some target) :
    Reached inputs trace target := by
  rcases h with ⟨t, ht, -⟩ | h
  · simp at ht
  · cases request with
    | reference reference =>
        obtain ⟨hstart, hsymbol⟩ := Option.ite_none_left_eq_some.mp htarget
        cases hsymbol
        exact covered_reached hd hc h (by simpa using hstart)
    | exportSymbol symbol =>
        obtain ⟨hstart, hsymbol⟩ := Option.ite_none_left_eq_some.mp htarget
        cases hsymbol
        exact covered_reached hd hc h (by simpa using hstart)
    | send item => exact item_reached hd hc (asked_processed hd h) htarget
    | sendToSlot item => exact item_reached hd hc (asked_processed hd h) htarget
    | setFlags symbol flags => cases htarget
    | fail error => cases htarget

include hd hc in
/-- Everything that is needed has been reached. -/
theorem needed_reached {target : Target} (h : inputs.Needed target) :
    Reached inputs trace target := by
  refine GraphInputs.Needed.least inputs h ?_ ?_
  · intro fileId file request target hfile hrequest htarget
    exact answered_reached hd hc (hc.activated fileId file hfile request hrequest) htarget
  · intro source request target hsource hrequest htarget
    cases source with
    | symbol symbol =>
        obtain ⟨item, hitem, rfl⟩ := List.mem_map.mp hrequest
        exact item_reached hd hc (hsource item hitem) htarget
    | gcUnit fileId gcUnit =>
        exact answered_reached hd hc (hc.processed _ _ hsource rfl request hrequest) htarget
    | exportDynamic symbol =>
        exact answered_reached hd hc (hc.processed _ _ hsource rfl request hrequest) htarget

end End

/-- The traversal is complete and does every piece of work once. After a run without errors what was
sent is what was processed, every worker is back in its slot and no slot has work, and the sections
that were loaded are those of the least set closed under requests. -/
theorem gc_traversal_complete (hrun : inputs.TraversalRun trace ⟨s, 0⟩) (herrors : s.errors = []) :
    sentItems trace = processedItems trace
    ∧ s.workerSlots.length = inputs.groups.length
    ∧ (∀ i < inputs.groups.length, ∃ worker, (unwrapWorkerStates s.workerSlots)[i]? = some worker
        ∧ s.workerSlots[i]? = some ⟨[], some worker⟩ ∧ worker.index = i ∧ worker.localWork = [])
    ∧ ∀ fileId obj, inputs.file? fileId = some (.object obj) →
      ∃ worker sections, (unwrapWorkerStates s.workerSlots)[fileId.group]? = some worker
        ∧ worker.files[fileId.file]? = some (.object sections)
        ∧ sections.length = obj.sections.length
        ∧ ∀ i sec, obj.sections[i]? = some sec →
          (inputs.Needed (.gcUnit fileId i) → sections[i]? = some sec.slot.load)
          ∧ (¬inputs.Needed (.gcUnit fileId i) → sections[i]? = some sec.slot) := by
  have hd := hrun.delivery herrors
  have hc := hrun.closure herrors
  refine ⟨hd.sent_eq, hd.slots_length, fun i hi => hd.unwrap_getElem? hi, fun fileId obj hfile => ?_⟩
  obtain ⟨files, hfiles, -⟩ := Option.bind_eq_some_iff.mp hfile
  have hlt := (List.getElem?_eq_some_iff.mp hfiles).1
  obtain ⟨worker, hworker, hslot, hindex, -⟩ := hd.unwrap_getElem? hlt
  have hstate := hc.slotFiles _ (List.mem_of_getElem? hslot) worker rfl fileId.file
  rw [hindex, show inputs.file? ⟨fileId.group, fileId.file⟩ = _ from hfile] at hstate
  generalize hget : worker.files[fileId.file]? = state at hstate
  cases hstate with
  | @some _ state hok =>
      cases state with
      | object sections =>
          refine ⟨worker, sections, hworker, hget, hok.1, fun i sec hsec => ?_⟩
          have hi : i < sections.length := hok.1 ▸ (List.getElem?_eq_some_iff.mp hsec).1
          have hslot' := List.getElem?_eq_getElem hi
          rw [hslot']
          rcases hok.2 i sec _ hsec hslot' with ⟨hsame, hprocessed⟩ | ⟨hload, hneeded, -⟩
          · refine ⟨fun hneeded => ?_, fun _ => by rw [hsame]⟩
            rw [hsame, hprocessed (needed_reached hd hc hneeded)]
          · exact ⟨fun _ => by rw [hload], fun hnot => absurd hneeded hnot⟩
      | _ => exact hok.elim

/-- The entry point is in the second group and refers to a section of the first one, which refers to
itself; the other section of the first group is not referred to. -/
def entryInputs : GraphInputs where
  groups :=
    [[.prelude (some ⟨⟨1, 0⟩, 0⟩) [],
      .object
        { sections := [⟨.unloaded false, 8, [⟨some ⟨⟨0, 1⟩, 0⟩, { got := true }, false, none, none⟩], []⟩,
            ⟨.unloaded false, 8, [], []⟩]
          symbols := [⟨some 0, false, false⟩, ⟨some 1, false, false⟩]
          cieRelocations := []
          exportsSymbols := false }],
     [.object
        { sections := [⟨.unloaded false, 8, [⟨some ⟨⟨0, 1⟩, 0⟩, { direct := true }, false, none, none⟩], []⟩]
          symbols := [⟨some 0, false, false⟩]
          cieRelocations := []
          exportsSymbols := false }]]
  noGc := false
  staticExecutable := false
  symbolFlags := fun _ => .empty

theorem gc_traversal_complete_entry : ∃ trace s,
    entryInputs.TraversalRun trace ⟨s, 0⟩ ∧ s.errors = []
      ∧ sentItems trace = processedItems trace
      ∧ (unwrapWorkerStates s.workerSlots).length = 2 := by
  have hfifo : (fifo entryInputs.act 100 entryInputs.initialResources entryInputs.initialTasks).map
      (fun result => (result.2.errors, (unwrapWorkerStates result.2.workerSlots).length))
        = some ([], 2) := by
    decide +kernel
  obtain ⟨⟨trace, s⟩, hrun, hresult⟩ := Option.map_eq_some_iff.mp hfifo
  obtain ⟨herrors, hlength⟩ := Prod.mk.inj hresult
  have hcomplete := gc_traversal_complete (fifo_run hrun) herrors
  exact ⟨trace, s, fifo_run hrun, herrors, hcomplete.1, hlength⟩

end JdxLinker
