import JdxLinker.Gc.Worker
import JdxLinker.Lib.Sums
import Mathlib

/-!
# Delivery of work

Every group's worker is in its slot or in exactly one task, work is only left in slots without a
worker, and the items that were sent are those that were processed and those that are still queued.
So nothing is lost or done twice, and nothing is left over once no task is left.
-/

namespace JdxLinker

open TaskSystem Sums

namespace GcTask

def group : GcTask → GroupState
  | .activate group _ => group
  | .work group _ => group

/-- The requests that a task has yet to make. -/
def requests : GcTask → List Request
  | .activate _ files => files.flatten
  | .work _ requests => requests

end GcTask

variable {inputs : GraphInputs}

/-! ### What a task can do -/

/-- The actions that report no error. -/
inductive GcAction (inputs : GraphInputs) (s : GraphResources) (t : GcTask) : GcEffect → Prop
  | skip (t' : GcTask) (hgroup : t'.group = t.group) (hrequests : t'.requests = t.requests) :
      GcAction inputs s t ⟨s, [t'], []⟩
  | reference (reference : Reference) (rest : List Request) (t' : GcTask)
      (h : t.requests = .reference reference :: rest) (hgroup : t'.group = t.group)
      (hrequests : t'.requests = reference.follow (s.flags reference.symbol) ++ rest) :
      GcAction inputs s t ⟨s.fetchOr reference.symbol reference.flagsToAdd, [t'], []⟩
  | setFlags (symbol : SymbolId) (flags : ValueFlags) (rest : List Request) (t' : GcTask)
      (h : t.requests = .setFlags symbol flags :: rest) (hgroup : t'.group = t.group)
      (hrequests : t'.requests = rest) :
      GcAction inputs s t ⟨s.fetchOr symbol flags, [t'], []⟩
  | exportSymbol (symbol : SymbolId) (rest : List Request) (t' : GcTask)
      (h : t.requests = .exportSymbol symbol :: rest) (hgroup : t'.group = t.group)
      (hrequests : t'.requests
        = (if (s.flags symbol).hasResolution then [] else inputs.loadObjectSymbol symbol) ++ rest) :
      GcAction inputs s t ⟨s.fetchOr symbol { exportDynamic := true }, [t'], []⟩
  | push (item : WorkItem) (rest : List Request) (t' : GcTask) (h : t.requests = .send item :: rest)
      (hlocal : item.fileId.group = t.group.index)
      (hgroup : t'.group = { t.group with localWork := t.group.localWork ++ [item] })
      (hrequests : t'.requests = rest) : GcAction inputs s t ⟨s, [t'], [.sent item]⟩
  | leave (request : Request) (item : WorkItem) (rest : List Request) (slot : WorkerSlot)
      (t' : GcTask) (h : t.requests = request :: rest)
      (hrequest : request = .send item ∨ request = .sendToSlot item)
      (hslot : s.workerSlots[item.fileId.group]? = some slot) (hgroup : t'.group = t.group)
      (hrequests : t'.requests = rest) :
      GcAction inputs s t ⟨s.setSlot item.fileId.group ⟨slot.work ++ [item], none⟩,
        t' :: (slot.worker.map fun worker => GcTask.work worker []).toList, [.sent item]⟩
  | start (before : List WorkItem) (item : WorkItem) (file file' : FileLayoutState)
      (requests : List Request) (t' : GcTask) (h : t.requests = [])
      (hwork : t.group.localWork = before ++ [item])
      (hfile : t.group.files[item.fileId.file]? = some file)
      (hdo : inputs.doWork file item = .ok (file', requests))
      (hgroup : t'.group = ⟨t.group.index, before, t.group.files.set item.fileId.file file'⟩)
      (hrequests : t'.requests = requests) : GcAction inputs s t ⟨s, [t'], [.processed item]⟩
  | park (slot : WorkerSlot) (h : t.requests = []) (hwork : t.group.localWork = [])
      (hslot : s.workerSlots[t.group.index]? = some slot) (hempty : slot.work = []) :
      GcAction inputs s t ⟨s.setSlot t.group.index ⟨[], some t.group⟩, [], []⟩
  | swap (slot : WorkerSlot) (t' : GcTask) (h : t.requests = []) (hwork : t.group.localWork = [])
      (hslot : s.workerSlots[t.group.index]? = some slot) (hne : slot.work ≠ [])
      (hgroup : t'.group = { t.group with localWork := slot.work })
      (hrequests : t'.requests = []) :
      GcAction inputs s t ⟨s.setSlot t.group.index ⟨[], slot.worker⟩, [t'], []⟩

theorem reportError_errors (s : GraphResources) (error : String) :
    (s.reportError error).errors ≠ [] := by
  simp [GraphResources.reportError]

/-- A request that reports no error, made by any task that goes on with `rest`. -/
theorem GraphInputs.perform_action {s : GraphResources} {t t' : GcTask} {request : Request}
    {rest : List Request} (hrequest : ∀ error, request ≠ .fail error)
    (h : t.requests = request :: rest)
    (hgroup : t'.group = (inputs.perform s t.group request).group)
    (hrequests : t'.requests = (inputs.perform s t.group request).requests ++ rest)
    (herrors : (inputs.perform s t.group request).resources.errors = []) :
    GcAction inputs s t ⟨(inputs.perform s t.group request).resources,
      t' :: (inputs.perform s t.group request).spawned,
      (inputs.perform s t.group request).events⟩ := by
  have hleave : ∀ item, request = .send item ∨ request = .sendToSlot item →
      inputs.perform s t.group request = sendWork s t.group item →
      GcAction inputs s t ⟨(inputs.perform s t.group request).resources,
        t' :: (inputs.perform s t.group request).spawned,
        (inputs.perform s t.group request).events⟩ := by
    intro item hitem hperform
    rw [hperform] at hgroup hrequests herrors ⊢
    cases hslot : s.workerSlots[item.fileId.group]? with
    | some slot =>
        simp only [sendWork, hslot] at hgroup hrequests ⊢
        exact .leave request item rest slot t' h hitem hslot hgroup hrequests
    | none =>
        simp only [sendWork, hslot] at herrors
        exact absurd herrors (reportError_errors _ _)
  cases request with
  | reference reference => exact .reference reference rest t' h hgroup hrequests
  | setFlags symbol flags => exact .setFlags symbol flags rest t' h hgroup hrequests
  | exportSymbol symbol => exact .exportSymbol symbol rest t' h hgroup hrequests
  | send item =>
      by_cases hlocal : item.fileId.group = t.group.index
      · simp only [GraphInputs.perform, if_pos hlocal] at hgroup hrequests ⊢
        exact .push item rest t' h hlocal hgroup hrequests
      · exact hleave item (.inl rfl) (by simp only [GraphInputs.perform, if_neg hlocal])
  | sendToSlot item => exact hleave item (.inr rfl) rfl
  | fail error => exact absurd rfl (hrequest error)

theorem GraphInputs.act_action {s : GraphResources} {t : GcTask} (herrors : (inputs.act t s).shared.errors = []) :
    GcAction inputs s t (inputs.act t s) := by
  cases t with
  | activate group files =>
      match files with
      | [] => exact .skip _ rfl rfl
      | [] :: files => exact .skip _ rfl rfl
      | (request :: requests) :: files =>
          by_cases hfail : ∃ error, request = .fail error
          · obtain ⟨error, rfl⟩ := hfail
            exact absurd herrors (reportError_errors _ _)
          · push Not at hfail
            have hact : inputs.act (.activate group ((request :: requests) :: files)) s
                = ⟨(inputs.perform s group request).resources,
                    .activate (inputs.perform s group request).group
                      (((inputs.perform s group request).requests ++ requests) :: files)
                        :: (inputs.perform s group request).spawned,
                    (inputs.perform s group request).events⟩ := by
              cases request with
              | fail error => exact absurd rfl (hfail error)
              | _ => rfl
            rw [hact] at herrors ⊢
            exact GraphInputs.perform_action (t := .activate group ((request :: requests) :: files)) hfail rfl rfl
              (by simp [GcTask.requests, GcTask.group]) herrors
  | work group requests =>
      cases requests with
      | cons request requests =>
          by_cases hfail : ∃ error, request = .fail error
          · obtain ⟨error, rfl⟩ := hfail
            exact absurd herrors (reportError_errors _ _)
          · push Not at hfail
            have hact : inputs.act (.work group (request :: requests)) s
                = ⟨(inputs.perform s group request).resources,
                    .work (inputs.perform s group request).group
                      ((inputs.perform s group request).requests ++ requests)
                        :: (inputs.perform s group request).spawned,
                    (inputs.perform s group request).events⟩ := by
              cases request with
              | fail error => exact absurd rfl (hfail error)
              | _ => rfl
            rw [hact] at herrors ⊢
            exact GraphInputs.perform_action (t := .work group (request :: requests)) hfail rfl rfl rfl herrors
      | nil =>
          cases hlast : group.localWork.getLast? with
          | some item =>
              have hwork : group.localWork = group.localWork.dropLast ++ [item] :=
                (List.dropLast_append_getLast? item hlast).symm
              simp only [GraphInputs.act, hlast, GraphInputs.startWork] at herrors ⊢
              cases hfile : group.files[item.fileId.file]? with
              | none =>
                  simp only [hfile] at herrors
                  exact absurd herrors (reportError_errors _ _)
              | some file =>
                  cases hdo : inputs.doWork file item with
                  | error error =>
                      simp only [hfile, hdo] at herrors
                      exact absurd herrors (reportError_errors _ _)
                  | ok result =>
                      obtain ⟨file', requests⟩ := result
                      simp only [hdo]
                      exact .start (t := .work group []) _ item file file' requests (.work _ requests) rfl hwork hfile
                        hdo rfl rfl
          | none =>
              have hwork : group.localWork = [] := List.getLast?_eq_none_iff.mp hlast
              simp only [GraphInputs.act, hlast, GraphInputs.checkSlot] at herrors ⊢
              cases hslot : s.workerSlots[group.index]? with
              | none =>
                  simp only [hslot] at herrors
                  exact absurd herrors (reportError_errors _ _)
              | some slot =>
                  by_cases hempty : slot.work = []
                  · simp only [if_pos hempty]
                    exact .park (t := .work group []) slot rfl hwork hslot hempty
                  · simp only [if_neg hempty]
                    exact .swap (t := .work group []) slot _ rfl hwork hslot hempty rfl rfl

theorem GcAction.errors_eq {s : GraphResources} {t : GcTask} {e : GcEffect}
    (h : GcAction inputs s t e) : e.shared.errors = s.errors := by
  cases h <;> rfl

theorem GraphInputs.act_errors {s : GraphResources} {t : GcTask} (h : (inputs.act t s).shared.errors = []) :
    s.errors = [] :=
  (GraphInputs.act_action h).errors_eq.symm.trans h

/-! ### The invariant -/

def sentItems (trace : List GcEvent) : Multiset WorkItem :=
  (trace.filterMap fun
    | .sent item => some item
    | .processed _ => none : List WorkItem)

def processedItems (trace : List GcEvent) : Multiset WorkItem :=
  (trace.filterMap fun
    | .sent _ => none
    | .processed item => some item : List WorkItem)

@[simp] theorem sentItems_append_nil (trace : List GcEvent) :
    sentItems (trace ++ []) = sentItems trace := by
  rw [List.append_nil]

@[simp] theorem processedItems_append_nil (trace : List GcEvent) :
    processedItems (trace ++ []) = processedItems trace := by
  rw [List.append_nil]

@[simp] theorem sentItems_append_sent (trace : List GcEvent) (item : WorkItem) :
    sentItems (trace ++ [.sent item]) = sentItems trace + {item} := by
  simp [sentItems, ← Multiset.coe_add]

@[simp] theorem sentItems_append_processed (trace : List GcEvent) (item : WorkItem) :
    sentItems (trace ++ [.processed item]) = sentItems trace := by
  simp [sentItems]

@[simp] theorem processedItems_append_sent (trace : List GcEvent) (item : WorkItem) :
    processedItems (trace ++ [.sent item]) = processedItems trace := by
  simp [processedItems]

@[simp] theorem processedItems_append_processed (trace : List GcEvent) (item : WorkItem) :
    processedItems (trace ++ [.processed item]) = processedItems trace + {item} := by
  simp [processedItems, ← Multiset.coe_add]

/-- The group of the worker in a slot. -/
def WorkerSlot.owner (slot : WorkerSlot) : Multiset Nat :=
  slot.worker.elim 0 fun worker => {worker.index}

/-- The groups whose worker is somewhere. -/
def owners (c : Config GraphResources GcTask) : Multiset Nat :=
  slotSum WorkerSlot.owner c.shared.workerSlots + taskSum (fun t => {t.group.index}) c.tasks

/-- The work that is queued. -/
def pending (c : Config GraphResources GcTask) : Multiset WorkItem :=
  slotSum (fun slot => (slot.work : Multiset WorkItem)) c.shared.workerSlots
    + taskSum (fun t => (t.group.localWork : Multiset WorkItem)) c.tasks

/-- A waiting worker is in its own slot and has nothing to do. -/
structure WaitingOk (slot : WorkerSlot) (worker : GroupState) (i : Nat) : Prop where
  index : worker.index = i
  work : slot.work = []
  localWork : worker.localWork = []

structure DeliveryInv (numGroups : Nat) (trace : List GcEvent) (c : Config GraphResources GcTask) :
    Prop where
  slots_length : c.shared.workerSlots.length = numGroups
  owners : owners c = Multiset.range numGroups
  waiting : ∀ (i : Nat) (slot : WorkerSlot) (worker : GroupState),
    c.shared.workerSlots[i]? = some slot → slot.worker = some worker → WaitingOk slot worker i
  sent : sentItems trace = processedItems trace + pending c

@[simp] theorem fetchOr_workerSlots (s : GraphResources) (symbol : SymbolId) (flags : ValueFlags) :
    (s.fetchOr symbol flags).workerSlots = s.workerSlots := rfl

@[simp] theorem setSlot_workerSlots (s : GraphResources) (i : Nat) (slot : WorkerSlot) :
    (s.setSlot i slot).workerSlots = s.workerSlots.set i slot := rfl

namespace DeliveryInv

variable {numGroups : Nat} {trace : List GcEvent} {s : GraphResources} {t : GcTask}
  {ts : Multiset GcTask}

/-- The slot of a group whose worker is busy is empty. -/
theorem worker_none (h : DeliveryInv numGroups trace ⟨s, t ::ₘ ts⟩) {slot : WorkerSlot}
    (hslot : s.workerSlots[t.group.index]? = some slot) : slot.worker = none := by
  cases hworker : slot.worker with
  | none => rfl
  | some worker =>
      have hindex := (h.waiting _ slot worker hslot hworker).index
      have howner : ({t.group.index} : Multiset Nat) ≤ slotSum WorkerSlot.owner s.workerSlots := by
        have hle := le_slotSum WorkerSlot.owner hslot
        simpa [WorkerSlot.owner, hworker, hindex] using hle
      have htwice : ({t.group.index} : Multiset Nat) + {t.group.index}
          ≤ Multiset.range numGroups := by
        rw [← h.owners, JdxLinker.owners, taskSum_cons]
        exact add_le_add howner (Multiset.le_add_right _ _)
      have hnodup := Multiset.nodup_of_le htwice (Multiset.nodup_range numGroups)
      simp at hnodup

theorem owners_action (h : DeliveryInv numGroups trace ⟨s, t ::ₘ ts⟩) {e : GcEffect}
    (hact : GcAction inputs s t e) :
    JdxLinker.owners ⟨e.shared, (e.tasks : Multiset GcTask) + ts⟩
      = JdxLinker.owners ⟨s, t ::ₘ ts⟩ := by
  cases hact with
  | skip t' hgroup hrequests => simp [JdxLinker.owners, hgroup]
  | reference reference rest t' _ hgroup hrequests => simp [JdxLinker.owners, hgroup]
  | setFlags symbol flags rest t' _ hgroup hrequests => simp [JdxLinker.owners, hgroup]
  | exportSymbol symbol rest t' _ hgroup hrequests => simp [JdxLinker.owners, hgroup]
  | push item rest t' _ hlocal hgroup hrequests => simp [JdxLinker.owners, hgroup]
  | start before item file file' requests t' _ hwork hfile hdo hgroup hrequests =>
      simp [JdxLinker.owners, hgroup]
  | leave request item rest slot t' _ hrequest hslot hgroup hrequests =>
      have hset := slotSum_set WorkerSlot.owner hslot ⟨slot.work ++ [item], none⟩
      have hwoken : taskSum (fun t => ({t.group.index} : Multiset Nat))
          (((slot.worker.map fun worker => GcTask.work worker []).toList : List GcTask)
            : Multiset GcTask) = slot.owner := by
        cases hworker : slot.worker <;> simp [WorkerSlot.owner, hworker, GcTask.group]
      rw [show WorkerSlot.owner ⟨slot.work ++ [item], none⟩ = 0 from rfl, add_zero] at hset
      simp only [JdxLinker.owners, setSlot_workerSlots, taskSum_add, taskSum_coe_cons, hwoken,
        taskSum_cons, hgroup, ← hset]
      abel
  | park slot _ hwork hslot hempty =>
      have hnone := h.worker_none hslot
      have hset := slotSum_set WorkerSlot.owner hslot ⟨[], some t.group⟩
      simp only [WorkerSlot.owner, hnone, Option.elim_none, Option.elim_some, add_zero] at hset
      simp only [JdxLinker.owners, setSlot_workerSlots, hset, taskSum_cons, taskSum_add,
        taskSum_coe_nil]
      abel
  | swap slot t' _ hwork hslot hne hgroup hrequests =>
      have hset := slotSum_set WorkerSlot.owner hslot ⟨[], slot.worker⟩
      have hsame := add_right_cancel hset
      simp [JdxLinker.owners, hgroup, hsame]

theorem pending_action (h : DeliveryInv numGroups trace ⟨s, t ::ₘ ts⟩) {e : GcEffect}
    (hact : GcAction inputs s t e) :
    sentItems (trace ++ e.events) = processedItems (trace ++ e.events)
      + pending ⟨e.shared, (e.tasks : Multiset GcTask) + ts⟩ := by
  have hsent := h.sent
  simp only [pending, taskSum_cons] at hsent
  cases hact with
  | skip t' hgroup hrequests => simpa [pending, hgroup] using hsent
  | reference reference rest t' _ hgroup hrequests => simpa [pending, hgroup] using hsent
  | setFlags symbol flags rest t' _ hgroup hrequests => simpa [pending, hgroup] using hsent
  | exportSymbol symbol rest t' _ hgroup hrequests => simpa [pending, hgroup] using hsent
  | push item rest t' _ hlocal hgroup hrequests =>
      simp only [pending, taskSum_add, taskSum_coe_cons, taskSum_coe_nil, sentItems_append_sent,
        processedItems_append_sent, hgroup, coe_concat, hsent]
      abel
  | start before item file file' requests t' _ hwork hfile hdo hgroup hrequests =>
      rw [hwork, coe_concat] at hsent
      simp only [pending, taskSum_add, taskSum_coe_cons, taskSum_coe_nil,
        sentItems_append_processed, processedItems_append_processed, hgroup, hsent]
      abel
  | leave request item rest slot t' _ hrequest hslot hgroup hrequests =>
      have hset := slotSum_set (fun slot => (slot.work : Multiset WorkItem)) hslot
        ⟨slot.work ++ [item], none⟩
      rw [coe_concat, ← add_assoc, add_right_comm] at hset
      have hsame := add_right_cancel hset
      have hwoken : taskSum (fun t => (t.group.localWork : Multiset WorkItem))
          (((slot.worker.map fun worker => GcTask.work worker []).toList : List GcTask)
            : Multiset GcTask) = 0 := by
        cases hworker : slot.worker with
        | none => rfl
        | some worker => simp [GcTask.group, (h.waiting _ slot worker hslot hworker).localWork]
      simp only [pending, taskSum_add, taskSum_coe_cons, setSlot_workerSlots, hsame, hwoken,
        sentItems_append_sent, processedItems_append_sent, hgroup, hsent]
      abel
  | park slot _ hwork hslot hempty =>
      have hset := slotSum_set (fun slot => (slot.work : Multiset WorkItem)) hslot
        ⟨[], some t.group⟩
      rw [hempty] at hset
      have hsame := add_right_cancel hset
      simpa [pending, hsame, hwork] using hsent
  | swap slot t' _ hwork hslot hne hgroup hrequests =>
      have hset := slotSum_set (fun slot => (slot.work : Multiset WorkItem)) hslot
        ⟨[], slot.worker⟩
      rw [Multiset.coe_nil, add_zero] at hset
      rw [hwork, Multiset.coe_nil, zero_add, ← hset] at hsent
      simp only [pending, taskSum_add, taskSum_coe_cons, taskSum_coe_nil, setSlot_workerSlots,
        sentItems_append_nil, processedItems_append_nil, hgroup, hsent]
      abel

theorem waiting_action (h : DeliveryInv numGroups trace ⟨s, t ::ₘ ts⟩) {e : GcEffect}
    (hact : GcAction inputs s t e) {i : Nat} {slot : WorkerSlot} {worker : GroupState}
    (hslot : e.shared.workerSlots[i]? = some slot) (hworker : slot.worker = some worker) :
    WaitingOk slot worker i := by
  have hset : ∀ {j : Nat} {new : WorkerSlot}, (s.workerSlots.set j new)[i]? = some slot →
      (new.worker = some worker → WaitingOk new worker j) → WaitingOk slot worker i := by
    intro j new hnew hok
    rw [List.getElem?_set] at hnew
    split at hnew
    · subst_vars
      obtain ⟨-, hsame⟩ := Option.ite_none_right_eq_some.mp hnew
      obtain rfl := Option.some.inj hsame
      exact hok hworker
    · exact h.waiting i slot worker hnew hworker
  cases hact with
  | leave request item rest slot' t' _ hrequest hslot' hgroup hrequests =>
      exact hset hslot fun hnone => by cases hnone
  | park slot' _ hwork hslot' hempty =>
      refine hset hslot fun hsome => ?_
      obtain rfl := Option.some.inj hsome
      exact ⟨rfl, rfl, hwork⟩
  | swap slot' t' _ hwork hslot' hne hgroup hrequests =>
      refine hset hslot fun hsome => ?_
      rw [h.worker_none hslot'] at hsome
      cases hsome
  | _ => exact h.waiting i slot worker hslot hworker

theorem action_inv (h : DeliveryInv numGroups trace ⟨s, t ::ₘ ts⟩) {e : GcEffect}
    (hact : GcAction inputs s t e) :
    DeliveryInv numGroups (trace ++ e.events) ⟨e.shared, (e.tasks : Multiset GcTask) + ts⟩ where
  slots_length := by
    have hlength := h.slots_length
    cases hact <;> simpa using hlength
  owners := (h.owners_action hact).trans h.owners
  waiting _ _ _ := h.waiting_action hact
  sent := h.pending_action hact

end DeliveryInv

theorem initialTasks_owners (inputs : GraphInputs) :
    taskSum (fun t : GcTask => ({t.group.index} : Multiset Nat)) inputs.initialTasks
      = Multiset.range inputs.groups.length := by
  have hsum : ∀ (groups : List (List FileInput)) (k : Nat),
      taskSum (fun t : GcTask => ({t.group.index} : Multiset Nat))
        (((groups.zipIdx k).map fun entry => inputs.initialTask entry.2 entry.1 : List GcTask)
          : Multiset GcTask) = (List.range' k groups.length : List Nat) := by
    intro groups
    induction groups with
    | nil => intro k; rfl
    | cons files groups ih =>
        intro k
        rw [List.zipIdx_cons, List.map_cons, taskSum_coe_cons, ih, List.length_cons,
          List.range'_succ]
        rfl
  refine (hsum inputs.groups 0).trans ?_
  rw [← List.range_eq_range']
  rfl

theorem init_deliveryInv (inputs : GraphInputs) :
    DeliveryInv inputs.groups.length [] ⟨inputs.initialResources, inputs.initialTasks⟩ where
  slots_length := List.length_replicate
  owners := by
    have hslots : slotSum WorkerSlot.owner inputs.initialResources.workerSlots = 0 := by
      simp [slotSum, GraphInputs.initialResources, WorkerSlot.owner]
    rw [owners, hslots, zero_add]
    exact initialTasks_owners inputs
  waiting i slot worker hslot hworker := by
    rw [(List.mem_replicate.mp (List.mem_of_getElem? hslot)).2] at hworker
    cases hworker
  sent := by
    have hslots : slotSum (fun slot => (slot.work : Multiset WorkItem))
        inputs.initialResources.workerSlots = 0 := by
      simp [slotSum, GraphInputs.initialResources]
    have htasks : taskSum (fun t : GcTask => (t.group.localWork : Multiset WorkItem))
        inputs.initialTasks = 0 := by
      refine taskSum_eq_zero fun t ht => ?_
      obtain ⟨⟨files, index⟩, -, rfl⟩ := List.mem_map.mp (Multiset.mem_coe.mp ht)
      rfl
    rw [pending, hslots, htasks]
    rfl

theorem GraphInputs.TraversalRun.delivery {trace : List GcEvent} {c : Config GraphResources GcTask}
    (hrun : inputs.TraversalRun trace c) (herrors : c.shared.errors = []) :
    DeliveryInv inputs.groups.length trace c := by
  refine Run.invariant hrun (I := fun trace c =>
    c.shared.errors = [] → DeliveryInv inputs.groups.length trace c) ?_ ?_ herrors
  · exact fun _ => init_deliveryInv inputs
  · intro trace s t ts ih herrors
    exact (ih (GraphInputs.act_errors herrors)).action_inv (GraphInputs.act_action herrors)

end JdxLinker
