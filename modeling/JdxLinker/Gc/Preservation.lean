import JdxLinker.Gc.Progress

/-!
# Every action keeps the traversal a closure

Requests come from requests: from references, from exports and from the items that are processed.
A file changes only while its own worker processes an item.
-/

namespace JdxLinker

open TaskSystem Sums

variable {inputs : GraphInputs} {trace : List GcEvent} {s : GraphResources} {t : GcTask}
  {ts : Multiset GcTask} {e : GcEffect}

/-! ### Where requests come from -/

theorem GcAction.origin (hact : GcAction inputs s t e) {t' : GcTask} (ht' : t' ∈ e.tasks)
    {request : Request} (hrequest : request ∈ t'.requests) :
    request ∈ t.requests
    ∨ (∃ reference, .reference reference ∈ t.requests ∧ Made inputs s e (.reference reference)
        ∧ request ∈ reference.follow (s.flags reference.symbol))
    ∨ (∃ symbol, .exportSymbol symbol ∈ t.requests ∧ (s.flags symbol).hasResolution = false
        ∧ request ∈ inputs.loadObjectSymbol symbol)
    ∨ ∃ item state state' requests, item ∈ t.group.localWork
        ∧ t.group.files[item.fileId.file]? = some state
        ∧ inputs.doWork state item = .ok (state', requests) ∧ request ∈ requests := by
  cases hact with
  | skip t' hgroup hrequests =>
      obtain rfl := List.mem_singleton.mp ht'
      exact Or.inl (hrequests ▸ hrequest)
  | reference reference rest t' ht hgroup hrequests =>
      obtain rfl := List.mem_singleton.mp ht'
      rw [hrequests] at hrequest
      rcases List.mem_append.mp hrequest with hnew | hold
      · refine Or.inr (Or.inl ⟨reference, ht ▸ List.mem_cons_self, ?_, hnew⟩)
        exact ⟨t', List.mem_cons_self, fun r hr => hrequests ▸ List.mem_append_left _ hr⟩
      · exact Or.inl (ht ▸ List.mem_cons_of_mem _ hold)
  | setFlags symbol flags rest t' ht hgroup hrequests =>
      obtain rfl := List.mem_singleton.mp ht'
      exact Or.inl (ht ▸ List.mem_cons_of_mem _ (hrequests ▸ hrequest))
  | exportSymbol symbol rest t' ht hgroup hrequests =>
      obtain rfl := List.mem_singleton.mp ht'
      rw [hrequests] at hrequest
      rcases List.mem_append.mp hrequest with hnew | hold
      · split at hnew
        · simp at hnew
        · rename_i hflags
          exact Or.inr (Or.inr (Or.inl ⟨symbol, ht ▸ List.mem_cons_self, by simpa using hflags, hnew⟩))
      · exact Or.inl (ht ▸ List.mem_cons_of_mem _ hold)
  | push item rest t' ht hlocal hgroup hrequests =>
      obtain rfl := List.mem_singleton.mp ht'
      exact Or.inl (ht ▸ List.mem_cons_of_mem _ (hrequests ▸ hrequest))
  | leave request' item rest slot t' ht hitem hslot hgroup hrequests =>
      rcases List.mem_cons.mp ht' with rfl | hwoken
      · exact Or.inl (ht ▸ List.mem_cons_of_mem _ (hrequests ▸ hrequest))
      · obtain ⟨worker, -, rfl⟩ := Option.map_eq_some_iff.mp (Option.mem_toList.mp hwoken)
        simp [GcTask.requests] at hrequest
  | start before item file file' requests t' ht hwork hfile hdo hgroup hrequests =>
      obtain rfl := List.mem_singleton.mp ht'
      refine Or.inr (Or.inr (Or.inr ⟨item, file, file', requests, ?_, hfile, hdo, hrequests ▸ hrequest⟩))
      simp [hwork]
  | park slot ht hwork hslot hempty => simp at ht'
  | swap slot t' ht hwork hslot hne hgroup hrequests =>
      obtain rfl := List.mem_singleton.mp ht'
      simp [hrequests] at hrequest

theorem Outstanding.cases {request : Request}
    (h : Outstanding ((e.tasks : Multiset GcTask) + ts) request) :
    (∃ t' ∈ e.tasks, request ∈ t'.requests) ∨ Outstanding (t ::ₘ ts) request := by
  obtain ⟨t', ht', hrequest⟩ := h
  rcases Multiset.mem_add.mp ht' with ht' | ht'
  · exact Or.inl ⟨t', ht', hrequest⟩
  · exact Or.inr ⟨t', Multiset.mem_cons_of_mem ht', hrequest⟩

theorem Outstanding.head {request : Request} (h : request ∈ t.requests) :
    Outstanding (t ::ₘ ts) request :=
  ⟨t, Multiset.mem_cons_self _ _, h⟩

/-- Only references and exports add to the flags of a symbol that is not covered yet. -/
theorem GcAction.flags (hact : GcAction inputs s t e) {symbol : SymbolId}
    (h : (e.shared.flags symbol).hasResolution = true) :
    (s.flags symbol).hasResolution = true
    ∨ (∃ reference, reference.symbol = symbol ∧ Made inputs s e (.reference reference))
    ∨ (∃ flags, .setFlags symbol flags ∈ t.requests)
    ∨ (.exportSymbol symbol ∈ t.requests ∧ Made inputs s e (.exportSymbol symbol)) := by
  have hfetch : ∀ {other : SymbolId} {flags : ValueFlags},
      ((s.fetchOr other flags).flags symbol).hasResolution = true → other ≠ symbol →
      (s.flags symbol).hasResolution = true := by
    intro other flags h hne
    rwa [fetchOr_of_ne s flags (Ne.symm hne)] at h
  cases hact with
  | reference reference rest t' ht hgroup hrequests =>
      by_cases hsymbol : reference.symbol = symbol
      · exact Or.inr (Or.inl ⟨reference, hsymbol, t', List.mem_cons_self,
          fun r hr => hrequests ▸ List.mem_append_left _ hr⟩)
      · exact Or.inl (hfetch h hsymbol)
  | setFlags other flags rest t' ht hgroup hrequests =>
      by_cases hsymbol : other = symbol
      · exact Or.inr (Or.inr (Or.inl ⟨flags, ht ▸ hsymbol ▸ List.mem_cons_self⟩))
      · exact Or.inl (hfetch h hsymbol)
  | exportSymbol other rest t' ht hgroup hrequests =>
      by_cases hsymbol : other = symbol
      · subst hsymbol
        refine Or.inr (Or.inr (Or.inr ⟨ht ▸ List.mem_cons_self, ?_⟩))
        by_cases hflags : (s.flags other).hasResolution = true
        · exact Or.inl hflags
        · rw [if_neg hflags] at hrequests
          exact Or.inr ⟨t', List.mem_cons_self, fun r hr => hrequests ▸ List.mem_append_left _ hr⟩
      · exact Or.inl (hfetch h hsymbol)
  | _ => exact Or.inl h

theorem GcAction.flags_grow (hact : GcAction inputs s t e) {symbol : SymbolId}
    (h : (s.flags symbol).hasResolution = true) : (e.shared.flags symbol).hasResolution = true := by
  have hfetch : ∀ (other : SymbolId) (flags : ValueFlags),
      ((s.fetchOr other flags).flags symbol).hasResolution = true := by
    intro other flags
    by_cases hsymbol : symbol = other
    · subst hsymbol
      simp [fetchOr_self, h]
    · rwa [fetchOr_of_ne s flags hsymbol]
  cases hact with
  | reference reference rest t' ht hgroup hrequests => exact hfetch _ _
  | setFlags other flags rest t' ht hgroup hrequests => exact hfetch _ _
  | exportSymbol other rest t' ht hgroup hrequests => exact hfetch _ _
  | _ => exact h

/-! ### Files of other groups -/

namespace DeliveryInv

variable {numGroups : Nat}

theorem index_ne_task (h : DeliveryInv numGroups trace ⟨s, t ::ₘ ts⟩) {t' : GcTask}
    (ht' : t' ∈ ts) : t'.group.index ≠ t.group.index := by
  intro hindex
  obtain ⟨rest, rfl⟩ := Multiset.exists_cons_of_mem ht'
  have htwice : ({t.group.index} : Multiset Nat) + {t.group.index} ≤ Multiset.range numGroups := by
    rw [← h.owners, JdxLinker.owners, taskSum_cons, taskSum_cons, hindex, ← add_assoc {_} {_}]
    exact (Multiset.le_add_right _ _).trans (Multiset.le_add_left _ _)
  simpa using Multiset.nodup_of_le htwice (Multiset.nodup_range numGroups)

theorem index_ne_slot (h : DeliveryInv numGroups trace ⟨s, t ::ₘ ts⟩) {slot : WorkerSlot}
    (hslot : slot ∈ s.workerSlots) {worker : GroupState} (hworker : slot.worker = some worker) :
    worker.index ≠ t.group.index := by
  obtain ⟨i, hi⟩ := List.mem_iff_getElem?.mp hslot
  intro hindex
  have hself := (h.waiting i slot worker hi hworker).index
  have hnone := h.worker_none (hindex ▸ hself ▸ hi)
  rw [hnone] at hworker
  cases hworker

theorem mem_sent (h : DeliveryInv numGroups trace ⟨s, t ::ₘ ts⟩) {item : WorkItem}
    (hitem : item ∈ t.group.localWork) : .sent item ∈ trace := by
  have hmem : item ∈ sentItems trace := by
    rw [h.sent, pending, taskSum_cons]
    simp [hitem]
  obtain ⟨event, hevent, hsome⟩ := List.mem_filterMap.mp (Multiset.mem_coe.mp hmem)
  cases event with
  | sent item' =>
      cases hsome
      exact hevent
  | processed item' => cases hsome

end DeliveryInv

theorem FilesOk.congr {tasks : Multiset GcTask} {group group' : GroupState}
    (h : FilesOk inputs trace tasks group) (hindex : group'.index = group.index)
    (hfiles : group'.files = group.files) : FilesOk inputs trace tasks group' := by
  simpa only [FilesOk, hindex, hfiles] using h

theorem FilesOk.mono {trace' : List GcEvent} {tasks tasks' : Multiset GcTask} {group : GroupState}
    (h : FilesOk inputs trace tasks group)
    (hprocessed : ∀ item, item.fileId.group = group.index → .processed item ∈ trace' →
      .processed item ∈ trace)
    (hasked : ∀ item, Asked trace tasks item → Asked trace' tasks' item)
    (hanswered : ∀ request, Answered inputs trace tasks request →
      Answered inputs trace' tasks' request) : FilesOk inputs trace' tasks' group := by
  intro f
  have hf := h f
  generalize inputs.file? ⟨group.index, f⟩ = file at hf ⊢
  generalize group.files[f]? = state at hf ⊢
  cases hf with
  | none => exact .none
  | some hok => exact .some (hok.mono (fun i => hprocessed _ rfl) hasked hanswered)

/-! ### Preservation -/

namespace ClosureInv

variable {numGroups : Nat}

theorem reference_needed (h : ClosureInv inputs trace ⟨s, t ::ₘ ts⟩) {reference : Reference}
    (hreference : .reference reference ∈ t.requests)
    (hflags : (s.flags reference.symbol).hasResolution = false) :
    inputs.Needed (.symbol reference.symbol) := by
  refine h.needed _ _ (Outstanding.head hreference) ?_
  cases hstart : (inputs.symbolFlags reference.symbol).hasResolution with
  | false => simp [GraphInputs.requestTarget, hstart]
  | true => exact absurd (h.grown _ hstart) (by simp [hflags])

theorem export_needed (h : ClosureInv inputs trace ⟨s, t ::ₘ ts⟩) {symbol : SymbolId}
    (hexport : .exportSymbol symbol ∈ t.requests)
    (hflags : (s.flags symbol).hasResolution = false) : inputs.Needed (.symbol symbol) := by
  refine h.needed _ _ (Outstanding.head hexport) ?_
  cases hstart : (inputs.symbolFlags symbol).hasResolution with
  | false => simp [GraphInputs.requestTarget, hstart]
  | true => exact absurd (h.grown _ hstart) (by simp [hflags])

/-- A queued item is needed, and its file is as it should be. -/
theorem item_ok (h : ClosureInv inputs trace ⟨s, t ::ₘ ts⟩)
    (hd : DeliveryInv numGroups trace ⟨s, t ::ₘ ts⟩) {item : WorkItem} {state : FileLayoutState}
    (hitem : item ∈ t.group.localWork) (hstate : t.group.files[item.fileId.file]? = some state) :
    (∀ target, item.target = some target → inputs.Needed target)
      ∧ ∃ file, inputs.file? item.fileId = some file
        ∧ FileOk inputs trace (t ::ₘ ts) item.fileId file state := by
  have hself := Multiset.mem_cons_self t ts
  refine ⟨fun target htarget => h.sent item target (hd.mem_sent hitem) htarget, ?_⟩
  have hgroup := h.taskWork t hself item hitem
  have hfile := h.taskFiles t hself item.fileId.file
  rw [← hgroup, hstate] at hfile
  generalize inputs.file? ⟨item.fileId.group, item.fileId.file⟩ = file at hfile ⊢
  cases hfile with
  | some hok => exact ⟨_, rfl, hok⟩

theorem covered_action (h : ClosureInv inputs trace ⟨s, t ::ₘ ts⟩) (hact : GcAction inputs s t e)
    {symbol : SymbolId} (hflags : (e.shared.flags symbol).hasResolution = true) :
    Covered inputs (trace ++ e.events) ((e.tasks : Multiset GcTask) + ts) symbol := by
  rcases hact.flags hflags with hold | ⟨reference, rfl, hmade⟩ | ⟨flags, hset⟩ | ⟨hexport, hmade⟩
  · exact hact.covered (h.flags symbol hold)
  · exact h.reference_covered hact hmade
  · exact hact.covered (h.setFlags symbol flags (Outstanding.head hset))
  · exact h.export_covered hact (h.exports symbol (Outstanding.head hexport)) hmade

theorem setFlags_action (h : ClosureInv inputs trace ⟨s, t ::ₘ ts⟩) (hact : GcAction inputs s t e)
    {symbol : SymbolId} {flags : ValueFlags}
    (hout : Outstanding ((e.tasks : Multiset GcTask) + ts) (.setFlags symbol flags)) :
    Covered inputs (trace ++ e.events) ((e.tasks : Multiset GcTask) + ts) symbol := by
  have hinput : inputs.InputRequest (.setFlags symbol flags) →
      Covered inputs (trace ++ e.events) ((e.tasks : Multiset GcTask) + ts) symbol := by
    intro hitems
    refine Or.inr (Or.inr fun item hitem => ?_)
    rw [show inputs.symbolItems symbol = [] from hitems] at hitem
    simp at hitem
  rcases hout.cases (t := t) with ⟨t', ht', hrequest⟩ | hold
  · rcases hact.origin ht' hrequest with hold | ⟨reference, -, hmade, hfollow⟩ | ⟨other, -, -, hload⟩
      | ⟨item, state, state', requests, -, -, hdo, hnew⟩
    · exact hact.covered (h.setFlags symbol flags (Outstanding.head hold))
    · obtain rfl := Reference.follow_setFlags hfollow
      exact h.reference_covered hact hmade
    · exact hinput (inputs.loadObjectSymbol_input other _ hload)
    · exact hinput (doWork_input hdo _ hnew)
  · exact hact.covered (h.setFlags symbol flags hold)

theorem exports_action (h : ClosureInv inputs trace ⟨s, t ::ₘ ts⟩) (hact : GcAction inputs s t e)
    {symbol : SymbolId}
    (hout : Outstanding ((e.tasks : Multiset GcTask) + ts) (.exportSymbol symbol)) :
    (inputs.objectSymbol? symbol).isSome := by
  rcases hout.cases (t := t) with ⟨t', ht', hrequest⟩ | hold
  · rcases hact.origin ht' hrequest with hold | ⟨reference, -, -, hfollow⟩ | ⟨other, -, -, hload⟩
      | ⟨item, state, state', requests, -, -, hdo, hnew⟩
    · exact h.exports symbol (Outstanding.head hold)
    · exact absurd hfollow Reference.follow_exportSymbol
    · exact inputs.loadObjectSymbol_input other _ hload
    · exact doWork_input hdo _ hnew
  · exact h.exports symbol hold

theorem needed_action (h : ClosureInv inputs trace ⟨s, t ::ₘ ts⟩)
    (hd : DeliveryInv numGroups trace ⟨s, t ::ₘ ts⟩) (hact : GcAction inputs s t e)
    {request : Request} {target : Target}
    (hout : Outstanding ((e.tasks : Multiset GcTask) + ts) request)
    (htarget : inputs.requestTarget request = some target) : inputs.Needed target := by
  rcases hout.cases (t := t) with ⟨t', ht', hrequest⟩ | hold
  · rcases hact.origin ht' hrequest with hold | ⟨reference, hreference, -, hfollow⟩
      | ⟨symbol, hexport, hflags, hload⟩ | ⟨item, state, state', requests, hitem, hstate, hdo, hnew⟩
    · exact h.needed request target (Outstanding.head hold) htarget
    · obtain ⟨hflags, rfl⟩ := inputs.follow_target hfollow htarget
      exact h.reference_needed hreference hflags
    · obtain ⟨obj, hobj⟩ := inputs.objectSymbol?_isSome (h.exports symbol (Outstanding.head hexport))
      rw [inputs.loadObjectSymbol_eq hobj] at hload
      exact .requested (h.export_needed hexport hflags) hload htarget
    · obtain ⟨hneeded, file, hfile, hok⟩ := h.item_ok hd hitem hstate
      exact doWork_needed hfile hok hdo hneeded request target hnew htarget
  · exact h.needed request target hold htarget

/-- What an item's target asks for is taken care of once it has been processed. -/
theorem processed_action (h : ClosureInv inputs trace ⟨s, t ::ₘ ts⟩)
    (hd : DeliveryInv numGroups trace ⟨s, t ::ₘ ts⟩) (hact : GcAction inputs s t e)
    {item : WorkItem} {target : Target} (hitem : .processed item ∈ trace ++ e.events)
    (htarget : item.target = some target) : ∀ request ∈ inputs.targetRequests target,
      Answered inputs (trace ++ e.events) ((e.tasks : Multiset GcTask) + ts) request := by
  rcases List.mem_append.mp hitem with hold | hnew
  · exact fun r hr => h.answered hact (h.processed item target hold htarget r hr)
  · have hasked : ∀ item, Asked trace (t ::ₘ ts) item →
        Asked (trace ++ e.events) ((e.tasks : Multiset GcTask) + ts) item := fun _ => hact.asked
    have hanswered : ∀ request, Answered inputs trace (t ::ₘ ts) request →
        Answered inputs (trace ++ e.events) ((e.tasks : Multiset GcTask) + ts) request :=
      fun _ => h.answered hact
    cases hact with
    | start before item' state state' requests t' ht hwork hstate hdo hgroup hrequests =>
        obtain rfl : item = item' := by simpa using hnew
        obtain ⟨-, file, hfile, hok⟩ := h.item_ok hd (by simp [hwork]) hstate
        exact doWork_answered hfile hok hdo htarget
          (fun r hr => .of_new List.mem_cons_self (hrequests ▸ hr)) hasked hanswered
    | _ => simp at hnew

theorem sent_action (h : ClosureInv inputs trace ⟨s, t ::ₘ ts⟩) (hact : GcAction inputs s t e)
    {item : WorkItem} {target : Target} (hitem : .sent item ∈ trace ++ e.events)
    (htarget : item.target = some target) : inputs.Needed target := by
  rcases List.mem_append.mp hitem with hold | hnew
  · exact h.sent item target hold htarget
  · cases hact with
    | push item' rest t' ht hlocal hgroup hrequests =>
        obtain rfl : item = item' := by simpa using hnew
        exact h.needed (.send item) target (Outstanding.head (ht ▸ List.mem_cons_self)) htarget
    | leave request item' rest slot t' ht hrequest hslot hgroup hrequests =>
        obtain rfl : item = item' := by simpa using hnew
        have hhead : Outstanding (t ::ₘ ts) request :=
          Outstanding.head (ht ▸ List.mem_cons_self : request ∈ t.requests)
        rcases hrequest with rfl | rfl <;> exact h.needed _ target hhead htarget
    | _ => simp at hnew

/-- Only the worker that processes an item touches files, and only those of its group. -/
theorem files_kept (h : ClosureInv inputs trace ⟨s, t ::ₘ ts⟩) (hact : GcAction inputs s t e)
    {group : GroupState}
    (hok : FilesOk inputs trace (t ::ₘ ts) group)
    (hother : (∀ item, .processed item ∉ e.events) ∨ group.index ≠ t.group.index) :
    FilesOk inputs (trace ++ e.events) ((e.tasks : Multiset GcTask) + ts) group := by
  refine hok.mono (fun item hgroup hmem => ?_) (fun _ => hact.asked) (fun _ => h.answered hact)
  rcases List.mem_append.mp hmem with hold | hnew
  · exact hold
  · rcases hother with hnone | hne
    · exact absurd hnew (hnone item)
    · refine absurd (hgroup.symm.trans ?_) hne
      cases hact with
      | start before item' state state' requests t' ht hwork hstate hdo hgroup' hrequests =>
          obtain rfl : item = item' := by simpa using hnew
          exact h.taskWork t (Multiset.mem_cons_self _ _) item (by simp [hwork])
      | _ => simp at hnew

theorem taskFiles_action (h : ClosureInv inputs trace ⟨s, t ::ₘ ts⟩)
    (hd : DeliveryInv numGroups trace ⟨s, t ::ₘ ts⟩) (hact : GcAction inputs s t e) {t' : GcTask}
    (ht' : t' ∈ (e.tasks : Multiset GcTask) + ts) :
    FilesOk inputs (trace ++ e.events) ((e.tasks : Multiset GcTask) + ts) t'.group := by
  have hself := h.taskFiles t (Multiset.mem_cons_self _ _)
  rcases Multiset.mem_add.mp ht' with ht' | ht'
  · have hkept := h.files_kept hact hself
    have hasked : ∀ item, Asked trace (t ::ₘ ts) item →
        Asked (trace ++ e.events) ((e.tasks : Multiset GcTask) + ts) item := fun _ => hact.asked
    have hanswered : ∀ request, Answered inputs trace (t ::ₘ ts) request →
        Answered inputs (trace ++ e.events) ((e.tasks : Multiset GcTask) + ts) request :=
      fun _ => h.answered hact
    have hsame : (∀ item, .processed item ∉ e.events) → t'.group.index = t.group.index →
        t'.group.files = t.group.files →
        FilesOk inputs (trace ++ e.events) ((e.tasks : Multiset GcTask) + ts) t'.group :=
      fun hnone hindex hfiles => (hkept (Or.inl hnone)).congr hindex hfiles
    cases hact with
    | start before item state state' requests t'' ht hwork hstate hdo hgroup hrequests =>
        obtain rfl := List.mem_singleton.mp (Multiset.mem_coe.mp ht')
        obtain ⟨hneeded, file, hfile, hok⟩ := h.item_ok hd (by simp [hwork]) hstate
        have hindex := h.taskWork t (Multiset.mem_cons_self _ _) item (by simp [hwork])
        have hprocessed : ∀ item', .processed item' ∈ trace ++ [.processed item] →
            .processed item' ∈ trace ∨ item' = item := by simp
        intro f
        rw [hgroup]
        by_cases hf : item.fileId.file = f
        · subst hf
          have hlt := (List.getElem?_eq_some_iff.mp hstate).1
          simp only [List.getElem?_set_self hlt, ← hindex]
          rw [show inputs.file? ⟨item.fileId.group, item.fileId.file⟩ = some file from hfile]
          exact .some (doWork_fileOk hfile hok hdo hneeded
            (fun r hr => ⟨t', by simp, hrequests ▸ hr⟩) hprocessed hasked hanswered)
        · simp only [List.getElem?_set_ne hf]
          have hfok := hself f
          generalize inputs.file? ⟨t.group.index, f⟩ = file' at hfok ⊢
          generalize t.group.files[f]? = state'' at hfok ⊢
          cases hfok with
          | none => exact .none
          | some hok' =>
              refine .some (hok'.mono (fun i hmem => ?_) hasked hanswered)
              refine (hprocessed _ hmem).resolve_right fun heq => hf ?_
              rw [← heq]
              rfl
    | leave request item rest slot t'' ht hrequest hslot hgroup hrequests =>
        rcases List.mem_cons.mp (Multiset.mem_coe.mp ht') with rfl | hwoken
        · exact hsame (by simp) (by rw [hgroup]) (by rw [hgroup])
        · obtain ⟨worker, hworker, rfl⟩ := Option.map_eq_some_iff.mp (Option.mem_toList.mp hwoken)
          have hworkerOk := h.slotFiles slot (List.mem_of_getElem? hslot) worker hworker
          refine hworkerOk.mono (fun item' _ hmem => ?_) hasked hanswered
          simpa using hmem
    | park slot ht hwork hslot hempty => simp at ht'
    | _ =>
        obtain rfl := List.mem_singleton.mp (Multiset.mem_coe.mp ht')
        exact hsame (by simp) (by simp [*]) (by simp [*])
  · exact h.files_kept hact (h.taskFiles t' (Multiset.mem_cons_of_mem ht'))
      (Or.inr (hd.index_ne_task ht'))

theorem slotFiles_action (h : ClosureInv inputs trace ⟨s, t ::ₘ ts⟩)
    (hd : DeliveryInv numGroups trace ⟨s, t ::ₘ ts⟩) (hact : GcAction inputs s t e)
    {slot : WorkerSlot} (hslot : slot ∈ e.shared.workerSlots) {worker : GroupState}
    (hworker : slot.worker = some worker) :
    FilesOk inputs (trace ++ e.events) ((e.tasks : Multiset GcTask) + ts) worker := by
  have hold : slot ∈ s.workerSlots →
      FilesOk inputs (trace ++ e.events) ((e.tasks : Multiset GcTask) + ts) worker :=
    fun hmem => h.files_kept hact (h.slotFiles slot hmem worker hworker)
      (Or.inr (hd.index_ne_slot hmem hworker))
  have hself := h.files_kept hact (h.taskFiles t (Multiset.mem_cons_self _ _))
  cases hact with
  | leave request item rest slot' t' ht hrequest hslot' hgroup hrequests =>
      rcases List.mem_or_eq_of_mem_set hslot with hmem | rfl
      · exact hold hmem
      · cases hworker
  | park slot' ht hwork hslot' hempty =>
      rcases List.mem_or_eq_of_mem_set hslot with hmem | rfl
      · exact hold hmem
      · cases hworker
        exact hself (Or.inl (by simp))
  | swap slot' t' ht hwork hslot' hne hgroup hrequests =>
      rcases List.mem_or_eq_of_mem_set hslot with hmem | rfl
      · exact hold hmem
      · rw [hd.worker_none hslot'] at hworker
        cases hworker
  | _ => exact hold hslot

theorem taskWork_action (h : ClosureInv inputs trace ⟨s, t ::ₘ ts⟩)
    (hd : DeliveryInv numGroups trace ⟨s, t ::ₘ ts⟩) (hact : GcAction inputs s t e) {t' : GcTask}
    (ht' : t' ∈ (e.tasks : Multiset GcTask) + ts) :
    ∀ item ∈ t'.group.localWork, item.fileId.group = t'.group.index := by
  have hself := h.taskWork t (Multiset.mem_cons_self _ _)
  rcases Multiset.mem_add.mp ht' with ht' | ht'
  · cases hact with
    | push item rest t'' ht hlocal hgroup hrequests =>
        obtain rfl := List.mem_singleton.mp (Multiset.mem_coe.mp ht')
        intro item' hitem'
        rw [hgroup] at hitem' ⊢
        rcases List.mem_append.mp hitem' with hmem | hmem
        · exact hself item' hmem
        · obtain rfl := List.mem_singleton.mp hmem
          exact hlocal
    | leave request item rest slot t'' ht hrequest hslot hgroup hrequests =>
        rcases List.mem_cons.mp (Multiset.mem_coe.mp ht') with rfl | hwoken
        · rwa [hgroup]
        · obtain ⟨worker, hworker, rfl⟩ := Option.map_eq_some_iff.mp (Option.mem_toList.mp hwoken)
          simp [GcTask.group, (hd.waiting _ slot worker hslot hworker).localWork]
    | start before item state state' requests t'' ht hwork hstate hdo hgroup hrequests =>
        obtain rfl := List.mem_singleton.mp (Multiset.mem_coe.mp ht')
        intro item' hitem'
        rw [hgroup] at hitem' ⊢
        exact hself item' (hwork ▸ List.mem_append_left _ hitem')
    | park slot ht hwork hslot hempty => simp at ht'
    | swap slot t'' ht hwork hslot hne hgroup hrequests =>
        obtain rfl := List.mem_singleton.mp (Multiset.mem_coe.mp ht')
        intro item' hitem'
        rw [hgroup] at hitem' ⊢
        exact h.slotWork _ slot hslot item' hitem'
    | _ =>
        obtain rfl := List.mem_singleton.mp (Multiset.mem_coe.mp ht')
        simp_all
  · exact h.taskWork t' (Multiset.mem_cons_of_mem ht')

theorem slotWork_action (h : ClosureInv inputs trace ⟨s, t ::ₘ ts⟩) (hact : GcAction inputs s t e)
    {i : Nat} {slot : WorkerSlot} (hslot : e.shared.workerSlots[i]? = some slot) :
    ∀ item ∈ slot.work, item.fileId.group = i := by
  have hset : ∀ {j : Nat} {new : WorkerSlot}, (s.workerSlots.set j new)[i]? = some slot →
      (∀ item ∈ new.work, item.fileId.group = j) → ∀ item ∈ slot.work, item.fileId.group = i := by
    intro j new hnew hok
    rw [List.getElem?_set] at hnew
    split at hnew
    · subst_vars
      obtain ⟨-, hsame⟩ := Option.ite_none_right_eq_some.mp hnew
      obtain rfl := Option.some.inj hsame
      exact hok
    · exact h.slotWork i slot hnew
  cases hact with
  | leave request item rest slot' t' ht hrequest hslot' hgroup hrequests =>
      refine hset hslot fun item' hitem' => ?_
      rcases List.mem_append.mp hitem' with hmem | hmem
      · exact h.slotWork _ slot' hslot' item' hmem
      · rw [List.mem_singleton.mp hmem]
  | park slot' ht hwork hslot' hempty => exact hset hslot (by simp)
  | swap slot' t' ht hwork hslot' hne hgroup hrequests => exact hset hslot (by simp)
  | _ => exact h.slotWork i slot hslot

theorem action_inv (h : ClosureInv inputs trace ⟨s, t ::ₘ ts⟩)
    (hd : DeliveryInv numGroups trace ⟨s, t ::ₘ ts⟩) (hact : GcAction inputs s t e) :
    ClosureInv inputs (trace ++ e.events) ⟨e.shared, (e.tasks : Multiset GcTask) + ts⟩ where
  grown symbol hstart := hact.flags_grow (h.grown symbol hstart)
  flags _ := h.covered_action hact
  setFlags _ _ := h.setFlags_action hact
  exports _ := h.exports_action hact
  activated fileId file hfile r hr := h.answered hact (h.activated fileId file hfile r hr)
  processed _ _ := h.processed_action hd hact
  needed _ _ := h.needed_action hd hact
  sent _ _ := h.sent_action hact
  taskFiles _ := h.taskFiles_action hd hact
  slotFiles _ hslot _ := h.slotFiles_action hd hact hslot
  taskWork _ := h.taskWork_action hd hact
  slotWork _ _ := h.slotWork_action hact

end ClosureInv

end JdxLinker
