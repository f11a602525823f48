import JdxLinker.Gc.Needed

/-!
# The traversal is a closure

At any time, what a processed item asked for has been sent or is still asked for by a task, and
nothing is asked for that is not needed. A symbol whose flags have become a resolution is covered:
loading it has been sent, will be, or has been done on the spot.
-/

namespace JdxLinker

open TaskSystem Sums

/-- A task has yet to make a request. -/
def Outstanding (tasks : Multiset GcTask) (request : Request) : Prop :=
  ∃ t ∈ tasks, request ∈ t.requests

/-- An item has been sent, or will be. -/
def Asked (trace : List GcEvent) (tasks : Multiset GcTask) (item : WorkItem) : Prop :=
  .sent item ∈ trace ∨ Outstanding tasks (.send item) ∨ Outstanding tasks (.sendToSlot item)

variable (inputs : GraphInputs)

/-- Nothing more needs to be asked for a symbol. -/
def Covered (trace : List GcEvent) (tasks : Multiset GcTask) (symbol : SymbolId) : Prop :=
  (inputs.symbolFlags symbol).hasResolution = true ∨ Asked trace tasks (.loadGlobalSymbol symbol)
    ∨ ∀ item ∈ inputs.symbolItems symbol, Asked trace tasks item

/-- A request has been made and what it asked for is taken care of, or a task has yet to make it. -/
def Answered (trace : List GcEvent) (tasks : Multiset GcTask) (request : Request) : Prop :=
  Outstanding tasks request ∨ match request with
    | .reference reference => Covered inputs trace tasks reference.symbol
    | .exportSymbol symbol => Covered inputs trace tasks symbol
    | .send item => Asked trace tasks item
    | .sendToSlot item => Asked trace tasks item
    | .setFlags _ _ => True
    | .fail _ => False

/-- A section has not been asked for in vain, and has not been loaded without need. -/
def SectionOk (trace : List GcEvent) (tasks : Multiset GcTask) (fileId : FileId) (i : Nat)
    (sec : SectionInput) (slot : SectionSlot) : Prop :=
  (slot = sec.slot ∧ (.processed (.loadGcUnit fileId i) ∈ trace → sec.slot.load = sec.slot))
    ∨ (slot = sec.slot.load ∧ inputs.Needed (.gcUnit fileId i)
        ∧ ∀ request ∈ inputs.sectionRequests sec, Answered inputs trace tasks request)

/-- What a file may have become. -/
def FileOk (trace : List GcEvent) (tasks : Multiset GcTask) (fileId : FileId) :
    FileInput → FileLayoutState → Prop
  | .object obj, .object sections => sections.length = obj.sections.length
      ∧ ∀ (i : Nat) (sec : SectionInput) (slot : SectionSlot), obj.sections[i]? = some sec →
        sections[i]? = some slot → SectionOk inputs trace tasks fileId i sec slot
  | .syntheticSymbols _ initial, .syntheticSymbols startStopSections =>
      ∀ j : Nat, startStopSections[j]?.getD [] = initial[j]?.getD []
        ∨ (startStopSections[j]?.getD [] = []
          ∧ ∀ candidate : FileId × Nat, candidate ∈ initial[j]?.getD [] →
              Asked trace tasks (.loadGcUnit candidate.1 candidate.2))
  | .dynamic _, .dynamic => True
  | .prelude _ _, .other => True
  | .linkerScript _ _, .other => True
  | .other, .other => True
  | _, _ => False

def FilesOk (trace : List GcEvent) (tasks : Multiset GcTask) (group : GroupState) : Prop :=
  ∀ f, Option.Rel (FileOk inputs trace tasks ⟨group.index, f⟩)
    (inputs.file? ⟨group.index, f⟩) group.files[f]?

structure ClosureInv (trace : List GcEvent) (c : Config GraphResources GcTask) : Prop where
  grown : ∀ symbol, (inputs.symbolFlags symbol).hasResolution = true →
    (c.shared.flags symbol).hasResolution = true
  flags : ∀ symbol, (c.shared.flags symbol).hasResolution = true →
    Covered inputs trace c.tasks symbol
  setFlags : ∀ symbol flags, Outstanding c.tasks (.setFlags symbol flags) →
    Covered inputs trace c.tasks symbol
  exports : ∀ symbol, Outstanding c.tasks (.exportSymbol symbol) →
    (inputs.objectSymbol? symbol).isSome
  activated : ∀ fileId file, inputs.file? fileId = some file →
    ∀ request ∈ inputs.activate fileId file, Answered inputs trace c.tasks request
  processed : ∀ item target, .processed item ∈ trace → item.target = some target →
    ∀ request ∈ inputs.targetRequests target, Answered inputs trace c.tasks request
  needed : ∀ request target, Outstanding c.tasks request →
    inputs.requestTarget request = some target → inputs.Needed target
  sent : ∀ item target, .sent item ∈ trace → item.target = some target → inputs.Needed target
  taskFiles : ∀ t ∈ c.tasks, FilesOk inputs trace c.tasks t.group
  slotFiles : ∀ slot ∈ c.shared.workerSlots, ∀ worker, slot.worker = some worker →
    FilesOk inputs trace c.tasks worker
  taskWork : ∀ t ∈ c.tasks, ∀ item ∈ t.group.localWork, item.fileId.group = t.group.index
  slotWork : ∀ (i : Nat) (slot : WorkerSlot), c.shared.workerSlots[i]? = some slot →
    ∀ item ∈ slot.work, item.fileId.group = i

variable {inputs}

/-! ### Requests that stay or are made -/

/-- What making a request leads to. -/
def Made (inputs : GraphInputs) (s : GraphResources) (e : GcEffect) : Request → Prop
  | .reference reference =>
      ∃ t' ∈ e.tasks, ∀ r ∈ reference.follow (s.flags reference.symbol), r ∈ t'.requests
  | .exportSymbol symbol => (s.flags symbol).hasResolution = true
      ∨ ∃ t' ∈ e.tasks, ∀ r ∈ inputs.loadObjectSymbol symbol, r ∈ t'.requests
  | .send item => .sent item ∈ e.events
  | .sendToSlot item => .sent item ∈ e.events
  | .setFlags _ _ => True
  | .fail _ => False

variable {s : GraphResources} {t : GcTask} {e : GcEffect}

theorem GcAction.made (hact : GcAction inputs s t e) {request : Request}
    (h : request ∈ t.requests) : (∃ t' ∈ e.tasks, request ∈ t'.requests) ∨ Made inputs s e request := by
  have hcons : ∀ {head : Request} {rest : List Request} {t' : GcTask} (more : List Request),
      t.requests = head :: rest → t'.requests = more ++ rest → t' ∈ e.tasks →
      Made inputs s e head → (∃ t' ∈ e.tasks, request ∈ t'.requests) ∨ Made inputs s e request := by
    intro head rest t' more ht ht' hmem hmade
    rw [ht] at h
    rcases List.mem_cons.mp h with rfl | h
    · exact Or.inr hmade
    · exact Or.inl ⟨t', hmem, ht' ▸ List.mem_append_right _ h⟩
  cases hact with
  | skip t' hgroup hrequests => exact Or.inl ⟨t', List.mem_cons_self, hrequests ▸ h⟩
  | reference reference rest t' ht hgroup hrequests =>
      exact hcons _ ht hrequests List.mem_cons_self
        ⟨t', List.mem_cons_self, fun r hr => hrequests ▸ List.mem_append_left _ hr⟩
  | setFlags symbol flags rest t' ht hgroup hrequests =>
      exact hcons [] ht hrequests List.mem_cons_self trivial
  | exportSymbol symbol rest t' ht hgroup hrequests =>
      refine hcons _ ht hrequests List.mem_cons_self ?_
      by_cases hflags : (s.flags symbol).hasResolution = true
      · exact Or.inl hflags
      · rw [if_neg hflags] at hrequests
        exact Or.inr ⟨t', List.mem_cons_self, fun r hr => hrequests ▸ List.mem_append_left _ hr⟩
  | push item rest t' ht hlocal hgroup hrequests =>
      exact hcons [] ht hrequests List.mem_cons_self (List.mem_singleton_self _)
  | leave request' item rest slot t' ht hrequest hslot hgroup hrequests =>
      refine hcons [] ht hrequests List.mem_cons_self ?_
      rcases hrequest with rfl | rfl <;> exact List.mem_singleton_self _
  | start before item file file' requests t' ht hwork hfile hdo hgroup hrequests => simp [ht] at h
  | park slot ht hwork hslot hempty => simp [ht] at h
  | swap slot t' ht hwork hslot hne hgroup hrequests => simp [ht] at h

section Monotone

variable {trace : List GcEvent} {ts : Multiset GcTask}

theorem Outstanding.of_new {request : Request} {t' : GcTask} (ht' : t' ∈ e.tasks)
    (h : request ∈ t'.requests) : Outstanding ((e.tasks : Multiset GcTask) + ts) request :=
  ⟨t', Multiset.mem_add.mpr (Or.inl ht'), h⟩

theorem GcAction.outstanding (hact : GcAction inputs s t e) {request : Request}
    (h : Outstanding (t ::ₘ ts) request) :
    Outstanding ((e.tasks : Multiset GcTask) + ts) request ∨ Made inputs s e request := by
  obtain ⟨t', ht', hrequest⟩ := h
  rcases Multiset.mem_cons.mp ht' with rfl | ht'
  · rcases hact.made hrequest with ⟨t', ht', hrequest⟩ | hmade
    · exact Or.inl (.of_new ht' hrequest)
    · exact Or.inr hmade
  · exact Or.inl ⟨t', Multiset.mem_add.mpr (Or.inr ht'), hrequest⟩

theorem GcAction.asked (hact : GcAction inputs s t e) {item : WorkItem}
    (h : Asked trace (t ::ₘ ts) item) :
    Asked (trace ++ e.events) ((e.tasks : Multiset GcTask) + ts) item := by
  rcases h with h | h | h
  · exact Or.inl (List.mem_append_left _ h)
  · rcases hact.outstanding h with h | hmade
    · exact Or.inr (Or.inl h)
    · exact Or.inl (List.mem_append_right _ hmade)
  · rcases hact.outstanding h with h | hmade
    · exact Or.inr (Or.inr h)
    · exact Or.inl (List.mem_append_right _ hmade)

theorem GcAction.covered (hact : GcAction inputs s t e) {symbol : SymbolId}
    (h : Covered inputs trace (t ::ₘ ts) symbol) :
    Covered inputs (trace ++ e.events) ((e.tasks : Multiset GcTask) + ts) symbol := by
  rcases h with h | h | h
  · exact Or.inl h
  · exact Or.inr (Or.inl (hact.asked h))
  · exact Or.inr (Or.inr fun item hitem => hact.asked (h item hitem))

/-- A reference that is made covers its symbol. -/
theorem ClosureInv.reference_covered (h : ClosureInv inputs trace ⟨s, t ::ₘ ts⟩)
    (hact : GcAction inputs s t e) {reference : Reference}
    (hmade : Made inputs s e (.reference reference)) :
    Covered inputs (trace ++ e.events) ((e.tasks : Multiset GcTask) + ts) reference.symbol := by
  obtain ⟨t', ht', hfollow⟩ := hmade
  by_cases hflags : (s.flags reference.symbol).hasResolution = true
  · exact hact.covered (h.flags _ hflags)
  · refine Or.inr (Or.inl (Or.inr (Or.inl (.of_new ht' (hfollow _ ?_)))))
    simp [Reference.follow, hflags]

theorem ClosureInv.export_covered (h : ClosureInv inputs trace ⟨s, t ::ₘ ts⟩)
    (hact : GcAction inputs s t e) {symbol : SymbolId}
    (hsymbol : (inputs.objectSymbol? symbol).isSome)
    (hmade : Made inputs s e (.exportSymbol symbol)) :
    Covered inputs (trace ++ e.events) ((e.tasks : Multiset GcTask) + ts) symbol := by
  rcases hmade with hflags | ⟨t', ht', hload⟩
  · exact hact.covered (h.flags _ hflags)
  · refine Or.inr (Or.inr fun item hitem => Or.inr (Or.inl (.of_new ht' (hload _ ?_))))
    obtain ⟨obj, hobj⟩ := inputs.objectSymbol?_isSome hsymbol
    rw [inputs.loadObjectSymbol_eq hobj]
    exact List.mem_map_of_mem hitem

theorem ClosureInv.answered (h : ClosureInv inputs trace ⟨s, t ::ₘ ts⟩)
    (hact : GcAction inputs s t e) {request : Request}
    (hanswered : Answered inputs trace (t ::ₘ ts) request) :
    Answered inputs (trace ++ e.events) ((e.tasks : Multiset GcTask) + ts) request := by
  rcases hanswered with hout | hanswered
  · rcases hact.outstanding hout with hout' | hmade
    · exact Or.inl hout'
    · refine Or.inr ?_
      cases request with
      | reference reference => exact h.reference_covered hact hmade
      | exportSymbol symbol => exact h.export_covered hact (h.exports symbol hout) hmade
      | send item => exact Or.inl (List.mem_append_right _ hmade)
      | sendToSlot item => exact Or.inl (List.mem_append_right _ hmade)
      | setFlags symbol flags => trivial
      | fail error => exact hmade
  · refine Or.inr ?_
    cases request with
    | reference reference => exact hact.covered hanswered
    | exportSymbol symbol => exact hact.covered hanswered
    | send item => exact hact.asked hanswered
    | sendToSlot item => exact hact.asked hanswered
    | setFlags symbol flags => trivial
    | fail error => exact hanswered

end Monotone

end JdxLinker
