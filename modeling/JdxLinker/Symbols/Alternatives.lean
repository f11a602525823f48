import JdxLinker.Symbols.Candidates
import JdxLinker.Layout.OutputKind
import JdxLinker.Lib.Lists

/-!
# Resolving the alternative definitions

The buckets of the symbol table are processed in parallel. Every list of definitions updates the
definition table at its own symbols, adds flags, or reports an error. A symbol with a default version
is in two lists, which may be in different buckets.
-/

namespace JdxLinker.Symbols

/-- A bucket of the symbol table: the names that are defined more than once. -/
structure SymbolBucket where
  alternativeDefinitions : List Alternatives
  alternativeVersionedDefinitions : List Alternatives
  deriving Repr, DecidableEq

/-- The lists of all buckets. -/
def allAlternatives (buckets : List SymbolBucket) : List Alternatives :=
  buckets.flatMap fun bucket =>
    bucket.alternativeDefinitions ++ bucket.alternativeVersionedDefinitions

/-- An atomic change of what the buckets share. -/
inductive Change where
  | updateDefinition (toUpdate newDefinition : SymbolId)
  | orAssign (id : SymbolId) (flags : ValueFlags)
  | pushError (failure : Failure)
  deriving Repr, DecidableEq

structure Shared where
  symbolDefinitions : SymbolId → SymbolId
  perSymbolFlags : SymbolId → ValueFlags
  errorQueue : List Failure

namespace Shared

def apply (shared : Shared) : Change → Shared
  | .updateDefinition toUpdate newDefinition =>
    { shared with
      symbolDefinitions := Function.update shared.symbolDefinitions toUpdate newDefinition }
  | .orAssign id flags =>
    { shared with
      perSymbolFlags :=
        Function.update shared.perSymbolFlags id ((shared.perSymbolFlags id).union flags) }
  | .pushError failure => { shared with errorQueue := shared.errorQueue ++ [failure] }

def run (shared : Shared) (changes : List Change) : Shared := changes.foldl apply shared

/-- The definition of a symbol, found in two steps. -/
def definition (shared : Shared) (id : SymbolId) : SymbolId :=
  shared.symbolDefinitions (shared.symbolDefinitions id)

end Shared

namespace SymbolTable

variable (table : SymbolTable)

/-- What a visibility other than the default adds to a symbol, unless a shared library defines it. -/
def handleNonDefaultVisibility (id : SymbolId) : Visibility → List Change
  | .hidden =>
    if !table.isDynamic id then
      [.orAssign id { ValueFlags.empty with nonInterposable := true, downgradeToLocal := true }]
    else []
  | .«protected» =>
    if !table.isDynamic id then
      [.orAssign id { ValueFlags.empty with nonInterposable := true }]
    else []
  | .default => []

/-- The most restrictive visibility of the definitions. -/
def mergedVisibility (list : Alternatives) : Visibility :=
  list.alternatives.foldl (fun visibility id => visibility.max (table.visibility id))
    (table.visibility list.first)

/-- What a list of definitions changes. -/
def processList (list : Alternatives) : List Change :=
  match table.selectSymbol list with
  | .ok selected =>
    list.ids.map (fun id => .updateDefinition id selected)
      ++ list.ids.flatMap fun id =>
        table.handleNonDefaultVisibility id (table.mergedVisibility list)
  | .error failure => [.pushError failure]

def processAlternatives (lists : List Alternatives) : List Change :=
  lists.flatMap table.processList

/-- The changes of a run, whatever the order in which the threads get to make them. -/
def Interleaving (buckets : List SymbolBucket) (changes : List Change) : Prop :=
  changes.Perm (buckets.flatMap fun bucket =>
    table.processAlternatives bucket.alternativeDefinitions
      ++ table.processAlternatives bucket.alternativeVersionedDefinitions)

end SymbolTable

/-- What is left once all buckets have been processed: the definitions and flags, or the errors in
the order of their texts. -/
def Shared.finish (shared : Shared) :
    Fallible ((SymbolId → SymbolId) × (SymbolId → ValueFlags)) :=
  if shared.errorQueue.isEmpty then .ok (shared.symbolDefinitions, shared.perSymbolFlags)
  else
    .error (.error ("Duplicate symbols detected: "
      ++ "\n".intercalate (shared.errorQueue.map Failure.text).mergeSort))

/-! ### What the outcome should be -/

/-- An error is reported for the names that are defined twice, and only for them. All definitions of
another name resolve to the one it stands for. -/
structure Shared.Correct (table : SymbolTable) (lists : List Alternatives) (shared : Shared) :
    Prop where
  reported : ∀ list ∈ lists, table.Duplicated list.ids →
    ∃ existing ∈ list.ids, ∃ id ∈ list.ids,
      .error (table.duplicateMessage list.first existing id) ∈ shared.errorQueue
  duplicated : ∀ failure ∈ shared.errorQueue, ∃ list ∈ lists, table.Duplicated list.ids ∧
    ∃ existing ∈ list.ids, ∃ id ∈ list.ids, table.isStrong existing = true ∧
      table.isStrong id = true ∧ table.conflicting existing id = true ∧
      failure = .error (table.duplicateMessage list.first existing id)
  resolved : ∀ list ∈ lists, ¬ table.Duplicated list.ids →
    ∃ selected, table.Specified list.ids selected ∧
      ∀ id ∈ list.ids, shared.definition id = selected

/-- Two lists with a common symbol stand for the same definition. -/
def SymbolTable.Compatible (table : SymbolTable) (lists : List Alternatives) : Prop :=
  ∀ list ∈ lists, ∀ list' ∈ lists, ¬ table.Duplicated list.ids → ¬ table.Duplicated list'.ids →
    (∃ id ∈ list.ids, id ∈ list'.ids) → ∀ selected selected',
      table.Specified list.ids selected → table.Specified list'.ids selected' → selected = selected'

/-! ### The changes of a run -/

section Runs

variable {table : SymbolTable} {shared : Shared} {changes changes' : List Change} {id new : SymbolId}

theorem run_cons (shared : Shared) (change : Change) (changes : List Change) :
    shared.run (change :: changes) = (shared.apply change).run changes := rfl

/-- The errors that a change reports. -/
def Change.reports : Change → List Failure
  | .pushError failure => [failure]
  | .updateDefinition .. | .orAssign .. => []

theorem run_errorQueue (shared : Shared) (changes : List Change) :
    (shared.run changes).errorQueue = shared.errorQueue ++ changes.flatMap Change.reports := by
  induction changes generalizing shared with
  | nil => exact (List.append_nil _).symm
  | cons change changes ih =>
      rw [run_cons, ih, List.flatMap_cons, ← List.append_assoc]
      cases change with
      | updateDefinition | orAssign => rw [Change.reports, List.append_nil]; rfl
      | pushError failure => rfl

/-- What a change adds to the flags. -/
def Change.addFlags (flags : SymbolId → ValueFlags) : Change → SymbolId → ValueFlags
  | .orAssign id added => Function.update flags id ((flags id).union added)
  | _ => flags

theorem run_perSymbolFlags (shared : Shared) (changes : List Change) :
    (shared.run changes).perSymbolFlags = changes.foldl Change.addFlags shared.perSymbolFlags := by
  induction changes generalizing shared with
  | nil => rfl
  | cons change changes ih =>
      rw [run_cons, ih, List.foldl_cons]
      cases change <;> rfl

/-- Flags may be added in any order. -/
instance : RightCommutative Change.addFlags where
  right_comm flags a b := by
    cases a with
    | updateDefinition | pushError => rfl
    | orAssign id added =>
        cases b with
        | updateDefinition | pushError => rfl
        | orAssign id' added' =>
            unfold Change.addFlags
            dsimp only
            by_cases hid : id = id'
            · subst hid
              rw [Function.update_self, Function.update_self, Function.update_idem,
                Function.update_idem, ValueFlags.union_right_comm]
            · rw [Function.update_of_ne (Ne.symm hid), Function.update_of_ne hid,
                Function.update_comm hid]

theorem run_unchanged (h : ∀ new, .updateDefinition id new ∉ changes) :
    (shared.run changes).symbolDefinitions id = shared.symbolDefinitions id := by
  induction changes generalizing shared with
  | nil => rfl
  | cons change changes ih =>
      rw [run_cons, ih fun new hnew => h new (List.mem_cons_of_mem _ hnew)]
      cases change with
      | orAssign | pushError => rfl
      | updateDefinition toUpdate newDefinition =>
          refine Function.update_of_ne (fun heq => h newDefinition ?_) _ _
          rw [heq]
          exact List.mem_cons_self

/-- A symbol that is always updated to the same definition, has it. -/
theorem run_updated (hmem : .updateDefinition id new ∈ changes)
    (hsame : ∀ other, .updateDefinition id other ∈ changes → other = new) :
    (shared.run changes).symbolDefinitions id = new := by
  induction changes generalizing shared with
  | nil => cases hmem
  | cons change changes ih =>
      rw [run_cons]
      by_cases hlater : .updateDefinition id new ∈ changes
      · exact ih hlater fun other hother => hsame other (List.mem_cons_of_mem _ hother)
      · have hchange := (List.mem_cons.mp hmem).resolve_right hlater
        rw [run_unchanged, ← hchange]
        · exact Function.update_self ..
        · intro other hother
          rw [hsame other (List.mem_cons_of_mem _ hother)] at hother
          exact hlater hother

/-- Updates that agree may be made in any order. -/
theorem run_symbolDefinitions_perm (hperm : changes.Perm changes')
    (hsame : ∀ id new new', .updateDefinition id new ∈ changes →
      .updateDefinition id new' ∈ changes → new = new') :
    (shared.run changes).symbolDefinitions = (shared.run changes').symbolDefinitions := by
  funext id
  by_cases hupdated : ∃ new, .updateDefinition id new ∈ changes
  · obtain ⟨new, hnew⟩ := hupdated
    rw [run_updated hnew fun other hother => hsame id other new hother hnew,
      run_updated (hperm.mem_iff.mp hnew) fun other hother =>
        hsame id other new (hperm.mem_iff.mpr hother) hnew]
  · have hnone : ∀ new, .updateDefinition id new ∉ changes := fun new hnew => hupdated ⟨new, hnew⟩
    rw [run_unchanged hnone, run_unchanged fun new hnew => hnone new (hperm.mem_iff.mpr hnew)]

end Runs

/-! ### The changes of a list -/

section Lists

variable {table : SymbolTable} {buckets : List SymbolBucket} {list : Alternatives}
  {changes : List Change} {id new : SymbolId} {failure : Failure}

theorem mem_handleNonDefaultVisibility {visibility : Visibility} {change : Change}
    (h : change ∈ table.handleNonDefaultVisibility id visibility) :
    ∃ flags, change = .orAssign id flags := by
  unfold SymbolTable.handleNonDefaultVisibility at h
  cases visibility with
  | default => cases h
  | «protected» | hidden =>
      dsimp only at h
      split at h
      · exact ⟨_, List.mem_singleton.mp h⟩
      · cases h

theorem updateDefinition_mem_processList : .updateDefinition id new ∈ table.processList list
    ↔ table.selectSymbol list = .ok new ∧ id ∈ list.ids := by
  unfold SymbolTable.processList
  cases hselect : table.selectSymbol list with
  | error failure => simp
  | ok selected =>
      have hvisibility : .updateDefinition id new ∉ list.ids.flatMap fun id =>
          table.handleNonDefaultVisibility id (table.mergedVisibility list) := by
        intro hmem
        obtain ⟨other, -, hmem⟩ := List.mem_flatMap.mp hmem
        obtain ⟨flags, hflags⟩ := mem_handleNonDefaultVisibility hmem
        cases hflags
      constructor
      · intro hmem
        obtain ⟨other, hother, heq⟩ :=
          List.mem_map.mp ((List.mem_append.mp hmem).resolve_right hvisibility)
        cases heq
        exact ⟨rfl, hother⟩
      · rintro ⟨hok, hid⟩
        cases hok
        exact List.mem_append_left _ (List.mem_map.mpr ⟨id, hid, rfl⟩)

theorem mem_reports_processList : failure ∈ (table.processList list).flatMap Change.reports
    ↔ table.selectSymbol list = .error failure := by
  unfold SymbolTable.processList
  cases hselect : table.selectSymbol list with
  | error reason => simp [Change.reports, eq_comm]
  | ok selected =>
      refine ⟨fun hmem => ?_, fun heq => by cases heq⟩
      obtain ⟨change, hchange, hreports⟩ := List.mem_flatMap.mp hmem
      rcases List.mem_append.mp hchange with hchange | hchange
      · obtain ⟨other, -, rfl⟩ := List.mem_map.mp hchange
        cases hreports
      · obtain ⟨other, -, hchange⟩ := List.mem_flatMap.mp hchange
        obtain ⟨flags, rfl⟩ := mem_handleNonDefaultVisibility hchange
        cases hreports

/-- The changes of a run are those of the lists. -/
theorem interleaving_iff : table.Interleaving buckets changes
    ↔ changes.Perm ((allAlternatives buckets).flatMap table.processList) := by
  unfold SymbolTable.Interleaving SymbolTable.processAlternatives allAlternatives
  rw [List.flatMap_assoc]
  simp only [List.flatMap_append]

theorem updateDefinition_mem (h : table.Interleaving buckets changes) :
    .updateDefinition id new ∈ changes
      ↔ ∃ list ∈ allAlternatives buckets, table.selectSymbol list = .ok new ∧ id ∈ list.ids := by
  rw [(interleaving_iff.mp h).mem_iff, List.mem_flatMap]
  simp only [updateDefinition_mem_processList]

theorem mem_reports (h : table.Interleaving buckets changes) :
    failure ∈ changes.flatMap Change.reports
      ↔ ∃ list ∈ allAlternatives buckets, table.selectSymbol list = .error failure := by
  rw [((interleaving_iff.mp h).flatMap_right _).mem_iff, List.flatMap_assoc, List.mem_flatMap]
  simp only [mem_reports_processList]

end Lists

/-! ### Correct outcomes -/

section Outcome

variable {table : SymbolTable} {buckets buckets' : List SymbolBucket}
  {changes changes' : List Change} {definitions : SymbolId → SymbolId} {flags : SymbolId → ValueFlags}

/-- Where the lists are compatible, no symbol is updated to two definitions. -/
theorem updates_agree (h : table.Interleaving buckets changes)
    (hcompatible : table.Compatible (allAlternatives buckets)) {id new new' : SymbolId}
    (hnew : .updateDefinition id new ∈ changes) (hnew' : .updateDefinition id new' ∈ changes) :
    new = new' := by
  obtain ⟨list, hlist, hselect, hid⟩ := (updateDefinition_mem h).mp hnew
  obtain ⟨list', hlist', hselect', hid'⟩ := (updateDefinition_mem h).mp hnew'
  obtain ⟨hdistinct, hspecified⟩ := selectSymbol_eq_ok hselect
  obtain ⟨hdistinct', hspecified'⟩ := selectSymbol_eq_ok hselect'
  exact hcompatible list hlist list' hlist' hdistinct hdistinct' ⟨id, hid, hid'⟩ new new'
    hspecified hspecified'

theorem specified_mem {ids : List SymbolId} {selected : SymbolId}
    (h : table.Specified ids selected) : selected ∈ ids := by
  cases h with
  | strong h | weak _ _ h | dynamic _ _ _ h => exact List.mem_of_find?_eq_some h
  | common _ h =>
      obtain ⟨before, after, rfl, -⟩ := h
      simp
  | undefined _ _ _ _ h => exact List.mem_of_head? h

theorem correct_of_compatible (h : table.Interleaving buckets changes)
    (hcompatible : table.Compatible (allAlternatives buckets)) :
    (Shared.run ⟨definitions, flags, []⟩ changes).Correct table (allAlternatives buckets) where
  reported list hlist hduplicated := by
    cases hselect : table.selectSymbol list with
    | ok selected => exact absurd hduplicated (selectSymbol_eq_ok hselect).1
    | error failure =>
        obtain ⟨-, existing, hexisting, id, hid, -, -, -, rfl⟩ := selectSymbol_eq_error hselect
        refine ⟨existing, hexisting, id, hid, ?_⟩
        rw [run_errorQueue, List.nil_append, mem_reports h]
        exact ⟨list, hlist, hselect⟩
  duplicated failure hfailure := by
    rw [run_errorQueue, List.nil_append, mem_reports h] at hfailure
    obtain ⟨list, hlist, hselect⟩ := hfailure
    exact ⟨list, hlist, selectSymbol_eq_error hselect⟩
  resolved list hlist hdistinct := by
    obtain ⟨selected, hselect⟩ := exists_selectSymbol hdistinct
    have hspecified := (selectSymbol_eq_ok hselect).2
    have hupdated : ∀ id ∈ list.ids,
        (Shared.run ⟨definitions, flags, []⟩ changes).symbolDefinitions id = selected := by
      intro id hid
      have hnew := (updateDefinition_mem h).mpr ⟨list, hlist, hselect, hid⟩
      exact run_updated hnew fun other hother => updates_agree h hcompatible hother hnew
    refine ⟨selected, hspecified, fun id hid => ?_⟩
    unfold Shared.definition
    rw [hupdated id hid, hupdated selected (specified_mem hspecified)]

theorem compatible_of_correct {shared : Shared} {lists : List Alternatives}
    (h : shared.Correct table lists) : table.Compatible lists := by
  rintro list hlist list' hlist' hdistinct hdistinct' ⟨id, hid, hid'⟩ selected selected' hs hs'
  obtain ⟨found, hfound, hresolved⟩ := h.resolved list hlist hdistinct
  obtain ⟨found', hfound', hresolved'⟩ := h.resolved list' hlist' hdistinct'
  calc selected = found := hs.unique hfound
    _ = shared.definition id := (hresolved id hid).symm
    _ = found' := hresolved' id hid'
    _ = selected' := hfound'.unique hs'

/-- Errors are reported in the order of their texts, so the order in which they were found does not
matter. -/
theorem finish_eq {shared shared' : Shared}
    (hdefinitions : shared.symbolDefinitions = shared'.symbolDefinitions)
    (hflags : shared.perSymbolFlags = shared'.perSymbolFlags)
    (herrors : shared.errorQueue.Perm shared'.errorQueue) : shared.finish = shared'.finish := by
  have htexts : (shared.errorQueue.map Failure.text).mergeSort
      = (shared'.errorQueue.map Failure.text).mergeSort :=
    Lists.mergeSort_eq_of_perm (herrors.map _)
  unfold Shared.finish
  rw [herrors.isEmpty_eq, htexts, hdefinitions, hflags]

/-- The outcome depends neither on the number of buckets nor on the order in which they are
processed. -/
theorem finish_eq_of_compatible (hlists : (allAlternatives buckets).Perm (allAlternatives buckets'))
    (h : table.Interleaving buckets changes) (h' : table.Interleaving buckets' changes')
    (hcompatible : table.Compatible (allAlternatives buckets)) :
    (Shared.run ⟨definitions, flags, []⟩ changes).finish
      = (Shared.run ⟨definitions, flags, []⟩ changes').finish := by
  have hperm : changes.Perm changes' := calc
    changes.Perm ((allAlternatives buckets).flatMap table.processList) := interleaving_iff.mp h
    List.Perm _ ((allAlternatives buckets').flatMap table.processList) := hlists.flatMap_right _
    List.Perm _ changes' := (interleaving_iff.mp h').symm
  refine finish_eq ?_ ?_ ?_
  · exact run_symbolDefinitions_perm hperm fun _ _ _ => updates_agree h hcompatible
  · rw [run_perSymbolFlags, run_perSymbolFlags]
    exact hperm.foldl_eq _
  · rw [run_errorQueue, run_errorQueue]
    exact hperm.flatMap_right _

/-- Every run reports the names that are defined twice and resolves the others to the definitions they
stand for, with the same outcome for any buckets and any order, if and only if lists with a common
symbol stand for the same definition. -/
theorem alternatives_correct_iff (table : SymbolTable) (definitions : SymbolId → SymbolId)
    (flags : SymbolId → ValueFlags) (buckets : List SymbolBucket) :
    ((∀ changes, table.Interleaving buckets changes →
        (Shared.run ⟨definitions, flags, []⟩ changes).Correct table (allAlternatives buckets)) ∧
      ∀ buckets' changes changes', (allAlternatives buckets).Perm (allAlternatives buckets') →
        table.Interleaving buckets changes → table.Interleaving buckets' changes' →
        (Shared.run ⟨definitions, flags, []⟩ changes).finish
          = (Shared.run ⟨definitions, flags, []⟩ changes').finish)
    ↔ table.Compatible (allAlternatives buckets) := by
  constructor
  · rintro ⟨hcorrect, -⟩
    exact compatible_of_correct (hcorrect _ (List.Perm.refl _))
  · intro hcompatible
    exact ⟨fun changes h => correct_of_compatible h hcompatible,
      fun buckets' changes changes' hlists h h' => finish_eq_of_compatible hlists h h' hcompatible⟩

/-- A definition of `foo` in an object, and one of `foo@@V` in each of two shared libraries. -/
def versionedTable : SymbolTable where
  isDynamic id := id != 0
  strength _ := .strong
  isInComdatGroup _ := false
  visibility _ := .default
  allowMultipleDefinitions := false
  symbolName _ := "foo"
  fileName id := ["a.o", "libA.so", "libB.so"].getD id ""

/-- The three definitions of `foo`, and the two of the version, which is in a bucket of its own. -/
def versionedBuckets : List SymbolBucket := [⟨[⟨0, [1, 2]⟩], []⟩, ⟨[], [⟨1, [2]⟩]⟩]

theorem versionedBuckets_not_compatible :
    ¬ versionedTable.Compatible (allAlternatives versionedBuckets) := by
  intro h
  have hdistinct : ¬ versionedTable.Duplicated (Alternatives.ids ⟨0, [1, 2]⟩) :=
    fun hduplicated => hduplicated.2 (by simp [SymbolTable.GoTogether, SymbolTable.isStrong,
      versionedTable, Alternatives.ids])
  have hdistinct' : ¬ versionedTable.Duplicated (Alternatives.ids ⟨1, [2]⟩) :=
    fun hduplicated => hduplicated.2 (by simp [SymbolTable.GoTogether, SymbolTable.isStrong,
      versionedTable, Alternatives.ids])
  have hcommon : versionedTable.NoCommon (Alternatives.ids ⟨1, [2]⟩) := by
    rintro id - size ⟨-, hstrength⟩
    cases hstrength
  have heq := h ⟨0, [1, 2]⟩ (by decide) ⟨1, [2]⟩ (by decide) hdistinct hdistinct'
    ⟨1, by decide, by decide⟩ 0 1 (.strong rfl) (.dynamic rfl hcommon rfl rfl)
  cases heq

/-- The outcome for the definition of the first library depends on the bucket that is processed
last: where it is that of the version, it does not resolve to the definition of the object. -/
theorem versionedBuckets_counterexample :
    ∃ changes changes', versionedTable.Interleaving versionedBuckets changes ∧
      versionedTable.Interleaving versionedBuckets changes' ∧
      ¬ (Shared.run ⟨id, fun _ => .empty, []⟩ changes).Correct versionedTable
        (allAlternatives versionedBuckets) ∧
      (Shared.run ⟨id, fun _ => .empty, []⟩ changes).definition 1 = 1 ∧
      (Shared.run ⟨id, fun _ => .empty, []⟩ changes').definition 1 = 0 := by
  refine ⟨_, _, List.Perm.refl _, List.perm_append_comm, ?_, ?_, ?_⟩
  · exact fun hcorrect => versionedBuckets_not_compatible (compatible_of_correct hcorrect)
  · decide
  · decide

end Outcome

end JdxLinker.Symbols
