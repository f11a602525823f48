import JdxLinker.Symbols.Selection

/-!
# The candidates for a definition

After some definitions of a name, the candidates are those of its first definitions: the first strong
one, the first of the largest common ones, and the first weak one. No two strong ones conflict.
-/

namespace JdxLinker.Symbols

/-! ### The candidates after some definitions -/

section Candidates

variable {table : SymbolTable} {ids : List SymbolId} {id selected : SymbolId}

theorem isCommon_size {size size' : Nat} (h : table.IsCommon id size)
    (h' : table.IsCommon id size') : size = size' :=
  SymbolStrength.common.inj (h.2.symm.trans h'.2)

/-- The common candidate of a selector is the first of the largest ones. -/
def CommonCandidate (table : SymbolTable) (ids : List SymbolId) : Option (Nat × SymbolId) → Prop
  | some (size, selected) => table.FirstLargestCommon ids selected size
  | none => table.NoCommon ids

/-- What the candidates of a selector are. -/
structure Candidates (table : SymbolTable) (ids : List SymbolId)
    (selector : SymbolPrioritySelector) : Prop where
  strong : selector.firstStrong = ids.find? table.isStrong
  common : CommonCandidate table ids selector.maxCommon
  weak : selector.firstWeak = ids.find? table.isWeak

theorem find?_append_singleton (p : SymbolId → Bool) :
    (ids ++ [id]).find? p = (ids.find? p <|> if p id then some id else none) := by
  rw [List.find?_append]
  cases hfind : ids.find? p with
  | some found => rfl
  | none =>
      rw [List.find?_singleton]
      rfl

theorem CommonCandidate.append_other {candidate : Option (Nat × SymbolId)}
    (h : CommonCandidate table ids candidate) (hid : ∀ size, ¬ table.IsCommon id size) :
    CommonCandidate table (ids ++ [id]) candidate := by
  cases candidate with
  | none =>
      intro other hother size
      rcases List.mem_append.mp hother with hother | hother
      · exact h other hother size
      · obtain rfl := List.mem_singleton.mp hother
        exact hid size
  | some candidate =>
      obtain ⟨before, after, rfl, hcommon, hbefore, hafter⟩ := h
      refine ⟨before, after ++ [id], by rw [List.append_assoc]; rfl, hcommon, hbefore, ?_⟩
      intro other hother size hsize
      rcases List.mem_append.mp hother with hother | hother
      · exact hafter other hother size hsize
      · obtain rfl := List.mem_singleton.mp hother
        exact absurd hsize (hid size)

theorem CommonCandidate.append_smaller {candidate : Nat × SymbolId} {size : Nat}
    (h : CommonCandidate table ids (some candidate)) (hid : table.IsCommon id size)
    (hle : size ≤ candidate.1) : CommonCandidate table (ids ++ [id]) (some candidate) := by
  obtain ⟨before, after, rfl, hcommon, hbefore, hafter⟩ := h
  refine ⟨before, after ++ [id], by rw [List.append_assoc]; rfl, hcommon, hbefore, ?_⟩
  intro other hother size' hsize'
  rcases List.mem_append.mp hother with hother | hother
  · exact hafter other hother size' hsize'
  · obtain rfl := List.mem_singleton.mp hother
    exact (isCommon_size hid hsize') ▸ hle

theorem CommonCandidate.append_larger {candidate : Option (Nat × SymbolId)} {size : Nat}
    (h : CommonCandidate table ids candidate) (hid : table.IsCommon id size)
    (hlt : ∀ prev ∈ candidate, prev.1 < size) :
    CommonCandidate table (ids ++ [id]) (some (size, id)) := by
  refine ⟨ids, [], rfl, hid, fun other hother size' hsize' => ?_, fun _ hother => by cases hother⟩
  cases candidate with
  | none => exact absurd hsize' (h other hother size')
  | some candidate =>
      obtain ⟨before, after, rfl, hcommon, hbefore, hafter⟩ := h
      have hprev := hlt candidate rfl
      rcases List.mem_append.mp hother with hother | hother
      · exact (hbefore other hother size' hsize').trans hprev
      · rcases List.mem_cons.mp hother with rfl | hother
        · exact (isCommon_size hcommon hsize') ▸ hprev
        · exact (hafter other hother size' hsize').trans_lt hprev

theorem candidates_new : Candidates table [] SymbolPrioritySelector.new :=
  ⟨rfl, fun _ hother => (by cases hother), rfl⟩

theorem find?_append_of_eq_false {p : SymbolId → Bool} (h : p id = false) :
    (ids ++ [id]).find? p = ids.find? p := by
  rw [find?_append_singleton, h]
  cases ids.find? p <;> rfl

theorem find?_append_of_eq_true {p : SymbolId → Bool} (h : p id = true) :
    (ids ++ [id]).find? p = if (ids.find? p).isNone then some id else ids.find? p := by
  rw [find?_append_singleton, h]
  cases ids.find? p <;> rfl

/-- A definition of a shared library is no candidate. -/
theorem Candidates.append_dynamic {selector : SymbolPrioritySelector}
    (h : Candidates table ids selector) (hdynamic : table.isDynamic id = true) :
    Candidates table (ids ++ [id]) selector := by
  refine ⟨?_, h.common.append_other fun size hsize => ?_, ?_⟩
  · rw [find?_append_of_eq_false (by simp [SymbolTable.isStrong, hdynamic]), h.strong]
  · rw [hsize.1] at hdynamic
    cases hdynamic
  · rw [find?_append_of_eq_false (by simp [SymbolTable.isWeak, hdynamic]), h.weak]

theorem Candidates.append_strong {selector : SymbolPrioritySelector}
    (h : Candidates table ids selector) (hdynamic : table.isDynamic id = false)
    (hstrength : table.strength id = .strong) :
    Candidates table (ids ++ [id]) (selector.consider id .strong) := by
  have hstrong : table.isStrong id = true := by simp [SymbolTable.isStrong, hdynamic, hstrength]
  have hweak : table.isWeak id = false := by simp [SymbolTable.isWeak, hstrength]
  have hcommon : ∀ size, ¬ table.IsCommon id size := fun size hsize => by
    rw [hsize.2] at hstrength
    cases hstrength
  unfold SymbolPrioritySelector.consider
  dsimp only
  split
  · rename_i hnone
    refine ⟨?_, h.common.append_other hcommon, ?_⟩
    · rw [find?_append_of_eq_true hstrong, ← h.strong, if_pos hnone]
    · rw [find?_append_of_eq_false hweak, ← h.weak]
  · rename_i hsome
    refine ⟨?_, h.common.append_other hcommon, ?_⟩
    · rw [find?_append_of_eq_true hstrong, ← h.strong, if_neg hsome]
    · rw [find?_append_of_eq_false hweak, ← h.weak]

theorem Candidates.append_weak {selector : SymbolPrioritySelector}
    (h : Candidates table ids selector) (hdynamic : table.isDynamic id = false)
    (hstrength : table.strength id = .weak ∨ table.strength id = .gnuUnique) :
    Candidates table (ids ++ [id]) (selector.consider id .weak) := by
  have hstrong : table.isStrong id = false := by
    rcases hstrength with hstrength | hstrength <;> simp [SymbolTable.isStrong, hstrength]
  have hweak : table.isWeak id = true := by
    rcases hstrength with hstrength | hstrength <;>
      simp [SymbolTable.isWeak, hdynamic, hstrength]
  have hcommon : ∀ size, ¬ table.IsCommon id size := fun size hsize => by
    rw [hsize.2] at hstrength
    rcases hstrength with hstrength | hstrength <;> cases hstrength
  unfold SymbolPrioritySelector.consider
  dsimp only
  split
  · rename_i hnone
    refine ⟨?_, h.common.append_other hcommon, ?_⟩
    · rw [find?_append_of_eq_false hstrong, ← h.strong]
    · rw [find?_append_of_eq_true hweak, ← h.weak, if_pos hnone]
  · rename_i hsome
    refine ⟨?_, h.common.append_other hcommon, ?_⟩
    · rw [find?_append_of_eq_false hstrong, ← h.strong]
    · rw [find?_append_of_eq_true hweak, ← h.weak, if_neg hsome]

theorem Candidates.append_common {selector : SymbolPrioritySelector} {size : Nat}
    (h : Candidates table ids selector) (hcommon : table.IsCommon id size) :
    Candidates table (ids ++ [id]) (selector.consider id (.common size)) := by
  have hstrong : table.isStrong id = false := by simp [SymbolTable.isStrong, hcommon.2]
  have hweak : table.isWeak id = false := by simp [SymbolTable.isWeak, hcommon.2]
  have hkept := h.common
  unfold SymbolPrioritySelector.consider
  dsimp only
  cases hmax : selector.maxCommon with
  | none =>
      rw [hmax] at hkept
      refine ⟨?_, hkept.append_larger hcommon fun _ hprev => (by cases hprev), ?_⟩
      · rw [find?_append_of_eq_false hstrong, ← h.strong]
      · rw [find?_append_of_eq_false hweak, ← h.weak]
  | some candidate =>
      rw [hmax] at hkept
      dsimp only
      split
      · rename_i hle
        refine ⟨?_, ?_, ?_⟩
        · rw [find?_append_of_eq_false hstrong, ← h.strong]
        · rw [hmax]
          exact hkept.append_smaller hcommon hle
        · rw [find?_append_of_eq_false hweak, ← h.weak]
      · rename_i hlt
        refine ⟨?_, hkept.append_larger hcommon fun prev hprev => ?_, ?_⟩
        · rw [find?_append_of_eq_false hstrong, ← h.strong]
        · cases hprev
          exact Nat.lt_of_not_le hlt
        · rw [find?_append_of_eq_false hweak, ← h.weak]

/-- A definition whose file was not loaded is no candidate. -/
theorem Candidates.append_undefined {selector : SymbolPrioritySelector}
    (h : Candidates table ids selector) (hstrength : table.strength id = .undefined) :
    Candidates table (ids ++ [id]) (selector.consider id .undefined) := by
  refine ⟨?_, h.common.append_other fun size hsize => ?_, ?_⟩
  · rw [find?_append_of_eq_false (by simp [SymbolTable.isStrong, hstrength])]
    exact h.strong
  · rw [hsize.2] at hstrength
    cases hstrength
  · rw [find?_append_of_eq_false (by simp [SymbolTable.isWeak, hstrength])]
    exact h.weak

theorem Candidates.consider {selector : SymbolPrioritySelector}
    (h : Candidates table ids selector) (hdynamic : table.isDynamic id = false) :
    Candidates table (ids ++ [id]) (selector.consider id (table.strength id)) := by
  cases hstrength : table.strength id with
  | undefined => exact h.append_undefined hstrength
  | weak => exact h.append_weak hdynamic (.inl hstrength)
  | gnuUnique => exact h.append_weak hdynamic (.inr hstrength)
  | strong => exact h.append_strong hdynamic hstrength
  | common size => exact h.append_common ⟨hdynamic, hstrength⟩

end Candidates

/-! ### Two strong definitions -/

section Duplicates

variable {table : SymbolTable} {ids : List SymbolId} {first id : SymbolId}

theorem not_duplicated :
    ¬ table.Duplicated ids
      ↔ table.allowMultipleDefinitions = true ∨ ids.Pairwise table.GoTogether := by
  unfold SymbolTable.Duplicated
  cases table.allowMultipleDefinitions <;> simp

theorem not_conflicting {existing : SymbolId} : table.conflicting existing id = false
    ↔ table.allowMultipleDefinitions = true ∨
      table.isInComdatGroup existing = true ∧ table.isInComdatGroup id = true := by
  unfold SymbolTable.conflicting
  cases table.allowMultipleDefinitions <;> simp

/-- Strong definitions that go together are in COMDAT groups where the first one is in one and is not
the only one. -/
theorem comdat_of_first {existing a : SymbolId} (hfind : ids.find? table.isStrong = some existing)
    (htogether : ids.Pairwise table.GoTogether) (hcomdat : table.isInComdatGroup existing = true)
    (ha : a ∈ ids) (hstrong : table.isStrong a = true) : table.isInComdatGroup a = true := by
  obtain ⟨hexisting, before, after, rfl, hbefore⟩ := List.find?_eq_some_iff_append.mp hfind
  rcases List.mem_append.mp ha with ha | ha
  · have hnot := hbefore a ha
    rw [hstrong] at hnot
    cases hnot
  · rcases List.mem_cons.mp ha with rfl | ha
    · exact hcomdat
    · have hpair := (List.pairwise_cons.mp (List.pairwise_append.mp htogether).2.1).1 a ha
      exact (hpair hexisting hstrong).2

/-- A definition is considered, or it conflicts with the first strong one. -/
theorem considerDefinition_cases (first id : SymbolId) {selector : SymbolPrioritySelector}
    (h : Candidates table ids selector) :
    (∃ existing, table.considerDefinition first selector id
        = .error (.error (table.duplicateMessage first existing id)) ∧
      ids.find? table.isStrong = some existing ∧ table.isStrong id = true ∧
      table.conflicting existing id = true) ∨
    ∃ selector', table.considerDefinition first selector id = .ok selector' ∧
      Candidates table (ids ++ [id]) selector' ∧
      ∀ existing, ids.find? table.isStrong = some existing → table.isStrong id = true →
        table.conflicting existing id = false := by
  unfold SymbolTable.considerDefinition
  split
  · rename_i hdynamic
    refine .inr ⟨selector, rfl, h.append_dynamic hdynamic, fun existing _ hstrong => ?_⟩
    simp [SymbolTable.isStrong, hdynamic] at hstrong
  · rename_i hdynamic
    have hdynamic := eq_false_of_ne_true hdynamic
    have hconsider := h.consider hdynamic
    split
    · rename_i existing hstrength hexisting
      have hstrong : table.isStrong id = true := by
        simp [SymbolTable.isStrong, hdynamic, hstrength]
      rw [hstrength] at hconsider
      have hfind := h.strong.symm.trans hexisting
      split
      · rename_i hconflict
        exact .inl ⟨existing, rfl, hfind, hstrong, hconflict⟩
      · rename_i hconflict
        refine .inr ⟨_, rfl, hconsider, fun other hother _ => ?_⟩
        obtain rfl : existing = other := Option.some.inj (hfind.symm.trans hother)
        exact eq_false_of_ne_true hconflict
    · rename_i hnot
      refine .inr ⟨_, rfl, hconsider, fun existing hexisting hstrong => ?_⟩
      have hstrength : table.strength id = .strong := by
        unfold SymbolTable.isStrong at hstrong
        rw [Bool.and_eq_true, decide_eq_true_eq] at hstrong
        exact hstrong.2
      exact absurd (h.strong.trans hexisting) (hnot existing hstrength)

/-- A definition that does not conflict with the first strong one goes together with all strong
ones. -/
theorem not_duplicated_append (h : ¬ table.Duplicated ids)
    (hid : ∀ existing, ids.find? table.isStrong = some existing → table.isStrong id = true →
      table.conflicting existing id = false) : ¬ table.Duplicated (ids ++ [id]) := by
  rw [not_duplicated] at h ⊢
  rcases h with hallow | htogether
  · exact .inl hallow
  · by_cases hallow : table.allowMultipleDefinitions = true
    · exact .inl hallow
    · refine .inr (List.pairwise_append.mpr ⟨htogether, List.pairwise_singleton _ _, ?_⟩)
      intro a ha b hb hstrong hstrong'
      obtain rfl := List.mem_singleton.mp hb
      obtain ⟨existing, hfind⟩ : ∃ existing, ids.find? table.isStrong = some existing :=
        Option.isSome_iff_exists.mp (List.find?_isSome.mpr ⟨a, ha, hstrong⟩)
      have hcomdat := (not_conflicting.mp (hid existing hfind hstrong')).resolve_left hallow
      exact ⟨comdat_of_first hfind htogether hcomdat.1 ha hstrong, hcomdat.2⟩

/-- All definitions of a name are considered, unless it is defined twice. -/
theorem foldlM_considerDefinition_ok {selector : SymbolPrioritySelector}
    (h : ids.foldlM (table.considerDefinition first) SymbolPrioritySelector.new = .ok selector) :
    Candidates table ids selector ∧ ¬ table.Duplicated ids := by
  refine Fallible.foldlM_invariant
    (fun visited selector => Candidates table visited selector ∧ ¬ table.Duplicated visited) h
    ⟨candidates_new, fun hduplicated => hduplicated.2 .nil⟩ ?_
  rintro visited id selector selector' ⟨hcandidates, hdistinct⟩ hstep
  rcases considerDefinition_cases first id hcandidates with
      ⟨existing, herror, -⟩ | ⟨next, hok, hnext, hid⟩
  · rw [hstep] at herror
    cases herror
  · obtain rfl := Except.ok.inj (hstep.symm.trans hok)
    exact ⟨hnext, not_duplicated_append hdistinct hid⟩

/-- An error names two strong definitions that conflict. -/
theorem foldlM_considerDefinition_eq_error {failure : Failure}
    (h : ids.foldlM (table.considerDefinition first) SymbolPrioritySelector.new = .error failure) :
    ∃ existing ∈ ids, ∃ id ∈ ids, table.isStrong existing = true ∧ table.isStrong id = true ∧
      table.conflicting existing id = true ∧
      failure = .error (table.duplicateMessage first existing id) := by
  obtain ⟨visited, id, rest, selector, rfl, hcandidates, herror⟩ :=
    Fallible.foldlM_eq_error (Candidates table) h candidates_new (by
      intro visited id selector selector' hcandidates hstep
      rcases considerDefinition_cases first id hcandidates with
        ⟨existing, herror, -⟩ | ⟨next, hok, hnext, -⟩
      · rw [hstep] at herror
        cases herror
      · obtain rfl := Except.ok.inj (hstep.symm.trans hok)
        exact hnext)
  rcases considerDefinition_cases first id hcandidates with
    ⟨existing, hmessage, hfind, hstrong, hconflict⟩ | ⟨next, hok, -⟩
  · have hexisting := List.mem_of_find?_eq_some hfind
    exact ⟨existing, by simp [hexisting], id, by simp, List.find?_some hfind, hstrong, hconflict,
      Except.error.inj (herror.symm.trans hmessage)⟩
  · rw [herror] at hok
    cases hok

theorem foldlM_considerDefinition_eq_ok (h : ¬ table.Duplicated ids) :
    ∃ selector,
      ids.foldlM (table.considerDefinition first) SymbolPrioritySelector.new = .ok selector := by
  obtain ⟨selector, hok, -⟩ : ∃ selector,
      ids.foldlM (table.considerDefinition first) SymbolPrioritySelector.new = .ok selector ∧
        Candidates table ids selector := by
    refine Fallible.foldlM_eq_ok (Candidates table) candidates_new ?_
    rintro visited id rest selector rfl hcandidates
    rcases considerDefinition_cases first id hcandidates with
      ⟨existing, -, hfind, hstrong, hconflict⟩ | ⟨next, hok, hnext, -⟩
    · exfalso
      refine h (not_not.mp fun hdistinct => ?_)
      have hexisting : existing ∈ visited := List.mem_of_find?_eq_some hfind
      rcases not_duplicated.mp hdistinct with hallow | htogether
      · rw [not_conflicting.mpr (.inl hallow)] at hconflict
        cases hconflict
      · have hboth := (List.pairwise_append.mp htogether).2.2 existing hexisting id
          List.mem_cons_self (List.find?_some hfind) hstrong
        rw [not_conflicting.mpr (.inr hboth)] at hconflict
        cases hconflict
    · exact ⟨next, hok, hnext⟩
  exact ⟨selector, hok⟩

end Duplicates

/-! ### The selected definition -/

section Selected

variable {table : SymbolTable} {list : Alternatives} {selected : SymbolId}

/-- Where there are no candidates, the definitions that were loaded are those of shared libraries. -/
theorem loaded_eq_isLoadedDynamic {ids : List SymbolId} {id : SymbolId}
    (hstrong : ids.find? table.isStrong = none) (hcommon : table.NoCommon ids)
    (hweak : ids.find? table.isWeak = none) (hid : id ∈ ids) :
    decide (table.strength id ≠ .undefined) = table.isLoadedDynamic id := by
  have hnotStrong := List.find?_eq_none.mp hstrong id hid
  have hnotWeak := List.find?_eq_none.mp hweak id hid
  have hnotCommon := hcommon id hid
  unfold SymbolTable.isStrong at hnotStrong
  unfold SymbolTable.isWeak at hnotWeak
  unfold SymbolTable.isLoadedDynamic
  cases hdynamic : table.isDynamic id with
  | true => rfl
  | false =>
      cases hstrength : table.strength id with
      | undefined => rfl
      | weak | gnuUnique => simp [hdynamic, hstrength] at hnotWeak
      | strong => simp [hdynamic, hstrength] at hnotStrong
      | common size => exact absurd ⟨hdynamic, hstrength⟩ (hnotCommon size)

/-- The best candidate, or the first definition that was loaded, is the specified one. -/
theorem Candidates.specified {selector : SymbolPrioritySelector}
    (h : Candidates table list.ids selector) :
    table.Specified list.ids (selector.best.getD
      ((list.ids.find? fun id => table.strength id ≠ .undefined).getD list.first)) := by
  obtain ⟨hstrong, hcommon, hweak⟩ := h
  unfold SymbolPrioritySelector.best
  cases hfirst : selector.firstStrong with
  | some strong => exact .strong (hstrong.symm.trans hfirst)
  | none =>
      have hstrong := hstrong.symm.trans hfirst
      cases hmax : selector.maxCommon with
      | some candidate =>
          rw [hmax] at hcommon
          exact .common hstrong hcommon
      | none =>
          rw [hmax] at hcommon
          cases hfound : selector.firstWeak with
          | some weak => exact .weak hstrong hcommon (hweak.symm.trans hfound)
          | none =>
              have hweak := hweak.symm.trans hfound
              have hloaded : (list.ids.find? fun id => table.strength id ≠ .undefined)
                  = list.ids.find? table.isLoadedDynamic :=
                List.find?_congr fun id hid => loaded_eq_isLoadedDynamic hstrong hcommon hweak hid
              rw [hloaded]
              cases hdynamic : list.ids.find? table.isLoadedDynamic with
              | some dynamic => exact .dynamic hstrong hcommon hweak hdynamic
              | none => exact .undefined hstrong hcommon hweak hdynamic rfl

theorem selectSymbol_eq {selector : SymbolPrioritySelector}
    (h : list.ids.foldlM (table.considerDefinition list.first) SymbolPrioritySelector.new
      = .ok selector) :
    table.selectSymbol list = .ok (selector.best.getD
      ((list.ids.find? fun id => table.strength id ≠ .undefined).getD list.first)) := by
  unfold SymbolTable.selectSymbol
  rw [h, Fallible.bind_ok]
  cases selector.best <;> rfl

/-- A symbol is selected unless its name is defined twice, and it is the specified one. -/
theorem selectSymbol_eq_ok (h : table.selectSymbol list = .ok selected) :
    ¬ table.Duplicated list.ids ∧ table.Specified list.ids selected := by
  obtain ⟨selector, hfold, -⟩ := Fallible.bind_eq_ok.mp h
  obtain ⟨hcandidates, hdistinct⟩ := foldlM_considerDefinition_ok hfold
  rw [selectSymbol_eq hfold] at h
  obtain rfl := Except.ok.inj h
  exact ⟨hdistinct, hcandidates.specified⟩

theorem exists_selectSymbol (h : ¬ table.Duplicated list.ids) :
    ∃ selected, table.selectSymbol list = .ok selected := by
  obtain ⟨selector, hfold⟩ := foldlM_considerDefinition_eq_ok h
  exact ⟨_, selectSymbol_eq hfold⟩

/-- Where no symbol is selected, the name is defined twice. -/
theorem selectSymbol_eq_error {failure : Failure} (h : table.selectSymbol list = .error failure) :
    table.Duplicated list.ids ∧
      ∃ existing ∈ list.ids, ∃ id ∈ list.ids, table.isStrong existing = true ∧
        table.isStrong id = true ∧ table.conflicting existing id = true ∧
        failure = .error (table.duplicateMessage list.first existing id) := by
  refine ⟨not_not.mp fun hdistinct => ?_, ?_⟩
  · obtain ⟨selected, hok⟩ := exists_selectSymbol hdistinct
    rw [h] at hok
    cases hok
  · cases hfold : list.ids.foldlM (table.considerDefinition list.first)
        SymbolPrioritySelector.new with
    | ok selector =>
        rw [selectSymbol_eq hfold] at h
        cases h
    | error reason =>
        unfold SymbolTable.selectSymbol at h
        rw [hfold] at h
        obtain rfl : reason = failure := Except.error.inj h
        exact foldlM_considerDefinition_eq_error hfold

end Selected

/-! ### There is one specified definition -/

section Unique

variable {table : SymbolTable} {ids : List SymbolId} {selected selected' : SymbolId}

theorem SymbolTable.FirstLargestCommon.unique {size size' : Nat}
    (h : table.FirstLargestCommon ids selected size)
    (h' : table.FirstLargestCommon ids selected' size') : selected = selected' := by
  obtain ⟨before, after, rfl, hcommon, hbefore, hafter⟩ := h
  obtain ⟨before', after', heq, hcommon', hbefore', hafter'⟩ := h'
  rcases List.append_eq_append_iff.mp heq with ⟨between, rfl, hrest⟩ | ⟨between, rfl, hrest⟩
  · cases between with
    | nil => exact (List.cons.inj hrest).1
    | cons head between =>
        obtain ⟨rfl, rfl⟩ := List.cons.inj hrest
        have hlt := hbefore' selected (by simp) size hcommon
        have hle := hafter selected' (by simp) size' hcommon'
        omega
  · cases between with
    | nil => exact (List.cons.inj hrest).1.symm
    | cons head between =>
        obtain ⟨rfl, rfl⟩ := List.cons.inj hrest
        have hlt := hbefore selected' (by simp) size' hcommon'
        have hle := hafter' selected (by simp) size hcommon
        omega

theorem SymbolTable.FirstLargestCommon.not_noCommon {size : Nat}
    (h : table.FirstLargestCommon ids selected size) : ¬ table.NoCommon ids := by
  obtain ⟨before, after, rfl, hcommon, -⟩ := h
  exact fun hnone => hnone selected (by simp) size hcommon

/-- There is only one definition that a name stands for. -/
theorem SymbolTable.Specified.unique (h : table.Specified ids selected) (h' : table.Specified ids selected') :
    selected = selected' := by
  cases h with
  | strong h =>
      cases h' with
      | strong h' => exact Option.some.inj (h.symm.trans h')
      | common hstrong | weak hstrong | dynamic hstrong | undefined hstrong =>
          rw [h] at hstrong
          cases hstrong
  | common hstrong h =>
      cases h' with
      | strong h' =>
          rw [h'] at hstrong
          cases hstrong
      | common _ h' => exact h.unique h'
      | weak _ hcommon | dynamic _ hcommon | undefined _ hcommon =>
          exact absurd hcommon h.not_noCommon
  | weak hstrong hcommon h =>
      cases h' with
      | strong h' =>
          rw [h'] at hstrong
          cases hstrong
      | common _ h' => exact absurd hcommon h'.not_noCommon
      | weak _ _ h' => exact Option.some.inj (h.symm.trans h')
      | dynamic _ _ hweak | undefined _ _ hweak =>
          rw [h] at hweak
          cases hweak
  | dynamic hstrong hcommon hweak h =>
      cases h' with
      | strong h' =>
          rw [h'] at hstrong
          cases hstrong
      | common _ h' => exact absurd hcommon h'.not_noCommon
      | weak _ _ h' =>
          rw [h'] at hweak
          cases hweak
      | dynamic _ _ _ h' => exact Option.some.inj (h.symm.trans h')
      | undefined _ _ _ hdynamic =>
          rw [h] at hdynamic
          cases hdynamic
  | undefined hstrong hcommon hweak hdynamic h =>
      cases h' with
      | strong h' =>
          rw [h'] at hstrong
          cases hstrong
      | common _ h' => exact absurd hcommon h'.not_noCommon
      | weak _ _ h' =>
          rw [h'] at hweak
          cases hweak
      | dynamic _ _ _ h' =>
          rw [h'] at hdynamic
          cases hdynamic
      | undefined _ _ _ _ h' => exact Option.some.inj (h.symm.trans h')

end Unique

end JdxLinker.Symbols
