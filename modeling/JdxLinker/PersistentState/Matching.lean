import JdxLinker.PersistentState.Classification

/-!
# The two loops of a comparison

The loops build a classification of the current inputs: the first one matches paths, the second one
matches digests.
-/

namespace JdxLinker.PersistentState

/-! ### Counting one input -/

/-- The state counts the inputs of a classification. -/
structure Tally (classification : Classification) (state : Comparison) : Prop where
  unchanged : state.unchanged = classification.unchanged
  changed : state.changed = classification.changed
  added : state.added = classification.added
  matched : state.matchedOldPaths = classification.matchedPaths.toFinset

/-- Counts an input with its outcome. -/
def record (state : Comparison) : Outcome → Comparison
  | .unchanged old | .moved old =>
    { state with
      matchedOldPaths := insert old.path state.matchedOldPaths
      unchanged := state.unchanged + 1 }
  | .changed old =>
    { state with
      matchedOldPaths := insert old.path state.matchedOldPaths
      changed := state.changed + 1 }
  | .added => { state with added := state.added + 1 }

theorem toFinset_append_singleton (paths : List PathBytes) (path : PathBytes) :
    (paths ++ [path]).toFinset = insert path paths.toFinset := by
  rw [List.toFinset_append, Finset.union_comm]
  rfl

theorem Tally.record {classification : Classification} {state : Comparison}
    (h : Tally classification state) (identity : InputIdentity) (outcome : Outcome) :
    Tally (classification ++ [(identity, outcome)]) (record state outcome) := by
  obtain ⟨hunchanged, hchanged, hadded, hmatched⟩ := h
  cases outcome with
  | unchanged old | changed old | moved old =>
      refine ⟨?_, ?_, ?_, ?_⟩
      · simpa [PersistentState.record, Classification.unchanged, Outcome.isUnchanged] using hunchanged
      · simpa [PersistentState.record, Classification.changed, Outcome.isChanged] using hchanged
      · simpa [PersistentState.record, Classification.added, Outcome.isAdded] using hadded
      · have hinsert := toFinset_append_singleton classification.matchedPaths old.path
        rw [← hmatched] at hinsert
        rw [Classification.matchedPaths_append]
        exact hinsert.symm
  | added =>
      refine ⟨?_, ?_, ?_, ?_⟩
      · simpa [PersistentState.record, Classification.unchanged, Outcome.isUnchanged] using hunchanged
      · simpa [PersistentState.record, Classification.changed, Outcome.isChanged] using hchanged
      · simpa [PersistentState.record, Classification.added, Outcome.isAdded] using hadded
      · rw [Classification.matchedPaths_append]
        exact hmatched.trans (congrArg List.toFinset (List.append_nil _).symm)

/-! ### The recorded inputs by path -/

theorem mem_oldInputs {previous : Manifest} {entry : PathBytes × InputIdentity}
    (h : entry ∈ (oldInputs previous).entries) :
    entry.2 ∈ previous.inputs ∧ entry.2.path = entry.1 := by
  obtain ⟨input, hmem, rfl⟩ := List.mem_map.mp (SortedMap.mem_ofList h)
  exact ⟨hmem, rfl⟩

theorem mem_keys_oldInputs {previous : Manifest} {path : PathBytes} :
    path ∈ (oldInputs previous).keys ↔ path ∈ previous.inputs.map InputIdentity.path := by
  refine SortedMap.mem_keys_ofList.trans ?_
  rw [List.map_map]
  rfl

theorem get?_oldInputs {previous : Manifest} {path : PathBytes} {old : InputIdentity}
    (h : (oldInputs previous).get? path = some old) : old ∈ previous.inputs ∧ old.path = path :=
  mem_oldInputs (SortedMap.get?_eq_some h)

theorem get?_oldInputs_eq_none {previous : Manifest} {path : PathBytes} :
    (oldInputs previous).get? path = none ↔ path ∉ previous.inputs.map InputIdentity.path :=
  SortedMap.get?_eq_none.trans (not_congr mem_keys_oldInputs)

/-- The map has one entry for each recorded path. -/
theorem length_oldInputs (previous : Manifest) :
    (oldInputs previous).entries.length
      = (previous.inputs.map InputIdentity.path).toFinset.card := by
  have hkeys : (oldInputs previous).keys.toFinset
      = (previous.inputs.map InputIdentity.path).toFinset := by
    ext path
    rw [List.mem_toFinset, List.mem_toFinset, mem_keys_oldInputs]
  rw [← hkeys, List.toFinset_card_of_nodup (oldInputs previous).nodup_keys]
  exact (List.length_map _).symm

/-! ### The first loop -/

section Paths

variable {previous : Manifest} {current : List InputIdentity}

/-- The outcome of an input whose path was recorded. -/
def pathOutcome (old identity : InputIdentity) : Outcome :=
  if sameContents old identity then .unchanged old else .changed old

theorem pathOutcome_justified {old identity : InputIdentity}
    (h : (oldInputs previous).get? identity.path = some old) :
    Justified previous.inputs current identity (pathOutcome old identity) := by
  obtain ⟨hmem, hpath⟩ := get?_oldInputs h
  unfold pathOutcome
  split
  · rename_i hsame
    exact ⟨hmem, hpath, hsame⟩
  · rename_i hdiffer
    exact ⟨hmem, hpath, eq_false_of_ne_true hdiffer⟩

theorem pathOutcome_movedFrom (old identity : InputIdentity) :
    (pathOutcome old identity).movedFrom = none := by
  unfold pathOutcome
  split <;> rfl

theorem pathOutcome_matchedPath (old identity : InputIdentity) :
    (pathOutcome old identity).matchedPath = some old.path := by
  unfold pathOutcome
  split <;> rfl

theorem matchPath_some {state : Comparison} {old identity : InputIdentity}
    (h : (oldInputs previous).get? identity.path = some old) :
    matchPath (oldInputs previous) state identity = record state (pathOutcome old identity) := by
  unfold matchPath pathOutcome
  rw [h]
  dsimp only
  split <;> rfl

theorem matchPath_none {state : Comparison} {identity : InputIdentity}
    (h : (oldInputs previous).get? identity.path = none) :
    matchPath (oldInputs previous) state identity
      = { state with unmatchedCurrent := state.unmatchedCurrent ++ [identity] } := by
  unfold matchPath
  rw [h]

/-- What the first loop has done: the inputs whose paths were recorded are classified, and the
others are kept for the second loop. -/
structure MatchedPaths (previous : Manifest) (current : List InputIdentity)
    (classification : Classification) (state : Comparison) : Prop where
  inputs : (classification.map Prod.fst ++ state.unmatchedCurrent).Perm current
  tally : Tally classification state
  outcomes : ∀ entry ∈ classification, ∃ old,
    (oldInputs previous).get? entry.1.path = some old ∧ entry.2 = pathOutcome old entry.1
  unmatched : ∀ identity ∈ state.unmatchedCurrent,
    (oldInputs previous).get? identity.path = none

theorem record_unmatchedCurrent (state : Comparison) (outcome : Outcome) :
    (record state outcome).unmatchedCurrent = state.unmatchedCurrent := by
  cases outcome <;> rfl

theorem matchedPaths_initial : MatchedPaths previous [] [] .initial where
  inputs := .nil
  tally := ⟨rfl, rfl, rfl, rfl⟩
  outcomes _ hentry := absurd hentry List.not_mem_nil
  unmatched _ hidentity := absurd hidentity List.not_mem_nil

theorem MatchedPaths.step {classification : Classification} {state : Comparison}
    (h : MatchedPaths previous current classification state) (identity : InputIdentity) :
    ∃ classification', MatchedPaths previous (current ++ [identity]) classification'
      (matchPath (oldInputs previous) state identity) := by
  cases hget : (oldInputs previous).get? identity.path with
  | some old =>
      refine ⟨classification ++ [(identity, pathOutcome old identity)], ?_⟩
      rw [matchPath_some hget]
      refine ⟨?_, h.tally.record _ _, fun entry hentry => ?_, fun other hother => ?_⟩
      · rw [record_unmatchedCurrent, List.map_append, List.append_assoc]
        refine List.Perm.trans ?_ (h.inputs.append_right [identity])
        rw [List.append_assoc]
        exact List.perm_append_comm.append_left _
      · rcases List.mem_append.mp hentry with hentry | hentry
        · exact h.outcomes entry hentry
        · obtain rfl := List.mem_singleton.mp hentry
          exact ⟨old, hget, rfl⟩
      · rw [record_unmatchedCurrent] at hother
        exact h.unmatched other hother
  | none =>
      refine ⟨classification, ?_⟩
      rw [matchPath_none hget]
      refine ⟨?_, ⟨h.tally.unchanged, h.tally.changed, h.tally.added, h.tally.matched⟩, h.outcomes,
        fun other hother => ?_⟩
      · rw [← List.append_assoc]
        exact h.inputs.append_right [identity]
      · rcases List.mem_append.mp hother with hother | hother
        · exact h.unmatched other hother
        · obtain rfl := List.mem_singleton.mp hother
          exact hget

theorem foldl_matchPath (previous : Manifest) (current : List InputIdentity) :
    ∃ classification, MatchedPaths previous current classification
      (current.foldl (matchPath (oldInputs previous)) .initial) := by
  induction current using List.reverseRecOn with
  | nil => exact ⟨[], matchedPaths_initial⟩
  | append_singleton current identity ih =>
      obtain ⟨classification, h⟩ := ih
      rw [List.foldl_append]
      exact h.step identity

end Paths

/-! ### The second loop -/

section Digests

variable {previous : Manifest} {current : List InputIdentity} {first : Classification}

/-- What the second loop says of an input whose path was not recorded. -/
def MovedOrAdded (previous : Manifest) (first : Classification)
    (entry : InputIdentity × Outcome) : Prop :=
  entry.2 = .added ∨ ∃ old, entry.2 = .moved old ∧ old ∈ previous.inputs ∧
    old.path ∉ first.matchedPaths ∧ old.contentDigest.isSome ∧
    old.contentDigest = entry.1.contentDigest

theorem findDigest_eq_some {matchedOldPaths : Finset PathBytes} {identity old : InputIdentity}
    (h : findDigest (oldInputs previous) matchedOldPaths identity = some old) :
    old ∈ previous.inputs ∧ old.path ∉ matchedOldPaths ∧ old.contentDigest.isSome ∧
      old.contentDigest = identity.contentDigest := by
  obtain ⟨entry, hfind, rfl⟩ := Option.map_eq_some_iff.mp h
  have hcondition := List.find?_some hfind
  simp only [Bool.and_eq_true, decide_eq_true_eq] at hcondition
  exact ⟨(mem_oldInputs (List.mem_of_find?_eq_some hfind)).1, hcondition.1.1, hcondition.1.2,
    hcondition.2⟩

theorem movedPaths_subset (classification : Classification) :
    classification.movedPaths ⊆ classification.matchedPaths := by
  intro path hpath
  obtain ⟨⟨identity, outcome⟩, hmem, hmoved⟩ := List.mem_filterMap.mp hpath
  cases outcome with
  | moved old => exact List.mem_filterMap.mpr ⟨_, hmem, hmoved⟩
  | unchanged _ | changed _ | added => cases hmoved

theorem matchDigest_eq (state : Comparison) (identity : InputIdentity) :
    matchDigest (oldInputs previous) state identity
      = record state (match findDigest (oldInputs previous) state.matchedOldPaths identity with
        | some old => .moved old
        | none => .added) := by
  unfold matchDigest
  cases findDigest (oldInputs previous) state.matchedOldPaths identity <;> rfl

/-- What the second loop has done. -/
structure MatchedDigests (previous : Manifest) (first : Classification)
    (unmatched : List InputIdentity) (second : Classification) (state : Comparison) : Prop where
  inputs : second.map Prod.fst = unmatched
  tally : Tally (first ++ second) state
  outcomes : ∀ entry ∈ second, MovedOrAdded previous first entry
  moved_once : second.movedPaths.Nodup

theorem MatchedDigests.step {unmatched : List InputIdentity} {second : Classification}
    {state : Comparison} (h : MatchedDigests previous first unmatched second state)
    (identity : InputIdentity) :
    ∃ second', MatchedDigests previous first (unmatched ++ [identity]) second'
      (matchDigest (oldInputs previous) state identity) := by
  rw [matchDigest_eq]
  have hmap : ∀ outcome : Outcome,
      (second ++ [(identity, outcome)]).map Prod.fst = unmatched ++ [identity] := by
    intro outcome
    rw [List.map_append, h.inputs]
    rfl
  cases hfind : findDigest (oldInputs previous) state.matchedOldPaths identity with
  | some old =>
      obtain ⟨hmem, hunmatched, hsome, hdigest⟩ := findDigest_eq_some hfind
      rw [h.tally.matched, List.mem_toFinset, Classification.matchedPaths_append,
        List.mem_append, not_or] at hunmatched
      refine ⟨second ++ [(identity, .moved old)], hmap _, ?_, fun entry hentry => ?_, ?_⟩
      · rw [← List.append_assoc]
        exact h.tally.record _ _
      · rcases List.mem_append.mp hentry with hentry | hentry
        · exact h.outcomes entry hentry
        · obtain rfl := List.mem_singleton.mp hentry
          exact .inr ⟨old, rfl, hmem, hunmatched.1, hsome, hdigest⟩
      · have happend : Classification.movedPaths (second ++ [(identity, .moved old)])
            = second.movedPaths ++ [old.path] := List.filterMap_append
        rw [happend]
        refine List.nodup_append.mpr ⟨h.moved_once, List.nodup_singleton _, ?_⟩
        intro path hpath path' hpath'
        obtain rfl := List.mem_singleton.mp hpath'
        rintro rfl
        exact hunmatched.2 (movedPaths_subset second hpath)
  | none =>
      refine ⟨second ++ [(identity, .added)], hmap _, ?_, fun entry hentry => ?_, ?_⟩
      · rw [← List.append_assoc]
        exact h.tally.record _ _
      · rcases List.mem_append.mp hentry with hentry | hentry
        · exact h.outcomes entry hentry
        · obtain rfl := List.mem_singleton.mp hentry
          exact .inl rfl
      · have happend : Classification.movedPaths (second ++ [(identity, .added)])
            = second.movedPaths ++ [] := List.filterMap_append
        rw [happend, List.append_nil]
        exact h.moved_once

theorem foldl_matchDigest {state : Comparison} (h : Tally first state)
    (unmatched : List InputIdentity) :
    ∃ second, MatchedDigests previous first unmatched second
      (unmatched.foldl (matchDigest (oldInputs previous)) state) := by
  induction unmatched using List.reverseRecOn with
  | nil =>
      refine ⟨[], rfl, ?_, fun _ hentry => absurd hentry List.not_mem_nil, .nil⟩
      rw [List.append_nil]
      exact h
  | append_singleton unmatched identity ih =>
      obtain ⟨second, hsecond⟩ := ih
      rw [List.foldl_append]
      exact hsecond.step identity

/-- The outcomes of both loops make up a classification. -/
theorem classified_append {state state' : Comparison} {second : Classification}
    (h : MatchedPaths previous current first state)
    (h' : MatchedDigests previous first state.unmatchedCurrent second state') :
    Classified previous.inputs current (first ++ second) := by
  have hpaths : ∀ identity ∈ current, identity.path ∈ first.matchedPaths ∨
      identity.path ∉ previous.inputs.map InputIdentity.path := by
    intro identity hidentity
    rcases List.mem_append.mp (h.inputs.mem_iff.mpr hidentity) with hidentity | hidentity
    · obtain ⟨entry, hentry, rfl⟩ := List.mem_map.mp hidentity
      obtain ⟨old, hget, houtcome⟩ := h.outcomes entry hentry
      refine .inl (List.mem_filterMap.mpr ⟨entry, hentry, ?_⟩)
      rw [houtcome, pathOutcome_matchedPath, (get?_oldInputs hget).2]
    · exact .inr (get?_oldInputs_eq_none.mp (h.unmatched identity hidentity))
  refine ⟨?_, fun entry hentry => ?_, ?_⟩
  · rw [List.map_append, h'.inputs]
    exact h.inputs
  · rcases List.mem_append.mp hentry with hentry | hentry
    · obtain ⟨old, hget, houtcome⟩ := h.outcomes entry hentry
      rw [houtcome]
      exact pathOutcome_justified hget
    · have hunmatched : entry.1 ∈ state.unmatchedCurrent := by
        rw [← h'.inputs]
        exact List.mem_map_of_mem hentry
      have hnot := get?_oldInputs_eq_none.mp (h.unmatched _ hunmatched)
      rcases h'.outcomes entry hentry with hadded | ⟨old, hmoved, hmem, hfree, hsome, hdigest⟩
      · rw [hadded]
        exact hnot
      · rw [hmoved]
        refine ⟨hnot, hmem, fun hcurrent => ?_, hsome, hdigest⟩
        obtain ⟨identity, hidentity, hpath⟩ := List.mem_map.mp hcurrent
        rcases hpaths identity hidentity with htaken | habsent
        · exact hfree (hpath ▸ htaken)
        · exact habsent (hpath ▸ List.mem_map_of_mem hmem)
  · have happend : Classification.movedPaths (first ++ second)
        = first.movedPaths ++ second.movedPaths := List.filterMap_append
    have hnone : first.movedPaths = [] := by
      refine List.filterMap_eq_nil_iff.mpr fun entry hentry => ?_
      obtain ⟨old, -, houtcome⟩ := h.outcomes entry hentry
      rw [houtcome, pathOutcome_movedFrom]
    rw [happend, hnone, List.nil_append]
    exact h'.moved_once

end Digests

end JdxLinker.PersistentState

/-!
## The counts of a comparison

The counts are those of a classification of the current inputs, whether their paths are those that
were recorded or not.
-/

namespace JdxLinker.PersistentState

/-! ### Lists with the same paths -/

section SamePaths

variable {previous current : List InputIdentity}

/-- Where the paths are the same, in the same order, inputs are compared in that order. -/
def pairwiseOutcomes (previous current : List InputIdentity) : Classification :=
  (previous.zip current).map fun pair => (pair.2, pathOutcome pair.1 pair.2)

theorem samePaths_iff : samePaths previous current = true ↔
    previous.length = current.length ∧ ∀ pair ∈ previous.zip current, pair.1.path = pair.2.path := by
  unfold samePaths
  rw [Bool.and_eq_true, List.all_eq_true, decide_eq_true_eq]
  simp only [decide_eq_true_eq]

theorem pairwiseOutcomes_classified (h : samePaths previous current = true) :
    Classified previous current (pairwiseOutcomes previous current) := by
  obtain ⟨hlength, hpaths⟩ := samePaths_iff.mp h
  refine ⟨?_, fun entry hentry => ?_, ?_⟩
  · rw [pairwiseOutcomes, List.map_map]
    exact .of_eq (List.map_snd_zip hlength.ge)
  · obtain ⟨pair, hpair, rfl⟩ := List.mem_map.mp hentry
    have hmem := (List.of_mem_zip hpair).1
    have hpath := hpaths pair hpair
    unfold pathOutcome
    split
    · rename_i hsame
      exact ⟨hmem, hpath, hsame⟩
    · rename_i hdiffer
      exact ⟨hmem, hpath, eq_false_of_ne_true hdiffer⟩
  · have hnone : (pairwiseOutcomes previous current).movedPaths = [] := by
      refine List.filterMap_eq_nil_iff.mpr fun entry hentry => ?_
      obtain ⟨pair, -, rfl⟩ := List.mem_map.mp hentry
      exact pathOutcome_movedFrom pair.1 pair.2
    rw [hnone]
    exact .nil

theorem pathOutcome_isUnchanged (old identity : InputIdentity) :
    (pathOutcome old identity).isUnchanged = sameContents old identity := by
  unfold pathOutcome
  split
  · rename_i hsame
    exact hsame.symm
  · rename_i hdiffer
    exact (eq_false_of_ne_true hdiffer).symm

theorem pairwiseOutcomes_unchanged :
    (pairwiseOutcomes previous current).unchanged
      = ((previous.zip current).filter fun pair => sameContents pair.1 pair.2).length := by
  unfold pairwiseOutcomes Classification.unchanged
  rw [List.countP_map, ← List.countP_eq_length_filter]
  exact List.countP_congr fun pair _ => by
    rw [Function.comp_apply, pathOutcome_isUnchanged]

theorem pairwiseOutcomes_added : (pairwiseOutcomes previous current).added = 0 := by
  refine List.countP_eq_zero.mpr fun entry hentry => ?_
  obtain ⟨pair, -, rfl⟩ := List.mem_map.mp hentry
  unfold pathOutcome
  split <;> exact Bool.false_ne_true

theorem pairwiseOutcomes_removedPaths (h : samePaths previous current = true) :
    removedPaths previous (pairwiseOutcomes previous current) = ∅ := by
  obtain ⟨hlength, -⟩ := samePaths_iff.mp h
  refine Finset.sdiff_eq_empty_iff_subset.mpr fun path hpath => ?_
  obtain ⟨old, hold, rfl⟩ := List.mem_map.mp (List.mem_toFinset.mp hpath)
  rw [← List.map_fst_zip hlength.le] at hold
  obtain ⟨pair, hpair, rfl⟩ := List.mem_map.mp hold
  refine List.mem_toFinset.mpr (List.mem_filterMap.mpr ⟨_, List.mem_map_of_mem hpair, ?_⟩)
  exact pathOutcome_matchedPath pair.1 pair.2

end SamePaths

/-! ### The whole comparison -/

/-- The counts are those of a classification of the current inputs. -/
def Counts (previous current : List InputIdentity) (observation : StateObservation)
    (classification : Classification) : Prop :=
  Classified previous current classification ∧
    observation.unchanged = classification.unchanged ∧
    observation.changed = classification.changed ∧ observation.added = classification.added ∧
    observation.removed = (removedPaths previous classification).card

theorem compare_counts (previous : Manifest) (current : List InputIdentity) :
    ∃ classification,
      Counts previous.inputs current (compare (some previous) current) classification := by
  unfold compare
  dsimp only
  split
  · rename_i hsame
    have hclassified := pairwiseOutcomes_classified hsame
    have hsum := (pairwiseOutcomes previous.inputs current).unchanged_add_changed_add_added
    rw [hclassified.length, pairwiseOutcomes_added, pairwiseOutcomes_unchanged] at hsum
    refine ⟨_, hclassified, pairwiseOutcomes_unchanged.symm, ?_, pairwiseOutcomes_added.symm, ?_⟩
    · dsimp only
      omega
    · rw [pairwiseOutcomes_removedPaths hsame]
      rfl
  · obtain ⟨first, hfirst⟩ := foldl_matchPath previous current
    obtain ⟨second, hsecond⟩ := @foldl_matchDigest previous first _ hfirst.tally
      (current.foldl (matchPath (oldInputs previous)) .initial).unmatchedCurrent
    have hclassified := classified_append hfirst hsecond
    obtain ⟨hunchanged, hchanged, hadded, hmatched⟩ := hsecond.tally
    refine ⟨_, hclassified, hunchanged, hchanged, hadded, ?_⟩
    have hsubset : (first ++ second : Classification).matchedPaths.toFinset
        ⊆ (previous.inputs.map InputIdentity.path).toFinset := by
      intro path hpath
      exact List.mem_toFinset.mpr (hclassified.matchedPaths_subset (List.mem_toFinset.mp hpath))
    rw [removedPaths, Finset.card_sdiff_of_subset hsubset, ← length_oldInputs, ← hmatched]
    rfl

end JdxLinker.PersistentState
