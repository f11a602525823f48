import JdxLinker.PersistentState.Compare

/-!
# What becomes of every input

Each current input is unchanged, changed or added. It is matched to the recorded input of its path,
or, where its path was not recorded, to one with the same digest whose path is gone. The recorded
paths that no current input is matched to are removed.
-/

namespace JdxLinker.PersistentState

/-- What becomes of a current input, with the recorded input that it is matched to. -/
inductive Outcome where
  | unchanged (old : InputIdentity)
  | changed (old : InputIdentity)
  /-- The contents are those of a recorded input that is not there any more. -/
  | moved (old : InputIdentity)
  | added
  deriving Repr, DecidableEq

namespace Outcome

def isUnchanged : Outcome → Bool
  | unchanged _ | moved _ => true
  | changed _ | added => false

def isChanged : Outcome → Bool
  | changed _ => true
  | _ => false

def isAdded : Outcome → Bool
  | added => true
  | _ => false

def matchedPath : Outcome → Option PathBytes
  | unchanged old | changed old | moved old => some old.path
  | added => none

def movedFrom : Outcome → Option PathBytes
  | moved old => some old.path
  | _ => none

end Outcome

/-- The inputs that have been classified, with their outcomes. -/
abbrev Classification := List (InputIdentity × Outcome)

namespace Classification

def matchedPaths (classification : Classification) : List PathBytes :=
  classification.filterMap fun entry => entry.2.matchedPath

def movedPaths (classification : Classification) : List PathBytes :=
  classification.filterMap fun entry => entry.2.movedFrom

def unchanged (classification : Classification) : Nat :=
  classification.countP fun entry => entry.2.isUnchanged

def changed (classification : Classification) : Nat :=
  classification.countP fun entry => entry.2.isChanged

def added (classification : Classification) : Nat :=
  classification.countP fun entry => entry.2.isAdded

theorem matchedPaths_append (classification rest : Classification) :
    matchedPaths (classification ++ rest) = matchedPaths classification ++ matchedPaths rest :=
  List.filterMap_append

theorem unchanged_cons (entry : InputIdentity × Outcome) (rest : Classification) :
    unchanged (entry :: rest) = unchanged rest + if entry.2.isUnchanged then 1 else 0 :=
  List.countP_cons

theorem changed_cons (entry : InputIdentity × Outcome) (rest : Classification) :
    changed (entry :: rest) = changed rest + if entry.2.isChanged then 1 else 0 :=
  List.countP_cons

theorem added_cons (entry : InputIdentity × Outcome) (rest : Classification) :
    added (entry :: rest) = added rest + if entry.2.isAdded then 1 else 0 :=
  List.countP_cons

theorem length_matchedPaths_cons (entry : InputIdentity × Outcome) (rest : Classification) :
    (matchedPaths (entry :: rest)).length
      = (matchedPaths rest).length + if entry.2.isAdded then 0 else 1 := by
  obtain ⟨identity, outcome⟩ := entry
  cases outcome <;> rfl

/-- Every input has exactly one of the three outcomes that are counted. -/
theorem unchanged_add_changed_add_added (classification : Classification) :
    classification.unchanged + classification.changed + classification.added
      = classification.length := by
  induction classification with
  | nil => rfl
  | cons entry rest ih =>
      rw [unchanged_cons, changed_cons, added_cons, List.length_cons, ← ih]
      obtain ⟨identity, outcome⟩ := entry
      cases outcome with
      | unchanged old | changed old | moved old | added =>
          simp only [Outcome.isUnchanged, Outcome.isChanged, Outcome.isAdded, if_true,
            Bool.false_eq_true, if_false]
          omega

/-- The inputs that were not added are those that are matched. -/
theorem length_matchedPaths (classification : Classification) :
    classification.matchedPaths.length = classification.unchanged + classification.changed := by
  induction classification with
  | nil => rfl
  | cons entry rest ih =>
      rw [unchanged_cons, changed_cons, length_matchedPaths_cons, ih]
      obtain ⟨identity, outcome⟩ := entry
      cases outcome with
      | unchanged old | changed old | moved old | added =>
          simp only [Outcome.isUnchanged, Outcome.isChanged, Outcome.isAdded, if_true,
            Bool.false_eq_true, if_false]
          omega

end Classification

/-- When an outcome is right for an input. -/
def Justified (previous current : List InputIdentity) (identity : InputIdentity) : Outcome → Prop
  | .unchanged old => old ∈ previous ∧ old.path = identity.path ∧ sameContents old identity = true
  | .changed old => old ∈ previous ∧ old.path = identity.path ∧ sameContents old identity = false
  | .moved old =>
    identity.path ∉ previous.map InputIdentity.path ∧ old ∈ previous ∧
      old.path ∉ current.map InputIdentity.path ∧ old.contentDigest.isSome ∧
      old.contentDigest = identity.contentDigest
  | .added => identity.path ∉ previous.map InputIdentity.path

structure Classified (previous current : List InputIdentity) (classification : Classification) :
    Prop where
  inputs : (classification.map Prod.fst).Perm current
  justified : ∀ entry ∈ classification, Justified previous current entry.1 entry.2
  moved_once : classification.movedPaths.Nodup

/-- The recorded paths that no input is matched to. -/
def removedPaths (previous : List InputIdentity) (classification : Classification) :
    Finset PathBytes :=
  (previous.map InputIdentity.path).toFinset \ classification.matchedPaths.toFinset

namespace Classified

variable {previous current : List InputIdentity} {classification : Classification}

theorem length (h : Classified previous current classification) :
    classification.length = current.length := by
  rw [← h.inputs.length_eq, List.length_map]

theorem matchedPaths_subset (h : Classified previous current classification) :
    classification.matchedPaths ⊆ previous.map InputIdentity.path := by
  intro path hpath
  obtain ⟨⟨identity, outcome⟩, hmem, hmatched⟩ := List.mem_filterMap.mp hpath
  have hjustified := h.justified _ hmem
  cases outcome with
  | unchanged old | changed old =>
      cases hmatched
      exact List.mem_map_of_mem hjustified.1
  | moved old =>
      cases hmatched
      exact List.mem_map_of_mem hjustified.2.1
  | added => cases hmatched

/-- Two inputs with different paths are matched to different recorded paths. -/
theorem matchedPath_ne {entry entry' : InputIdentity × Outcome}
    (h : Classified previous current classification) (hmem : entry ∈ classification)
    (hmem' : entry' ∈ classification) (hpath : entry.1.path ≠ entry'.1.path)
    (hmoved : ∀ path ∈ entry.2.movedFrom, ∀ path' ∈ entry'.2.movedFrom, path ≠ path') :
    ∀ path ∈ entry.2.matchedPath, ∀ path' ∈ entry'.2.matchedPath, path ≠ path' := by
  have hcurrent : ∀ entry ∈ classification, entry.1.path ∈ current.map InputIdentity.path :=
    fun entry hentry => List.mem_map_of_mem (h.inputs.subset (List.mem_map_of_mem hentry))
  obtain ⟨identity, outcome⟩ := entry
  obtain ⟨identity', outcome'⟩ := entry'
  have hjustified := h.justified _ hmem
  have hjustified' := h.justified _ hmem'
  rintro path hmatched path' hmatched' rfl
  cases outcome with
  | unchanged old | changed old =>
      cases hmatched
      cases outcome' with
      | unchanged old' | changed old' =>
          have heq : old'.path = old.path := Option.some.inj hmatched'
          exact hpath (hjustified.2.1.symm.trans (heq.symm.trans hjustified'.2.1))
      | moved old' =>
          have heq : old'.path = old.path := Option.some.inj hmatched'
          refine hjustified'.2.2.1 ?_
          rw [heq, hjustified.2.1]
          exact hcurrent _ hmem
      | added => cases hmatched'
  | moved old =>
      cases hmatched
      cases outcome' with
      | unchanged old' | changed old' =>
          have heq : old'.path = old.path := Option.some.inj hmatched'
          refine hjustified.2.2.1 ?_
          rw [← heq, hjustified'.2.1]
          exact hcurrent _ hmem'
      | moved old' => exact hmoved _ rfl _ hmatched' rfl
      | added => cases hmatched'
  | added => cases hmatched

theorem nodup_matchedPaths (h : Classified previous current classification)
    (hcurrent : (current.map InputIdentity.path).Nodup) : classification.matchedPaths.Nodup := by
  have hpaths : (classification.map fun entry => entry.1.path).Nodup := by
    have hperm := h.inputs.map InputIdentity.path
    rw [List.map_map] at hperm
    exact hperm.nodup_iff.mpr hcurrent
  have hmoved := List.pairwise_filterMap.mp h.moved_once
  refine List.pairwise_filterMap.mpr ?_
  refine ((List.pairwise_map.mp hpaths).and hmoved).imp_of_mem fun hmem hmem' hboth => ?_
  exact h.matchedPath_ne hmem hmem' hboth.1 hboth.2

/-- Every recorded path is matched or removed. -/
theorem card_removedPaths (h : Classified previous current classification)
    (hprevious : (previous.map InputIdentity.path).Nodup)
    (hcurrent : (current.map InputIdentity.path).Nodup) :
    classification.unchanged + classification.changed
      + (removedPaths previous classification).card = previous.length := by
  have hsubset : classification.matchedPaths.toFinset
      ⊆ (previous.map InputIdentity.path).toFinset := by
    intro path hpath
    exact List.mem_toFinset.mpr (h.matchedPaths_subset (List.mem_toFinset.mp hpath))
  rw [← classification.length_matchedPaths,
    ← List.toFinset_card_of_nodup (h.nodup_matchedPaths hcurrent), removedPaths, Nat.add_comm,
    Finset.card_sdiff_add_card_eq_card hsubset, List.toFinset_card_of_nodup hprevious,
    List.length_map]

end Classified

end JdxLinker.PersistentState
