import JdxLinker.Resolution.Registration

/-!
# References that shared libraries cannot define

A reference with a visibility other than the default is only resolved to definitions of objects. The
first definition of its name is taken if it is in an object, and the definition that is selected later
is one of the same list. If it is in a shared library, then the best of the other definitions is
taken.
-/

namespace JdxLinker.Resolution

open Symbols

/-- The best of some definitions, leaving out those of shared libraries. -/
inductive BestNonDynamic (table : SymbolTable) (ids : List SymbolId) : Option SymbolId → Prop where
  | strong {id : SymbolId} (h : ids.find? table.isStrong = some id) :
      BestNonDynamic table ids (some id)
  | common (hstrong : ids.find? table.isStrong = none) {id : SymbolId} {size : Nat}
      (h : table.FirstLargestCommon ids id size) : BestNonDynamic table ids (some id)
  | weak (hstrong : ids.find? table.isStrong = none) (hcommon : table.NoCommon ids) {id : SymbolId}
      (h : ids.find? table.isWeak = some id) : BestNonDynamic table ids (some id)
  | none (hstrong : ids.find? table.isStrong = none) (hcommon : table.NoCommon ids)
      (hweak : ids.find? table.isWeak = none) : BestNonDynamic table ids none

section Best

variable {table : SymbolTable} {ids : List SymbolId}

theorem bestNonDynamic_of_candidates {selector : SymbolPrioritySelector}
    (h : Candidates table ids selector) : BestNonDynamic table ids selector.best := by
  obtain ⟨hstrong, hcommon, hweak⟩ := h
  unfold SymbolPrioritySelector.best
  cases hfirst : selector.firstStrong with
  | some strong => exact .strong (hstrong.symm.trans hfirst)
  | none =>
      have hstrong := hstrong.symm.trans hfirst
      cases hmax : selector.maxCommon with
      | some candidate =>
          rw [hmax] at hcommon
          exact .common hstrong hcommon
      | none =>
          rw [hmax] at hcommon
          cases hfound : selector.firstWeak with
          | some weak => exact .weak hstrong hcommon (hweak.symm.trans hfound)
          | none => exact .none hstrong hcommon (hweak.symm.trans hfound)

/-- There is one best definition at most. -/
theorem BestNonDynamic.unique {found found' : Option SymbolId} (h : BestNonDynamic table ids found)
    (h' : BestNonDynamic table ids found') : found = found' := by
  cases h with
  | strong h =>
      cases h' with
      | strong h' => exact h.symm.trans h'
      | common hstrong | weak hstrong | none hstrong =>
          rw [h] at hstrong
          cases hstrong
  | common hstrong h =>
      cases h' with
      | strong h' =>
          rw [h'] at hstrong
          cases hstrong
      | common _ h' => exact congrArg some (h.unique h')
      | weak _ hcommon | none _ hcommon => exact absurd hcommon h.not_noCommon
  | weak hstrong hcommon h =>
      cases h' with
      | strong h' =>
          rw [h'] at hstrong
          cases hstrong
      | common _ h' => exact absurd hcommon h'.not_noCommon
      | weak _ _ h' => exact h.symm.trans h'
      | none _ _ hweak =>
          rw [h] at hweak
          cases hweak
  | none hstrong hcommon hweak =>
      cases h' with
      | strong h' =>
          rw [h'] at hstrong
          cases hstrong
      | common _ h' => exact absurd hcommon h'.not_noCommon
      | weak _ _ h' =>
          rw [h'] at hweak
          cases hweak
      | none => rfl

end Best

namespace SymbolDb

variable (db : SymbolDb)

/-- What a lookup knows of the symbols. -/
def symbolTable : SymbolTable where
  isDynamic id := db.isDynamic (db.symbolFileIds id)
  strength := db.symbolStrength
  visibility := db.inputSymbolVisibility
  isInComdatGroup _ := false
  allowMultipleDefinitions := false
  symbolName _ := ""
  fileName _ := ""

/-- What a lookup that leaves out shared libraries finds for a name with the definitions. -/
structure NonDynamicLookup (key : PreHashedSymbolName) (ids : List SymbolId) : Prop where
  unknown : ids = [] → db.get key false = none
  /-- The first definition is found, and the others are its alternatives. -/
  first : ∀ first rest, ids = first :: rest → db.symbolTable.isDynamic first = false →
    db.get key false = some first ∧ (rest ≠ [] → ⟨first, rest⟩ ∈ db.alternatives key)
  /-- The best definition of an object is found if the first one is in a shared library. -/
  dynamic : key.isVersioned = false → (∀ first ∈ ids.head?, db.symbolTable.isDynamic first = true) →
    BestNonDynamic db.symbolTable ids (db.get key false)

end SymbolDb

section Lookup

variable {db : SymbolDb} {numBuckets : ℕ+} {outputs : SymbolLoadOutputs} {key : PreHashedSymbolName}
  {first : SymbolId} {rest : List SymbolId}

theorem get_eq (db : SymbolDb) (key : PreHashedSymbolName) : db.get key false
    = (db.firstDefinition key).bind fun symbolId =>
      if db.symbolTable.isDynamic symbolId then db.getNonDynamic (db.bucket key) symbolId
      else some symbolId := by
  cases key <;> rfl

/-- A first definition with alternatives has a list of them. -/
theorem mem_of_alternativesOf {lists : List Alternatives} (h : alternativesOf lists first = rest)
    (hrest : rest ≠ []) : ⟨first, rest⟩ ∈ lists := by
  unfold alternativesOf at h
  cases hfind : lists.find? fun list => list.first = first with
  | none =>
      rw [hfind] at h
      exact absurd h.symm hrest
  | some list =>
      rw [hfind] at h
      have hfirst : list.first = first := by simpa using List.find?_some hfind
      subst hfirst
      subst h
      exact List.mem_of_find?_eq_some hfind

/-- The candidates among definitions, where those of shared libraries are left out. -/
theorem candidates_foldl {visited ids : List SymbolId} {selector : SymbolPrioritySelector}
    (h : Candidates db.symbolTable visited selector) :
    Candidates db.symbolTable (visited ++ ids) (ids.foldl
      (fun selector alt =>
        if db.isDynamic (db.symbolFileIds alt) then selector
        else selector.consider alt (db.symbolStrength alt)) selector) := by
  induction ids generalizing visited selector with
  | nil =>
      rw [List.append_nil]
      exact h
  | cons id ids ih =>
      rw [List.append_cons, List.foldl_cons]
      apply ih
      by_cases hdynamic : db.isDynamic (db.symbolFileIds id) = true
      · rw [if_pos hdynamic]
        exact h.append_dynamic hdynamic
      · rw [if_neg hdynamic]
        exact h.consider (eq_false_of_ne_true hdynamic)

/-- Among the alternatives of a definition in a shared library, the best one is found. -/
theorem getNonDynamic_best {bucket : Bucket}
    (h : alternativesOf bucket.alternativeDefinitions first = rest)
    (hdynamic : db.symbolTable.isDynamic first = true) :
    BestNonDynamic db.symbolTable (first :: rest) (db.getNonDynamic bucket first) := by
  have hfirst : Candidates db.symbolTable [first] SymbolPrioritySelector.new :=
    candidates_new.append_dynamic hdynamic
  unfold alternativesOf at h
  unfold SymbolDb.getNonDynamic
  cases hfind : bucket.alternativeDefinitions.find? fun list => list.first = first with
  | none =>
      rw [hfind] at h
      obtain rfl : [] = rest := h
      exact bestNonDynamic_of_candidates hfirst
  | some list =>
      rw [hfind] at h
      obtain rfl : list.alternatives = rest := h
      exact bestNonDynamic_of_candidates (candidates_foldl hfirst)

/-- A lookup that leaves out shared libraries finds the first definition of a name if it is in an
object, and the others are the alternatives from which one is selected later. If the first definition
is in a shared library, then the best other definition of a name without a version is found. -/
theorem get_nonDynamic (db : SymbolDb) (numBuckets : ℕ+) (outputs : SymbolLoadOutputs)
    (key : PreHashedSymbolName) :
    (db.populated numBuckets outputs).NonDynamicLookup key (outputs.definitions key) := by
  obtain ⟨hfirst, halternatives⟩ :=
    @populated_definitions db numBuckets outputs key
  have hget := get_eq (db.populated numBuckets outputs) key
  rw [hfirst] at hget
  refine ⟨fun hnone => ?_, fun first rest hids hobject => ⟨?_, fun hrest => ?_⟩,
    fun hkey hdynamic => ?_⟩
  · rw [hget, hnone]
    rfl
  · rw [hget, hids, List.head?_cons, Option.bind_some, hobject]
    rfl
  · exact mem_of_alternativesOf (halternatives first rest hids) hrest
  · cases hids : outputs.definitions key with
    | nil =>
        rw [hget, hids]
        exact .none rfl (fun _ hmem => by cases hmem) rfl
    | cons first rest =>
        have hlibrary := hdynamic first (by rw [hids]; rfl)
        have hlist := halternatives first rest hids
        rw [SymbolDb.alternatives, hkey, if_neg Bool.false_ne_true] at hlist
        rw [hget, hids, List.head?_cons, Option.bind_some, if_pos hlibrary]
        exact getNonDynamic_best hlist hlibrary

end Lookup

/-- Two objects, of which the first has a weak definition of `f`, and the second a strong one. -/
def weakThenStrong : SymbolLoadOutputs where
  perGroup := [[⟨.unversioned [0x66], 1⟩], [⟨.unversioned [0x66], 2⟩]]
  oneName := by decide

def weakThenStrongDb : SymbolDb where
  buckets := []
  hash _ := 0
  symbolFileIds id := ⟨1, id⟩
  isDynamic _ := false
  symbolStrength id := if id = 1 then .weak else .strong
  inputSymbolVisibility _ := .default
  flags _ := .empty

/-- The first definition is found, even if there is a better one. -/
theorem get_weakThenStrong :
    ¬ ∀ (db : SymbolDb) (numBuckets : ℕ+) (outputs : SymbolLoadOutputs) (key : PreHashedSymbolName),
      BestNonDynamic db.symbolTable (outputs.definitions key)
        ((db.populated numBuckets outputs).get key false) := by
  intro h
  have hfound := h weakThenStrongDb 1 weakThenStrong (.unversioned [0x66])
  have hbest : BestNonDynamic weakThenStrongDb.symbolTable
      (weakThenStrong.definitions (.unversioned [0x66])) (some 2) := .strong (by decide)
  have hget : (weakThenStrongDb.populated 1 weakThenStrong).get (.unversioned [0x66]) false
      = some 1 := by decide
  rw [hget] at hfound
  exact absurd (hfound.unique hbest) (by decide)

end JdxLinker.Resolution
