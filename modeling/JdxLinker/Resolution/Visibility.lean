import JdxLinker.Resolution.Canonicalise
import JdxLinker.Resolution.NonDynamicLookup

/-!
# The visibility of the selected definition

Symbols of one name may have different visibilities. The most restrictive one is to hold for the
definition that is selected, and it gets there in three ways: from the other definitions of a list,
from a reference when it is first resolved, and from a reference that has stayed undefined.
-/

namespace JdxLinker.Resolution

open Symbols

/-- An undefined symbol of a file that was loaded. -/
structure Reference where
  symbolId : SymbolId
  attributes : SymbolAttributes
  isDynamic : Bool
  fileId : FileId
  fromIr : Bool

def Reference.key (reference : Reference) : PreHashedSymbolName :=
  .fromRaw reference.attributes.nameInfo

/-- The symbols of the files that were loaded. -/
structure LoadedSymbols where
  db : SymbolDb
  /-- What is known of the definitions, now that the files have been loaded. -/
  table : SymbolTable
  loaded : Loaded
  references : List Reference
  symbolDefinitions : SymbolId → SymbolId
  numSymbols : Nat
  /-- The names that a version script of Rust exports. -/
  rustGlobal : Option (List Name)
  defined : SymbolId → Prop
  name_defined : ∀ key id, db.firstDefinition key = some id → defined id
  list_defined : ∀ list ∈ allAlternatives (db.buckets.map Bucket.toSymbolBucket),
    ∀ id ∈ list.ids, defined id
  defined_self : ∀ id, defined id → symbolDefinitions id = id
  defined_lt : ∀ id, defined id → id < numSymbols
  reference_lt : ∀ reference ∈ references, reference.symbolId < numSymbols
  not_defined : ∀ reference ∈ references, ¬defined reference.symbolId
  nodup : (references.map Reference.symbolId).Nodup
  visibility : table.visibility = db.inputSymbolVisibility
  defaultVisibility : ∀ reference ∈ references, db.inputSymbolVisibility reference.symbolId ≠ .default →
    reference.attributes.defaultVisibility = false
  isDynamic : ∀ id, defined id → table.isDynamic id = db.isDynamic (db.symbolFileIds id)
  dynamicFlag : ∀ id, defined id → (db.flags id).dynamic = table.isDynamic id
  /-- Shared libraries do not say that a symbol is final. -/
  library : ∀ id, defined id → table.isDynamic id = true →
    (db.flags id).nonInterposable = false ∧ (db.flags id).downgradeToLocal = false

namespace LoadedSymbols

variable (symbols : LoadedSymbols)

def resolve (reference : Reference) : Resolved :=
  resolveSymbol symbols.db reference.symbolId reference.attributes undefinedId reference.isDynamic
    reference.fileId reference.fromIr

def referenceVisibility (reference : Reference) : Visibility :=
  symbols.db.inputSymbolVisibility reference.symbolId

def symbolBuckets : List SymbolBucket := symbols.db.buckets.map Bucket.toSymbolBucket

def undefinedSymbols : List UndefinedSymbol :=
  symbols.references.filterMap fun reference => (symbols.resolve reference).undefined

/-- The flags that references add. -/
def referenceChanges : List Change :=
  symbols.references.flatMap fun reference =>
    (symbols.resolve reference).orAssigned.map fun assigned => .orAssign assigned.1 assigned.2

/-- The definitions once references have been resolved. -/
def resolvedDefinitions : SymbolId → SymbolId :=
  symbols.references.foldl
    (fun definitions reference =>
      Function.update definitions reference.symbolId (symbols.resolve reference).definition)
    symbols.symbolDefinitions

end LoadedSymbols

/-- Makes the symbols of some names global again, and those that stay local final. -/
def handleRustVersionScript (db : SymbolDb) (definition : SymbolId → SymbolId) (global : List Name)
    (flags : SymbolId → ValueFlags) : SymbolId → ValueFlags :=
  let upgraded := global.foldl
    (fun flags name =>
      match db.getUnversioned name with
      | some symbolId =>
        Function.update flags (definition symbolId)
          { flags (definition symbolId) with downgradeToLocal := false }
      | none => flags)
    flags
  fun id =>
    if (upgraded id).downgradeToLocal then
      (upgraded id).union { ValueFlags.empty with nonInterposable := true }
    else upgraded id

/-- An order in which the threads resolve references and process alternatives, and in which the
undefined symbols are recorded. -/
structure Run (symbols : LoadedSymbols) where
  resolving : List Change
  changes : List Change
  undefinedSymbols : List UndefinedSymbol
  resolved : resolving.Perm symbols.referenceChanges
  interleaving : symbols.table.Interleaving symbols.symbolBuckets changes
  recorded : undefinedSymbols.Perm symbols.undefinedSymbols

namespace Run

variable {symbols : LoadedSymbols} (run : Run symbols)

/-- The tables before undefined symbols are canonicalised. -/
def tables : Fallible Tables := do
  let shared : Shared := ⟨symbols.resolvedDefinitions, symbols.db.flags, []⟩
  let (symbolDefinitions, flags) ← (shared.run (run.resolving ++ run.changes)).finish
  let definition := fun id => symbolDefinitions (symbolDefinitions id)
  let perSymbolFlags :=
    match symbols.rustGlobal with
    | some global => handleRustVersionScript symbols.db definition global flags
    | none => flags
  return { db := symbols.db, symbolDefinitions, numSymbols := symbols.numSymbols, perSymbolFlags }

def finish : Fallible Tables := do
  let tables ← run.tables
  return canonicaliseUndefinedSymbols symbols.loaded run.undefinedSymbols tables

end Run

/-! ### What should hold -/

namespace LoadedSymbols

variable (symbols : LoadedSymbols)

/-- The definitions of a name. -/
def definitionsOf (key : PreHashedSymbolName) : List SymbolId :=
  match symbols.db.firstDefinition key with
  | some first => first :: alternativesOf (symbols.db.alternatives key) first
  | none => []

/-- A definition of the name in a loaded file, or a reference to it, has the visibility. -/
def HasVisibility (key : PreHashedSymbolName) (visibility : Visibility) : Prop :=
  (∃ id ∈ symbols.definitionsOf key, symbols.table.strength id ≠ .undefined ∧
    symbols.table.visibility id = visibility) ∨
  ∃ reference ∈ symbols.references, reference.key = key ∧
    symbols.referenceVisibility reference = visibility

/-- What the flags of a definition are to say of a visibility. A symbol is not exported if it is
hidden itself, or local in the output. -/
def Says (flags : SymbolId → ValueFlags) (id : SymbolId) : Visibility → Prop
  | .hidden =>
    (symbols.table.visibility id = .hidden ∨ (flags id).downgradeToLocal = true) ∧
      (flags id).nonInterposable = true
  | .«protected» => (flags id).nonInterposable = true
  | .default => True

/-- The flags of the selected definition of a name say what every visibility asks for. Those of a
shared library are not changed. -/
def MergesVisibility (final : Tables) (key : PreHashedSymbolName) : Prop :=
  ∀ first, symbols.db.firstDefinition key = some first →
    if symbols.table.isDynamic (final.definition first) then
      (final.perSymbolFlags (final.definition first)).nonInterposable
          = (symbols.db.flags (final.definition first)).nonInterposable ∧
        (final.perSymbolFlags (final.definition first)).downgradeToLocal
          = (symbols.db.flags (final.definition first)).downgradeToLocal
    else
      ∀ visibility, symbols.HasVisibility key visibility →
        symbols.Says final.perSymbolFlags (final.definition first) visibility

/-! ### Where visibilities get -/

/-- A visibility gets to a definition from a list that it is in, or from a reference that is resolved
to it at first. -/
def Reached (id : SymbolId) (visibility : Visibility) : Prop :=
  (∃ list ∈ allAlternatives symbols.symbolBuckets, id ∈ list.ids ∧
    symbols.table.mergedVisibility list = visibility) ∨
  ∃ reference ∈ symbols.references, symbols.db.get reference.key false = some id ∧
    symbols.referenceVisibility reference = visibility

/-- A visibility gets to a definition from a reference that has stayed undefined. Its name has no
version, and is not found to be the start or the end of a section. -/
def ReachedLate (selected : SymbolId → SymbolId) (id : SymbolId) (visibility : Visibility) : Prop :=
  ∃ reference ∈ symbols.references, symbols.referenceVisibility reference = visibility ∧
    ∃ undefined, (symbols.resolve reference).undefined = some undefined ∧
      Applies symbols.loaded (higher symbols.undefinedSymbols undefined) undefined ∧
      ∃ name first, reference.key = .unversioned name ∧
        symbols.db.getUnversioned name = some first ∧ selected first = id

/-- A version script of Rust exports the definition. -/
def ExportedByScript (selected : SymbolId → SymbolId) (id : SymbolId) : Prop :=
  ∃ global, symbols.rustGlobal = some global ∧ ∃ name ∈ global, ∃ first,
    symbols.db.getUnversioned name = some first ∧ selected first = id

/-- The definition is local before undefined symbols are canonicalised. -/
def LocalEarly (selected : SymbolId → SymbolId) (id : SymbolId) : Prop :=
  ((symbols.db.flags id).downgradeToLocal = true ∨ symbols.Reached id .hidden) ∧
    ¬symbols.ExportedByScript selected id

def IsLocal (selected : SymbolId → SymbolId) (id : SymbolId) : Prop :=
  symbols.LocalEarly selected id ∨ symbols.ReachedLate selected id .hidden

def IsFinal (selected : SymbolId → SymbolId) (id : SymbolId) : Prop :=
  (symbols.db.flags id).nonInterposable = true ∨
    (∃ visibility, visibility ≠ .default ∧ symbols.Reached id visibility) ∨
    (symbols.rustGlobal.isSome = true ∧ symbols.LocalEarly selected id) ∨
    ∃ visibility, visibility ≠ .default ∧ symbols.ReachedLate selected id visibility

/-- What a visibility asks for gets to a definition. -/
def Gets (selected : SymbolId → SymbolId) (id : SymbolId) : Visibility → Prop
  | .hidden =>
    (symbols.table.visibility id = .hidden ∨ symbols.IsLocal selected id) ∧
      symbols.IsFinal selected id
  | .«protected» => symbols.IsFinal selected id
  | .default => True

/-- All visibilities of a name get to the selected definition. A definition in a shared library has
no hidden references that have stayed undefined. -/
def VisibilitiesGet (selected : SymbolId → SymbolId) (key : PreHashedSymbolName) : Prop :=
  ∀ first, symbols.db.firstDefinition key = some first →
    if symbols.table.isDynamic (selected first) then
      ¬symbols.ReachedLate selected (selected first) .hidden
    else
      ∀ visibility, symbols.HasVisibility key visibility →
        symbols.Gets selected (selected first) visibility

end LoadedSymbols

/-! ### Changes of flags -/

section Changes

variable {flag : ValueFlags → Bool} {symbols : LoadedSymbols} {changes : List Change} {d : SymbolId}

theorem flag_addFlags (hflag : IsFlag flag) (flags : SymbolId → ValueFlags) :
    flag (changes.foldl Change.addFlags flags d) = true
      ↔ flag (flags d) = true ∨ ∃ added, .orAssign d added ∈ changes ∧ flag added = true := by
  induction changes generalizing flags with
  | nil => simp
  | cons change changes ih =>
      rw [List.foldl_cons, ih]
      cases change with
      | updateDefinition | pushError => simp [Change.addFlags]
      | orAssign id added =>
          by_cases h : d = id
          · subst h
            have hadded : Change.addFlags flags (.orAssign d added) d = (flags d).union added :=
              Function.update_self _ _ _
            rw [hadded, hflag.union, Bool.or_eq_true]
            simp [or_and_right, exists_or, or_assoc]
          · have hadded : Change.addFlags flags (.orAssign id added) d = flags d :=
              Function.update_of_ne h _ _
            rw [hadded]
            simp [h]

/-- What a list of definitions adds to one of them. -/
theorem flag_processList {list : Alternatives} (hflag : IsFlag flag) :
    (∃ added, .orAssign d added ∈ symbols.table.processList list ∧ flag added = true)
      ↔ (∃ selected, symbols.table.selectSymbol list = .ok selected) ∧ d ∈ list.ids ∧
        symbols.table.isDynamic d = false ∧
        flag (visibilityFlags false (symbols.table.mergedVisibility list)) = true := by
  have hhandle : ∀ id visibility, (∃ added,
        .orAssign d added ∈ symbols.table.handleNonDefaultVisibility id visibility ∧
          flag added = true)
      ↔ d = id ∧ symbols.table.isDynamic d = false ∧
        flag (visibilityFlags false visibility) = true := by
    intro id visibility
    unfold SymbolTable.handleNonDefaultVisibility
    cases visibility with
    | default => simp [visibilityFlags, hflag.empty]
    | «protected» | hidden =>
        dsimp only
        by_cases h : d = id
        · subst h
          cases symbols.table.isDynamic d <;> simp [visibilityFlags]
        · cases symbols.table.isDynamic id <;> simp [h]
  unfold SymbolTable.processList
  cases hselect : symbols.table.selectSymbol list with
  | error failure => simp
  | ok selected =>
      dsimp only
      constructor
      · intro hexists
        obtain ⟨added, hmem, hadded⟩ := hexists
        rcases List.mem_append.mp hmem with hmem | hmem
        · obtain ⟨id, -, heq⟩ := List.mem_map.mp hmem
          cases heq
        · obtain ⟨id, hid, hmem⟩ := List.mem_flatMap.mp hmem
          obtain ⟨rfl, hrest⟩ := (hhandle id _).mp ⟨added, hmem, hadded⟩
          exact ⟨⟨selected, rfl⟩, hid, hrest⟩
      · intro hall
        obtain ⟨-, hid, hrest⟩ := hall
        obtain ⟨added, hmem, hadded⟩ := (hhandle d _).mpr ⟨rfl, hrest⟩
        exact ⟨added, List.mem_append_right _ (List.mem_flatMap.mpr ⟨d, hid, hmem⟩), hadded⟩

/-- One of the flags that say who may use a symbol. -/
structure IsVisibilityFlag (flag : ValueFlags → Bool) : Prop extends IsFlag flag where
  hasNonIrRef : flag { ValueFlags.empty with hasNonIrRef := true } = false

theorem isVisibilityFlag_nonInterposable : IsVisibilityFlag ValueFlags.nonInterposable :=
  ⟨⟨fun _ _ => rfl, rfl⟩, rfl⟩

theorem isVisibilityFlag_downgradeToLocal : IsVisibilityFlag ValueFlags.downgradeToLocal :=
  ⟨⟨fun _ _ => rfl, rfl⟩, rfl⟩

theorem resolve_orAssigned (reference : Reference) : (symbols.resolve reference).orAssigned
    = (symbols.db.get reference.key reference.attributes.defaultVisibility).elim [] fun symbolId =>
      referenceFlags symbols.db reference.symbolId reference.attributes symbolId
        reference.fromIr := by
  unfold LoadedSymbols.resolve resolveSymbol Reference.key
  dsimp only
  split
  · rename_i symbolId hget
    rw [hget]
    split
    · split <;> rfl
    · split <;> rfl
  · rename_i hget
    rw [hget]
    rfl

/-- A record of an undefined symbol is about the reference. -/
theorem resolve_undefined {reference : Reference} {undefined : UndefinedSymbol}
    (h : (symbols.resolve reference).undefined = some undefined) :
    undefined.name = reference.key ∧ undefined.symbolId = reference.symbolId := by
  unfold LoadedSymbols.resolve resolveSymbol at h
  dsimp only at h
  split at h
  · split at h
    · split at h <;> cases h
    · split at h
      · cases h
        exact ⟨rfl, rfl⟩
      · cases h
  · cases h
    exact ⟨rfl, rfl⟩

theorem flag_referenceFlags (hflag : IsVisibilityFlag flag) (db : SymbolDb) (localSymbolId : SymbolId)
    (attributes : SymbolAttributes) (symbolId : SymbolId) (fromIr : Bool) :
    (∃ added, (d, added) ∈ referenceFlags db localSymbolId attributes symbolId fromIr ∧
        flag added = true)
      ↔ d = symbolId ∧ attributes.defaultVisibility = false ∧
        flag (visibilityFlags (db.flags symbolId).dynamic (db.inputSymbolVisibility localSymbolId))
          = true := by
  have hsingle : ∀ flags : ValueFlags,
      (∃ added, (d, added) ∈ [(symbolId, flags)] ∧ flag added = true)
        ↔ d = symbolId ∧ flag flags = true := by
    intro flags
    simp only [List.mem_singleton, Prod.mk.injEq, and_assoc]
    exact ⟨fun ⟨_, hid, heq, hadded⟩ => ⟨hid, heq ▸ hadded⟩,
      fun hboth => ⟨flags, hboth.1, rfl, hboth.2⟩⟩
  have hir : ¬∃ added, (d, added) ∈ (if fromIr then []
      else [(symbolId, { ValueFlags.empty with hasNonIrRef := true })]) ∧ flag added = true := by
    split
    · simp
    · rw [hsingle]
      exact fun hboth => absurd hboth.2 (Bool.eq_false_iff.mp hflag.hasNonIrRef)
  unfold referenceFlags
  dsimp only
  simp only [List.mem_append, or_and_right, exists_or, hir, or_false]
  cases attributes.defaultVisibility with
  | true => simp
  | false =>
      rw [if_neg Bool.false_ne_true]
      cases db.inputSymbolVisibility localSymbolId with
      | default => simp [visibilityFlags, hflag.empty]
      | hidden => simp only [hsingle, visibilityFlags, true_and]
      | «protected» =>
          dsimp only [visibilityFlags]
          split
          · simp only [hsingle, true_and]
          · simp [hflag.empty]

end Changes

/-! ### What a run changes -/

section Runs

variable {symbols : LoadedSymbols} {run : Run symbols} {tables final : Tables}
  {flag : ValueFlags → Bool} {d : SymbolId} {visibility : Visibility}

theorem mem_lists {list : Alternatives} {key : PreHashedSymbolName}
    (h : list ∈ (symbols.db.bucket key).alternativeDefinitions) :
    list ∈ allAlternatives symbols.symbolBuckets := by
  unfold SymbolDb.bucket at h
  cases hbucket : symbols.db.buckets[symbols.db.hash key % symbols.db.buckets.length]? with
  | none =>
      rw [hbucket] at h
      cases h
  | some bucket =>
      rw [hbucket] at h
      exact List.mem_flatMap.mpr ⟨bucket.toSymbolBucket,
        List.mem_map_of_mem (List.mem_of_getElem? hbucket), List.mem_append_left _ h⟩

theorem alternativesOf_defined {key : PreHashedSymbolName} {first id : SymbolId}
    (h : id ∈ alternativesOf (symbols.db.bucket key).alternativeDefinitions first) :
    symbols.defined id := by
  unfold alternativesOf at h
  cases hfind : (symbols.db.bucket key).alternativeDefinitions.find?
      fun list => list.first = first with
  | none =>
      rw [hfind] at h
      cases h
  | some list =>
      rw [hfind] at h
      exact symbols.list_defined list (mem_lists (List.mem_of_find?_eq_some hfind)) id
        (List.mem_cons_of_mem _ h)

/-- A lookup that leaves out shared libraries does so. -/
theorem get_false {key : PreHashedSymbolName} (h : symbols.db.get key false = some d) :
    symbols.defined d ∧ symbols.table.isDynamic d = false := by
  rw [get_eq] at h
  obtain ⟨first, hfirst, hfound⟩ := Option.bind_eq_some_iff.mp h
  have hdefined := symbols.name_defined key first hfirst
  split at hfound
  · rename_i hdynamic
    have hbest := @getNonDynamic_best symbols.db first _ (symbols.db.bucket key) rfl hdynamic
    rw [hfound] at hbest
    have hboth : d ∈ first :: alternativesOf (symbols.db.bucket key).alternativeDefinitions first ∧
        symbols.db.symbolTable.isDynamic d = false := by
      cases hbest with
      | strong hstrong =>
          have hd := List.find?_some hstrong
          exact ⟨List.mem_of_find?_eq_some hstrong, by simpa using (Bool.and_eq_true_iff.mp hd).1⟩
      | common _ hcommon =>
          obtain ⟨before, after, heq, hd, -⟩ := hcommon
          rw [heq]
          exact ⟨by simp, hd.1⟩
      | weak _ _ hweak =>
          have hd := List.find?_some hweak
          exact ⟨List.mem_of_find?_eq_some hweak, by simpa using (Bool.and_eq_true_iff.mp hd).1⟩
    have hd : symbols.defined d := by
      rcases List.mem_cons.mp hboth.1 with rfl | hmem
      · exact hdefined
      · exact alternativesOf_defined hmem
    exact ⟨hd, (symbols.isDynamic d hd).trans hboth.2⟩
  · rename_i hdynamic
    cases hfound
    exact ⟨hdefined, (symbols.isDynamic d hdefined).trans (eq_false_of_ne_true hdynamic)⟩

theorem flag_referenceChanges (hflag : IsVisibilityFlag flag) :
    (∃ added, .orAssign d added ∈ symbols.referenceChanges ∧ flag added = true)
      ↔ ∃ reference ∈ symbols.references, symbols.db.get reference.key false = some d ∧
        flag (visibilityFlags false (symbols.referenceVisibility reference)) = true := by
  have hone : ∀ reference ∈ symbols.references,
      (∃ added, (d, added) ∈ (symbols.resolve reference).orAssigned ∧ flag added = true)
        ↔ symbols.db.get reference.key false = some d ∧
          flag (visibilityFlags false (symbols.referenceVisibility reference)) = true := by
    intro reference hreference
    rw [resolve_orAssigned]
    constructor
    · intro hexists
      obtain ⟨added, hmem, hadded⟩ := hexists
      cases hget : symbols.db.get reference.key reference.attributes.defaultVisibility with
      | none =>
          rw [hget] at hmem
          cases hmem
      | some symbolId =>
          rw [hget] at hmem
          obtain ⟨rfl, hdefault, hset⟩ :=
            (flag_referenceFlags hflag _ _ _ _ _).mp ⟨added, hmem, hadded⟩
          rw [hdefault] at hget
          obtain ⟨hd, hdynamic⟩ := get_false hget
          rw [symbols.dynamicFlag d hd, hdynamic] at hset
          exact ⟨hget, hset⟩
    · intro hboth
      obtain ⟨hget, hset⟩ := hboth
      obtain ⟨hd, hdynamic⟩ := get_false hget
      have hdefault : reference.attributes.defaultVisibility = false := by
        refine symbols.defaultVisibility reference hreference fun hvisibility => ?_
        rw [LoadedSymbols.referenceVisibility, hvisibility] at hset
        exact absurd hset (Bool.eq_false_iff.mp hflag.empty)
      rw [hdefault, hget]
      refine (flag_referenceFlags hflag _ _ _ _ _).mpr ⟨rfl, hdefault, ?_⟩
      rw [symbols.dynamicFlag d hd, hdynamic]
      exact hset
  unfold LoadedSymbols.referenceChanges
  constructor
  · intro hexists
    obtain ⟨added, hmem, hadded⟩ := hexists
    obtain ⟨reference, hreference, hmem⟩ := List.mem_flatMap.mp hmem
    obtain ⟨assigned, hassigned, heq⟩ := List.mem_map.mp hmem
    cases heq
    exact ⟨reference, hreference, (hone reference hreference).mp ⟨_, hassigned, hadded⟩⟩
  · intro hexists
    obtain ⟨reference, hreference, hboth⟩ := hexists
    obtain ⟨added, hmem, hadded⟩ := (hone reference hreference).mpr hboth
    exact ⟨added, List.mem_flatMap.mpr ⟨reference, hreference, List.mem_map.mpr ⟨_, hmem, rfl⟩⟩,
      hadded⟩

/-- The changes of the lists add what visibilities ask for to the definitions of objects. -/
theorem flag_changes (hflag : IsVisibilityFlag flag)
    (hselect : ∀ list ∈ allAlternatives symbols.symbolBuckets,
      ∃ selected, symbols.table.selectSymbol list = .ok selected) :
    (∃ added, .orAssign d added ∈ run.changes ∧ flag added = true)
      ↔ ∃ list ∈ allAlternatives symbols.symbolBuckets, d ∈ list.ids ∧
        symbols.table.isDynamic d = false ∧
        flag (visibilityFlags false (symbols.table.mergedVisibility list)) = true := by
  have hmem : ∀ change, change ∈ run.changes ↔ ∃ list ∈ allAlternatives symbols.symbolBuckets,
      change ∈ symbols.table.processList list := by
    intro change
    rw [(interleaving_iff.mp run.interleaving).mem_iff, List.mem_flatMap]
  constructor
  · intro hexists
    obtain ⟨added, hchange, hadded⟩ := hexists
    obtain ⟨list, hlist, hchange⟩ := (hmem _).mp hchange
    exact ⟨list, hlist, ((flag_processList hflag.toIsFlag).mp ⟨added, hchange, hadded⟩).2⟩
  · intro hexists
    obtain ⟨list, hlist, hrest⟩ := hexists
    obtain ⟨added, hchange, hadded⟩ :=
      (flag_processList hflag.toIsFlag).mpr ⟨hselect list hlist, hrest⟩
    exact ⟨added, (hmem _).mpr ⟨list, hlist, hchange⟩, hadded⟩

/-- The shared tables before a version script of Rust is handled. -/
def Run.shared (run : Run symbols) : Shared :=
  Shared.run ⟨symbols.resolvedDefinitions, symbols.db.flags, []⟩ (run.resolving ++ run.changes)

/-- The flags of a definition that has been reached by some visibilities. -/
theorem flag_shared (hflag : IsVisibilityFlag flag)
    (hselect : ∀ list ∈ allAlternatives symbols.symbolBuckets,
      ∃ selected, symbols.table.selectSymbol list = .ok selected) :
    flag (run.shared.perSymbolFlags d) = true ↔ flag (symbols.db.flags d) = true ∨
      (symbols.table.isDynamic d = false ∧ ∃ visibility, symbols.Reached d visibility ∧
        flag (visibilityFlags false visibility) = true) := by
  have hsplit : (∃ added, .orAssign d added ∈ run.resolving ++ run.changes ∧ flag added = true)
      ↔ (∃ added, .orAssign d added ∈ symbols.referenceChanges ∧ flag added = true) ∨
        ∃ added, .orAssign d added ∈ run.changes ∧ flag added = true := by
    simp only [List.mem_append, run.resolved.mem_iff, or_and_right, exists_or]
  unfold Run.shared
  rw [run_perSymbolFlags, flag_addFlags hflag.toIsFlag, hsplit, flag_referenceChanges hflag,
    flag_changes hflag hselect]
  refine or_congr_right ⟨fun hor => ?_, fun hboth => ?_⟩
  · rcases hor with ⟨reference, hreference, hget, hset⟩ | ⟨list, hlist, hd, hdynamic, hset⟩
    · exact ⟨(get_false hget).2, _, .inr ⟨reference, hreference, hget, rfl⟩, hset⟩
    · exact ⟨hdynamic, _, .inl ⟨list, hlist, hd, rfl⟩, hset⟩
  · obtain ⟨hdynamic, visibility, hreached, hset⟩ := hboth
    rcases hreached with ⟨list, hlist, hd, rfl⟩ | ⟨reference, hreference, hget, rfl⟩
    · exact .inr ⟨list, hlist, hd, hdynamic, hset⟩
    · exact .inl ⟨reference, hreference, hget, hset⟩

/-- A definition that changes was updated. -/
theorem run_symbolDefinitions (shared : Shared) (changes : List Change) (id : SymbolId) :
    (shared.run changes).symbolDefinitions id = shared.symbolDefinitions id ∨
      .updateDefinition id ((shared.run changes).symbolDefinitions id) ∈ changes := by
  by_cases h : ∃ new, .updateDefinition id new ∈ changes
  · induction changes generalizing shared with
    | nil =>
        obtain ⟨new, hnew⟩ := h
        cases hnew
    | cons change changes ih =>
        rw [run_cons]
        by_cases hlater : ∃ new, .updateDefinition id new ∈ changes
        · rcases ih (shared.apply change) hlater with hsame | hupdated
          · cases change with
            | orAssign | pushError => exact .inl hsame
            | updateDefinition toUpdate newDefinition =>
                by_cases heq : id = toUpdate
                · subst heq
                  have hnew : (shared.apply (.updateDefinition id newDefinition)).symbolDefinitions id
                      = newDefinition := Function.update_self _ _ _
                  rw [hsame, hnew]
                  exact .inr List.mem_cons_self
                · exact .inl (hsame.trans (Function.update_of_ne heq _ _))
          · exact .inr (List.mem_cons_of_mem _ hupdated)
        · obtain ⟨new, hnew⟩ := h
          have hfirst : change = .updateDefinition id new :=
            ((List.mem_cons.mp hnew).resolve_right fun hmem => hlater ⟨new, hmem⟩).symm
          have hsame := @run_unchanged (shared.apply change) changes id
            fun new hmem => hlater ⟨new, hmem⟩
          subst hfirst
          have hupdated : (shared.apply (.updateDefinition id new)).symbolDefinitions id = new :=
            Function.update_self _ _ _
          rw [hsame, hupdated]
          exact .inr List.mem_cons_self
  · exact .inl (run_unchanged fun new hnew => h ⟨new, hnew⟩)

theorem resolvedDefinitions_defined (hd : symbols.defined d) : symbols.resolvedDefinitions d = d := by
  have hfold : ∀ (references : List Reference) (definitions : SymbolId → SymbolId),
      (∀ reference ∈ references, reference.symbolId ≠ d) →
      references.foldl (fun definitions reference => Function.update definitions reference.symbolId
        (symbols.resolve reference).definition) definitions d = definitions d := by
    intro references
    induction references with
    | nil => exact fun _ _ => rfl
    | cons reference references ih =>
        intro definitions hne
        rw [List.foldl_cons, ih _ fun other hother => hne other (List.mem_cons_of_mem _ hother)]
        exact Function.update_of_ne (hne reference List.mem_cons_self).symm _ _
  unfold LoadedSymbols.resolvedDefinitions
  rw [hfold]
  · exact symbols.defined_self d hd
  · exact fun reference hreference heq => symbols.not_defined reference hreference (heq ▸ hd)

/-- Definitions lead to definitions. -/
theorem shared_defined (hd : symbols.defined d) :
    symbols.defined (run.shared.symbolDefinitions d) := by
  rcases run_symbolDefinitions ⟨symbols.resolvedDefinitions, symbols.db.flags, []⟩
    (run.resolving ++ run.changes) d with hsame | hupdated
  · rw [Run.shared, hsame]
    show symbols.defined (symbols.resolvedDefinitions d)
    rw [resolvedDefinitions_defined hd]
    exact hd
  · rcases List.mem_append.mp hupdated with hmem | hmem
    · obtain ⟨reference, -, hmem⟩ := List.mem_flatMap.mp (run.resolved.mem_iff.mp hmem)
      obtain ⟨assigned, -, heq⟩ := List.mem_map.mp hmem
      cases heq
    · obtain ⟨list, hlist, hselect, -⟩ := (updateDefinition_mem run.interleaving).mp hmem
      exact symbols.list_defined list hlist _ (specified_mem (selectSymbol_eq_ok hselect).2)

/-! ### Version scripts of Rust -/

/-- The definition of one of the names. -/
def IsGlobal (db : SymbolDb) (definition : SymbolId → SymbolId) (global : List Name)
    (id : SymbolId) : Prop :=
  ∃ name ∈ global, ∃ first, db.getUnversioned name = some first ∧ definition first = id

theorem handleRustVersionScript_flags (db : SymbolDb) (definition : SymbolId → SymbolId)
    (global : List Name) (flags : SymbolId → ValueFlags) :
    ((handleRustVersionScript db definition global flags d).downgradeToLocal = true ↔
        (flags d).downgradeToLocal = true ∧ ¬IsGlobal db definition global d) ∧
      ((handleRustVersionScript db definition global flags d).nonInterposable = true ↔
        (flags d).nonInterposable = true ∨
          ((flags d).downgradeToLocal = true ∧ ¬IsGlobal db definition global d)) ∧
      (handleRustVersionScript db definition global flags d).dynamic = (flags d).dynamic := by
  have hupgraded : ∀ flags : SymbolId → ValueFlags, ∃ upgraded : SymbolId → ValueFlags,
      global.foldl (fun flags name =>
        match db.getUnversioned name with
        | some symbolId =>
          Function.update flags (definition symbolId)
            { flags (definition symbolId) with downgradeToLocal := false }
        | none => flags) flags = upgraded ∧
      ((upgraded d).downgradeToLocal = true ↔
        (flags d).downgradeToLocal = true ∧ ¬IsGlobal db definition global d) ∧
      (upgraded d).nonInterposable = (flags d).nonInterposable ∧
      (upgraded d).dynamic = (flags d).dynamic := by
    induction global with
    | nil => exact fun flags => ⟨flags, rfl, by simp [IsGlobal], rfl, rfl⟩
    | cons name global ih =>
        intro flags
        have hcons : IsGlobal db definition (name :: global) d
            ↔ (∃ first, db.getUnversioned name = some first ∧ definition first = d) ∨
              IsGlobal db definition global d := by
          simp [IsGlobal, or_and_right, exists_or]
        rw [List.foldl_cons]
        cases hfound : db.getUnversioned name with
        | none =>
            obtain ⟨upgraded, heq, hlocal, hrest⟩ := ih flags
            refine ⟨upgraded, heq, ?_, hrest⟩
            rw [hlocal, hcons, hfound]
            simp
        | some first =>
            obtain ⟨upgraded, heq, hlocal, hfinal, hdynamic⟩ :=
              ih (Function.update flags (definition first)
                { flags (definition first) with downgradeToLocal := false })
            refine ⟨upgraded, heq, ?_⟩
            rw [hlocal, hfinal, hdynamic, hcons, hfound]
            by_cases hd : d = definition first
            · subst hd
              rw [Function.update_self]
              simp
            · rw [Function.update_of_ne hd]
              simp [Ne.symm hd]
  obtain ⟨upgraded, heq, hlocal, hfinal, hdynamic⟩ := hupgraded flags
  unfold handleRustVersionScript
  dsimp only
  rw [heq, ← hlocal, ← hfinal, ← hdynamic]
  split
  · rename_i hset
    simp [ValueFlags.union, ValueFlags.empty, hset]
  · rename_i hset
    simp [hset]

/-! ### The outcome -/

theorem tables_eq_ok (h : run.tables = .ok tables) :
    (∀ list ∈ allAlternatives symbols.symbolBuckets,
        ∃ selected, symbols.table.selectSymbol list = .ok selected) ∧
      tables.db = symbols.db ∧ tables.symbolDefinitions = run.shared.symbolDefinitions ∧
      tables.numSymbols = symbols.numSymbols ∧ tables.nameToId = [] ∧
      tables.perSymbolFlags =
        match symbols.rustGlobal with
        | some global => handleRustVersionScript symbols.db run.shared.definition global
            run.shared.perSymbolFlags
        | none => run.shared.perSymbolFlags := by
  obtain ⟨⟨symbolDefinitions, flags⟩, hfinish, htables⟩ := Fallible.bind_eq_ok.mp h
  have hfinish : run.shared.finish = .ok (symbolDefinitions, flags) := hfinish
  unfold Shared.finish at hfinish
  split at hfinish
  · rename_i hempty
    cases hfinish
    cases htables
    refine ⟨fun list hlist => ?_, rfl, rfl, rfl, rfl, rfl⟩
    cases hselect : symbols.table.selectSymbol list with
    | ok selected => exact ⟨selected, rfl⟩
    | error failure =>
        have hreport := (mem_reports run.interleaving).mpr ⟨list, hlist, hselect⟩
        have hqueue : failure ∈ run.shared.errorQueue := by
          unfold Run.shared
          rw [run_errorQueue, List.flatMap_append]
          exact List.mem_append_right _ (List.mem_append_right _ hreport)
        rw [List.isEmpty_iff.mp hempty] at hqueue
        cases hqueue
  · cases hfinish

theorem visibilityFlags_nonInterposable_object (visibility : Visibility) :
    (visibilityFlags false visibility).nonInterposable = true ↔ visibility ≠ .default := by
  cases visibility <;> decide

theorem separate_tables (h : run.tables = .ok tables) :
    tables.Separate symbols.defined run.undefinedSymbols := by
  obtain ⟨-, hdb, hdefinitions, hnum, -, -⟩ := tables_eq_ok h
  have hreference : ∀ undefined ∈ run.undefinedSymbols, ∃ reference ∈ symbols.references,
      undefined.symbolId = reference.symbolId := by
    intro undefined hundefined
    obtain ⟨reference, hreference, hrecord⟩ :=
      List.mem_filterMap.mp (run.recorded.mem_iff.mp hundefined)
    exact ⟨reference, hreference, (resolve_undefined hrecord).2⟩
  refine ⟨fun name id hname => ?_, fun id hid => ?_, fun id hid => ?_, fun undefined hmem => ?_,
    fun undefined hmem => ?_⟩
  · rw [hdb] at hname
    exact symbols.name_defined (.unversioned name) id hname
  · rw [hdefinitions]
    exact shared_defined hid
  · rw [hnum]
    exact symbols.defined_lt id hid
  · obtain ⟨reference, hreference, heq⟩ := hreference undefined hmem
    rw [hnum, heq]
    exact symbols.reference_lt reference hreference
  · obtain ⟨reference, hreference, heq⟩ := hreference undefined hmem
    rw [heq]
    exact symbols.not_defined reference hreference

theorem exportedByScript_iff {selected : SymbolId → SymbolId} : symbols.ExportedByScript selected d
    ↔ ∃ global, symbols.rustGlobal = some global ∧ IsGlobal symbols.db selected global d :=
  Iff.rfl

/-- The flags of a definition before undefined symbols are canonicalised. -/
theorem flags_tables (h : run.tables = .ok tables) (hd : symbols.defined d) :
    (tables.perSymbolFlags d).dynamic = symbols.table.isDynamic d ∧
      (symbols.table.isDynamic d = true →
        (tables.perSymbolFlags d).downgradeToLocal = false ∧
          (tables.perSymbolFlags d).nonInterposable = false) ∧
      (symbols.table.isDynamic d = false →
        ((tables.perSymbolFlags d).downgradeToLocal = true ↔
          symbols.LocalEarly tables.definition d) ∧
        ((tables.perSymbolFlags d).nonInterposable = true ↔
          (symbols.db.flags d).nonInterposable = true ∨
            (∃ visibility, visibility ≠ .default ∧ symbols.Reached d visibility) ∨
            (symbols.rustGlobal.isSome = true ∧ symbols.LocalEarly tables.definition d))) := by
  obtain ⟨hselect, -, hdefinitions, -, -, hflags⟩ := tables_eq_ok h
  have hdefinition : tables.definition = run.shared.definition := by
    funext id
    rw [Tables.definition, hdefinitions, Shared.definition]
  have hdynamic : (run.shared.perSymbolFlags d).dynamic = symbols.table.isDynamic d := by
    have hflag : IsVisibilityFlag ValueFlags.dynamic := ⟨⟨fun _ _ => rfl, rfl⟩, rfl⟩
    rw [Bool.eq_iff_iff, @flag_shared symbols run _ d hflag hselect, symbols.dynamicFlag d hd]
    simp [visibilityFlags_dynamic]
  have hlocal := @flag_shared symbols run _ d isVisibilityFlag_downgradeToLocal hselect
  have hfinal := @flag_shared symbols run _ d isVisibilityFlag_nonInterposable hselect
  simp only [visibilityFlags_downgradeToLocal, exists_eq_right] at hlocal
  simp only [visibilityFlags_nonInterposable_object,
    and_comm (b := _ ≠ Visibility.default)] at hfinal
  rw [hflags, LoadedSymbols.LocalEarly, exportedByScript_iff, hdefinition]
  cases hrust : symbols.rustGlobal with
  | none =>
      dsimp only
      refine ⟨hdynamic, fun hlibrary => ?_, fun hobject => ⟨?_, ?_⟩⟩
      · obtain ⟨hnot, hnotLocal⟩ := symbols.library d hd hlibrary
        rw [hnotLocal, hlibrary] at hlocal
        rw [hnot, hlibrary] at hfinal
        have hnoLocal : (run.shared.perSymbolFlags d).downgradeToLocal = false := by simpa using hlocal
        have hnoFinal : (run.shared.perSymbolFlags d).nonInterposable = false := by simpa using hfinal
        exact ⟨hnoLocal, hnoFinal⟩
      · rw [hlocal, hobject]
        simp
      · rw [hfinal, hobject]
        simp
  | some global =>
      obtain ⟨hupLocal, hupFinal, hupDynamic⟩ := handleRustVersionScript_flags symbols.db
        run.shared.definition global run.shared.perSymbolFlags (d := d)
      dsimp only
      refine ⟨hupDynamic.trans hdynamic, fun hlibrary => ?_, fun hobject => ⟨?_, ?_⟩⟩
      · obtain ⟨hnot, hnotLocal⟩ := symbols.library d hd hlibrary
        rw [hnotLocal, hlibrary] at hlocal
        rw [hnot, hlibrary] at hfinal
        rw [← Bool.not_eq_true, ← Bool.not_eq_true, hupLocal, hupFinal, hlocal, hfinal]
        simp
      · rw [hupLocal, hlocal, hobject]
        simp
      · rw [hupFinal, hfinal, hlocal, hobject]
        simp [or_assoc]

/-- What undefined symbols add is what gets there late. -/
theorem marks_iff (h : run.tables = .ok tables) (hd : symbols.defined d) :
    (∃ undefined ∈ run.undefinedSymbols, tables.Marks symbols.loaded flag
        (higher run.undefinedSymbols undefined) undefined d)
      ↔ ∃ visibility, symbols.ReachedLate tables.definition d visibility ∧
        flag (visibilityFlags (symbols.table.isDynamic d) visibility) = true := by
  obtain ⟨-, hdb, -⟩ := tables_eq_ok h
  have hdynamic := (flags_tables h hd).1
  have hhigher : ∀ undefined, (higher run.undefinedSymbols undefined).Perm
      (higher symbols.undefinedSymbols undefined) := fun undefined => run.recorded.filter _
  have happlies : ∀ undefined, Applies symbols.loaded (higher run.undefinedSymbols undefined)
      undefined ↔ Applies symbols.loaded (higher symbols.undefinedSymbols undefined) undefined := by
    intro undefined
    simp only [Applies, (hhigher undefined).mem_iff]
  constructor
  · intro hexists
    obtain ⟨undefined, hmem, hmarks⟩ := hexists
    obtain ⟨reference, hreference, hrecord⟩ :=
      List.mem_filterMap.mp (run.recorded.mem_iff.mp hmem)
    obtain ⟨hname, hid⟩ := resolve_undefined hrecord
    have hset := hmarks.flag
    rw [hdynamic, hdb, hid] at hset
    have htarget := hmarks.target
    rw [hname] at htarget
    refine ⟨_, ⟨reference, hreference, rfl, undefined, hrecord, (happlies _).mp hmarks.applies, ?_⟩,
      hset⟩
    cases hkey : reference.key with
    | versioned name version =>
        rw [hkey] at htarget
        cases htarget
    | unversioned name =>
        rw [hkey, Tables.target, hdb] at htarget
        obtain ⟨first, hfirst, hdefinition⟩ := Option.map_eq_some_iff.mp htarget
        exact ⟨name, first, rfl, hfirst, hdefinition⟩
  · intro hexists
    obtain ⟨visibility, ⟨reference, hreference, rfl, undefined, hrecord, happly, name, first, hkey,
      hfirst, hdefinition⟩, hset⟩ := hexists
    obtain ⟨hname, hid⟩ := resolve_undefined hrecord
    have hmem : undefined ∈ run.undefinedSymbols :=
      run.recorded.mem_iff.mpr (List.mem_filterMap.mpr ⟨reference, hreference, hrecord⟩)
    refine ⟨undefined, hmem, (happlies _).mpr happly, ?_, ?_⟩
    · rw [hname, hkey, Tables.target, hdb, hfirst, ← hdefinition]
      rfl
    · rw [hdynamic, hdb, hid]
      exact hset

theorem undefinedSymbols_nodup : (run.undefinedSymbols.map (·.symbolId)).Nodup := by
  have hsublist : ∀ references : List Reference,
      ((references.filterMap fun reference => (symbols.resolve reference).undefined).map
        (·.symbolId)).Sublist (references.map Reference.symbolId) := by
    intro references
    induction references with
    | nil => exact .slnil
    | cons reference references ih =>
        rw [List.filterMap_cons, List.map_cons]
        split
        · exact ih.cons _
        · rename_i undefined hrecord
          rw [List.map_cons, (resolve_undefined hrecord).2]
          exact ih.cons_cons _
  exact (run.recorded.map _).nodup_iff.mpr (symbols.nodup.sublist (hsublist _))

/-- The flags of a definition in the end. -/
theorem flag_finish (h : run.tables = .ok tables) (hflag : IsFlag flag) (hd : symbols.defined d) :
    flag ((canonicaliseUndefinedSymbols symbols.loaded run.undefinedSymbols tables).perSymbolFlags d)
        = true
      ↔ flag (tables.perSymbolFlags d) = true ∨ ∃ visibility,
        symbols.ReachedLate tables.definition d visibility ∧
          flag (visibilityFlags (symbols.table.isDynamic d) visibility) = true := by
  obtain ⟨-, -, -, -, hnameToId, -⟩ := tables_eq_ok h
  rw [flag_canonicaliseUndefinedSymbols hflag (separate_tables h) hnameToId undefinedSymbols_nodup hd,
    marks_iff h hd]

theorem definition_finish (h : run.tables = .ok tables) (hd : symbols.defined d) :
    (canonicaliseUndefinedSymbols symbols.loaded run.undefinedSymbols tables).definition d
      = tables.definition d := by
  have hseparate := separate_tables h
  have hperm : (sortUndefined run.undefinedSymbols).Perm run.undefinedSymbols :=
    List.mergeSort_perm _ _
  have hframe : tables.Frame symbols.defined
      (canonicaliseUndefinedSymbols symbols.loaded run.undefinedSymbols tables) :=
    Tables.Frame.refl.foldl hseparate hperm.subset
  exact hframe.definition_eq hseparate.definition hd

theorem reachedLate_of_eq {selected selected' : SymbolId → SymbolId}
    (h : ∀ id, symbols.defined id → selected id = selected' id)
    (hlate : symbols.ReachedLate selected d visibility) :
    symbols.ReachedLate selected' d visibility := by
  obtain ⟨reference, hreference, hvisibility, undefined, hrecord, happlies, name, first, hkey, hfirst,
    hselected⟩ := hlate
  have hsame := h first (symbols.name_defined (.unversioned name) first hfirst)
  exact ⟨reference, hreference, hvisibility, undefined, hrecord, happlies, name, first, hkey, hfirst,
    hsame.symm.trans hselected⟩

theorem exportedByScript_of_eq {selected selected' : SymbolId → SymbolId}
    (h : ∀ id, symbols.defined id → selected id = selected' id)
    (hexported : symbols.ExportedByScript selected d) : symbols.ExportedByScript selected' d := by
  obtain ⟨global, hglobal, name, hname, first, hfirst, hselected⟩ := hexported
  have hsame := h first (symbols.name_defined (.unversioned name) first hfirst)
  exact ⟨global, hglobal, name, hname, first, hfirst, hsame.symm.trans hselected⟩

section Outcome

variable (h : run.tables = .ok tables) (hfinal : final
    = canonicaliseUndefinedSymbols symbols.loaded run.undefinedSymbols tables)

include h hfinal

theorem reachedLate_final : symbols.ReachedLate final.definition d visibility
    ↔ symbols.ReachedLate tables.definition d visibility := by
  have hsame : ∀ id, symbols.defined id → final.definition id = tables.definition id := by
    intro id hid
    rw [hfinal]
    exact definition_finish h hid
  exact ⟨reachedLate_of_eq hsame, reachedLate_of_eq fun id hid => (hsame id hid).symm⟩

theorem localEarly_final : symbols.LocalEarly final.definition d
    ↔ symbols.LocalEarly tables.definition d := by
  have hsame : ∀ id, symbols.defined id → final.definition id = tables.definition id := by
    intro id hid
    rw [hfinal]
    exact definition_finish h hid
  exact and_congr_right fun _ => not_congr
    ⟨exportedByScript_of_eq hsame, exportedByScript_of_eq fun id hid => (hsame id hid).symm⟩

/-- A definition in an object is local and final where something makes it so. -/
theorem flags_object (hd : symbols.defined d) (hobject : symbols.table.isDynamic d = false) :
    ((final.perSymbolFlags d).downgradeToLocal = true ↔ symbols.IsLocal final.definition d) ∧
      ((final.perSymbolFlags d).nonInterposable = true ↔ symbols.IsFinal final.definition d) := by
  obtain ⟨hlocal, hfinalFlag⟩ := (flags_tables h hd).2.2 hobject
  constructor
  · rw [LoadedSymbols.IsLocal, localEarly_final h hfinal, reachedLate_final h hfinal, hfinal,
      flag_finish h isVisibilityFlag_downgradeToLocal.toIsFlag hd, hlocal, hobject]
    simp only [visibilityFlags_downgradeToLocal, exists_eq_right]
  · simp only [LoadedSymbols.IsFinal, localEarly_final h hfinal, reachedLate_final h hfinal]
    rw [hfinal, flag_finish h isVisibilityFlag_nonInterposable.toIsFlag hd, hfinalFlag, hobject]
    simp only [visibilityFlags_nonInterposable_object, or_assoc,
      and_comm (b := _ ≠ Visibility.default)]

/-- A definition in a shared library is changed by hidden references that have stayed undefined. -/
theorem flags_library (hd : symbols.defined d) (hlibrary : symbols.table.isDynamic d = true) :
    ((final.perSymbolFlags d).downgradeToLocal = true
        ↔ symbols.ReachedLate final.definition d .hidden) ∧
      ((final.perSymbolFlags d).nonInterposable = true
        ↔ symbols.ReachedLate final.definition d .hidden) := by
  obtain ⟨hlocal, hfinalFlag⟩ := (flags_tables h hd).2.1 hlibrary
  rw [reachedLate_final h hfinal, hfinal,
    flag_finish h isVisibilityFlag_downgradeToLocal.toIsFlag hd,
    flag_finish h isVisibilityFlag_nonInterposable.toIsFlag hd, hlocal, hfinalFlag, hlibrary]
  simp [visibilityFlags_downgradeToLocal, visibilityFlags_nonInterposable]

end Outcome

end Runs

/-- The flags of selected definitions say what the visibilities of their names ask for, in every
run, exactly where these get to the definition that is selected. -/
theorem mergesVisibility_iff (symbols : LoadedSymbols) (run : Run symbols) (final : Tables)
    (h : run.finish = .ok final) (key : PreHashedSymbolName) :
    symbols.MergesVisibility final key ↔ symbols.VisibilitiesGet final.definition key := by
  obtain ⟨tables, htables, hfinish⟩ := Fallible.bind_eq_ok.mp h
  have hfinal : final
      = canonicaliseUndefinedSymbols symbols.loaded run.undefinedSymbols tables := by
    cases hfinish
    rfl
  refine forall_congr' fun first => imp_congr_right fun hfirst => ?_
  have hd : symbols.defined (final.definition first) := by
    have hname := symbols.name_defined key first hfirst
    have hseparate := separate_tables htables
    rw [hfinal, definition_finish htables hname]
    exact hseparate.definition _ (hseparate.definition _ hname)
  cases hdynamic : symbols.table.isDynamic (final.definition first) with
  | true =>
      obtain ⟨hnot, hnotLocal⟩ := symbols.library _ hd hdynamic
      obtain ⟨hlocal, hfinalFlag⟩ := flags_library htables hfinal hd hdynamic
      rw [if_pos rfl, if_pos rfl, hnot, hnotLocal, ← Bool.not_eq_true, ← Bool.not_eq_true, hlocal,
        hfinalFlag, and_self]
  | false =>
      obtain ⟨hlocal, hfinalFlag⟩ := flags_object htables hfinal hd hdynamic
      rw [if_neg Bool.false_ne_true, if_neg Bool.false_ne_true]
      refine forall_congr' fun visibility => imp_congr_right fun _ => ?_
      cases visibility with
      | default => exact Iff.rfl
      | «protected» => exact hfinalFlag
      | hidden =>
          rw [LoadedSymbols.Says, LoadedSymbols.Gets, hlocal, hfinalFlag]

/-- The run of a single thread. -/
def Run.inOrder (symbols : LoadedSymbols) : Run symbols where
  resolving := symbols.referenceChanges
  changes := symbols.symbolBuckets.flatMap fun bucket =>
    symbols.table.processAlternatives bucket.alternativeDefinitions
      ++ symbols.table.processAlternatives bucket.alternativeVersionedDefinitions
  undefinedSymbols := symbols.undefinedSymbols
  resolved := .refl _
  interleaving := by
    unfold SymbolTable.Interleaving
    exact .refl _
  recorded := .refl _

/-- Definitions 1 and 2 of `f` with the strengths, and a hidden reference 3 to it. -/
def hiddenReference (isDynamic : Bool) (first second : SymbolStrength) : LoadedSymbols where
  db :=
    { buckets := [⟨⟨[⟨1, [2]⟩], []⟩, [([0x66], 1)], []⟩]
      hash := fun _ => 0
      symbolFileIds := fun id => ⟨1, id⟩
      isDynamic := fun fileId => isDynamic && fileId.file ≠ 3
      symbolStrength := fun id => if id = 1 then first else second
      inputSymbolVisibility := fun id => if id = 3 then .hidden else .default
      flags := fun id => { ValueFlags.empty with dynamic := isDynamic && id ≠ 3 } }
  table :=
    { isDynamic := fun id => isDynamic && id ≠ 3
      strength := fun id => if id = 1 then first else second
      isInComdatGroup := fun _ => false
      visibility := fun id => if id = 3 then .hidden else .default
      allowMultipleDefinitions := false
      symbolName := fun _ => "f"
      fileName := fun _ => "" }
  loaded :=
    { isLoaded := fun _ => true
      symbolStrength := fun _ => .undefined
      outputKind := .sharedObject
      customIdentityToId := fun _ => none
      synFileId := ⟨2, 0⟩ }
  references := [⟨3, ⟨⟨[0x66], none, true⟩, false, false⟩, false, ⟨1, 3⟩, false⟩]
  symbolDefinitions id := if id = 3 then 0 else id
  numSymbols := 4
  rustGlobal := none
  defined id := id = 1 ∨ id = 2
  name_defined key id h := by
    cases key with
    | versioned name version => cases h
    | unversioned name =>
        have hlookup : ([([0x66], 1)] : List (Name × SymbolId)).lookup name = some id := h
        rw [Lists.lookup_cons_eq_ite] at hlookup
        split at hlookup
        · exact .inl (Option.some.inj hlookup).symm
        · cases hlookup
  list_defined list hlist id hid := by
    obtain rfl := List.mem_singleton.mp hlist
    simpa [Alternatives.ids] using hid
  defined_self id hid := by
    rcases hid with rfl | rfl <;> rfl
  defined_lt id hid := by
    rcases hid with rfl | rfl <;> decide
  reference_lt := by decide
  not_defined := by decide
  nodup := by decide
  visibility := rfl
  defaultVisibility reference hmem _ := by
    obtain rfl := List.mem_singleton.mp hmem
    rfl
  isDynamic _ _ := rfl
  dynamicFlag _ _ := rfl
  library _ _ _ := ⟨rfl, rfl⟩

theorem canonicaliseUndefinedSymbols_nil (loaded : Loaded) (tables : Tables) :
    canonicaliseUndefinedSymbols loaded [] tables = tables := by
  simp [canonicaliseUndefinedSymbols, sortUndefined]

/-- A hidden reference makes the definition local that is first, where this is the selected one. -/
theorem mergesVisibility_strongFirst : ∃ final,
    (Run.inOrder (hiddenReference false .strong .weak)).finish = .ok final ∧
      (hiddenReference false .strong .weak).MergesVisibility final (.unversioned [0x66]) := by
  obtain ⟨tables, htables⟩ : ∃ tables,
      (Run.inOrder (hiddenReference false .strong .weak)).tables = .ok tables := ⟨_, rfl⟩
  have hfinish : (Run.inOrder (hiddenReference false .strong .weak)).finish = .ok tables := by
    rw [Run.finish, htables, Fallible.bind_ok]
    exact congrArg Except.ok (canonicaliseUndefinedSymbols_nil _ tables)
  refine ⟨tables, hfinish, ?_⟩
  refine (mergesVisibility_iff (hiddenReference false .strong .weak) (Run.inOrder _) tables hfinish
    (.unversioned [0x66])).mpr fun first hfirst => ?_
  obtain rfl : 1 = first := Option.some.inj hfirst
  have hdefinition : tables.definition 1 = 1 := by
    rw [Tables.definition, (tables_eq_ok htables).2.2.1]
    rfl
  have hreached : (hiddenReference false .strong .weak).Reached 1 .hidden :=
    .inr ⟨_, List.mem_singleton_self _, rfl, rfl⟩
  have hlocal : (hiddenReference false .strong .weak).LocalEarly tables.definition 1 := by
    refine ⟨.inr hreached, fun hexported => ?_⟩
    obtain ⟨global, hglobal, -⟩ := hexported
    cases hglobal
  have hisFinal : (hiddenReference false .strong .weak).IsFinal tables.definition 1 :=
    .inr (.inl ⟨.hidden, by decide, hreached⟩)
  rw [hdefinition]
  rw [if_neg (by decide)]
  intro visibility _
  cases visibility with
  | default => trivial
  | «protected» => exact hisFinal
  | hidden => exact ⟨.inr (.inl hlocal), hisFinal⟩

/-- A hidden reference is lost where it is resolved to a weak definition before a strong one is
selected, and it changes a definition in a shared library. -/
theorem mergesVisibility_counterexample :
    (∃ final, (Run.inOrder (hiddenReference false .weak .strong)).finish = .ok final ∧
        final.definition 1 = 2 ∧
        ¬(hiddenReference false .weak .strong).MergesVisibility final (.unversioned [0x66])) ∧
      ∃ final, (Run.inOrder (hiddenReference true .strong .strong)).finish = .ok final ∧
        ¬(hiddenReference true .strong .strong).MergesVisibility final (.unversioned [0x66]) := by
  constructor
  · obtain ⟨tables, htables⟩ : ∃ tables,
        (Run.inOrder (hiddenReference false .weak .strong)).tables = .ok tables := ⟨_, rfl⟩
    have hfinish : (Run.inOrder (hiddenReference false .weak .strong)).finish = .ok tables := by
      rw [Run.finish, htables, Fallible.bind_ok]
      exact congrArg Except.ok (canonicaliseUndefinedSymbols_nil _ tables)
    obtain ⟨-, -, hdefinitions, -, -, hflags⟩ := tables_eq_ok htables
    have hdefinition : tables.definition 1 = 2 := by
      rw [Tables.definition, hdefinitions]
      rfl
    refine ⟨tables, hfinish, hdefinition, fun hmerges => ?_⟩
    have hstated := hmerges 1 rfl
    rw [hdefinition, if_neg (by decide)] at hstated
    have hhidden := hstated .hidden (.inr ⟨_, List.mem_singleton_self _, rfl, rfl⟩)
    have hlocal : (tables.perSymbolFlags 2).downgradeToLocal = false := by
      rw [hflags]
      rfl
    rw [LoadedSymbols.Says, hlocal] at hhidden
    exact absurd hhidden.1 (by decide)
  · obtain ⟨tables, htables⟩ : ∃ tables,
        (Run.inOrder (hiddenReference true .strong .strong)).tables = .ok tables := ⟨_, rfl⟩
    have hdefined : (hiddenReference true .strong .strong).defined 1 := .inl rfl
    refine ⟨_, by rw [Run.finish, htables]; rfl, fun hmerges => ?_⟩
    have hstated := hmerges 1 rfl
    have hdefinition : (canonicaliseUndefinedSymbols (hiddenReference true .strong .strong).loaded
        (Run.inOrder (hiddenReference true .strong .strong)).undefinedSymbols tables).definition 1
          = 1 := by
      rw [definition_finish htables hdefined, Tables.definition, (tables_eq_ok htables).2.2.1]
      rfl
    rw [hdefinition, if_pos (by decide)] at hstated
    have hlate : (hiddenReference true .strong .strong).ReachedLate (canonicaliseUndefinedSymbols
        (hiddenReference true .strong .strong).loaded
        (Run.inOrder (hiddenReference true .strong .strong)).undefinedSymbols tables).definition
          1 .hidden :=
      ⟨_, List.mem_singleton_self _, rfl, _, rfl, ⟨rfl, _, rfl, .inl rfl⟩, [0x66], 1, rfl, rfl,
        hdefinition⟩
    have hchanged := (flags_library htables rfl hdefined rfl).1.mpr hlate
    rw [hstated.2] at hchanged
    cases hchanged

end JdxLinker.Resolution
