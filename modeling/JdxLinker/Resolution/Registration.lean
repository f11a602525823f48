import JdxLinker.Resolution.SymbolDb

/-!
# Registering definitions

The definitions of all groups are registered under their names, each in the bucket of its name. The
first definition of a name is the one that lookups find, and the others are its alternatives. Names
with a version have maps of their own.
-/

namespace JdxLinker.Resolution

open Symbols

/-- A definition that has not been registered yet. -/
structure PendingSymbol where
  name : PreHashedSymbolName
  symbolId : SymbolId
  deriving Repr, DecidableEq

def PreHashedSymbolName.isVersioned : PreHashedSymbolName → Bool
  | unversioned _ => false
  | versioned _ _ => true

/-- Adds to the alternatives of a first definition, which may have none yet. -/
def pushAlternative (firstSymbolId newSymbolId : SymbolId) : List Alternatives → List Alternatives
  | [] => [⟨firstSymbolId, [newSymbolId]⟩]
  | list :: lists =>
    if list.first = firstSymbolId then
      { list with alternatives := list.alternatives ++ [newSymbolId] } :: lists
    else list :: pushAlternative firstSymbolId newSymbolId lists

namespace Bucket

def empty : Bucket := ⟨⟨[], []⟩, [], []⟩

def addExtraSymbolDefinition (bucket : Bucket) (firstSymbolId newSymbolId : SymbolId) : Bucket :=
  { bucket with
    alternativeDefinitions :=
      pushAlternative firstSymbolId newSymbolId bucket.alternativeDefinitions }

def addSymbol (bucket : Bucket) (name : Name) (symbolId : SymbolId) : Bucket :=
  match bucket.nameToId.lookup name with
  | some firstSymbolId => bucket.addExtraSymbolDefinition firstSymbolId symbolId
  | none => { bucket with nameToId := (name, symbolId) :: bucket.nameToId }

def addVersionedSymbol (bucket : Bucket) (name : Name × Name) (symbolId : SymbolId) : Bucket :=
  match bucket.versionedNameToId.lookup name with
  | some firstSymbolId =>
    { bucket with
      alternativeVersionedDefinitions :=
        pushAlternative firstSymbolId symbolId bucket.alternativeVersionedDefinitions }
  | none => { bucket with versionedNameToId := (name, symbolId) :: bucket.versionedNameToId }

def add (bucket : Bucket) (pending : PendingSymbol) : Bucket :=
  match pending.name with
  | .unversioned name => bucket.addSymbol name pending.symbolId
  | .versioned name version => bucket.addVersionedSymbol (name, version) pending.symbolId

end Bucket

/-- What a group adds to a bucket: the names without a version come first. -/
def pendingOfBucket (hash : PreHashedSymbolName → Nat) (numBuckets b : Nat)
    (outputs : List PendingSymbol) : List PendingSymbol :=
  let pending := outputs.filter fun pending => hash pending.name % numBuckets = b
  (pending.filter fun pending => !pending.name.isVersioned)
    ++ pending.filter fun pending => pending.name.isVersioned

def populateBucket (hash : PreHashedSymbolName → Nat) (numBuckets : Nat)
    (perGroupOutputs : List (List PendingSymbol)) (b : Nat) : Bucket :=
  perGroupOutputs.foldl
    (fun bucket outputs => (pendingOfBucket hash numBuckets b outputs).foldl Bucket.add bucket)
    Bucket.empty

/-- The buckets are populated in parallel. -/
def populateSymbolDb (hash : PreHashedSymbolName → Nat) (numBuckets : Nat)
    (perGroupOutputs : List (List PendingSymbol)) : List Bucket :=
  (List.range numBuckets).map (populateBucket hash numBuckets perGroupOutputs)

/-- The definitions registered under a name. -/
def definitionsOf (pending : List PendingSymbol) (key : PreHashedSymbolName) : List SymbolId :=
  (pending.filter fun pending => pending.name = key).map PendingSymbol.symbolId

/-- A symbol has one name, and one version at most. -/
def OneName (pending : List PendingSymbol) : Prop :=
  ∀ a ∈ pending, ∀ b ∈ pending, a.symbolId = b.symbolId →
    a.name.isVersioned = b.name.isVersioned → a.name = b.name

instance (pending : List PendingSymbol) : Decidable (OneName pending) := by
  unfold OneName
  infer_instance

/-- The definitions that the files of all groups have. -/
structure SymbolLoadOutputs where
  perGroup : List (List PendingSymbol)
  oneName : OneName perGroup.flatten

def SymbolLoadOutputs.definitions (outputs : SymbolLoadOutputs) (key : PreHashedSymbolName) :
    List SymbolId :=
  definitionsOf outputs.perGroup.flatten key

/-! ### The alternatives of a first definition -/

section Alternatives

variable {lists : List Alternatives} {first id : SymbolId}

def alternativesOf (lists : List Alternatives) (first : SymbolId) : List SymbolId :=
  ((lists.find? fun list => list.first = first).map Alternatives.alternatives).getD []

theorem find?_pushAlternative_self : (pushAlternative first id lists).find? (·.first = first)
    = some ⟨first, alternativesOf lists first ++ [id]⟩ := by
  unfold alternativesOf
  induction lists with
  | nil => simp [pushAlternative]
  | cons list lists ih =>
      unfold pushAlternative
      by_cases h : list.first = first
      · simp [h]
      · simp [h, ih]

theorem find?_pushAlternative_of_ne {other : SymbolId} (hne : other ≠ first) :
    (pushAlternative first id lists).find? (·.first = other)
      = lists.find? (·.first = other) := by
  induction lists with
  | nil => simp [pushAlternative, hne.symm]
  | cons list lists ih =>
      unfold pushAlternative
      by_cases h : list.first = first
      · simp [h, hne.symm]
      · by_cases hother : list.first = other
        · subst hother
          simp [hne]
        · simp [h, hother, ih]

theorem alternativesOf_pushAlternative_self :
    alternativesOf (pushAlternative first id lists) first = alternativesOf lists first ++ [id] := by
  rw [alternativesOf, find?_pushAlternative_self]
  rfl

theorem alternativesOf_pushAlternative_of_ne {other : SymbolId} (hne : other ≠ first) :
    alternativesOf (pushAlternative first id lists) other = alternativesOf lists other := by
  rw [alternativesOf, find?_pushAlternative_of_ne hne]
  rfl

end Alternatives

/-! ### What the maps of a bucket hold -/

section Registered

variable {K : Type} [BEq K] {names : List (K × SymbolId)} {lists : List Alternatives}
  {definitions : K → List SymbolId} {name : K} {id : SymbolId}

/-- The maps hold the definitions of every name: the first one by the name, and the others by the
first one. -/
structure Registered (names : List (K × SymbolId)) (lists : List Alternatives)
    (definitions : K → List SymbolId) : Prop where
  first : ∀ name, names.lookup name = (definitions name).head?
  alternatives : ∀ name first rest, definitions name = first :: rest →
    alternativesOf lists first = rest
  noAlternatives : ∀ id, (∀ name, (definitions name).head? ≠ some id) → alternativesOf lists id = []
  disjoint : ∀ name other id, id ∈ definitions name → id ∈ definitions other → name = other

theorem registered_empty : Registered (K := K) [] [] fun _ => [] where
  first _ := rfl
  alternatives _ _ _ h := by cases h
  noAlternatives _ _ := rfl
  disjoint _ _ _ h := by cases h

variable [DecidableEq K]

theorem disjoint_update (h : Registered names lists definitions)
    (hfresh : ∀ other, other ≠ name → id ∉ definitions other) (a b : K) (symbol : SymbolId)
    (ha : symbol ∈ Function.update definitions name (definitions name ++ [id]) a)
    (hb : symbol ∈ Function.update definitions name (definitions name ++ [id]) b) : a = b := by
  have hmem : ∀ key, symbol ∈ Function.update definitions name (definitions name ++ [id]) key →
      symbol ∈ definitions key ∨ key = name ∧ symbol = id := by
    intro key hkey
    by_cases heq : key = name
    · subst heq
      rw [Function.update_self] at hkey
      exact (List.mem_append.mp hkey).imp_right fun hid => ⟨rfl, List.mem_singleton.mp hid⟩
    · rw [Function.update_of_ne heq] at hkey
      exact .inl hkey
  rcases hmem a ha with hold | ⟨rfl, rfl⟩
  · rcases hmem b hb with hold' | ⟨rfl, rfl⟩
    · exact h.disjoint a b symbol hold hold'
    · by_contra hne
      exact hfresh a hne hold
  · rcases hmem b hb with hold | ⟨rfl, -⟩
    · by_contra hne
      exact hfresh b (Ne.symm hne) hold
    · rfl

variable [LawfulBEq K]

/-- The first definition of a name has no alternatives yet. -/
theorem Registered.add_first (h : Registered names lists definitions)
    (hfresh : ∀ other, other ≠ name → id ∉ definitions other) (hnone : definitions name = []) :
    Registered ((name, id) :: names) lists
      (Function.update definitions name (definitions name ++ [id])) where
  first key := by
    by_cases heq : key = name
    · subst heq
      rw [Function.update_self, hnone, List.lookup_cons_self]
      rfl
    · rw [Function.update_of_ne heq, List.lookup_cons, beq_eq_false_iff_ne.mpr heq]
      exact h.first key
  alternatives key first rest hkey := by
    by_cases heq : key = name
    · subst heq
      rw [Function.update_self, hnone] at hkey
      obtain ⟨rfl, rfl⟩ := List.cons.inj hkey
      apply h.noAlternatives
      intro other hhead
      by_cases hother : other = key
      · subst hother
        rw [hnone] at hhead
        cases hhead
      · exact hfresh other hother (List.mem_of_head? hhead)
    · rw [Function.update_of_ne heq] at hkey
      exact h.alternatives key first rest hkey
  noAlternatives symbol hsymbol := by
    apply h.noAlternatives
    intro key hhead
    by_cases heq : key = name
    · subst heq
      rw [hnone] at hhead
      cases hhead
    · apply hsymbol key
      rw [Function.update_of_ne heq]
      exact hhead
  disjoint := disjoint_update h hfresh

omit [LawfulBEq K] in
/-- Another definition of a name is an alternative of the first one. -/
theorem Registered.add_alternative {first : SymbolId} {rest : List SymbolId}
    (h : Registered names lists definitions)
    (hfresh : ∀ other, other ≠ name → id ∉ definitions other)
    (hname : definitions name = first :: rest) :
    Registered names (pushAlternative first id lists)
      (Function.update definitions name (definitions name ++ [id])) := by
  have hhead : ∀ key, (Function.update definitions name (definitions name ++ [id]) key).head?
      = (definitions key).head? := by
    intro key
    by_cases heq : key = name
    · subst heq
      rw [Function.update_self, hname]
      rfl
    · rw [Function.update_of_ne heq]
  refine ⟨fun key => (h.first key).trans (hhead key).symm, ?_, ?_, disjoint_update h hfresh⟩
  · intro key other alternatives hkey
    by_cases heq : key = name
    · subst heq
      rw [Function.update_self, hname] at hkey
      obtain ⟨rfl, rfl⟩ := List.cons.inj hkey
      rw [alternativesOf_pushAlternative_self, h.alternatives key first rest hname]
      rfl
    · rw [Function.update_of_ne heq] at hkey
      have hne : other ≠ first := by
        rintro rfl
        exact heq (h.disjoint key name other (by simp [hkey]) (by simp [hname]))
      rw [alternativesOf_pushAlternative_of_ne hne]
      exact h.alternatives key other alternatives hkey
  · intro symbol hsymbol
    have hne : symbol ≠ first := by
      rintro rfl
      exact hsymbol name (by rw [hhead, hname]; rfl)
    rw [alternativesOf_pushAlternative_of_ne hne]
    exact h.noAlternatives symbol fun key => by
      rw [← hhead]
      exact hsymbol key

end Registered

/-! ### Populating the buckets -/

section Buckets

variable {bucket : Bucket} {visited pending : List PendingSymbol} {new : PendingSymbol}

/-- What a bucket holds after some definitions have been added. -/
structure Bucket.Holds (bucket : Bucket) (visited : List PendingSymbol) : Prop where
  unversioned : Registered bucket.nameToId bucket.alternativeDefinitions fun name =>
    definitionsOf visited (.unversioned name)
  versioned : Registered bucket.versionedNameToId bucket.alternativeVersionedDefinitions fun name =>
    definitionsOf visited (.versioned name.1 name.2)

theorem definitionsOf_append (key : PreHashedSymbolName) :
    definitionsOf (visited ++ pending) key
      = definitionsOf visited key ++ definitionsOf pending key := by
  unfold definitionsOf
  rw [List.filter_append, List.map_append]

theorem definitionsOf_singleton (key : PreHashedSymbolName) :
    definitionsOf [new] key = if new.name = key then [new.symbolId] else [] := by
  unfold definitionsOf
  by_cases h : new.name = key
  · simp [h]
  · simp [h]

theorem mem_definitionsOf {key : PreHashedSymbolName} {id : SymbolId} :
    id ∈ definitionsOf visited key ↔ ⟨key, id⟩ ∈ visited := by
  unfold definitionsOf
  constructor
  · intro h
    obtain ⟨pending, hpending, rfl⟩ := List.mem_map.mp h
    obtain ⟨hmem, hname⟩ := List.mem_filter.mp hpending
    obtain rfl := of_decide_eq_true hname
    exact hmem
  · intro h
    exact List.mem_map.mpr ⟨_, List.mem_filter.mpr ⟨h, decide_eq_true rfl⟩, rfl⟩

/-- Names of the same kind do not share a symbol. -/
theorem fresh_of_oneName (h : OneName (visited ++ [new])) {other : PreHashedSymbolName}
    (hkind : other.isVersioned = new.name.isVersioned) (hne : other ≠ new.name) :
    new.symbolId ∉ definitionsOf visited other := by
  intro hmem
  apply hne
  have hother : ⟨other, new.symbolId⟩ ∈ visited ++ [new] :=
    List.mem_append_left _ (mem_definitionsOf.mp hmem)
  have hnew : new ∈ visited ++ [new] := by simp
  exact h _ hother _ hnew rfl hkind

theorem Bucket.Holds.add (h : bucket.Holds visited) (hone : OneName (visited ++ [new])) :
    (bucket.add new).Holds (visited ++ [new]) := by
  have hdefinitions : ∀ key, definitionsOf (visited ++ [new]) key
      = if new.name = key then definitionsOf visited key ++ [new.symbolId]
        else definitionsOf visited key := by
    intro key
    rw [definitionsOf_append, definitionsOf_singleton]
    split
    · rfl
    · rw [List.append_nil]
  obtain ⟨key, id⟩ := new
  cases key with
  | unversioned name =>
      have hversioned : (fun key : Name × Name =>
          definitionsOf (visited ++ [⟨.unversioned name, id⟩]) (.versioned key.1 key.2))
            = fun key => definitionsOf visited (.versioned key.1 key.2) := by
        funext key
        rw [hdefinitions, if_neg (by simp)]
      have hupdate : (fun key => definitionsOf (visited ++ [⟨.unversioned name, id⟩])
          (.unversioned key)) = Function.update (fun key => definitionsOf visited
            (.unversioned key)) name (definitionsOf visited (.unversioned name) ++ [id]) := by
        funext key
        rw [hdefinitions]
        by_cases heq : key = name
        · subst heq
          rw [if_pos rfl, Function.update_self]
        · rw [if_neg (by simpa using Ne.symm heq), Function.update_of_ne heq]
      have hfresh : ∀ other, other ≠ name → id ∉ definitionsOf visited (.unversioned other) :=
        fun other hother => fresh_of_oneName hone rfl (by simpa using hother)
      have hlookup := h.unversioned.first name
      show (bucket.addSymbol name id).Holds _
      unfold Bucket.addSymbol
      cases hdefined : definitionsOf visited (.unversioned name) with
      | nil =>
          rw [hdefined] at hlookup
          rw [hlookup]
          refine ⟨?_, hversioned ▸ h.versioned⟩
          rw [hupdate]
          exact h.unversioned.add_first hfresh hdefined
      | cons first rest =>
          rw [hdefined] at hlookup
          rw [hlookup]
          refine ⟨?_, hversioned ▸ h.versioned⟩
          rw [hupdate]
          exact h.unversioned.add_alternative hfresh hdefined
  | versioned name version =>
      have hunversioned : (fun key => definitionsOf (visited ++ [⟨.versioned name version, id⟩])
          (.unversioned key)) = fun key => definitionsOf visited (.unversioned key) := by
        funext key
        rw [hdefinitions, if_neg (by simp)]
      have hupdate : (fun key : Name × Name => definitionsOf (visited
          ++ [⟨.versioned name version, id⟩]) (.versioned key.1 key.2))
            = Function.update (fun key : Name × Name => definitionsOf visited
              (.versioned key.1 key.2)) (name, version)
              (definitionsOf visited (.versioned name version) ++ [id]) := by
        funext key
        rw [hdefinitions]
        by_cases heq : key = (name, version)
        · subst heq
          rw [if_pos rfl, Function.update_self]
        · rw [if_neg, Function.update_of_ne heq]
          intro hname
          obtain ⟨rfl, rfl⟩ := PreHashedSymbolName.versioned.inj hname
          exact heq rfl
      have hfresh : ∀ other : Name × Name, other ≠ (name, version) →
          id ∉ definitionsOf visited (.versioned other.1 other.2) := by
        intro other hother
        refine fresh_of_oneName hone rfl fun hname => hother ?_
        obtain ⟨rfl, rfl⟩ := PreHashedSymbolName.versioned.inj hname
        rfl
      have hlookup := h.versioned.first (name, version)
      show (bucket.addVersionedSymbol (name, version) id).Holds _
      unfold Bucket.addVersionedSymbol
      cases hdefined : definitionsOf visited (.versioned name version) with
      | nil =>
          rw [hdefined] at hlookup
          rw [hlookup]
          refine ⟨hunversioned ▸ h.unversioned, ?_⟩
          rw [hupdate]
          exact h.versioned.add_first hfresh hdefined
      | cons first rest =>
          rw [hdefined] at hlookup
          rw [hlookup]
          refine ⟨hunversioned ▸ h.unversioned, ?_⟩
          rw [hupdate]
          exact h.versioned.add_alternative hfresh hdefined

theorem Bucket.holds_empty : Bucket.empty.Holds [] := ⟨registered_empty, registered_empty⟩

/-- A bucket holds all definitions that have been added to it. -/
theorem Bucket.holds_foldl (h : bucket.Holds visited) (hone : OneName (visited ++ pending)) :
    (pending.foldl Bucket.add bucket).Holds (visited ++ pending) := by
  induction pending generalizing bucket visited with
  | nil =>
      rw [List.append_nil]
      exact h
  | cons new pending ih =>
      rw [List.append_cons] at hone ⊢
      have hfirst : OneName (visited ++ [new]) := fun a ha b hb =>
        hone a (List.mem_append_left _ ha) b (List.mem_append_left _ hb)
      exact ih (h.add hfirst) hone

/-- What all groups add to a bucket. -/
def pendingOfGroups (hash : PreHashedSymbolName → Nat) (numBuckets b : Nat)
    (perGroupOutputs : List (List PendingSymbol)) : List PendingSymbol :=
  perGroupOutputs.flatMap (pendingOfBucket hash numBuckets b)

variable {hash : PreHashedSymbolName → Nat} {numBuckets b : Nat}
  {perGroupOutputs : List (List PendingSymbol)}

theorem mem_pendingOfBucket {outputs : List PendingSymbol}
    (h : new ∈ pendingOfBucket hash numBuckets b outputs) : new ∈ outputs := by
  unfold pendingOfBucket at h
  rcases List.mem_append.mp h with h | h
  · exact List.mem_of_mem_filter (List.mem_of_mem_filter h)
  · exact List.mem_of_mem_filter (List.mem_of_mem_filter h)

theorem oneName_pendingOfGroups (h : OneName perGroupOutputs.flatten) :
    OneName (pendingOfGroups hash numBuckets b perGroupOutputs) := by
  have hmem : ∀ new ∈ pendingOfGroups hash numBuckets b perGroupOutputs,
      new ∈ perGroupOutputs.flatten := by
    intro new hnew
    obtain ⟨outputs, houtputs, hnew⟩ := List.mem_flatMap.mp hnew
    exact List.mem_flatten.mpr ⟨outputs, houtputs, mem_pendingOfBucket hnew⟩
  exact fun a ha b hb => h a (hmem a ha) b (hmem b hb)

/-- A filter that is constant on a name keeps all of its definitions or none. -/
theorem definitionsOf_filter {key : PreHashedSymbolName} {p : PendingSymbol → Bool} {value : Bool}
    (hp : ∀ pending, pending.name = key → p pending = value) (outputs : List PendingSymbol) :
    definitionsOf (outputs.filter p) key = if value then definitionsOf outputs key else [] := by
  unfold definitionsOf
  rw [List.filter_filter]
  cases value with
  | false =>
      have hnone : (outputs.filter fun pending => decide (pending.name = key) && p pending) = [] := by
        refine List.filter_eq_nil_iff.mpr fun pending _ => ?_
        by_cases hname : pending.name = key
        · simp [hname, hp pending hname]
        · simp [hname]
      rw [hnone]
      rfl
  | true =>
      have hall : (outputs.filter fun pending => decide (pending.name = key) && p pending)
          = outputs.filter fun pending => pending.name = key := by
        refine List.filter_congr fun pending _ => ?_
        by_cases hname : pending.name = key
        · simp [hname, hp pending hname]
        · simp [hname]
      rw [hall]
      rfl

/-- In the bucket of a name, the name keeps its definitions and their order. -/
theorem definitionsOf_pendingOfBucket {key : PreHashedSymbolName} (h : hash key % numBuckets = b)
    (outputs : List PendingSymbol) :
    definitionsOf (pendingOfBucket hash numBuckets b outputs) key = definitionsOf outputs key := by
  have hbucket : definitionsOf (outputs.filter fun pending =>
      decide (hash pending.name % numBuckets = b)) key = definitionsOf outputs key :=
    definitionsOf_filter (fun pending hname => decide_eq_true (hname ▸ h)) outputs
  unfold pendingOfBucket
  dsimp only
  rw [definitionsOf_append,
    definitionsOf_filter (fun pending hname => congrArg (fun name => !name.isVersioned) hname),
    definitionsOf_filter (fun pending hname => congrArg (·.isVersioned) hname), hbucket]
  cases key.isVersioned with
  | false => exact List.append_nil _
  | true => exact List.nil_append _

theorem definitionsOf_pendingOfGroups {key : PreHashedSymbolName} (h : hash key % numBuckets = b) :
    definitionsOf (pendingOfGroups hash numBuckets b perGroupOutputs) key
      = definitionsOf perGroupOutputs.flatten key := by
  unfold pendingOfGroups
  induction perGroupOutputs with
  | nil => rfl
  | cons outputs perGroupOutputs ih =>
      rw [List.flatMap_cons, List.flatten_cons, definitionsOf_append, definitionsOf_append, ih,
        definitionsOf_pendingOfBucket h]

theorem populateBucket_eq : populateBucket hash numBuckets perGroupOutputs b
    = (pendingOfGroups hash numBuckets b perGroupOutputs).foldl Bucket.add Bucket.empty := by
  unfold populateBucket pendingOfGroups
  rw [List.foldl_flatMap]

theorem populateBucket_holds (h : OneName perGroupOutputs.flatten) :
    (populateBucket hash numBuckets perGroupOutputs b).Holds
      (pendingOfGroups hash numBuckets b perGroupOutputs) := by
  rw [populateBucket_eq]
  exact Bucket.holds_foldl Bucket.holds_empty (oneName_pendingOfGroups h)

end Buckets

/-! ### The database with all definitions -/

namespace SymbolDb

variable (db : SymbolDb)

/-- The lists of alternatives for names of the same kind, in the bucket of the name. -/
def alternatives (key : PreHashedSymbolName) : List Alternatives :=
  if key.isVersioned then (db.bucket key).alternativeVersionedDefinitions
  else (db.bucket key).alternativeDefinitions

/-- The database after the definitions of all groups have been registered. -/
def populated (numBuckets : ℕ+) (outputs : SymbolLoadOutputs) : SymbolDb :=
  { db with buckets := populateSymbolDb db.hash numBuckets outputs.perGroup }

/-- The first definition that the bucket has for a name. -/
def firstDefinition : PreHashedSymbolName → Option SymbolId
  | .unversioned name => (db.bucket (.unversioned name)).nameToId.lookup name
  | .versioned name version =>
    (db.bucket (.versioned name version)).versionedNameToId.lookup (name, version)

end SymbolDb

section Populated

variable {db : SymbolDb} {numBuckets : ℕ+} {outputs : SymbolLoadOutputs}

/-- The bucket of a name holds its definitions. -/
theorem bucket_populated (key : PreHashedSymbolName) : ∃ pending,
    ((db.populated numBuckets outputs).bucket key).Holds pending ∧
      definitionsOf pending key = outputs.definitions key := by
  have hlt : db.hash key % numBuckets < numBuckets := Nat.mod_lt _ numBuckets.pos
  have hbucket : (db.populated numBuckets outputs).bucket key
      = populateBucket db.hash numBuckets outputs.perGroup (db.hash key % numBuckets) := by
    unfold SymbolDb.bucket SymbolDb.populated populateSymbolDb
    dsimp only
    rw [List.length_map, List.length_range, List.getElem?_map, List.getElem?_range hlt]
    rfl
  rw [hbucket]
  exact ⟨_, populateBucket_holds outputs.oneName, definitionsOf_pendingOfGroups rfl⟩

/-- The maps of the bucket have the definitions of the name. -/
theorem populated_definitions (key : PreHashedSymbolName) :
    (db.populated numBuckets outputs).firstDefinition key = (outputs.definitions key).head? ∧
      ∀ first rest, outputs.definitions key = first :: rest →
        alternativesOf ((db.populated numBuckets outputs).alternatives key) first = rest := by
  obtain ⟨pending, hholds, hdefinitions⟩ :=
    @bucket_populated db numBuckets outputs key
  rw [← hdefinitions]
  cases key with
  | unversioned name =>
      exact ⟨hholds.unversioned.first name, hholds.unversioned.alternatives name⟩
  | versioned name version =>
      exact ⟨hholds.versioned.first (name, version),
        hholds.versioned.alternatives (name, version)⟩

end Populated

end JdxLinker.Resolution
