import JdxLinker.Layout.OutputKind
import JdxLinker.Resolution.Registration
import JdxLinker.Resolution.SymbolDb

/-!
# References that stay undefined

The references to an undefined name get one of them as their definition, or the start or the end of a
section that the name is made from. Their visibility is applied to the definition of the name, if
there is one after all.
-/

namespace JdxLinker.Resolution

open Symbols

namespace StartStop

inductive SymbolPlacement where
  | sectionStart (sectionId : Nat)
  | sectionEnd (sectionId : Nat)
  deriving Repr, DecidableEq

structure InternalSymDefInfo where
  placement : SymbolPlacement
  name : Name
  deriving Repr, DecidableEq

end StartStop

/-- What is known once the files have been loaded. -/
structure Loaded where
  isLoaded : FileId → Bool
  symbolStrength : SymbolId → SymbolStrength
  outputKind : OutputKind
  /-- The custom output section of a name. -/
  customIdentityToId : Name → Option Nat
  /-- The file of the symbols that the linker adds. -/
  synFileId : FileId

/-- The tables while undefined symbols are canonicalised. -/
structure Tables where
  db : SymbolDb
  symbolDefinitions : SymbolId → SymbolId
  /-- The IDs below this one are taken. -/
  numSymbols : Nat
  perSymbolFlags : SymbolId → ValueFlags
  customStartStopDefs : List StartStop.InternalSymDefInfo := []
  nameToId : List (Name × SymbolId) := []
  versionedNameToId : List ((Name × Name) × SymbolId) := []

namespace Tables

variable (tables : Tables)

/-- The definition of a symbol, found in two steps. -/
def definition (symbolId : SymbolId) : SymbolId :=
  tables.symbolDefinitions (tables.symbolDefinitions symbolId)

def replaceDefinition (symbolId newDefinition : SymbolId) : Tables :=
  { tables with
    symbolDefinitions := Function.update tables.symbolDefinitions symbolId newDefinition }

def setFlag (symbolId : SymbolId) (extra : ValueFlags) : Tables :=
  { tables with
    perSymbolFlags :=
      Function.update tables.perSymbolFlags symbolId ((tables.perSymbolFlags symbolId).union extra) }

end Tables

/-- What the visibility of a reference adds to its definition. -/
def visibilityFlags (isDynamic : Bool) : Visibility → ValueFlags
  | .hidden => { ValueFlags.empty with nonInterposable := true, downgradeToLocal := true }
  | .«protected» =>
    if !isDynamic then { ValueFlags.empty with nonInterposable := true } else .empty
  | .default => .empty

namespace Tables

variable (tables : Tables)

def applyVisibilityToDefinition (definitionId : SymbolId) (visibility : Visibility) : Tables :=
  tables.setFlag definitionId
    (visibilityFlags (tables.perSymbolFlags definitionId).dynamic visibility)

/-- Applies a visibility to the definition of a name, if the name has one. -/
def applyVisibility (name : Name) (visibility : Visibility) : Tables :=
  if visibility = .default then tables
  else
    match tables.db.getUnversioned name with
    | some defId => tables.applyVisibilityToDefinition (tables.definition defId) visibility
    | none => tables

def addSyntheticSymbol (loaded : Loaded) (name : Name) : SymbolId × Tables :=
  let symbolId := tables.numSymbols
  let db := { tables.db with
    buckets := tables.db.buckets.modify
      (tables.db.hash (.unversioned name) % tables.db.buckets.length) fun bucket =>
        bucket.addSymbol name symbolId
    symbolFileIds := Function.update tables.db.symbolFileIds symbolId loaded.synFileId }
  (symbolId, { tables with
    db
    symbolDefinitions := Function.update tables.symbolDefinitions symbolId symbolId
    numSymbols := symbolId + 1
    perSymbolFlags := Function.update tables.perSymbolFlags symbolId
      { ValueFlags.empty with nonInterposable := true } })

end Tables

def startPrefix : Name := "__start_".toUTF8.data.toList

def stopPrefix : Name := "__stop_".toUTF8.data.toList

/-- The section of which a name is the start or the end. -/
def startStopPlacement (loaded : Loaded) (name : Name) :
    Option StartStop.SymbolPlacement :=
  match name.dropPrefix? startPrefix with
  | some sectionName => (loaded.customIdentityToId sectionName).map .sectionStart
  | none =>
    (name.dropPrefix? stopPrefix).bind fun sectionName =>
      (loaded.customIdentityToId sectionName).map .sectionEnd

namespace Tables

variable (tables : Tables)

def allocateStartStopSymbolId (loaded : Loaded) (name : Name) : Option SymbolId × Tables :=
  match startStopPlacement loaded name with
  | none => (none, tables)
  | some placement =>
    let (symbolId, tables) := tables.addSyntheticSymbol loaded name
    (some symbolId, { tables with
      customStartStopDefs := tables.customStartStopDefs ++ [⟨placement, name⟩] })

/-- Whether an undefined symbol may be defined at runtime. -/
def mayBeDynamic (loaded : Loaded) (symbolId : SymbolId) (visibility : Visibility) : Bool :=
  visibility = .default && (loaded.outputKind.isSharedObject
    || (!loaded.outputKind.isStaticExecutable && loaded.symbolStrength symbolId = .weak))

/-- The first reference to an undefined name. -/
def canonicaliseFirst (loaded : Loaded) (name : Name) (symbolId : SymbolId) : Tables :=
  let (startStop, tables) := tables.allocateStartStopSymbolId loaded name
  match startStop with
  | some startStopId =>
    { tables with nameToId := (name, startStopId) :: tables.nameToId }.replaceDefinition
      symbolId startStopId
  | none =>
    let visibility := tables.db.inputSymbolVisibility symbolId
    let flags := if mayBeDynamic loaded symbolId visibility then
        { ValueFlags.empty with dynamic := true }
      else { ValueFlags.empty with nonInterposable := true }
    let tables := (tables.setFlag symbolId flags).applyVisibility name visibility
    { tables with nameToId := (name, symbolId) :: tables.nameToId }.replaceDefinition
      symbolId symbolId

/-- Another reference to a name that has been entered. -/
def canonicaliseOther (name : Name) (symbolId entered : SymbolId) : Tables :=
  (tables.replaceDefinition symbolId (tables.definition entered)).applyVisibility name
    (tables.db.inputSymbolVisibility symbolId)

def canonicaliseVersioned (name : Name × Name) (symbolId : SymbolId) : Tables :=
  match tables.versionedNameToId.lookup name with
  | none => { tables with versionedNameToId := (name, symbolId) :: tables.versionedNameToId }
  | some entered => tables.replaceDefinition symbolId entered

end Tables

/-- The file that was to define the symbol was loaded. -/
def UndefinedSymbol.isDefined (loaded : Loaded) (undefined : UndefinedSymbol) : Bool :=
  undefined.ignoreIfLoaded.any loaded.isLoaded

def Tables.canonicalise (loaded : Loaded) (tables : Tables) (undefined : UndefinedSymbol) : Tables :=
  if undefined.isDefined loaded then tables
  else
    match undefined.name with
    | .unversioned name =>
      match tables.nameToId.lookup name with
      | none => tables.canonicaliseFirst loaded name undefined.symbolId
      | some entered => tables.canonicaliseOther name undefined.symbolId entered
    | .versioned name version => tables.canonicaliseVersioned (name, version) undefined.symbolId

/-- The symbols with the highest IDs come first. -/
def sortUndefined (undefinedSymbols : List UndefinedSymbol) : List UndefinedSymbol :=
  undefinedSymbols.mergeSort fun a b => b.symbolId ≤ a.symbolId

def canonicaliseUndefinedSymbols (loaded : Loaded) (undefinedSymbols : List UndefinedSymbol)
    (tables : Tables) : Tables :=
  (sortUndefined undefinedSymbols).foldl (Tables.canonicalise loaded) tables

/-! ### Where visibilities are applied -/

section Applied

variable {loaded : Loaded} {start tables : Tables} {before after : List UndefinedSymbol}
  {undefined : UndefinedSymbol} {name : Name} {id : SymbolId} {defined : SymbolId → Prop}

/-- The visibility of an undefined symbol is applied to the definition of its name. It is not where
the name turns out to be the start or the end of a section. -/
def Applies (loaded : Loaded) (before : List UndefinedSymbol) (undefined : UndefinedSymbol) : Prop :=
  undefined.isDefined loaded = false ∧ ∃ name, undefined.name = .unversioned name ∧
    (startStopPlacement loaded name = none ∨
      ∃ other ∈ before, other.isDefined loaded = false ∧ other.name = undefined.name)

/-- The definition of a name that has been registered. -/
def Tables.target (tables : Tables) : PreHashedSymbolName → Option SymbolId
  | .unversioned name => (tables.db.getUnversioned name).map tables.definition
  | .versioned _ _ => none

/-- Some symbols are defined, among them those that names and definitions lead to. Undefined symbols
are other ones. -/
structure Tables.Separate (tables : Tables) (defined : SymbolId → Prop)
    (undefinedSymbols : List UndefinedSymbol) : Prop where
  name : ∀ name id, tables.db.getUnversioned name = some id → defined id
  definition : ∀ id, defined id → defined (tables.symbolDefinitions id)
  defined_lt : ∀ id, defined id → id < tables.numSymbols
  undefined_lt : ∀ undefined ∈ undefinedSymbols, undefined.symbolId < tables.numSymbols
  not_defined : ∀ undefined ∈ undefinedSymbols, ¬defined undefined.symbolId

/-- What does not change while undefined symbols are canonicalised. -/
structure Tables.Frame (start : Tables) (defined : SymbolId → Prop) (tables : Tables) : Prop where
  definitions : ∀ id, defined id → tables.symbolDefinitions id = start.symbolDefinitions id
  found : ∀ name id, start.db.getUnversioned name = some id →
    tables.db.getUnversioned name = some id
  added : ∀ name id, tables.db.getUnversioned name = some id →
    start.db.getUnversioned name = some id ∨
      (start.numSymbols ≤ id ∧ tables.symbolDefinitions id = id)
  numSymbols : start.numSymbols ≤ tables.numSymbols
  visibility : tables.db.inputSymbolVisibility = start.db.inputSymbolVisibility
  dynamic : ∀ id, defined id →
    (tables.perSymbolFlags id).dynamic = (start.perSymbolFlags id).dynamic

theorem Tables.Frame.refl : start.Frame defined start where
  definitions _ _ := rfl
  found _ _ h := h
  added _ _ h := .inl h
  numSymbols := Nat.le_refl _
  visibility := rfl
  dynamic _ _ := rfl

theorem Tables.Frame.replaceDefinition (h : start.Frame defined tables)
    (hlt : id < start.numSymbols) (hid : ¬defined id) (new : SymbolId) :
    start.Frame defined (tables.replaceDefinition id new) where
  definitions other hother := by
    have hne : other ≠ id := fun heq => hid (heq ▸ hother)
    exact (Function.update_of_ne hne _ _).trans (h.definitions other hother)
  found := h.found
  added name other hother := by
    refine (h.added name other hother).imp_right fun hadded => ⟨hadded.1, ?_⟩
    have hne : other ≠ id := fun heq => Nat.not_lt_of_le hadded.1 (heq ▸ hlt)
    exact (Function.update_of_ne hne _ _).trans hadded.2
  numSymbols := h.numSymbols
  visibility := h.visibility
  dynamic := h.dynamic

theorem Tables.Frame.setFlag (h : start.Frame defined tables) {extra : ValueFlags}
    (hextra : defined id → extra.dynamic = false) : start.Frame defined (tables.setFlag id extra) where
  definitions := h.definitions
  found := h.found
  added := h.added
  numSymbols := h.numSymbols
  visibility := h.visibility
  dynamic other hother := by
    rw [← h.dynamic other hother]
    by_cases heq : other = id
    · subst heq
      have hset : (tables.setFlag other extra).perSymbolFlags other
          = (tables.perSymbolFlags other).union extra := Function.update_self _ _ _
      rw [hset]
      show ((tables.perSymbolFlags other).dynamic || extra.dynamic) = _
      rw [hextra hother, Bool.or_false]
    · exact congrArg ValueFlags.dynamic (Function.update_of_ne heq _ _)

theorem visibilityFlags_dynamic (isDynamic : Bool) (visibility : Visibility) :
    (visibilityFlags isDynamic visibility).dynamic = false := by
  cases visibility <;> cases isDynamic <;> rfl

theorem visibilityFlags_downgradeToLocal (isDynamic : Bool) (visibility : Visibility) :
    (visibilityFlags isDynamic visibility).downgradeToLocal = true ↔ visibility = .hidden := by
  cases visibility <;> cases isDynamic <;> decide

theorem visibilityFlags_nonInterposable (isDynamic : Bool) (visibility : Visibility) :
    (visibilityFlags isDynamic visibility).nonInterposable = true
      ↔ visibility = .hidden ∨ (isDynamic = false ∧ visibility = .«protected») := by
  cases visibility <;> cases isDynamic <;> decide

theorem Tables.Frame.applyVisibility (h : start.Frame defined tables) (name : Name)
    (visibility : Visibility) : start.Frame defined (tables.applyVisibility name visibility) := by
  unfold Tables.applyVisibility
  split
  · exact h
  · split
    · exact h.setFlag fun _ => visibilityFlags_dynamic _ _
    · exact h

/-- Registering a symbol again leaves the first definition. -/
theorem getUnversioned_addSyntheticSymbol (tables : Tables) (loaded : Loaded) (name other : Name)
    {id : SymbolId} :
    (tables.db.getUnversioned other = some id →
        (tables.addSyntheticSymbol loaded name).2.db.getUnversioned other = some id) ∧
      ((tables.addSyntheticSymbol loaded name).2.db.getUnversioned other = some id →
        tables.db.getUnversioned other = some id ∨ id = tables.numSymbols) := by
  have hadd : ∀ (bucket : Bucket), (bucket.addSymbol name tables.numSymbols).nameToId.lookup other
      = if other = name then some ((bucket.nameToId.lookup name).getD tables.numSymbols)
        else bucket.nameToId.lookup other := by
    intro bucket
    unfold Bucket.addSymbol
    cases hlookup : bucket.nameToId.lookup name with
    | some first =>
        show bucket.nameToId.lookup other = _
        split
        · rename_i heq
          rw [heq, hlookup]
          rfl
        · rfl
    | none => exact Lists.lookup_cons_eq_ite _ _ _
  have hbucket : (tables.addSyntheticSymbol loaded name).2.db.getUnversioned other
        = tables.db.getUnversioned other ∨
      (tables.addSyntheticSymbol loaded name).2.db.getUnversioned other
        = ((tables.db.bucket (.unversioned other)).addSymbol name
            tables.numSymbols).nameToId.lookup other := by
    unfold Tables.addSyntheticSymbol SymbolDb.getUnversioned SymbolDb.bucket
    dsimp only
    rw [List.length_modify, List.getElem?_modify]
    split
    · cases tables.db.buckets[tables.db.hash (.unversioned other) % tables.db.buckets.length]? with
      | none => exact .inl rfl
      | some bucket => exact .inr rfl
    · left
      cases tables.db.buckets[tables.db.hash (.unversioned other) % tables.db.buckets.length]? <;> rfl
  rcases hbucket with hbucket | hbucket
  · rw [hbucket]
    exact ⟨fun h => h, .inl⟩
  · rw [hbucket, hadd]
    show (_ → _) ∧ (_ → (tables.db.bucket (.unversioned other)).nameToId.lookup other = _ ∨ _)
    split
    · rename_i heq
      subst heq
      refine ⟨fun h => ?_, fun h => ?_⟩
      · have hlookup : (tables.db.bucket (.unversioned other)).nameToId.lookup other = some id := h
        rw [hlookup]
        rfl
      · cases hlookup : (tables.db.bucket (.unversioned other)).nameToId.lookup other with
        | none =>
            rw [hlookup] at h
            exact .inr (Option.some.inj h).symm
        | some first =>
            rw [hlookup] at h
            exact .inl h
    · exact ⟨fun h => h, .inl⟩

theorem Tables.Frame.addSyntheticSymbol (h : start.Frame defined tables)
    (hlt : ∀ id, defined id → id < start.numSymbols) (name : Name) :
    start.Frame defined (tables.addSyntheticSymbol loaded name).2 where
  definitions other hother := by
    have hne : other ≠ tables.numSymbols :=
      Nat.ne_of_lt (Nat.lt_of_lt_of_le (hlt other hother) h.numSymbols)
    exact (Function.update_of_ne hne _ _).trans (h.definitions other hother)
  found other id hfound :=
    (getUnversioned_addSyntheticSymbol tables loaded name other).1 (h.found other id hfound)
  added other id hadded := by
    by_cases heq : id = tables.numSymbols
    · refine .inr ⟨heq ▸ h.numSymbols, ?_⟩
      rw [heq]
      exact Function.update_self _ _ _
    · have hbefore := ((getUnversioned_addSyntheticSymbol tables loaded name other).2
        hadded).resolve_right heq
      refine (h.added other id hbefore).imp_right fun hadded => ⟨hadded.1, ?_⟩
      exact (Function.update_of_ne heq _ _).trans hadded.2
  numSymbols := Nat.le_succ_of_le h.numSymbols
  visibility := h.visibility
  dynamic other hother := by
    have hne : other ≠ tables.numSymbols :=
      Nat.ne_of_lt (Nat.lt_of_lt_of_le (hlt other hother) h.numSymbols)
    rw [← h.dynamic other hother]
    exact congrArg ValueFlags.dynamic (Function.update_of_ne hne _ _)

/-! ### Flags that are added -/

/-- One of the flags. -/
structure IsFlag (flag : ValueFlags → Bool) : Prop where
  union : ∀ a b : ValueFlags, flag (a.union b) = (flag a || flag b)
  empty : flag .empty = false

variable {flag : ValueFlags → Bool} {d : SymbolId}

theorem flag_setFlag (hflag : IsFlag flag) (tables : Tables) (id : SymbolId) (extra : ValueFlags) :
    flag ((tables.setFlag id extra).perSymbolFlags d) = true
      ↔ flag (tables.perSymbolFlags d) = true ∨ (id = d ∧ flag extra = true) := by
  by_cases h : d = id
  · subst h
    have hset : (tables.setFlag d extra).perSymbolFlags d = (tables.perSymbolFlags d).union extra :=
      Function.update_self _ _ _
    rw [hset, hflag.union, Bool.or_eq_true]
    simp
  · have hset : (tables.setFlag id extra).perSymbolFlags d = tables.perSymbolFlags d :=
      Function.update_of_ne h _ _
    rw [hset]
    simp [Ne.symm h]

theorem Tables.Frame.definition_eq (h : start.Frame defined tables)
    (hseparate : ∀ id, defined id → defined (start.symbolDefinitions id)) (hid : defined id) :
    tables.definition id = start.definition id := by
  unfold Tables.definition
  rw [h.definitions id hid, h.definitions _ (hseparate id hid)]

/-- The visibility is added to the definition that the name had at first. -/
theorem flag_applyVisibility (hflag : IsFlag flag) {undefinedSymbols : List UndefinedSymbol}
    (hseparate : start.Separate defined undefinedSymbols) (h : start.Frame defined tables)
    (hd : defined d) (name : Name) (visibility : Visibility) :
    flag ((tables.applyVisibility name visibility).perSymbolFlags d) = true
      ↔ flag (tables.perSymbolFlags d) = true ∨ (start.target (.unversioned name) = some d ∧
        flag (visibilityFlags (start.perSymbolFlags d).dynamic visibility) = true) := by
  unfold Tables.applyVisibility
  by_cases hdefault : visibility = .default
  · rw [if_pos hdefault, hdefault]
    simp [visibilityFlags, hflag.empty]
  · rw [if_neg hdefault]
    cases hfound : tables.db.getUnversioned name with
    | none =>
        have hnone : start.target (.unversioned name) = none := by
          cases hstart : start.db.getUnversioned name with
          | none => rw [Tables.target, hstart]; rfl
          | some id => rw [h.found name id hstart] at hfound; cases hfound
        simp [hnone]
    | some id =>
        show flag ((tables.setFlag (tables.definition id) _).perSymbolFlags d) = true ↔ _
        rw [flag_setFlag hflag]
        refine or_congr_right ?_
        rcases h.added name id hfound with hstart | hadded
        · have hid := hseparate.name name id hstart
          have htarget : start.target (.unversioned name) = some (start.definition id) := by
            rw [Tables.target, hstart]
            rfl
          rw [h.definition_eq hseparate.definition hid, htarget, Option.some.injEq]
          refine and_congr_right fun heq => ?_
          rw [heq, h.dynamic d hd]
        · have hself : tables.definition id = id := by
            unfold Tables.definition
            rw [hadded.2, hadded.2]
          have hne : id ≠ d :=
            fun heq => Nat.not_lt_of_le hadded.1 (heq ▸ hseparate.defined_lt d hd)
          have htarget : start.target (.unversioned name) ≠ some d := by
            intro heq
            obtain ⟨first, hfirst, -⟩ := Option.map_eq_some_iff.mp heq
            have hsame := h.found name first hfirst
            rw [hfound] at hsame
            cases hsame
            exact Nat.not_lt_of_le hadded.1 (hseparate.defined_lt id (hseparate.name name id hfirst))
          rw [hself]
          exact ⟨fun hboth => absurd hboth.1 hne, fun hboth => absurd hboth.1 htarget⟩

/-! ### One undefined symbol -/

/-- An undefined symbol adds a flag to a definition. -/
structure Tables.Marks (start : Tables) (loaded : Loaded) (flag : ValueFlags → Bool)
    (before : List UndefinedSymbol) (undefined : UndefinedSymbol) (d : SymbolId) : Prop where
  applies : Applies loaded before undefined
  target : start.target undefined.name = some d
  flag : flag (visibilityFlags (start.perSymbolFlags d).dynamic
    (start.db.inputSymbolVisibility undefined.symbolId)) = true

/-- The first reference to a name that stands for a section's start or end. -/
theorem canonicaliseFirst_of_some {placement : StartStop.SymbolPlacement}
    (h : startStopPlacement loaded name = some placement) :
    tables.canonicaliseFirst loaded name id
      = { (tables.addSyntheticSymbol loaded name).2.replaceDefinition id tables.numSymbols with
          customStartStopDefs := tables.customStartStopDefs ++ [⟨placement, name⟩]
          nameToId := (name, tables.numSymbols) :: tables.nameToId } := by
  unfold Tables.canonicaliseFirst Tables.allocateStartStopSymbolId
  rw [h]
  rfl

/-- The first reference to another name. -/
theorem canonicaliseFirst_of_none (h : startStopPlacement loaded name = none) : ∃ flags,
    tables.canonicaliseFirst loaded name id
      = { ((tables.setFlag id flags).applyVisibility name
            (tables.db.inputSymbolVisibility id)).replaceDefinition id id with
          nameToId := (name, id) :: ((tables.setFlag id flags).applyVisibility name
            (tables.db.inputSymbolVisibility id)).nameToId } := by
  unfold Tables.canonicaliseFirst Tables.allocateStartStopSymbolId
  rw [h]
  exact ⟨_, rfl⟩

theorem applyVisibility_nameToId (visibility : Visibility) :
    (tables.applyVisibility name visibility).nameToId = tables.nameToId := by
  unfold Tables.applyVisibility
  split
  · rfl
  · split <;> rfl

theorem canonicaliseFirst_nameToId : ∃ entered,
    (tables.canonicaliseFirst loaded name id).nameToId = (name, entered) :: tables.nameToId := by
  cases hplacement : startStopPlacement loaded name with
  | some placement =>
      rw [canonicaliseFirst_of_some hplacement]
      exact ⟨_, rfl⟩
  | none =>
      obtain ⟨flags, heq⟩ := @canonicaliseFirst_of_none loaded tables name id hplacement
      rw [heq]
      refine ⟨id, ?_⟩
      dsimp only
      rw [applyVisibility_nameToId]
      rfl

theorem Tables.Frame.canonicaliseFirst {undefinedSymbols : List UndefinedSymbol}
    (hseparate : start.Separate defined undefinedSymbols) (h : start.Frame defined tables)
    (hlt : id < start.numSymbols) (hid : ¬defined id) (name : Name) :
    start.Frame defined (tables.canonicaliseFirst loaded name id) := by
  cases hplacement : startStopPlacement loaded name with
  | some placement =>
      have hadded : start.Frame defined (tables.addSyntheticSymbol loaded name).2 :=
        h.addSyntheticSymbol hseparate.defined_lt name
      obtain ⟨hdefinitions, hfound, hadded, hnum, hvisibility, hdynamic⟩ :=
        hadded.replaceDefinition hlt hid tables.numSymbols
      rw [canonicaliseFirst_of_some hplacement]
      exact ⟨hdefinitions, hfound, hadded, hnum, hvisibility, hdynamic⟩
  | none =>
      obtain ⟨flags, heq⟩ := @canonicaliseFirst_of_none loaded tables name id hplacement
      have hset : start.Frame defined (tables.setFlag id flags) :=
        h.setFlag fun hdefined => absurd hdefined hid
      obtain ⟨hdefinitions, hfound, hadded, hnum, hvisibility, hdynamic⟩ :=
        (hset.applyVisibility name (tables.db.inputSymbolVisibility id)).replaceDefinition hlt hid id
      rw [heq]
      exact ⟨hdefinitions, hfound, hadded, hnum, hvisibility, hdynamic⟩

theorem flag_canonicaliseFirst (hflag : IsFlag flag) {undefinedSymbols : List UndefinedSymbol}
    (hseparate : start.Separate defined undefinedSymbols) (h : start.Frame defined tables)
    (hid : ¬defined id) (hd : defined d) (name : Name) :
    flag ((tables.canonicaliseFirst loaded name id).perSymbolFlags d) = true
      ↔ flag (tables.perSymbolFlags d) = true ∨ (startStopPlacement loaded name = none ∧
        start.target (.unversioned name) = some d ∧
        flag (visibilityFlags (start.perSymbolFlags d).dynamic
          (start.db.inputSymbolVisibility id)) = true) := by
  have hne : id ≠ d := fun heq => hid (heq ▸ hd)
  cases hplacement : startStopPlacement loaded name with
  | some placement =>
      rw [canonicaliseFirst_of_some hplacement]
      have hnew : d ≠ tables.numSymbols :=
        Nat.ne_of_lt (Nat.lt_of_lt_of_le (hseparate.defined_lt d hd) h.numSymbols)
      have hflags : (tables.addSyntheticSymbol loaded name).2.perSymbolFlags d
          = tables.perSymbolFlags d := Function.update_of_ne hnew _ _
      show flag ((tables.addSyntheticSymbol loaded name).2.perSymbolFlags d) = true ↔ _
      rw [hflags]
      simp
  | none =>
      obtain ⟨flags, heq⟩ := @canonicaliseFirst_of_none loaded tables name id hplacement
      have hset : start.Frame defined (tables.setFlag id flags) :=
        h.setFlag fun hdefined => absurd hdefined hid
      rw [heq]
      show flag (((tables.setFlag id flags).applyVisibility name
        (tables.db.inputSymbolVisibility id)).perSymbolFlags d) = true ↔ _
      rw [flag_applyVisibility hflag hseparate hset hd, flag_setFlag hflag, h.visibility]
      simp [hne]

/-- An undefined symbol keeps what it should, and adds its flags. -/
theorem Tables.Frame.canonicalise {undefinedSymbols : List UndefinedSymbol}
    (hseparate : start.Separate defined undefinedSymbols) (h : start.Frame defined tables)
    (hmem : undefined ∈ undefinedSymbols) :
    start.Frame defined (tables.canonicalise loaded undefined) := by
  have hlt := hseparate.undefined_lt undefined hmem
  have hid := hseparate.not_defined undefined hmem
  unfold Tables.canonicalise
  split
  · exact h
  · split
    · split
      · exact h.canonicaliseFirst hseparate hlt hid _
      · exact (h.replaceDefinition hlt hid _).applyVisibility _ _
    · unfold Tables.canonicaliseVersioned
      split
      · exact ⟨h.definitions, h.found, h.added, h.numSymbols, h.visibility, h.dynamic⟩
      · exact h.replaceDefinition hlt hid _

/-- The names that have been entered are those of undefined symbols. -/
def Tables.Entered (loaded : Loaded) (before : List UndefinedSymbol) (tables : Tables) : Prop :=
  ∀ name, (tables.nameToId.lookup name).isSome = true ↔
    ∃ other ∈ before, other.isDefined loaded = false ∧ other.name = .unversioned name

theorem Tables.Entered.canonicalise (h : tables.Entered loaded before) :
    (tables.canonicalise loaded undefined).Entered loaded (before ++ [undefined]) := by
  intro name
  have hsplit : (∃ other ∈ before ++ [undefined], other.isDefined loaded = false ∧
        other.name = .unversioned name)
      ↔ (tables.nameToId.lookup name).isSome = true ∨
        (undefined.isDefined loaded = false ∧ undefined.name = .unversioned name) := by
    rw [h name]
    simp only [List.mem_append, List.mem_singleton, or_and_right, exists_or, exists_eq_left]
  rw [hsplit]
  unfold Tables.canonicalise
  cases hdefined : undefined.isDefined loaded with
  | true => simp
  | false =>
      rw [if_neg Bool.false_ne_true]
      cases hname : undefined.name with
      | versioned other version =>
          have hsame : (tables.canonicaliseVersioned (other, version) undefined.symbolId).nameToId
              = tables.nameToId := by
            unfold Tables.canonicaliseVersioned
            split <;> rfl
          dsimp only
          rw [hsame]
          simp
      | unversioned other =>
          dsimp only
          cases hlookup : tables.nameToId.lookup other with
          | none =>
              obtain ⟨entered, hentered⟩ :=
                @canonicaliseFirst_nameToId loaded tables other undefined.symbolId
              dsimp only
              rw [hentered, Lists.lookup_cons_eq_ite]
              by_cases heq : name = other
              · simp [heq]
              · simp [heq, Ne.symm heq]
          | some entered =>
              have hsame : (tables.canonicaliseOther other undefined.symbolId entered).nameToId
                  = tables.nameToId := applyVisibility_nameToId _
              dsimp only
              rw [hsame]
              refine ⟨.inl, fun hor => hor.elim id fun hboth => ?_⟩
              have heq := PreHashedSymbolName.unversioned.inj hboth.2
              rw [← heq, hlookup]
              rfl

theorem flag_canonicalise (hflag : IsFlag flag) {undefinedSymbols : List UndefinedSymbol}
    (hseparate : start.Separate defined undefinedSymbols) (h : start.Frame defined tables)
    (hentered : tables.Entered loaded before) (hmem : undefined ∈ undefinedSymbols)
    (hd : defined d) :
    flag ((tables.canonicalise loaded undefined).perSymbolFlags d) = true
      ↔ flag (tables.perSymbolFlags d) = true ∨ start.Marks loaded flag before undefined d := by
  have hid := hseparate.not_defined undefined hmem
  have hlt := hseparate.undefined_lt undefined hmem
  have hmarks : start.Marks loaded flag before undefined d ↔ Applies loaded before undefined ∧
      start.target undefined.name = some d ∧ flag (visibilityFlags (start.perSymbolFlags d).dynamic
        (start.db.inputSymbolVisibility undefined.symbolId)) = true :=
    ⟨fun h => ⟨h.applies, h.target, h.flag⟩, fun h => ⟨h.1, h.2.1, h.2.2⟩⟩
  rw [hmarks, Applies]
  unfold Tables.canonicalise
  cases hdefined : undefined.isDefined loaded with
  | true => simp
  | false =>
      rw [if_neg Bool.false_ne_true]
      cases hname : undefined.name with
      | versioned other version =>
          have hsame : (tables.canonicaliseVersioned (other, version)
              undefined.symbolId).perSymbolFlags = tables.perSymbolFlags := by
            unfold Tables.canonicaliseVersioned
            split <;> rfl
          dsimp only
          rw [hsame]
          simp
      | unversioned other =>
          have happlies : (∃ name, PreHashedSymbolName.unversioned other = .unversioned name ∧
                (startStopPlacement loaded name = none ∨ ∃ earlier ∈ before,
                  earlier.isDefined loaded = false ∧ earlier.name = .unversioned other))
              ↔ startStopPlacement loaded other = none ∨
                (tables.nameToId.lookup other).isSome = true := by
            rw [hentered other]
            simp
          rw [happlies]
          dsimp only
          cases hlookup : tables.nameToId.lookup other with
          | none =>
              dsimp only
              rw [flag_canonicaliseFirst hflag hseparate h hid hd]
              simp
          | some entered =>
              have hframe := h.replaceDefinition hlt hid (tables.definition entered)
              dsimp only
              unfold Tables.canonicaliseOther
              rw [flag_applyVisibility hflag hseparate hframe hd, h.visibility]
              simp [Tables.replaceDefinition]

/-! ### All undefined symbols -/

theorem Tables.Frame.foldl {undefinedSymbols : List UndefinedSymbol}
    (hseparate : start.Separate defined undefinedSymbols) (h : start.Frame defined tables)
    (hsubset : after ⊆ undefinedSymbols) :
    start.Frame defined (after.foldl (Tables.canonicalise loaded) tables) := by
  induction after generalizing tables with
  | nil => exact h
  | cons undefined after ih =>
      obtain ⟨hmem, hsubset⟩ := List.cons_subset.mp hsubset
      exact ih (h.canonicalise hseparate hmem) hsubset

theorem flag_foldl (hflag : IsFlag flag) {undefinedSymbols : List UndefinedSymbol}
    (hseparate : start.Separate defined undefinedSymbols) (h : start.Frame defined tables)
    (hentered : tables.Entered loaded before) (hsubset : after ⊆ undefinedSymbols)
    (hd : defined d) :
    flag ((after.foldl (Tables.canonicalise loaded) tables).perSymbolFlags d) = true
      ↔ flag (tables.perSymbolFlags d) = true ∨ ∃ middle undefined rest,
        after = middle ++ undefined :: rest ∧
          start.Marks loaded flag (before ++ middle) undefined d := by
  induction after generalizing before tables with
  | nil => simp
  | cons first after ih =>
      obtain ⟨hmem, hsubset⟩ := List.cons_subset.mp hsubset
      rw [List.foldl_cons, ih (h.canonicalise hseparate hmem) hentered.canonicalise hsubset,
        flag_canonicalise hflag hseparate h hentered hmem hd, or_assoc]
      refine or_congr_right ⟨fun hor => ?_, fun hexists => ?_⟩
      · rcases hor with hfirst | ⟨middle, undefined, rest, heq, hmarks⟩
        · refine ⟨[], first, after, rfl, ?_⟩
          rw [List.append_nil]
          exact hfirst
        · refine ⟨first :: middle, undefined, rest, by rw [heq]; rfl, ?_⟩
          rw [List.append_cons]
          exact hmarks
      · obtain ⟨middle, undefined, rest, heq, hmarks⟩ := hexists
        cases middle with
        | nil =>
            cases heq
            rw [List.append_nil] at hmarks
            exact .inl hmarks
        | cons other middle =>
            cases heq
            rw [List.append_cons] at hmarks
            exact .inr ⟨middle, undefined, rest, rfl, hmarks⟩

/-- The symbols before an undefined symbol are those with higher IDs. -/
theorem mem_before_iff {undefinedSymbols before rest : List UndefinedSymbol}
    (hnodup : (undefinedSymbols.map (·.symbolId)).Nodup)
    (h : sortUndefined undefinedSymbols = before ++ undefined :: rest) (other : UndefinedSymbol) :
    other ∈ before ↔ other ∈ undefinedSymbols ∧ undefined.symbolId < other.symbolId := by
  have hperm : (sortUndefined undefinedSymbols).Perm undefinedSymbols := List.mergeSort_perm _ _
  have hsorted : (sortUndefined undefinedSymbols).Pairwise fun a b => b.symbolId ≤ a.symbolId := by
    have htrans : ∀ a b c : UndefinedSymbol, decide (b.symbolId ≤ a.symbolId) = true →
        decide (c.symbolId ≤ b.symbolId) = true → decide (c.symbolId ≤ a.symbolId) = true :=
      fun a b c hab hbc =>
        decide_eq_true (Nat.le_trans (of_decide_eq_true hbc) (of_decide_eq_true hab))
    have htotal : ∀ a b : UndefinedSymbol,
        (decide (b.symbolId ≤ a.symbolId) || decide (a.symbolId ≤ b.symbolId)) = true := by
      intro a b
      rw [Bool.or_eq_true, decide_eq_true_iff, decide_eq_true_iff]
      exact Nat.le_total _ _
    exact (List.pairwise_mergeSort htrans htotal undefinedSymbols).imp of_decide_eq_true
  have hdistinct : ((sortUndefined undefinedSymbols).map (·.symbolId)).Nodup :=
    (hperm.map _).nodup_iff.mpr hnodup
  rw [← hperm.mem_iff, h]
  rw [h] at hsorted hdistinct
  obtain ⟨-, hrest, hbefore⟩ := List.pairwise_append.mp hsorted
  rw [List.map_append, List.map_cons] at hdistinct
  have hne : undefined.symbolId ∉ before.map (·.symbolId) := by
    intro hmem
    exact (List.nodup_append.mp hdistinct).2.2 _ hmem _ List.mem_cons_self rfl
  constructor
  · intro hother
    have hle := hbefore other hother undefined List.mem_cons_self
    have hneq : other.symbolId ≠ undefined.symbolId :=
      fun heq => hne (heq ▸ List.mem_map_of_mem hother)
    exact ⟨List.mem_append_left _ hother, Nat.lt_of_le_of_ne hle hneq.symm⟩
  · intro hother
    obtain ⟨hmem, hlt⟩ := hother
    rcases List.mem_append.mp hmem with hmem | hmem
    · exact hmem
    · rcases List.mem_cons.mp hmem with rfl | hmem
      · exact absurd hlt (Nat.lt_irrefl _)
      · exact absurd hlt (Nat.not_lt_of_le (List.rel_of_pairwise_cons hrest hmem))

/-- The other undefined symbols that are canonicalised before one. -/
def higher (undefinedSymbols : List UndefinedSymbol) (undefined : UndefinedSymbol) :
    List UndefinedSymbol :=
  undefinedSymbols.filter fun other => undefined.symbolId < other.symbolId

theorem Tables.Marks.of_mem {before' : List UndefinedSymbol}
    (h : start.Marks loaded flag before undefined d) (hsubset : before ⊆ before') :
    start.Marks loaded flag before' undefined d := by
  obtain ⟨hundefined, name, hname, hor⟩ := h.applies
  refine ⟨⟨hundefined, name, hname, hor.imp_right fun hother => ?_⟩, h.target, h.flag⟩
  obtain ⟨other, hmem, hother⟩ := hother
  exact ⟨other, hsubset hmem, hother⟩

/-- The flags that a definition has in the end. -/
theorem flag_canonicaliseUndefinedSymbols (hflag : IsFlag flag)
    {undefinedSymbols : List UndefinedSymbol}
    (hseparate : start.Separate defined undefinedSymbols) (hstart : start.nameToId = [])
    (hnodup : (undefinedSymbols.map (·.symbolId)).Nodup) (hd : defined d) :
    flag ((canonicaliseUndefinedSymbols loaded undefinedSymbols start).perSymbolFlags d) = true
      ↔ flag (start.perSymbolFlags d) = true ∨ ∃ undefined ∈ undefinedSymbols,
        start.Marks loaded flag (higher undefinedSymbols undefined) undefined d := by
  have hperm : (sortUndefined undefinedSymbols).Perm undefinedSymbols := List.mergeSort_perm _ _
  have hentered : start.Entered loaded [] := fun name => by simp [hstart]
  unfold canonicaliseUndefinedSymbols
  rw [flag_foldl hflag hseparate .refl hentered hperm.subset hd]
  refine or_congr_right ⟨fun hexists => ?_, fun hexists => ?_⟩
  · obtain ⟨middle, undefined, rest, heq, hmarks⟩ := hexists
    refine ⟨undefined, hperm.mem_iff.mp (by rw [heq]; simp), hmarks.of_mem fun other hother => ?_⟩
    obtain ⟨hmem, hlt⟩ := (mem_before_iff hnodup heq other).mp hother
    exact List.mem_filter.mpr ⟨hmem, decide_eq_true hlt⟩
  · obtain ⟨undefined, hmem, hmarks⟩ := hexists
    obtain ⟨middle, rest, heq⟩ := List.append_of_mem (hperm.mem_iff.mpr hmem)
    refine ⟨middle, undefined, rest, heq, hmarks.of_mem fun other hother => ?_⟩
    obtain ⟨hother, hlt⟩ := List.mem_filter.mp hother
    exact (mem_before_iff hnodup heq other).mpr ⟨hother, of_decide_eq_true hlt⟩

end Applied

end JdxLinker.Resolution
