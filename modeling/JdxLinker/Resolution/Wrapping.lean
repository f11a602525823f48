import JdxLinker.Lib.Overrides
import JdxLinker.Resolution.Registration

/-!
# Wrapped symbols

References to a wrapped symbol `f` are resolved to `__wrap_f`, and those to `__real_f` to the symbol
itself. This is done by overriding entries of the name table, and it is done again after link time
optimization has added definitions, for which the entries are restored.
-/

namespace JdxLinker.Resolution

open Overrides

def wrapPrefix : Name := "__wrap_".toUTF8.data.toList

def realPrefix : Name := "__real_".toUTF8.data.toList

def wrapName (name : Name) : Name := wrapPrefix ++ name

def realName (name : Name) : Name := realPrefix ++ name

/-- Maps a name to a symbol, whatever it was mapped to before. -/
def insertName (name : Name) (symbolId : SymbolId) :
    List (Name × SymbolId) → List (Name × SymbolId)
  | [] => [(name, symbolId)]
  | entry :: rest =>
    if entry.1 = name then (name, symbolId) :: rest
    else entry :: insertName name symbolId rest

namespace SymbolDb

variable (db : SymbolDb)

def overrideName (name : Name) (symbolId : SymbolId) : SymbolDb :=
  { db with
    buckets := db.buckets.modify (db.hash (.unversioned name) % db.buckets.length) fun bucket =>
      { bucket with nameToId := insertName name symbolId bucket.nameToId } }

def overrideNameIfSome (name : Name) : Option SymbolId → SymbolDb
  | some symbolId => db.overrideName name symbolId
  | none => db

def applyWrappedSymbolOverride (name : Name) : SymbolDb :=
  let origId := db.getUnversioned (realName name) <|> db.getUnversioned name
  let wrapId := db.getUnversioned (wrapName name)
  (db.overrideNameIfSome name wrapId).overrideNameIfSome (realName name) origId

def applyWrappedSymbolOverrides (wrap : List Name) : SymbolDb :=
  wrap.foldl applyWrappedSymbolOverride db

def restoreWrappedSymbolName (name : Name) : SymbolDb :=
  db.overrideNameIfSome name (db.getUnversioned (realName name))

def restoreWrappedSymbolNames (wrap : List Name) : SymbolDb :=
  wrap.foldl restoreWrappedSymbolName db

/-- All symbols are wrapped at once. Wrapping them again changes nothing, and their names can be
restored. -/
structure WrapsCorrectly (wrap : List Name) : Prop where
  wrapped : ∀ name ∈ wrap, ∀ symbolId, db.getUnversioned (wrapName name) = some symbolId →
    (db.applyWrappedSymbolOverrides wrap).getUnversioned name = some symbolId
  real : ∀ name ∈ wrap,
    (db.applyWrappedSymbolOverrides wrap).getUnversioned (realName name) = db.getUnversioned name
  again : ((db.applyWrappedSymbolOverrides wrap).applyWrappedSymbolOverrides wrap).getUnversioned
    = (db.applyWrappedSymbolOverrides wrap).getUnversioned
  restored : ∀ name ∈ wrap,
    ((db.applyWrappedSymbolOverrides wrap).restoreWrappedSymbolNames wrap).getUnversioned name
      = db.getUnversioned name

/-- No wrapped symbol has a definition under the name that is kept for the original one. One that
has a wrapper has a definition. No two of the names to wrap are forms of each other, unless there is
nothing to wrap under the longer one. -/
structure NamesAreSeparate (wrap : List Name) : Prop where
  real_undefined : ∀ name ∈ wrap, db.getUnversioned (realName name) = none
  defined : ∀ name ∈ wrap, db.getUnversioned (wrapName name) ≠ none → db.getUnversioned name ≠ none
  of_real_mem : ∀ name ∈ wrap, realName name ∈ wrap → db.getUnversioned name = none
  of_wrap_mem : ∀ name ∈ wrap, wrapName name ∈ wrap →
    db.getUnversioned (wrapName (wrapName name)) = none

end SymbolDb

/-- A symbol table in which every symbol is under its own name. -/
structure NamedSymbols where
  db : SymbolDb
  buckets_ne_nil : db.buckets ≠ []
  oneName : OneNameEach db.getUnversioned

theorem oneNameEach_populated (db : SymbolDb) (numBuckets : ℕ+) (outputs : SymbolLoadOutputs) :
    OneNameEach (db.populated numBuckets outputs).getUnversioned := by
  intro name other symbolId hname hother
  have hmem : ∀ key, (db.populated numBuckets outputs).getUnversioned key = some symbolId →
      ⟨.unversioned key, symbolId⟩ ∈ outputs.perGroup.flatten := by
    intro key hkey
    have hfirst := (@populated_definitions db numBuckets outputs (.unversioned key)).1
    exact mem_definitionsOf.mp (List.mem_of_head? (hfirst.symm.trans hkey))
  exact PreHashedSymbolName.unversioned.inj
    (outputs.oneName _ (hmem name hname) _ (hmem other hother) rfl rfl)

/-- The symbols as they have been registered. -/
def NamedSymbols.populated (db : SymbolDb) (numBuckets : ℕ+) (outputs : SymbolLoadOutputs) :
    NamedSymbols where
  db := db.populated numBuckets outputs
  buckets_ne_nil := by
    rw [← List.length_pos_iff]
    unfold SymbolDb.populated populateSymbolDb
    dsimp only
    rw [List.length_map, List.length_range]
    exact numBuckets.pos
  oneName := oneNameEach_populated db numBuckets outputs

/-! ### The table of names -/

section Table

variable {db : SymbolDb} {name other : Name} {symbolId : SymbolId}

theorem lookup_insertName (entries : List (Name × SymbolId)) :
    (insertName name symbolId entries).lookup other
      = if other = name then some symbolId else entries.lookup other := by
  induction entries with
  | nil => exact Lists.lookup_cons_eq_ite ..
  | cons entry rest ih =>
      unfold insertName
      by_cases hentry : entry.1 = name
      · rw [if_pos hentry, Lists.lookup_cons_eq_ite, Lists.lookup_cons_eq_ite, hentry]
        by_cases h : other = name
        · rw [if_pos h, if_pos h]
        · rw [if_neg h, if_neg h, if_neg h]
      · rw [if_neg hentry, Lists.lookup_cons_eq_ite, Lists.lookup_cons_eq_ite, ih]
        by_cases h : other = name
        · rw [if_pos h, if_pos h, if_neg fun heq => hentry (heq.symm.trans h)]
        · rw [if_neg h, if_neg h]

theorem overrideName_bucket (hbuckets : db.buckets ≠ []) :
    ((db.overrideName name symbolId).bucket (.unversioned other)).nameToId
      = if db.hash (.unversioned name) % db.buckets.length
          = db.hash (.unversioned other) % db.buckets.length then
          insertName name symbolId (db.bucket (.unversioned other)).nameToId
        else (db.bucket (.unversioned other)).nameToId := by
  have hlength : 0 < db.buckets.length := List.length_pos_iff.mpr hbuckets
  have hlt : db.hash (.unversioned other) % db.buckets.length < db.buckets.length :=
    Nat.mod_lt _ hlength
  unfold SymbolDb.bucket SymbolDb.overrideName
  dsimp only
  rw [List.length_modify, List.getElem?_modify, List.getElem?_eq_getElem hlt]
  split <;> rfl

/-- An override changes the entry of one name. -/
theorem getUnversioned_overrideName (hbuckets : db.buckets ≠ []) :
    (db.overrideName name symbolId).getUnversioned other
      = if other = name then some symbolId else db.getUnversioned other := by
  unfold SymbolDb.getUnversioned
  rw [overrideName_bucket hbuckets]
  by_cases h : other = name
  · subst h
    rw [if_pos rfl, lookup_insertName]
  · rw [if_neg h]
    split
    · rw [lookup_insertName, if_neg h]
    · rfl

theorem overrideName_buckets_ne_nil (hbuckets : db.buckets ≠ []) :
    (db.overrideName name symbolId).buckets ≠ [] := by
  rw [← List.length_pos_iff] at hbuckets ⊢
  unfold SymbolDb.overrideName
  dsimp only
  rw [List.length_modify]
  exact hbuckets

/-- The database has buckets, and its names are those of the table. -/
def Tabulates (db : SymbolDb) (table : Overrides.Table Name SymbolId) : Prop :=
  db.buckets ≠ [] ∧ db.getUnversioned = table

theorem Tabulates.override {table : Overrides.Table Name SymbolId} (h : Tabulates db table)
    (replacement : Option SymbolId) :
    Tabulates (db.overrideNameIfSome name replacement) (override table name replacement) := by
  obtain ⟨hbuckets, rfl⟩ := h
  cases replacement with
  | none => exact ⟨hbuckets, rfl⟩
  | some symbolId =>
      refine ⟨overrideName_buckets_ne_nil hbuckets, funext fun other => ?_⟩
      show (db.overrideName name symbolId).getUnversioned other = _
      rw [getUnversioned_overrideName hbuckets, override_apply]
      rfl

end Table

/-! ### The forms of names -/

theorem wrapPrefix_append_ne (name other : Name) : wrapName name ≠ realName other := by
  intro h
  have hleading := congrArg (List.take 7) h
  simp only [wrapName, realName] at hleading
  rw [List.take_append_of_le_length (by decide), List.take_append_of_le_length (by decide)] at hleading
  exact absurd hleading (by decide)

def symbolForms : Forms Name where
  wrap := wrapName
  real := realName
  size := List.length
  size_wrap name := by
    rw [wrapName, List.length_append]
    exact Nat.lt_add_of_pos_left (by decide)
  size_real name := by
    rw [realName, List.length_append]
    exact Nat.lt_add_of_pos_left (by decide)
  wrap_ne_real := wrapPrefix_append_ne
  real_injective _ _ h := List.append_cancel_left h

section Wrapping

variable {db : SymbolDb} {table : Overrides.Table Name SymbolId} {wrap : List Name}

theorem Tabulates.apply (h : Tabulates db table) (wrap : List Name) :
    Tabulates (db.applyWrappedSymbolOverrides wrap) (wrapAll symbolForms wrap table) := by
  unfold SymbolDb.applyWrappedSymbolOverrides wrapAll
  induction wrap generalizing db table with
  | nil => exact h
  | cons name wrap ih =>
      apply ih
      have hwrap : Tabulates (db.overrideNameIfSome name (table (wrapName name))) _ :=
        h.override (table (wrapName name))
      have hstep : Tabulates ((db.overrideNameIfSome name (table (wrapName name))).overrideNameIfSome
          (realName name) (table (realName name) <|> table name)) _ :=
        hwrap.override (table (realName name) <|> table name)
      obtain ⟨-, rfl⟩ := h
      exact hstep

theorem Tabulates.restore (h : Tabulates db table) (wrap : List Name) :
    Tabulates (db.restoreWrappedSymbolNames wrap) (restoreAll symbolForms wrap table) := by
  unfold SymbolDb.restoreWrappedSymbolNames restoreAll
  induction wrap generalizing db table with
  | nil => exact h
  | cons name wrap ih =>
      apply ih
      have hstep : Tabulates (db.overrideNameIfSome name (table (realName name))) _ :=
        h.override (table (realName name))
      obtain ⟨-, rfl⟩ := h
      exact hstep

theorem wrapsCorrectly_iff (hbuckets : db.buckets ≠ []) :
    db.WrapsCorrectly wrap ↔ Correct symbolForms wrap db.getUnversioned := by
  have htable : Tabulates db db.getUnversioned := ⟨hbuckets, rfl⟩
  have happly := htable.apply wrap
  have hagain := happly.apply wrap
  have hrestore := happly.restore wrap
  constructor
  · rintro ⟨hwrapped, hreal, hsame, hrestored⟩
    rw [happly.2] at hwrapped hreal hsame
    rw [hagain.2] at hsame
    rw [hrestore.2] at hrestored
    exact ⟨hwrapped, hreal, hsame, hrestored⟩
  · rintro ⟨hwrapped, hreal, hsame, hrestored⟩
    refine ⟨?_, ?_, ?_, ?_⟩
    · rw [happly.2]
      exact hwrapped
    · rw [happly.2]
      exact hreal
    · rw [hagain.2, happly.2]
      exact hsame
    · rw [hrestore.2]
      exact hrestored

/-- Symbols are wrapped correctly if and only if their names are separate. -/
theorem wrapped_iff_separate (symbols : NamedSymbols) (wrap : List Name) :
    symbols.db.WrapsCorrectly wrap ↔ symbols.db.NamesAreSeparate wrap := by
  rw [wrapsCorrectly_iff symbols.buckets_ne_nil, correct_iff symbols.oneName]
  constructor
  · rintro ⟨hreal, hdefined, hrealMem, hwrapMem⟩
    exact ⟨hreal, hdefined, hrealMem, hwrapMem⟩
  · rintro ⟨hreal, hdefined, hrealMem, hwrapMem⟩
    exact ⟨hreal, hdefined, hrealMem, hwrapMem⟩

/-- A program that defines `f`, `__wrap_f` and also `__real_f`. -/
def definesReal : SymbolLoadOutputs where
  perGroup := [[⟨.unversioned [0x66], 1⟩, ⟨.unversioned (wrapName [0x66]), 2⟩,
    ⟨.unversioned (realName [0x66]), 3⟩]]
  oneName := by decide

def definesRealDb : SymbolDb where
  buckets := []
  hash _ := 0
  symbolFileIds id := ⟨1, id⟩
  isDynamic _ := false
  symbolStrength _ := .strong
  inputSymbolVisibility _ := .default
  flags _ := .empty

/-- References to `__real_f` are not resolved to `f`. -/
theorem definesReal_not_wrapped :
    ¬ (NamedSymbols.populated definesRealDb 1 definesReal).db.WrapsCorrectly [[0x66]] := by
  intro h
  have hreal := h.real [0x66] (by decide)
  exact absurd hreal (by decide)

end Wrapping

end JdxLinker.Resolution
