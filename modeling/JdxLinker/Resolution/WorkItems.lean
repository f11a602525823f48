import JdxLinker.Lib.Indexed
import JdxLinker.Resolution.SymbolDb

/-!
# Splitting an object into work items

The symbols of a large object are resolved in chunks. The index of a symbol in its chunk is used to
look up its version, so the result is that of a single work item if and only if no symbol has another
version than the one at that index.
-/

namespace JdxLinker.Resolution

open Indexed Symbols

section Chunks

variable (platform : Platform) (db : SymbolDb) (obj : InputObject) (chunkSize : Nat)
  (definitions : List SymbolId)

/-- All work items of an object, one after the other. -/
def resolveChunks : Fallible (List Resolved) := do
  let chunks ← (workItemsDo chunkSize obj.fileId definitions).mapM fun item =>
    resolveSymbols platform db obj item.symbolStartOffset item.definitionsOut
  return chunks.flatten

/-- The symbol at the index is looked up by its name. -/
structure IsResolved (index : Nat) (symbol : InputSymbol) (definition : SymbolId) : Prop where
  hasSymbol : obj.symbols[index]? = some symbol
  hasDefinition : definitions[index]? = some definition
  notSkipped : isSkipped platform obj index symbol definition = false

/-- Unless something is unreadable, the names of the symbols have the same versions at their indices
in the chunks. -/
def VersionsAgree : Prop :=
  ∀ verneedTable, obj.verneedTable = .ok verneedTable →
    (∀ index symbol definition, IsResolved platform obj definitions index symbol definition →
      ∃ nameBytes, symbol.name = .ok nameBytes) →
    ∀ index symbol definition nameBytes,
      IsResolved platform obj definitions index symbol definition → symbol.name = .ok nameBytes →
      PreHashedSymbolName.fromRaw (platform.rawSymbolName nameBytes verneedTable (index % chunkSize))
        = PreHashedSymbolName.fromRaw (platform.rawSymbolName nameBytes verneedTable index)

end Chunks

section Split

variable {platform : Platform} {db : SymbolDb} {obj : InputObject} {chunkSize : Nat}
  {definitions : List SymbolId} {verneedTable : VerneedTable}

/-- A symbol by its index in the object, in the chunk that it belongs to. -/
def resolveInChunk (platform : Platform) (db : SymbolDb) (obj : InputObject)
    (verneedTable : VerneedTable) (chunkSize index : Nat) (symbol : InputSymbol)
    (definition : SymbolId) : Fallible Resolved :=
  resolveEntry platform db obj verneedTable (index - index % chunkSize) (index % chunkSize) symbol
    definition

theorem resolveSymbols_eq (hverneed : obj.verneedTable = .ok verneedTable) (start : Nat)
    (definitions : List SymbolId) :
    resolveSymbols platform db obj start definitions
      = mapM₂ (resolveEntry platform db obj verneedTable start) 0 (obj.symbols.drop start)
        definitions := by
  unfold resolveSymbols
  rw [hverneed]
  exact mapM_zipIdx_zip (resolveEntry platform db obj verneedTable start) 0 _ _

/-- Within one chunk, symbols are found by their indices in it. -/
theorem resolveSymbols_chunk (hverneed : obj.verneedTable = .ok verneedTable) {start : Nat}
    (hstart : chunkSize ∣ start) (hlength : definitions.length ≤ chunkSize) :
    resolveSymbols platform db obj start definitions
      = mapM₂ (resolveInChunk platform db obj verneedTable chunkSize) start (obj.symbols.drop start)
        definitions := by
  rw [resolveSymbols_eq hverneed]
  have hshift := mapM₂_shift (resolveInChunk platform db obj verneedTable chunkSize) 0 start
    (obj.symbols.drop start) definitions
  rw [Nat.zero_add] at hshift
  rw [hshift]
  refine mapM₂_congr fun i symbol definition _ hdefinition => ?_
  have hi : i < chunkSize := (List.getElem?_eq_some_iff.mp hdefinition).1.trans_le hlength
  have hmod : (0 + i + start) % chunkSize = i := by
    obtain ⟨n, rfl⟩ := hstart
    rw [Nat.zero_add, Nat.add_mul_mod_self_left, Nat.mod_eq_of_lt hi]
  unfold resolveInChunk
  rw [hmod, Nat.zero_add, Nat.add_sub_cancel_left]

theorem resolve_workItems (hverneed : obj.verneedTable = .ok verneedTable) (hchunk : 0 < chunkSize)
    {fuel start : Nat} (hstart : chunkSize ∣ start) {definitions : List SymbolId}
    (hfuel : definitions.length < fuel) :
    (do
      let chunks ← (workItems chunkSize obj.fileId fuel start definitions).mapM fun item =>
        resolveSymbols platform db obj item.symbolStartOffset item.definitionsOut
      return chunks.flatten)
      = mapM₂ (resolveInChunk platform db obj verneedTable chunkSize) start (obj.symbols.drop start)
        definitions := by
  induction fuel generalizing start definitions with
  | zero => exact absurd hfuel (Nat.not_lt_zero _)
  | succ fuel ih =>
      rcases Nat.lt_or_ge chunkSize definitions.length with hlength | hlength
      · -- the chunk is full, and there is a rest
        have htake : (definitions.take chunkSize).length = chunkSize := by
          rw [List.length_take]
          omega
        have hrest : (definitions.drop chunkSize).isEmpty = false := by
          rw [List.isEmpty_eq_false_iff]
          exact List.ne_nil_of_length_pos (by rw [List.length_drop]; omega)
        have hhead : resolveSymbols platform db obj start (definitions.take chunkSize) = _ :=
          resolveSymbols_chunk hverneed hstart htake.le
        have htail := ih (Nat.dvd_add hstart (Nat.dvd_refl chunkSize))
          (by rw [List.length_drop]; omega : (definitions.drop chunkSize).length < fuel)
        have happend := mapM₂_append (resolveInChunk platform db obj verneedTable chunkSize) start
          (obj.symbols.drop start) (definitions.take chunkSize) (definitions.drop chunkSize)
        rw [List.take_append_drop, htake, List.drop_drop] at happend
        rw [workItems, Nat.min_eq_left hlength.le, hrest, List.mapM_cons, happend, ← hhead, ← htail]
        simp only [bind_assoc, pure_bind, List.flatten_cons, Bool.false_eq_true, if_false]
      · -- the last chunk
        have hhead : resolveSymbols platform db obj start definitions = _ :=
          resolveSymbols_chunk hverneed hstart hlength
        rw [workItems, Nat.min_eq_right hlength, List.take_length, List.drop_length, ← hhead]
        simp

theorem resolveChunks_eq (hverneed : obj.verneedTable = .ok verneedTable) (hchunk : 0 < chunkSize)
    (definitions : List SymbolId) :
    resolveChunks platform db obj chunkSize definitions
      = mapM₂ (resolveInChunk platform db obj verneedTable chunkSize) 0 obj.symbols definitions :=
  resolve_workItems hverneed hchunk (Nat.dvd_zero chunkSize) (Nat.lt_succ_self _)

/-! ### One symbol -/

section Entry

variable {start localIndex : Nat} {symbol : InputSymbol} {definition : SymbolId} {nameBytes : Name}

theorem resolveEntry_skipped
    (h : isSkipped platform obj (start + localIndex) symbol definition = true) :
    resolveEntry platform db obj verneedTable start localIndex symbol definition
      = .ok { definition } := by
  unfold resolveEntry
  rw [if_pos h]
  rfl

theorem resolveEntry_error {failure : Failure}
    (h : isSkipped platform obj (start + localIndex) symbol definition = false)
    (hname : symbol.name = .error failure) :
    resolveEntry platform db obj verneedTable start localIndex symbol definition
      = .error failure := by
  unfold resolveEntry
  rw [if_neg (by rw [h]; decide), hname]
  rfl

theorem resolveEntry_ok
    (h : isSkipped platform obj (start + localIndex) symbol definition = false)
    (hname : symbol.name = .ok nameBytes) :
    resolveEntry platform db obj verneedTable start localIndex symbol definition
      = .ok (resolveSymbol db (obj.symbolIdStart + (start + localIndex))
          ⟨platform.rawSymbolName nameBytes verneedTable localIndex, symbol.isInterposable,
            symbol.isWeak⟩ definition obj.isDynamic obj.fileId false) := by
  unfold resolveEntry
  rw [if_neg (by rw [h]; decide), hname]
  rfl

/-- Only unreadable names are errors, whatever the names are looked up by. -/
theorem resolveEntry_eq_error {failure : Failure} :
    resolveEntry platform db obj verneedTable start localIndex symbol definition = .error failure
      ↔ isSkipped platform obj (start + localIndex) symbol definition = false ∧
        symbol.name = .error failure := by
  constructor
  · intro h
    cases hskipped : isSkipped platform obj (start + localIndex) symbol definition with
    | true =>
        rw [resolveEntry_skipped hskipped] at h
        cases h
    | false =>
        refine ⟨rfl, ?_⟩
        cases hname : symbol.name with
        | error failure' =>
            rw [resolveEntry_error hskipped hname] at h
            injection h with h
            rw [h]
        | ok nameBytes =>
            rw [resolveEntry_ok hskipped hname] at h
            cases h
  · rintro ⟨hskipped, hname⟩
    exact resolveEntry_error hskipped hname

theorem resolveSymbol_congr {nameInfo nameInfo' : RawSymbolName}
    (h : PreHashedSymbolName.fromRaw nameInfo = PreHashedSymbolName.fromRaw nameInfo')
    (localSymbolId : SymbolId) (defaultVisibility isWeak isDynamic fromIr : Bool)
    (definition : SymbolId) (fileId : FileId) :
    resolveSymbol db localSymbolId ⟨nameInfo, defaultVisibility, isWeak⟩ definition isDynamic fileId
        fromIr
      = resolveSymbol db localSymbolId ⟨nameInfo', defaultVisibility, isWeak⟩ definition isDynamic
        fileId fromIr := by
  unfold resolveSymbol
  dsimp only
  rw [h]
  rfl

end Entry

theorem chunk_index (index chunkSize : Nat) :
    index - index % chunkSize + index % chunkSize = index :=
  Nat.sub_add_cancel (Nat.mod_le index chunkSize)

/-- A symbol table without names. -/
def noNames : SymbolDb where
  buckets := []
  hash _ := 0
  symbolFileIds _ := PRELUDE_FILE_ID
  isDynamic _ := false
  symbolStrength _ := .undefined
  inputSymbolVisibility _ := .default
  flags _ := .empty

theorem resolveSymbol_noNames (localSymbolId : SymbolId) (attributes : SymbolAttributes)
    (definition : SymbolId) (isDynamic : Bool) (fileId : FileId) (fromIr : Bool) :
    resolveSymbol noNames localSymbolId attributes definition isDynamic fileId fromIr
      = { definition
          undefined := some ⟨none, PreHashedSymbolName.fromRaw attributes.nameInfo, localSymbolId⟩ } := by
  unfold resolveSymbol
  cases PreHashedSymbolName.fromRaw attributes.nameInfo <;> rfl

theorem resolveInChunk_skipped {index : Nat} {symbol : InputSymbol} {definition : SymbolId}
    (h : isSkipped platform obj index symbol definition = true) :
    resolveInChunk platform db obj verneedTable chunkSize index symbol definition
      = .ok { definition } :=
  resolveEntry_skipped (by rwa [chunk_index])

theorem resolveInChunk_ok {index : Nat} {symbol : InputSymbol} {definition : SymbolId}
    {nameBytes : Name} (h : isSkipped platform obj index symbol definition = false)
    (hname : symbol.name = .ok nameBytes) :
    resolveInChunk platform db obj verneedTable chunkSize index symbol definition
      = .ok (resolveSymbol db (obj.symbolIdStart + index)
          ⟨platform.rawSymbolName nameBytes verneedTable (index % chunkSize), symbol.isInterposable,
            symbol.isWeak⟩ definition obj.isDynamic obj.fileId false) := by
  unfold resolveInChunk
  rw [resolveEntry_ok (by rwa [chunk_index]) hname, chunk_index]

theorem resolveInChunk_eq_error {index : Nat} {symbol : InputSymbol} {definition : SymbolId}
    {failure : Failure} :
    resolveInChunk platform db obj verneedTable chunkSize index symbol definition = .error failure
      ↔ isSkipped platform obj index symbol definition = false ∧ symbol.name = .error failure := by
  unfold resolveInChunk
  rw [resolveEntry_eq_error, chunk_index]

theorem resolveChunks_eq_of_versionsAgree (hchunk : 0 < chunkSize)
    (h : VersionsAgree platform obj chunkSize definitions) (db : SymbolDb) :
    resolveChunks platform db obj chunkSize definitions
      = resolveSymbols platform db obj 0 definitions := by
  cases hverneed : obj.verneedTable with
  | error failure =>
      have hfails : ∀ start definitions,
          resolveSymbols platform db obj start definitions = .error failure := by
        intro start definitions
        unfold resolveSymbols
        rw [hverneed]
        rfl
      rw [hfails]
      unfold resolveChunks workItemsDo workItems
      rw [List.mapM_cons, hfails]
      rfl
  | ok verneedTable =>
      rw [resolveChunks_eq hverneed hchunk, resolveSymbols_eq hverneed, List.drop_zero]
      by_cases hreadable : ∀ index symbol definition,
          IsResolved platform obj definitions index symbol definition →
          ∃ nameBytes, symbol.name = .ok nameBytes
      · refine mapM₂_congr fun i symbol definition hsymbol hdefinition => ?_
        rw [Nat.zero_add]
        cases hskipped : isSkipped platform obj i symbol definition with
        | true =>
            rw [resolveInChunk_skipped hskipped, resolveEntry_skipped (by rwa [Nat.zero_add])]
        | false =>
            have hresolved : IsResolved platform obj definitions i symbol definition :=
              ⟨hsymbol, hdefinition, hskipped⟩
            obtain ⟨nameBytes, hname⟩ := hreadable i symbol definition hresolved
            have hagree := h verneedTable hverneed hreadable i symbol definition nameBytes hresolved
              hname
            rw [resolveInChunk_ok hskipped hname, resolveEntry_ok (by rwa [Nat.zero_add]) hname,
              Nat.zero_add, resolveSymbol_congr hagree]
      · -- some name is unreadable, which is an error either way
        push Not at hreadable
        obtain ⟨i, symbol, definition, hresolved, hunreadable⟩ := hreadable
        cases hname : symbol.name with
        | ok nameBytes => exact absurd hname (hunreadable nameBytes)
        | error failure =>
            have halike : ∀ (i : Nat) (symbol : InputSymbol) (definition : SymbolId)
                (failure : Failure), obj.symbols[i]? = some symbol →
                definitions[i]? = some definition →
                (resolveInChunk platform db obj verneedTable chunkSize (0 + i) symbol definition
                    = .error failure
                  ↔ resolveEntry platform db obj verneedTable 0 (0 + i) symbol definition
                    = .error failure) := by
              intro i symbol definition failure _ _
              rw [resolveInChunk_eq_error, resolveEntry_eq_error, Nat.zero_add (0 + i)]
            have hfails : resolveInChunk platform db obj verneedTable chunkSize (0 + i) symbol
                definition = .error failure := by
              rw [resolveInChunk_eq_error, Nat.zero_add]
              exact ⟨hresolved.notSkipped, hname⟩
            obtain ⟨first, hchunks, hsingle⟩ :=
              mapM₂_eq_error halike hresolved.hasSymbol hresolved.hasDefinition hfails
            rw [hchunks, hsingle]

theorem versionsAgree_of_resolveChunks_eq (hchunk : 0 < chunkSize)
    (h : ∀ db, resolveChunks platform db obj chunkSize definitions
      = resolveSymbols platform db obj 0 definitions) :
    VersionsAgree platform obj chunkSize definitions := by
  intro verneedTable hverneed hreadable index symbol definition nameBytes hresolved hname
  have hsame := h noNames
  rw [resolveChunks_eq hverneed hchunk, resolveSymbols_eq hverneed, List.drop_zero] at hsame
  have hok : ∀ (i : Nat) (symbol : InputSymbol) (definition : SymbolId),
      obj.symbols[i]? = some symbol → definitions[i]? = some definition →
      (∃ resolved, resolveInChunk platform noNames obj verneedTable chunkSize (0 + i) symbol definition
        = .ok resolved) ∧
      ∃ resolved, resolveEntry platform noNames obj verneedTable 0 (0 + i) symbol definition
        = .ok resolved := by
    intro i symbol definition hsymbol hdefinition
    rw [Nat.zero_add]
    cases hskipped : isSkipped platform obj i symbol definition with
    | true =>
        exact ⟨⟨_, resolveInChunk_skipped hskipped⟩,
          ⟨_, resolveEntry_skipped (by rwa [Nat.zero_add])⟩⟩
    | false =>
        obtain ⟨nameBytes, hname⟩ := hreadable i symbol definition ⟨hsymbol, hdefinition, hskipped⟩
        exact ⟨⟨_, resolveInChunk_ok hskipped hname⟩,
          ⟨_, resolveEntry_ok (by rwa [Nat.zero_add]) hname⟩⟩
  have hentry := eq_of_mapM₂_eq hsame hok hresolved.hasSymbol hresolved.hasDefinition
  have hskipped := hresolved.notSkipped
  rw [Nat.zero_add, resolveInChunk_ok hskipped hname, resolveEntry_ok (by rwa [Nat.zero_add]) hname,
    resolveSymbol_noNames, resolveSymbol_noNames] at hentry
  injection hentry with hentry
  injection hentry with _ _ hundefined
  injection hundefined with hundefined
  injection hundefined

end Split

/-- A shared library whose last symbol needs a version. -/
def lateVersion (count : Nat) : InputObject where
  fileId := ⟨1, 0⟩
  symbols := List.replicate (count + 1) ⟨.ok [0x66], false, true, false⟩
  symbolIdStart := 1
  isDynamic := true
  verneedTable := .ok ⟨List.replicate count 0 ++ [2], [none, none, some [0x56]]⟩

theorem lateVersion_differs {count : Nat} (hcount : 0 < count) :
    ¬ ∀ db, resolveChunks elf db (lateVersion count) count (List.replicate (count + 1) undefinedId)
      = resolveSymbols elf db (lateVersion count) 0 (List.replicate (count + 1) undefinedId) := by
  intro h
  have hskipped : isSkipped elf (lateVersion count) count ⟨.ok [0x66], false, true, false⟩
      undefinedId = false := by
    have hne : decide (count = 0) = false := decide_eq_false (Nat.ne_of_gt hcount)
    unfold isSkipped
    rw [hne]
    rfl
  have hagree := versionsAgree_of_resolveChunks_eq hcount h _ rfl
    (fun index symbol definition hresolved => by
      have hmem := List.mem_of_getElem? hresolved.hasSymbol
      rw [List.eq_of_mem_replicate hmem]
      exact ⟨_, rfl⟩)
    count _ undefinedId [0x66]
    ⟨List.getElem?_replicate_of_lt (Nat.lt_succ_self count),
      List.getElem?_replicate_of_lt (Nat.lt_succ_self count), hskipped⟩ rfl
  have hfirst : (List.replicate count 0 ++ [2])[0]? = some 0 := by
    rw [List.getElem?_append_left (by rwa [List.length_replicate]),
      List.getElem?_replicate_of_lt hcount]
  have hlast : (List.replicate count 0 ++ [2])[count]? = some 2 := by
    rw [List.getElem?_append_right (by rw [List.length_replicate]), List.length_replicate,
      Nat.sub_self]
    rfl
  simp only [elf, VerneedTable.versionName, Nat.mod_self, hfirst, hlast] at hagree
  revert hagree
  decide

end JdxLinker.Resolution
