import JdxLinker.Macho.TableSize

/-!
# What the dynamic linker reads in the imports

An import packs the ordinal of its library, a weak bit and the offset of its name into 32 bits. The
dynamic linker takes ordinals above `0xF0` for negative numbers with special meanings, and an offset
has 23 bits. The writer checks neither: it reports an error only when there are more than 255
libraries, and it never sets the weak bit.
-/

namespace JdxLinker.Macho

/-- An import as the dynamic linker sees it. -/
structure DyldImport where
  libOrdinal : Int
  weakImport : Bool
  nameOffset : Nat
  deriving Repr, DecidableEq

/-- The last ordinal that stands for a library. -/
def maxLibraryOrdinal : Nat := 0xF0

def dyldImport (word : UInt32) : DyldImport where
  libOrdinal :=
    let libVal := word.toNat % 256
    if maxLibraryOrdinal < libVal then (libVal : Int) - 256 else libVal
  weakImport := word.toNat / 256 % 2 = 1
  nameOffset := word.toNat / 512

/-- The name that starts at an offset of the pool. -/
def nameAt (pool : Bytes) (offset : Nat) : Bytes := (pool.drop offset).takeWhile (· ≠ 0)

/-! ### The packed word -/

theorem packImport_toNat (libOrdinal : UInt8) (symbolOffset : Nat) :
    (MachOLayout.packImport libOrdinal symbolOffset).toNat
      = libOrdinal.toNat + 512 * (symbolOffset % 2 ^ 23) := by
  have hlt := libOrdinal.toNat_lt
  have hshift : (UInt32.ofNat symbolOffset <<< 9).toNat = 2 ^ 9 * (symbolOffset % 2 ^ 23) := by
    rw [UInt32.toNat_shiftLeft, UInt32.toNat_ofNat', Nat.shiftLeft_eq]
    have hnine : (9 : UInt32).toNat % 32 = 9 := rfl
    rw [hnine]
    omega
  unfold MachOLayout.packImport
  rw [UInt32.toNat_or, UInt8.toNat_toUInt32, hshift, Nat.or_comm,
    ← Nat.two_pow_add_eq_or_of_lt (by omega)]
  omega

/-- The word keeps the ordinal and the low 23 bits of the offset. -/
theorem dyldImport_packImport (libOrdinal : UInt8) (symbolOffset : Nat) :
    dyldImport (MachOLayout.packImport libOrdinal symbolOffset) = {
      libOrdinal := if maxLibraryOrdinal < libOrdinal.toNat then (libOrdinal.toNat : Int) - 256
        else libOrdinal.toNat
      weakImport := false
      nameOffset := symbolOffset % 2 ^ 23 } := by
  have hlt := libOrdinal.toNat_lt
  unfold dyldImport
  rw [packImport_toNat]
  have hlow : (libOrdinal.toNat + 512 * (symbolOffset % 2 ^ 23)) % 256 = libOrdinal.toNat := by
    omega
  have hweak : (libOrdinal.toNat + 512 * (symbolOffset % 2 ^ 23)) / 256 % 2 = 0 := by omega
  have hhigh : (libOrdinal.toNat + 512 * (symbolOffset % 2 ^ 23)) / 512
      = symbolOffset % 2 ^ 23 := by omega
  simp only [hlow, hweak, hhigh]
  rfl

/-! ### The pool -/

theorem nameOffsets_getElem (names : List SymbolName) (start i : Nat) (h : i < names.length) :
    (nameOffsets start names)[i]? = some (start + (poolBytes (names.take i)).length) := by
  induction names generalizing start i with
  | nil => simp at h
  | cons name names ih =>
      cases i with
      | zero => simp [nameOffsets, poolBytes]
      | succ i =>
          rw [nameOffsets, List.getElem?_cons_succ, ih _ _ (by simpa using h),
            List.take_succ_cons, poolBytes_cons]
          simp only [List.length_append, List.length_cons]
          congr 1
          omega

theorem nameAt_cons (name : SymbolName) (rest : Bytes) :
    nameAt (name.bytes ++ 0 :: rest) 0 = name.bytes := by
  unfold nameAt
  rw [List.drop_zero, List.takeWhile_append_of_pos]
  · simp
  · intro byte hbyte
    have hne : byte ≠ 0 := by
      rintro rfl
      exact name.no_nul hbyte
    simpa using hne

theorem nameAt_skip (skipped rest : Bytes) (offset : Nat) :
    nameAt (skipped ++ rest) (skipped.length + offset) = nameAt rest offset := by
  unfold nameAt
  rw [List.drop_length_add_append]

/-- A name is read back from its place in the pool. -/
theorem nameAt_poolBytes (names : List SymbolName) (padding : Bytes) {i : Nat} {name : SymbolName}
    (h : names[i]? = some name) :
    nameAt (poolBytes names ++ padding) (poolBytes (names.take i)).length = name.bytes := by
  have hsplit : poolBytes names = poolBytes (names.take i) ++ poolBytes (names.drop i) := by
    rw [poolBytes, poolBytes, poolBytes, ← List.flatMap_append, List.take_append_drop]
  obtain ⟨hlt, hget⟩ := List.getElem?_eq_some_iff.mp h
  rw [List.drop_eq_getElem_cons hlt, hget, poolBytes_cons] at hsplit
  have hskip := nameAt_skip (poolBytes (names.take i))
    (name.bytes ++ 0 :: (poolBytes (names.drop (i + 1)) ++ padding)) 0
  rw [hsplit, List.append_assoc, List.append_assoc, List.cons_append]
  exact hskip.trans (nameAt_cons name _)

/-! ### The ordinals -/

namespace MachOLayout

variable (layout : MachOLayout)

/-- The install names of the dylib load commands. The ordinal of a library counts them from one. -/
def dylibCommands : List Bytes :=
  layout.finaliseSizesExt.importedLibraries.map layout.db.installName

/-- The install name of the library that a symbol is imported from. -/
def libraryOf (symbol : ImportedSymbolWithResolution) : Bytes :=
  layout.db.installName (layout.db.fileIdForSymbol symbol.symbolId)

variable {layout}

/-- The ordinal of a symbol is the number of the first command for its library. -/
theorem importOrdinal_eq_ok (hfinal : layout.Finalised) {symbol : ImportedSymbolWithResolution}
    (hsymbol : symbol ∈ layout.formatSpecific.importedSymbols) {libOrdinal : UInt8}
    (h : layout.importOrdinal symbol.symbolId = .ok libOrdinal) :
    ∃ index, layout.dylibCommands.idxOf? (layout.libraryOf symbol) = some index
      ∧ libOrdinal.toNat = index + 1 := by
  have hperm := createLayoutExt_symbols hfinal.extended
  have hmem : symbol.symbolId ∈ layout.finaliseSizesExt.importedSymbols :=
    hperm.mem_iff.mp (List.mem_map_of_mem hsymbol)
  obtain ⟨library, hlibrary, hexported⟩ := List.mem_flatMap.mp hmem
  have hfile := hfinal.symbols library hlibrary symbol.symbolId hexported
  have hlayout := hfinal.files library hlibrary
  rw [← hfile] at hlayout
  obtain ⟨found, hfound, hlayout⟩ := Fallible.bind_eq_ok.mp hlayout
  unfold importOrdinal at h
  cases found with
  | none =>
      rw [← Except.ok.inj hlayout] at h
      cases h
  | some ext =>
      have hordinal : libOrdinal = ext.ordinal := by
        cases hkind : library.kind with
        | stubLibrary =>
            simp only [hkind] at hlayout
            rw [← Except.ok.inj hlayout] at h
            exact (Except.ok.inj h).symm
        | dynamic =>
            simp only [hkind] at hlayout
            rw [← Except.ok.inj hlayout] at h
            exact (Except.ok.inj h).symm
      subst hordinal
      unfold createDynamicLayoutExt at hfound
      split at hfound
      · cases hfound
      · rename_i index hindex
        split at hfound
        · rename_i hlt
          cases hfound
          refine ⟨index, ?_, UInt8.toNat_ofNat_of_lt' hlt⟩
          rw [dylibCommands, List.idxOf?, List.findIdx?_map]
          rw [← hfile] at hindex
          exact hindex
        · cases hfound

end MachOLayout

/-! ### When the imports are read as they were meant -/

namespace MachOLayout

variable (layout : MachOLayout)

/-- What the dynamic linker should find for the import at `i`: the command of its library, whether
it is weak, and its name where the pool holds it. -/
def ImportDecodes (weakImport : SymbolId → Bool) (table : ChainedFixupTable) (i : Nat)
    (symbol : ImportedSymbolWithResolution) : Prop :=
  ∃ word, table.imports[i]? = some word
    ∧ 0 < (dyldImport word).libOrdinal
    ∧ layout.dylibCommands[(dyldImport word).libOrdinal.toNat - 1]?
        = some (layout.libraryOf symbol)
    ∧ (dyldImport word).weakImport = weakImport symbol.symbolId
    ∧ (dyldImport word).nameOffset = (poolBytes (layout.importNames.take i)).length
    ∧ nameAt table.stringPool (dyldImport word).nameOffset
        = (layout.db.symbolName symbol.symbolId).bytes

/-- The import at `i` fits its fields: its library is one of the first 240, it is not weak, and the
names before it leave its own below 8 MiB. -/
def ImportFits (weakImport : SymbolId → Bool) (i : Nat) (symbol : ImportedSymbolWithResolution) :
    Prop :=
  layout.libraryOf symbol ∈ layout.dylibCommands.take maxLibraryOrdinal
    ∧ weakImport symbol.symbolId = false
    ∧ (poolBytes (layout.importNames.take i)).length < 2 ^ 23

variable {layout}

theorem TablePlan.import_word {fixups : List ChainedFixup} (plan : layout.TablePlan fixups)
    {i : Nat} {symbol : ImportedSymbolWithResolution}
    (hsymbol : layout.formatSpecific.importedSymbols[i]? = some symbol) :
    ∃ libOrdinal, layout.importOrdinal symbol.symbolId = .ok libOrdinal
      ∧ plan.imports[i]?
        = some (packImport libOrdinal (poolBytes (layout.importNames.take i)).length) := by
  obtain ⟨hlt, -⟩ := List.getElem?_eq_some_iff.mp hsymbol
  have hoffset := nameOffsets_getElem layout.importNames 0 i (by simpa [importNames] using hlt)
  rw [Nat.zero_add] at hoffset
  have hentry : (layout.formatSpecific.importedSymbols.zip
      (nameOffsets 0 layout.importNames))[i]?
        = some (symbol, (poolBytes (layout.importNames.take i)).length) :=
    List.getElem?_zip_eq_some.mpr ⟨hsymbol, hoffset⟩
  obtain ⟨word, hword, himport⟩ := Fallible.mapM_getElem? plan.imports_eq hentry
  obtain ⟨libOrdinal, hordinal, himport⟩ := Fallible.bind_eq_ok.mp himport
  exact ⟨libOrdinal, hordinal, hword.trans (congrArg some (Except.ok.inj himport).symm)⟩

/-- One import is read as it was meant exactly when it fits. -/
theorem TablePlan.importDecodes_iff {fixups : List ChainedFixup} (plan : layout.TablePlan fixups)
    (hfinal : layout.Finalised) (weakImport : SymbolId → Bool) (tableLen : Nat) {i : Nat}
    {symbol : ImportedSymbolWithResolution}
    (hsymbol : layout.formatSpecific.importedSymbols[i]? = some symbol) :
    layout.ImportDecodes weakImport (plan.table tableLen) i symbol
      ↔ layout.ImportFits weakImport i symbol := by
  obtain ⟨libOrdinal, hordinal, hword⟩ := plan.import_word hsymbol
  obtain ⟨index, hindex, hnumber⟩ :=
    importOrdinal_eq_ok hfinal (List.mem_of_getElem? hsymbol) hordinal
  obtain ⟨hindexlt, hcommand, hfirst⟩ := List.idxOf?_eq_some_iff.mp hindex
  have hname : layout.importNames[i]? = some (layout.db.symbolName symbol.symbolId) := by
    rw [importNames, List.getElem?_map, hsymbol]
    rfl
  have hread := nameAt_poolBytes layout.importNames
    (List.replicate (tableLen - plan.byteLength) 0) hname
  have hdecoded := dyldImport_packImport libOrdinal
    (poolBytes (layout.importNames.take i)).length
  rw [hnumber] at hdecoded
  constructor
  · rintro ⟨word, hword', hpositive, -, hweak, hoffset, -⟩
    obtain rfl := Option.some.inj (hword.symm.trans hword')
    rw [hdecoded] at hpositive hweak hoffset
    refine ⟨?_, hweak.symm, ?_⟩
    · have hlt : index < maxLibraryOrdinal := by
        by_contra hge
        have hbound := libOrdinal.toNat_lt
        rw [if_pos (by omega)] at hpositive
        simp only at hpositive
        omega
      rw [← hcommand]
      exact List.mem_take_iff_getElem.mpr ⟨index, by omega, rfl⟩
    · simp only at hoffset
      omega
  · rintro ⟨hlibrary, hweak, hoffset⟩
    have hlt : index < maxLibraryOrdinal := by
      obtain ⟨j, hj, hsame⟩ := List.mem_take_iff_getElem.mp hlibrary
      by_contra hge
      exact hfirst j (by omega) (by simp [hsame])
    refine ⟨_, hword, ?_⟩
    rw [hdecoded, if_neg (by omega), Nat.mod_eq_of_lt hoffset]
    refine ⟨by simp only; omega, ?_, hweak.symm, rfl, hread⟩
    simp only [Int.toNat_natCast, Nat.add_sub_cancel]
    rw [List.getElem?_eq_getElem hindexlt, hcommand]

end MachOLayout

/-- In every table that the writer completes, all imports are read as they were meant exactly when
all of them fit. -/
theorem import_table_decodes_iff (layout : MachOLayout) (hfinal : layout.Finalised)
    (weakImport : SymbolId → Bool) {fixups : List ChainedFixup} {tableLen : Nat}
    {table : ChainedFixupTable} (h : layout.writeChainedFixupTable fixups tableLen = .ok table) :
    (table.imports.length = layout.formatSpecific.importedSymbols.length
      ∧ ∀ i symbol, layout.formatSpecific.importedSymbols[i]? = some symbol →
        layout.ImportDecodes weakImport table i symbol)
    ↔ ∀ i symbol, layout.formatSpecific.importedSymbols[i]? = some symbol →
        layout.ImportFits weakImport i symbol := by
  obtain ⟨plan, -, rfl⟩ := MachOLayout.TablePlan.of_written h
  constructor
  · rintro ⟨-, hdecodes⟩ i symbol hsymbol
    exact (plan.importDecodes_iff hfinal weakImport tableLen hsymbol).mp
      (hdecodes i symbol hsymbol)
  · intro hfits
    refine ⟨plan.imports_length, fun i symbol hsymbol => ?_⟩
    exact (plan.importDecodes_iff hfinal weakImport tableLen hsymbol).mpr
      (hfits i symbol hsymbol)

/-! ### Images with many libraries -/

/-- The table of such an image can be written. -/
theorem stubLayout_written {count : Nat} (h : count < 255) :
    ∃ table, (stubLayout count).writeChainedFixupTable []
      (chainedFixupTableReservation (stubLayout count).db
        (stubLayout count).finaliseSizesExt.importedSymbols) = .ok table := by
  have hlt : count + 1 < 256 := by omega
  have hordinal : (stubLayout count).importOrdinal 0 = .ok (UInt8.ofNat (count + 1)) := by
    have hfileLayout : (stubLayout count).fileLayout count
        = .stubLibrary ⟨UInt8.ofNat (count + 1), ordinal_ne_zero hlt⟩ := dif_pos hlt
    unfold MachOLayout.importOrdinal
    rw [show (stubLayout count).db.fileIdForSymbol 0 = count from rfl, hfileLayout]
  let plan : (stubLayout count).TablePlan [] := {
    segments := []
    imageBase := 0x100000000
    starts := ⟨[3, 0, 0, 0], [], 0, 16⟩
    imports := [MachOLayout.packImport (UInt8.ofNat (count + 1)) 0]
    few := show 2 + 1 ≤ MAX_SEGMENT_COUNT by decide
    segments_eq := rfl
    imageBase_eq := rfl
    starts_eq := rfl
    used := rfl
    imports_eq := by
      change [((⟨0, 0x100004000⟩ : ImportedSymbolWithResolution), 0)].mapM
        (fun entry => (stubLayout count).writeImport entry.1 entry.2) = _
      rw [List.mapM_cons, List.mapM_nil, MachOLayout.writeImport, hordinal]
      rfl }
  exact ⟨_, plan.written (plan.byteLength_le (stubLayout_finalised h) .nil)⟩

/-- The theorem at an image with one library. -/
theorem import_table_decodes_iff_one :
    ∃ table, (stubLayout 0).writeChainedFixupTable []
        (chainedFixupTableReservation (stubLayout 0).db
          (stubLayout 0).finaliseSizesExt.importedSymbols) = .ok table
      ∧ ((table.imports.length = (stubLayout 0).formatSpecific.importedSymbols.length
          ∧ ∀ i symbol, (stubLayout 0).formatSpecific.importedSymbols[i]? = some symbol →
            (stubLayout 0).ImportDecodes (fun _ => false) table i symbol)
        ↔ ∀ i symbol, (stubLayout 0).formatSpecific.importedSymbols[i]? = some symbol →
            (stubLayout 0).ImportFits (fun _ => false) i symbol) := by
  obtain ⟨table, htable⟩ := stubLayout_written (show 0 < 255 by decide)
  exact ⟨table, htable,
    import_table_decodes_iff (stubLayout 0) (stubLayout_finalised (by decide)) _ htable⟩

/-- With 241 libraries the last one has an ordinal that stands for none. -/
theorem stubLayout_not_fits : ¬ (stubLayout 240).ImportFits (fun _ => false) 0
    ⟨0, 0x100004000⟩ := by
  rintro ⟨hlibrary, -⟩
  rw [MachOLayout.dylibCommands, stubLayout_libraries (by decide)] at hlibrary
  revert hlibrary
  decide +kernel

/-- The image with 241 libraries is laid out and its table is written, but its import is not read
as it was meant. -/
theorem import_table_ordinal_counterexample :
    ∃ table, (stubLayout 240).Finalised
      ∧ (stubLayout 240).writeChainedFixupTable []
        (chainedFixupTableReservation (stubLayout 240).db
          (stubLayout 240).finaliseSizesExt.importedSymbols) = .ok table
      ∧ (stubLayout 240).formatSpecific.importedSymbols[0]? = some ⟨0, 0x100004000⟩
      ∧ ¬ (stubLayout 240).ImportDecodes (fun _ => false) table 0 ⟨0, 0x100004000⟩
      ∧ ∃ word, table.imports[0]? = some word ∧ (dyldImport word).libOrdinal = -15 := by
  have hfinal := stubLayout_finalised (show 240 < 255 by decide)
  obtain ⟨table, htable⟩ := stubLayout_written (show 240 < 255 by decide)
  obtain ⟨plan, -, rfl⟩ := MachOLayout.TablePlan.of_written htable
  refine ⟨_, hfinal, htable, rfl, ?_, ?_⟩
  · rw [plan.importDecodes_iff hfinal _ _ rfl]
    exact stubLayout_not_fits
  · obtain ⟨libOrdinal, hordinal, hword⟩ := plan.import_word (i := 0) rfl
    refine ⟨_, hword, ?_⟩
    have hvalue : libOrdinal = 241 := (Except.ok.inj hordinal).symm
    rw [dyldImport_packImport, hvalue]
    rfl

end JdxLinker.Macho
