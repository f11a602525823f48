import JdxLinker.Elf.GnuLookup
import JdxLinker.Elf.SysvLookup

/-!
# Dynamic symbol lookup

Both hash tables of an output file, from the names of its dynamic symbol definitions: the definitions
are ordered for the GNU table, come after the undefined dynamic symbols, and are found by either
table under the index that their resolutions get.
-/

namespace JdxLinker.Elf

/-- The symbol base as `finalise_layout_epilogue` sets it. -/
def finaliseGnuHash (layout : GnuHashLayout) (dynsymStartIndex : UInt32) : GnuHashLayout :=
  { layout with symbolBase := dynsymStartIndex }

/-- The index of a definition. The sum wraps in a release build. -/
def dynamicSymbolIndex (dynsymStartIndex : UInt32) (index : Nat) : Fallible UInt32 := do
  let dynamicSymbolIndex := dynsymStartIndex + UInt32.ofNat index
  Fallible.assert (dynamicSymbolIndex ≠ 0)
  pure dynamicSymbolIndex

/-- The indices that `update_dynamic_symbol_resolutions` puts into the resolutions. -/
def updateDynamicSymbolResolutions (dynsymStartIndex : UInt32)
    (definitions : List DynamicSymbolDefinition) : Fallible (List UInt32) :=
  (List.range definitions.length).mapM (dynamicSymbolIndex dynsymStartIndex)

/-! ### Indices -/

section Indexes

variable {start : UInt32} {definitions : List DynamicSymbolDefinition} {indexes : List UInt32}

theorem dynamicSymbolIndex_eq_ok {i : Nat} {index : UInt32} :
    dynamicSymbolIndex start i = .ok index ↔
      start + UInt32.ofNat i ≠ 0 ∧ index = start + UInt32.ofNat i := by
  unfold dynamicSymbolIndex
  constructor
  · intro h
    obtain ⟨⟨⟩, hassert, h⟩ := Fallible.bind_eq_ok.mp h
    cases h
    exact ⟨Fallible.assert_eq_ok.mp hassert, rfl⟩
  · rintro ⟨hne, rfl⟩
    exact Fallible.bind_eq_ok.mpr ⟨(), Fallible.assert_eq_ok.mpr hne, rfl⟩

theorem index_ne_zero (h : updateDynamicSymbolResolutions start definitions = .ok indexes)
    {i : Nat} (hi : i < definitions.length) : start + UInt32.ofNat i ≠ 0 := by
  have hget : (List.range definitions.length)[i]? = some i := by simp [hi]
  obtain ⟨index, -, hindex⟩ := Fallible.mapM_getElem? h hget
  exact (dynamicSymbolIndex_eq_ok.mp hindex).1

/-- The indices of a file whose resolutions were updated start above zero and do not wrap. -/
theorem indexes_fit (h : updateDynamicSymbolResolutions start definitions = .ok indexes) :
    (definitions ≠ [] → 0 < start.toNat) ∧ start.toNat + definitions.length ≤ 2 ^ 32 := by
  have hsize := start.toNat_lt
  constructor
  · intro hne
    by_contra hzero
    refine index_ne_zero h (List.length_pos_iff.mpr hne) (UInt32.toNat_inj.mp ?_)
    rw [UInt32.toNat_add, UInt32.toNat_ofNat', UInt32.toNat_zero]
    omega
  · by_contra hwraps
    refine index_ne_zero h (i := 2 ^ 32 - start.toNat) (by omega) (UInt32.toNat_inj.mp ?_)
    rw [UInt32.toNat_add, UInt32.toNat_ofNat', UInt32.toNat_zero]
    omega

/-- The index of a definition is its place in the dynamic symbol table. -/
theorem index_toNat (h : updateDynamicSymbolResolutions start definitions = .ok indexes) {i : Nat}
    {definition : DynamicSymbolDefinition} (hi : definitions[i]? = some definition)
    {index : UInt32} (hindex : indexes[i]? = some index) : index.toNat = start.toNat + i := by
  have hlt := (List.getElem?_eq_some_iff.mp hi).1
  have hfits := (indexes_fit h).2
  have hget : (List.range definitions.length)[i]? = some i := by simp [hlt]
  obtain ⟨index', hindex', hok⟩ := Fallible.mapM_getElem? h hget
  obtain rfl : index' = index := Option.some.inj (hindex'.symm.trans hindex)
  rw [(dynamicSymbolIndex_eq_ok.mp hok).2, UInt32.toNat_add, UInt32.toNat_ofNat']
  omega

end Indexes

/-! ### Layouts -/

section Layouts

variable {style : HashStyle} {needsDynamic : Bool}
  {definitions ordered : List DynamicSymbolDefinition} {layout : Option GnuHashLayout}

/-- Ordering the definitions moves them around. -/
theorem createGnuHashLayout_perm
    (h : createGnuHashLayout style needsDynamic definitions = (layout, ordered)) :
    ordered.Perm definitions := by
  unfold createGnuHashLayout at h
  split at h
  · cases h
    exact .refl _
  · cases h
    exact List.mergeSort_perm ..

theorem nextPowerOfTwo_half {n : Nat} (h : n < 2 ^ 32) :
    0 < UInt32.ofNat (nextPowerOfTwo (n / 2)) := by
  have hle : nextPowerOfTwo (n / 2) ≤ 2 ^ 31 := nextPowerOfTwo_le (by omega)
  have hpos := nextPowerOfTwo_pos (n / 2)
  rw [UInt32.lt_iff_toNat_lt, UInt32.toNat_ofNat', UInt32.toNat_zero]
  omega

theorem finaliseGnuHash_symbolBase (gnuLayout : GnuHashLayout) (start : UInt32) :
    (finaliseGnuHash gnuLayout start).symbolBase = start := rfl

theorem finaliseGnuHash_byteSize (C : ElfClass) (gnuLayout : GnuHashLayout) (start : UInt32) :
    (finaliseGnuHash gnuLayout start).byteSize C = gnuLayout.byteSize C := rfl

/-- What the layout of the GNU table is, and how its definitions are ordered. -/
theorem createGnuHashLayout_spec (hlength : definitions.length < 2 ^ 32) {gnuLayout : GnuHashLayout}
    (h : createGnuHashLayout style needsDynamic definitions = (some gnuLayout, ordered))
    (start : UInt32) :
    0 < (finaliseGnuHash gnuLayout start).bloomCount ∧
      0 < (finaliseGnuHash gnuLayout start).bucketCount ∧
      (finaliseGnuHash gnuLayout start).numDefs.toNat = definitions.length ∧
      ByBucket (finaliseGnuHash gnuLayout start) ordered := by
  unfold createGnuHashLayout at h
  split at h
  · cases h
  · cases h
    refine ⟨UInt32.lt_iff_toNat_lt.mpr Nat.one_pos, nextPowerOfTwo_half hlength, ?_,
      byBucket_mergeSort (finaliseGnuHash _ start) definitions⟩
    exact (UInt32.toNat_ofNat' ..).trans (Nat.mod_eq_of_lt hlength)

/-- The reservation for the System V table has a chain value for every dynamic symbol. -/
theorem allocateSysvHash_eq_ok {numDynsym : Nat} {sysvLayout : SysvHashLayout}
    (hlength : definitions.length < 2 ^ 32)
    (h : allocateSysvHash numDynsym definitions = .ok (some sysvLayout)) :
    definitions ≠ [] ∧ 0 < sysvLayout.bucketCount ∧ sysvLayout.chainCount.toNat = numDynsym := by
  unfold allocateSysvHash at h
  dsimp only at h
  split at h
  · cases h
  · rename_i hne
    obtain ⟨⟨⟩, hfits, h⟩ := Fallible.bind_eq_ok.mp h
    have hfits := Fallible.ensure_eq_ok.mp hfits
    unfold UInt32.size at hfits
    cases h
    refine ⟨fun hnil => hne (by rw [hnil]; rfl), ?_, ?_⟩
    · have hle : nextPowerOfTwo (max (definitions.length / 2) 1) ≤ 2 ^ 31 :=
        nextPowerOfTwo_le (by omega)
      have hpos := nextPowerOfTwo_pos (max (definitions.length / 2) 1)
      rw [UInt32.lt_iff_toNat_lt, UInt32.toNat_ofNat', UInt32.toNat_zero]
      omega
    · rw [UInt32.toNat_ofNat']
      omega

/-- Setting the chain count leaves the reservation as it was. -/
theorem finaliseSysvHash_eq_ok {sysvLayout : SysvHashLayout} {start : UInt32}
    (h : sysvLayout.chainCount.toNat = start.toNat + definitions.length) :
    finaliseSysvHash sysvLayout start definitions = .ok sysvLayout := by
  have hsize := sysvLayout.chainCount.toNat_lt
  have hadditional : (UInt32.ofNat definitions.length).toNat = definitions.length := by
    rw [UInt32.toNat_ofNat']
    omega
  have hcount : start + UInt32.ofNat definitions.length = sysvLayout.chainCount := by
    apply UInt32.toNat_inj.mp
    rw [UInt32.toNat_add, hadditional]
    omega
  unfold finaliseSysvHash
  dsimp only
  rw [Fallible.ensure_pos _ (by rw [hadditional]; unfold UInt32.size; omega), Fallible.bind_ok,
    hcount]
  rfl

end Layouts

/-! ### Lookups -/

/-- Dynamic symbol definitions with distinct names get hash tables of exactly their reservations, in
which the lookups of the dynamic linker find the index of every name and never leave the table. -/
theorem dynamic_symbol_lookup (gnuHash sysvHash : List UInt8 → UInt32) {style : HashStyle}
    {needsDynamic : Bool} {names undefinedNames : List (List UInt8)} (hdistinct : names.Nodup)
    {layout : Option GnuHashLayout} {definitions : List DynamicSymbolDefinition}
    (hlayout : createGnuHashLayout style needsDynamic
      (names.map (createDynamicSymbolDefinition gnuHash)) = (layout, definitions))
    {start : UInt32} (hstart : start.toNat = undefinedNames.length) {indexes : List UInt32}
    (hindexes : updateDynamicSymbolResolutions start definitions = .ok indexes)
    {dynsym : List (List UInt8)}
    (hdynsym : dynsym = undefinedNames ++ definitions.map DynamicSymbolDefinition.name) :
    (definitions.map DynamicSymbolDefinition.name).Perm names ∧
      (∀ gnuLayout, layout = some gnuLayout →
        ∃ table, writeGnuHashTables Class64 (finaliseGnuHash gnuLayout start) definitions
            (gnuLayout.byteSize Class64) = .ok table ∧
          (∀ (i : Nat) (definition : DynamicSymbolDefinition) (index : UInt32),
            definitions[i]? = some definition → indexes[i]? = some index →
              gnuLookup Class64 table dynsym (gnuHash definition.name) definition.name
                = .found index.toNat) ∧
          ∀ hash name, gnuLookup Class64 table dynsym hash name ≠ .outside) ∧
      ∀ sysvLayout, allocateSysvHash dynsym.length definitions = .ok (some sysvLayout) →
        ∃ finalLayout table, finaliseSysvHash sysvLayout start definitions = .ok finalLayout ∧
          writeSysvHashTable sysvHash finalLayout start definitions sysvLayout.byteSize
            = .ok (some table) ∧
          (∀ (i : Nat) (definition : DynamicSymbolDefinition) (index : UInt32),
            definitions[i]? = some definition → indexes[i]? = some index →
              sysvLookup table dynsym (sysvHash definition.name) definition.name
                = .found index.toNat) ∧
          ∀ hash name, sysvLookup table dynsym hash name ≠ .outside := by
  have hperm := createGnuHashLayout_perm hlayout
  have hnamesPerm : (definitions.map DynamicSymbolDefinition.name).Perm names := by
    have := hperm.map DynamicSymbolDefinition.name
    rwa [List.map_map, show DynamicSymbolDefinition.name ∘ createDynamicSymbolDefinition gnuHash
      = id from rfl, List.map_id] at this
  have hdistinct' := hnamesPerm.nodup_iff.mpr hdistinct
  obtain ⟨hbase, hfits⟩ := indexes_fit hindexes
  have hlength : definitions.length < 2 ^ 32 := by
    cases definitions with
    | nil => exact Nat.two_pow_pos 32
    | cons definition definitions =>
        have := hbase (List.cons_ne_nil _ _)
        omega
  have hnamed : ∀ (j : Nat) (definition : DynamicSymbolDefinition),
      definitions[j]? = some definition → dynsym[start.toNat + j]? = some definition.name := by
    intro j definition hget
    rw [hdynsym, hstart, List.getElem?_append_right (Nat.le_add_right ..), Nat.add_sub_cancel_left,
      List.getElem?_map, hget]
    rfl
  refine ⟨hnamesPerm, ?_, ?_⟩
  · rintro gnuLayout rfl
    obtain ⟨hbloom, hcount, hnum, hsorted⟩ :=
      createGnuHashLayout_spec (by rw [← hperm.length_eq]; exact hlength) hlayout start
    rw [← hperm.length_eq] at hnum
    rw [← finaliseGnuHash_symbolBase gnuLayout start] at hbase hfits hnamed
    obtain ⟨table, hok, hfound, hinside⟩ :=
      gnuLookup_table (C := Class64) hbloom hcount hnum hsorted hdistinct' hbase hfits hnamed
    rw [finaliseGnuHash_byteSize] at hok
    rw [finaliseGnuHash_symbolBase] at hfound
    refine ⟨table, hok, fun i definition index hget hindex => ?_, hinside⟩
    have hhash : definition.hash = gnuHash definition.name := by
      obtain ⟨name, -, rfl⟩ := List.mem_map.mp (hperm.mem_iff.mp (List.mem_of_getElem? hget))
      rfl
    rw [index_toNat hindexes hget hindex, ← hhash]
    exact hfound i definition hget
  · intro sysvLayout hallocate
    obtain ⟨hne, hcount, hchains⟩ := allocateSysvHash_eq_ok hlength hallocate
    rw [hdynsym, List.length_append, List.length_map, ← hstart] at hchains
    obtain ⟨table, hok, hfound, hinside⟩ := sysvLookup_table sysvHash hcount
      (hbase hne) hne hchains hdistinct' hnamed
    refine ⟨sysvLayout, table, finaliseSysvHash_eq_ok hchains, hok,
      fun i definition index hget hindex => ?_, hinside⟩
    rw [index_toNat hindexes hget hindex]
    exact hfound i definition hget

/-- The hash function of the GNU table. -/
def gnuHash (name : List UInt8) : UInt32 :=
  name.foldl (fun hash byte => hash * 33 + byte.toUInt32) 5381

/-- The hash function of the System V table. -/
def sysvHash (name : List UInt8) : UInt32 :=
  name.foldl (fun hash byte =>
    let hash := hash * 16 + byte.toUInt32
    (hash ^^^ ((hash &&& 0xf0000000) >>> 24)) &&& 0x0fffffff) 0

/-- The definitions of `bar` and `foo`. -/
def barAndFoo : List DynamicSymbolDefinition :=
  [[98, 97, 114], [102, 111, 111]].map (createDynamicSymbolDefinition gnuHash)

theorem createGnuHashLayout_barAndFoo :
    createGnuHashLayout .both true barAndFoo = (some ⟨2, 1, 6, 1, 0⟩, barAndFoo) := by
  have hsorted : barAndFoo.mergeSort (GnuHashLayout.keyLe ⟨2, 1, 6, 1, 0⟩) = barAndFoo :=
    List.mergeSort_of_pairwise (by decide)
  have hlength : barAndFoo.length = 2 := rfl
  unfold createGnuHashLayout
  rw [if_neg (by decide), hlength]
  exact congrArg (Prod.mk (some _)) hsorted

/-- Both tables for `bar` and `foo`, after two undefined symbols. -/
theorem dynamic_symbol_lookup_two :
    (∃ table, writeGnuHashTables Class64 (finaliseGnuHash ⟨2, 1, 6, 1, 0⟩ 2) barAndFoo 36
          = .ok table ∧
        gnuLookup Class64 table [[], [120], [98, 97, 114], [102, 111, 111]]
          (gnuHash [102, 111, 111]) [102, 111, 111] = .found 3) ∧
      ∃ table, writeSysvHashTable sysvHash ⟨1, 4⟩ 2 barAndFoo 28 = .ok (some table) ∧
        sysvLookup table [[], [120], [98, 97, 114], [102, 111, 111]]
          (sysvHash [102, 111, 111]) [102, 111, 111] = .found 3 := by
  have hindexes : updateDynamicSymbolResolutions 2 barAndFoo = .ok [2, 3] := by rfl
  have hallocate : allocateSysvHash 4 barAndFoo = .ok (some ⟨1, 4⟩) := by rfl
  have hfinalise : finaliseSysvHash ⟨1, 4⟩ 2 barAndFoo = .ok ⟨1, 4⟩ := by rfl
  have hundefined : (2 : UInt32).toNat = ([[], [120]] : List (List UInt8)).length := rfl
  have hfoo : barAndFoo[1]? = some ⟨[102, 111, 111], gnuHash [102, 111, 111]⟩ := rfl
  have hthree : (3 : UInt32).toNat = 3 := rfl
  have hdynsym : ([[], [120], [98, 97, 114], [102, 111, 111]] : List (List UInt8))
      = [[], [120]] ++ barAndFoo.map DynamicSymbolDefinition.name := rfl
  obtain ⟨-, hgnu, hsysv⟩ := dynamic_symbol_lookup gnuHash sysvHash (by decide)
    createGnuHashLayout_barAndFoo hundefined hindexes hdynsym
  constructor
  · obtain ⟨table, hok, hfound, -⟩ := hgnu _ rfl
    have hthird := hfound 1 _ 3 hfoo rfl
    rw [hthree] at hthird
    exact ⟨table, hok, hthird⟩
  · obtain ⟨layout, table, hlayout, hok, hfound, -⟩ := hsysv ⟨1, 4⟩ hallocate
    obtain rfl : layout = ⟨1, 4⟩ := Except.ok.inj (hlayout.symm.trans hfinalise)
    have hthird := hfound 1 _ 3 hfoo rfl
    rw [hthree] at hthird
    exact ⟨table, hok, hthird⟩

end JdxLinker.Elf
