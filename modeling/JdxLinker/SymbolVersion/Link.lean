import JdxLinker.SymbolVersion.Survival

/-!
# Symbol versions of a whole link

The libraries take their output indices one after another, after those of the version script, so that
no index belongs to two versions.
-/

namespace JdxLinker.SymbolVersion

section Link

variable {checkedOffset : UInt16 → UInt16 → Option UInt16} {hash : List UInt8 → UInt32}

/-- A library moves the next index on by the number of its kept versions. -/
theorem applyNonAddressableIndexes_toNat
    (hchecked : ∀ a b c, checkedOffset a b = some c → c.toNat = a.toNat + b.toNat)
    {library : SizedLibrary} (hwell : library.dynamic.file.WellFormed) (h : Sizing library)
    {next next' : UInt16}
    (hnext : applyNonAddressableIndexes checkedOffset next library.sizes.verneedInfo = .ok next') :
    next'.toNat = next.toNat + (keptVersions library.symbolVersionsNeeded
      library.dynamic.file.definitions).length := by
  have hlength := keptVersions_length_lt library.symbolVersionsNeeded hwell h.indexes
  rcases h.sizes with ⟨hnil, hsizes⟩ | ⟨hne, -, hsizes⟩
  · rw [hsizes] at hnext
    cases hnext
    rw [hnil]
    rfl
  · have hcount : (UInt16.ofNat (keptVersions library.symbolVersionsNeeded
        library.dynamic.file.definitions).length).toNat
          = (keptVersions library.symbolVersionsNeeded library.dynamic.file.definitions).length := by
      rw [UInt16.toNat_ofNat']
      omega
    rw [hsizes] at hnext
    unfold applyNonAddressableIndexes at hnext
    dsimp only at hnext
    rw [if_neg, Fallible.context_eq_ok] at hnext
    · rw [hchecked _ _ _ hnext, hcount]
    · intro hzero
      rw [hzero] at hcount
      exact hne (List.length_eq_zero_iff.mp hcount.symm)

/-- Writing the libraries uses up what was reserved for them, and their indices are all distinct. -/
theorem writeDynamicFiles_eq_ok (hash : List UInt8 → UInt32)
    (hchecked : ∀ a b c, checkedOffset a b = some c → c.toNat = a.toNat + b.toNat)
    {sized : List SizedLibrary}
    (hsized : ∀ library ∈ sized, library.dynamic.file.WellFormed ∧
      library.dynamic.BaseUnreferenced ∧ Sizing library)
    {gnuVersionREnd gnuVersionR : Nat} {next : UInt16} {layouts : List DynamicLayout}
    (hlayouts : layoutLibraries checkedOffset gnuVersionREnd next gnuVersionR sized = .ok layouts)
    (hnext : 2 ≤ next.toNat) {writer : TableWriter}
    (hoffset : writer.strtab.nextOffset = UInt32.ofNat writer.strtab.strings.length)
    (hdynstr : (sized.map fun library => nameSizes library.dynamic + library.sizes.dynstr).sum
      ≤ writer.strtab.available)
    (hversionR : (sized.map fun library => library.sizes.gnuVersionR).sum ≤ writer.versionR) :
    ∃ outputs writer', writeDynamicFiles hash writer layouts = .ok (outputs, writer') ∧
      Advances writer.strtab
        (sized.map fun library => nameSizes library.dynamic + library.sizes.dynstr).sum
        writer'.strtab ∧
      writer.versionR
        = writer'.versionR + (sized.map fun library => library.sizes.gnuVersionR).sum ∧
      List.Forall₂ (fun library output =>
        Survives library.dynamic writer'.strtab.strings output) sized outputs ∧
      ((outputs.flatMap DynamicOutput.auxes).map Vernaux.vnaOther).Nodup ∧
      (∀ aux ∈ outputs.flatMap DynamicOutput.auxes, next.toNat ≤ aux.vnaOther.toNat) ∧
      outputs.countP (fun output => output.verneed.isSome)
        = sized.countP fun library => library.sizes.verneedInfo.isSome := by
  induction sized generalizing gnuVersionR next layouts writer with
  | nil =>
      cases hlayouts
      exact ⟨[], writer, rfl, .refl hoffset, rfl, .nil, List.nodup_nil, by simp, rfl⟩
  | cons library sized ih =>
      obtain ⟨next', hnext', hlayouts⟩ := Fallible.bind_eq_ok.mp hlayouts
      obtain ⟨rest, hrest, hlayouts⟩ := Fallible.bind_eq_ok.mp hlayouts
      cases hlayouts
      obtain ⟨hwell, hbase, hlibrary⟩ := hsized library List.mem_cons_self
      have htoNat := applyNonAddressableIndexes_toNat hchecked hwell hlibrary hnext'
      have hsize := next'.toNat_lt
      rw [List.map_cons, List.sum_cons] at hdynstr hversionR ⊢
      rw [List.map_cons, List.sum_cons]
      obtain ⟨output, middle, hok, hadvances, hleft, hsurvives, hdistinct, hrange, hsome⟩ :=
        writeDynamicFile_eq_ok hash hwell hlibrary hbase hnext (by omega)
          (library.sizes.verneedInfo.isSome
            && gnuVersionR + library.sizes.gnuVersionR == gnuVersionREnd)
          hoffset (by omega) (by omega)
      have havailable := hadvances.available
      obtain ⟨outputs, writer', hok', hadvances', hleft', hsurvives', hdistinct', hrange', hsome'⟩ :=
        ih (fun other hother => hsized other (List.mem_cons_of_mem _ hother)) hrest (by omega)
          hadvances.nextOffset (by omega) (by omega)
      refine ⟨output :: outputs, writer', ?_, hadvances.trans hadvances', by omega,
        .cons (hsurvives.mono hadvances'.extends_) hsurvives', ?_, ?_, ?_⟩
      · rw [writeDynamicFiles, hok, Fallible.bind_ok]
        exact Fallible.bind_eq_ok.mpr ⟨_, hok', rfl⟩
      · rw [List.flatMap_cons, List.map_append]
        refine List.nodup_append.mpr ⟨hdistinct, hdistinct', ?_⟩
        rintro index hindex other hother rfl
        obtain ⟨aux, haux, heq⟩ := List.mem_map.mp hindex
        obtain ⟨aux', haux', heq'⟩ := List.mem_map.mp hother
        have := (hrange aux haux).2
        have := hrange' aux' haux'
        rw [heq] at *
        rw [heq'] at *
        omega
      · intro aux haux
        rw [List.flatMap_cons, List.mem_append] at haux
        rcases haux with haux | haux
        · exact (hrange aux haux).1
        · have := hrange' aux haux
          omega
      · rw [List.countP_cons, List.countP_cons, hsome', hsome]

/-- Sizing the libraries of a link. -/
theorem sizeLibraries_eq_ok {libraries : List Dynamic} {sized : List SizedLibrary}
    (hwell : ∀ dynamic ∈ libraries, dynamic.file.WellFormed)
    (h : libraries.mapM sizeLibrary = .ok sized) :
    sized.map SizedLibrary.dynamic = libraries ∧ ∀ library ∈ sized, Sizing library := by
  have hall := Fallible.mapM_eq_ok h
  clear h
  induction hall with
  | nil => exact ⟨rfl, by simp⟩
  | @cons dynamic library libraries sized hlibrary _ ih =>
      obtain ⟨hmap, hsizing⟩ := ih fun other hother => hwell other (List.mem_cons_of_mem _ hother)
      obtain ⟨rfl, hfirst⟩ := sizeLibrary_eq_ok (hwell _ List.mem_cons_self) hlibrary
      refine ⟨by rw [List.map_cons, hmap], fun other hother => ?_⟩
      rcases List.mem_cons.mp hother with rfl | hother
      · exact hfirst
      · exact hsizing other hother

/-- The indices of the libraries start after the global index and those of the version script. -/
theorem firstVersionIndex_toNat {versions : Nat} (h : versions < 2 ^ 16 - 1) :
    2 ≤ (firstVersionIndex versions).toNat ∧ ∀ number, number < versions →
      (scriptVersionIndex number).toNat < (firstVersionIndex versions).toNat := by
  have hone : verNdxGlobal.toNat = 1 := rfl
  have hcount : (firstVersionIndex versions).toNat = 1 + max 1 versions := by
    unfold firstVersionIndex scriptVersionCount
    split
    · rename_i hlone
      subst hlone
      rfl
    · have hmax : (max 1 (UInt16.ofNat versions)).toNat = max 1 versions := by
        have hversions : (UInt16.ofNat versions).toNat = versions := by
          rw [UInt16.toNat_ofNat']
          omega
        rcases Nat.eq_zero_or_pos versions with rfl | hpos
        · rfl
        · have hle : (1 : UInt16) ≤ UInt16.ofNat versions := by
            rw [UInt16.le_iff_toNat_le, hversions]
            exact hpos
          have hlarger : max 1 (UInt16.ofNat versions) = UInt16.ofNat versions := if_pos hle
          rw [hlarger, hversions]
          omega
      rw [UInt16.toNat_add, hone, hmax]
      omega
  refine ⟨by omega, fun number hnumber => ?_⟩
  rw [hcount, scriptVersionIndex, UInt16.toNat_add, UInt16.toNat_ofNat', hone]
  omega

/-- A writer for the reservations of a layout, after what is in the string table already. -/
def Layout.writer (layout : Layout) (strings : List UInt8) : TableWriter where
  strtab := {
    nextOffset := UInt32.ofNat strings.length
    strings := strings
    available := layout.dynstr }
  versionR := layout.gnuVersionR

/-- Libraries with well-formed definitions keep the versions of their symbols, with an index for each
needed version and exactly the reserved bytes. -/
theorem symbol_versions_survive
    (hchecked : ∀ a b c, checkedOffset a b = some c → c.toNat = a.toNat + b.toNat)
    {scriptVersions : Nat} (hscript : scriptVersions < 2 ^ 16 - 1) {libraries : List Dynamic}
    (hwell : ∀ dynamic ∈ libraries, dynamic.file.WellFormed)
    (hbase : ∀ dynamic ∈ libraries, dynamic.BaseUnreferenced) {layout : Layout}
    (hlayout : layoutVersions checkedOffset scriptVersions libraries = .ok layout)
    (strings : List UInt8) :
    ∃ outputs writer,
      writeDynamicFiles hash (layout.writer strings) layout.libraries = .ok (outputs, writer) ∧
      writer.strtab.available = 0 ∧ writer.versionR = 0 ∧
      outputs.countP (fun output => output.verneed.isSome) = layout.verneedCount ∧
      List.Forall₂ (fun dynamic output => Survives dynamic writer.strtab.strings output)
        libraries outputs ∧
      ((outputs.flatMap DynamicOutput.auxes).map Vernaux.vnaOther).Nodup ∧
      ∀ aux ∈ outputs.flatMap DynamicOutput.auxes, isSpecial aux.vnaOther = false ∧
        ∀ number, number < scriptVersions → aux.vnaOther ≠ scriptVersionIndex number := by
  obtain ⟨sized, hsized, hlayout⟩ := Fallible.bind_eq_ok.mp hlayout
  obtain ⟨layouts, hlayouts, hlayout⟩ := Fallible.bind_eq_ok.mp hlayout
  cases hlayout
  obtain ⟨hmap, hsizing⟩ := sizeLibraries_eq_ok hwell hsized
  obtain ⟨hfirst, hnumbers⟩ := firstVersionIndex_toNat hscript
  have hmem : ∀ library ∈ sized, library.dynamic ∈ libraries := by
    intro library hlibrary
    rw [← hmap]
    exact List.mem_map_of_mem hlibrary
  obtain ⟨outputs, writer, hok, hadvances, hversionR, hsurvives, hdistinct, hrange, hcount⟩ :=
    writeDynamicFiles_eq_ok hash hchecked
      (fun library hlibrary => ⟨hwell _ (hmem library hlibrary), hbase _ (hmem library hlibrary),
        hsizing library hlibrary⟩) hlayouts hfirst
      (show (Layout.writer ⟨layouts, _, _, 0⟩ strings).strtab.nextOffset = _ from rfl) le_rfl le_rfl
  refine ⟨outputs, writer, hok, Nat.add_eq_right.mp hadvances.available.symm,
    Nat.add_eq_right.mp hversionR.symm, hcount, ?_, hdistinct, fun aux haux => ?_⟩
  · rw [← hmap]
    exact List.forall₂_map_left_iff.mpr hsurvives
  · have hle := hrange aux haux
    constructor
    · unfold isSpecial
      rw [Bool.or_eq_false_iff, beq_eq_false_iff_ne, beq_eq_false_iff_ne]
      constructor
      · intro hlocal
        rw [hlocal] at hle
        have : verNdxLocal.toNat = 0 := rfl
        omega
      · intro hglobal
        rw [hglobal] at hle
        have : verNdxGlobal.toNat = 1 := rfl
        omega
    · intro number hnumber heq
      have := hnumbers number hnumber
      rw [← heq] at this
      omega

end Link

/-! ### Examples -/

/-- The sum of an index and a count, if it has 16 bits. -/
def checkedAdd (index count : UInt16) : Option UInt16 :=
  if index.toNat + count.toNat < 2 ^ 16 then some (index + count) else none

theorem checkedAdd_toNat (a b c : UInt16) (h : checkedAdd a b = some c) :
    c.toNat = a.toNat + b.toNat := by
  unfold checkedAdd at h
  split at h
  · rename_i hlt
    cases h
    rw [UInt16.toNat_add, Nat.mod_eq_of_lt hlt]
  · cases h

/-- A library that defines a version, with a hidden symbol of it. -/
def hiddenLibrary : Dynamic where
  file := {
    libName := [108]
    symbolNames := [[], [120]]
    versym := [0, 0x8002]
    verdef := some [⟨1, 1, [[98]]⟩, ⟨2, 0, [[118]]⟩]
    verdefnum := 2 }
  requested := [1]
  needsCopyRelocation := []

theorem symbol_versions_survive_hidden :
    ∃ layout outputs writer, layoutVersions checkedAdd 2 [hiddenLibrary] = .ok layout ∧
      writeDynamicFiles (fun _ => 0) (layout.writer [0]) layout.libraries
        = .ok (outputs, writer) ∧
      List.Forall₂ (fun dynamic output => Survives dynamic writer.strtab.strings output)
        [hiddenLibrary] outputs := by
  have hlayout : layoutVersions checkedAdd 2 [hiddenLibrary] = .ok {
      libraries := [{
        dynamic := hiddenLibrary
        verneedInfo := some ⟨[⟨1, 1, [[98]]⟩, ⟨2, 0, [[118]]⟩], 1⟩
        versionMapping := [1, 3]
        isLastVerneed := true }]
      dynstr := 8
      gnuVersionR := 32
      verneedCount := 1 } := by decide
  have hwell : ∀ dynamic ∈ [hiddenLibrary], dynamic.file.WellFormed := by
    rintro dynamic hmem
    obtain rfl := List.mem_singleton.mp hmem
    exact ⟨fun defs hdefs => by cases hdefs; rfl, by decide, by decide, rfl⟩
  have hbase : ∀ dynamic ∈ [hiddenLibrary], dynamic.BaseUnreferenced := by
    rintro dynamic hmem
    obtain rfl := List.mem_singleton.mp hmem
    unfold Dynamic.BaseUnreferenced
    decide
  obtain ⟨outputs, writer, hok, -, -, -, hsurvives, -⟩ := @symbol_versions_survive
    checkedAdd (fun _ => 0) checkedAdd_toNat _ (by decide) _ hwell hbase _ hlayout [0]
  exact ⟨_, outputs, writer, hlayout, hok, hsurvives⟩

/-- A symbol with the local version keeps it, one with the base version of its library gets an index
without a record, and more versions than fit 16 bits share their indices with those of libraries. -/
theorem symbol_versions_counterexample :
    (∃ layout writer, layoutVersions checkedAdd 0 [{
          file := ⟨[], [[]], [0], none, 0⟩, requested := [0], needsCopyRelocation := [] }]
        = .ok layout ∧
      writeDynamicFiles (fun _ => 0) (layout.writer []) layout.libraries
        = .ok ([⟨[(0, verNdxLocal)], none⟩], writer)) ∧
    (∃ layout writer, layoutVersions checkedAdd 0 [{
          file := ⟨[], [[]], [2], some [⟨2, 1, [[]]⟩, ⟨1, 0, [[]]⟩], 2⟩
          requested := [0]
          needsCopyRelocation := [] }] = .ok layout ∧
      writeDynamicFiles (fun _ => 0) (layout.writer []) layout.libraries
        = .ok ([⟨[(0, 2)], none⟩], writer)) ∧
    firstVersionIndex (2 ^ 16) = scriptVersionIndex 1 := by
  refine ⟨⟨⟨[⟨⟨⟨[], [[]], [0], none, 0⟩, [0], []⟩, none, [], false⟩], 2, 0, 0⟩,
    ⟨⟨2, [0, 0], 0⟩, 0⟩, by decide, by decide⟩,
    ⟨⟨[⟨⟨⟨[], [[]], [2], some [⟨2, 1, [[]]⟩, ⟨1, 0, [[]]⟩], 2⟩, [0], []⟩, none, [1, 2], false⟩],
      2, 0, 0⟩, ⟨⟨2, [0, 0], 0⟩, 0⟩, by decide, by decide⟩, by decide⟩

end JdxLinker.SymbolVersion
