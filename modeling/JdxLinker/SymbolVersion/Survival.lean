import JdxLinker.SymbolVersion.Files

/-!
# Symbol versions survive the link

Every undefined dynamic symbol keeps its version: the local and global ones as they are, any other
through the one auxiliary record that has its output index and its name, in the record of its
library.
-/

namespace JdxLinker.SymbolVersion

/-- The auxiliary records that are written for a library. -/
def DynamicOutput.auxes (output : DynamicOutput) : List Vernaux :=
  match output.verneed with
  | none => []
  | some verneed => verneed.auxes

/-- What the output file says of the symbols of a library. -/
structure Survives (dynamic : Dynamic) (strings : List UInt8) (output : DynamicOutput) : Prop where
  symbols : output.versym.map Prod.fst = dynamic.undefinedSymbols
  special : ∀ entry ∈ output.versym, isSpecial (inputVersion dynamic.file entry.1) = true →
    entry.2 = inputVersion dynamic.file entry.1
  versions : ∀ entry ∈ output.versym, isSpecial (inputVersion dynamic.file entry.1) = false →
    ∃ verdef ∈ dynamic.file.definitions,
      verdef.vdNdx = inputVersion dynamic.file entry.1 ∧ verdef.isBase = false ∧
      ∃ verneed, output.verneed = some verneed ∧
        (∃ offset, verneed.vnFile = some offset ∧ NamedAt strings offset dynamic.file.libName) ∧
        ∃ aux ∈ verneed.auxes, aux.vnaOther = entry.2 ∧
          ∃ name, verdef.auxNames.head? = some name ∧ NamedAt strings aux.vnaName name

theorem Survives.mono {dynamic : Dynamic} {strings strings' : List UInt8} {output : DynamicOutput}
    (h : Survives dynamic strings output) (hle : strings <+: strings') :
    Survives dynamic strings' output where
  symbols := h.symbols
  special := h.special
  versions := by
    intro entry hentry hspecial
    obtain ⟨verdef, hmem, hindex, hbase, verneed, hverneed, ⟨offset, hoffset, hfile⟩, aux, haux,
      hother, name, hname, hat⟩ := h.versions entry hentry hspecial
    exact ⟨verdef, hmem, hindex, hbase, verneed, hverneed, ⟨offset, hoffset, hfile.mono hle⟩, aux,
      haux, hother, name, hname, hat.mono hle⟩

/-! ### One library -/

section File

variable {hash : List UInt8 → UInt32} {library : SizedLibrary} {next : UInt16}

theorem takeBytes_eq_ok {writer : TableWriter} {size : Nat} (h : size ≤ writer.versionR) :
    writer.takeBytes size = .ok { writer with versionR := writer.versionR - size } := by
  rw [TableWriter.takeBytes, Fallible.ensure_pos _ h]
  rfl

/-- The record of a library whose versions are needed. -/
theorem writeVerneed_eq_ok (hash : List UInt8 → UInt32) (h : Sizing library) (hnext : 2 ≤ next.toNat)
    (hfits : next.toNat + library.symbolVersionsNeeded.count true < 2 ^ 16) {info : VerneedInfo}
    (hinfo : library.sizes.verneedInfo = some info) (isLastVerneed : Bool) (writer : TableWriter)
    (hoffset : writer.strtab.nextOffset = UInt32.ofNat writer.strtab.strings.length)
    (hlength : (keptVersions library.symbolVersionsNeeded
      library.dynamic.file.definitions).length < 2 ^ 16)
    (hdynstr : library.sizes.dynstr ≤ writer.strtab.available)
    (hversionR : library.sizes.gnuVersionR ≤ writer.versionR) :
    ∃ verneed writer', writeVerneed hash library.dynamic.file.libName
        (computeVersionMapping next library.symbolVersionsNeeded) isLastVerneed info writer
          = .ok (verneed, writer') ∧
      Advances writer.strtab library.sizes.dynstr writer'.strtab ∧
      writer.versionR = writer'.versionR + library.sizes.gnuVersionR ∧
      (∃ offset, verneed.vnFile = some offset ∧
        NamedAt writer'.strtab.strings offset library.dynamic.file.libName) ∧
      verneed.auxes.map Vernaux.vnaOther
        = (keptVersions library.symbolVersionsNeeded library.dynamic.file.definitions).map
          (fun verdef => outputVersion
            (computeVersionMapping next library.symbolVersionsNeeded) verdef.vdNdx) ∧
      List.Forall₂ (fun verdef aux =>
          NamedAt writer'.strtab.strings aux.vnaName (versionName verdef))
        (keptVersions library.symbolVersionsNeeded library.dynamic.file.definitions)
        verneed.auxes := by
  rcases h.sizes with ⟨-, hsizes⟩ | ⟨-, hone, hsizes⟩
  · rw [hsizes] at hinfo
    cases hinfo
  rw [hsizes] at hinfo hdynstr hversionR ⊢
  cases hinfo
  dsimp only at hdynstr hversionR ⊢
  have hcount : (UInt16.ofNat (keptVersions library.symbolVersionsNeeded
      library.dynamic.file.definitions).length).toNat
        = (keptVersions library.symbolVersionsNeeded library.dynamic.file.definitions).length := by
    rw [UInt16.toNat_ofNat']
    omega
  obtain ⟨state, hok, hwritten⟩ := writeVerdefs_eq_ok hash hoffset h.indexes
    (fun verdef hverdef hbase => tells hfits hnext (h.places verdef hverdef hbase)) h.names hdynstr
  have hexists := List.countP_pos_iff.mp (hone ▸ Nat.one_pos)
  have hrun : ∃ verneed, writeVerneed hash library.dynamic.file.libName
      (computeVersionMapping next library.symbolVersionsNeeded) isLastVerneed {
        defs := library.dynamic.file.definitions
        versionCount := UInt16.ofNat (keptVersions library.symbolVersionsNeeded
          library.dynamic.file.definitions).length } writer
        = .ok (verneed, {
          strtab := state.strtab
          versionR := writer.versionR - sizeOfVerneed - sizeOfVernaux * (keptVersions
            library.symbolVersionsNeeded library.dynamic.file.definitions).length }) ∧
      verneed.vnFile = state.vnFile ∧ verneed.auxes = state.auxes := by
    unfold writeVerneed
    dsimp only
    rw [hcount, takeBytes_eq_ok (by omega), Fallible.bind_ok,
      takeBytes_eq_ok (by dsimp only; omega), Fallible.bind_ok, hok, Fallible.bind_ok,
      Fallible.assert, if_pos hwritten.length]
    exact ⟨_, rfl, rfl, rfl⟩
  obtain ⟨verneed, hverneed, hvnFile, hauxes⟩ := hrun
  refine ⟨verneed, _, hverneed, hwritten.strtab, ?_, ?_, ?_, ?_⟩
  · dsimp only
    omega
  · rw [hvnFile]
    exact hwritten.file hexists
  · rw [hauxes]
    exact hwritten.others
  · rw [hauxes]
    exact hwritten.names

/-- Every kept version has its auxiliary record. -/
theorem exists_aux {kept : List Verdef} {auxes : List Vernaux} {version : Verdef → UInt16}
    {Named : Verdef → Vernaux → Prop} (hothers : auxes.map Vernaux.vnaOther = kept.map version)
    (hnames : List.Forall₂ Named kept auxes) {verdef : Verdef} (h : verdef ∈ kept) :
    ∃ aux ∈ auxes, aux.vnaOther = version verdef ∧ Named verdef aux := by
  induction hnames with
  | nil => cases h
  | @cons other aux kept auxes hnamed _ ih =>
      rw [List.map_cons, List.map_cons, List.cons.injEq] at hothers
      rcases List.mem_cons.mp h with rfl | h
      · exact ⟨aux, List.mem_cons_self, hothers.1, hnamed⟩
      · obtain ⟨aux', hmem, hrest⟩ := ih hothers.2 h
        exact ⟨aux', List.mem_cons_of_mem _ hmem, hrest⟩

/-- The output indices of the kept versions are distinct and consecutive. -/
theorem keptVersions_others (hwell : library.dynamic.file.WellFormed) (h : Sizing library)
    (hbase : library.dynamic.BaseUnreferenced)
    (hfits : next.toNat + (keptVersions library.symbolVersionsNeeded
      library.dynamic.file.definitions).length < 2 ^ 16) :
    ((keptVersions library.symbolVersionsNeeded library.dynamic.file.definitions).map
        fun verdef => outputVersion (computeVersionMapping next library.symbolVersionsNeeded)
          verdef.vdNdx).Nodup ∧
      ∀ verdef ∈ keptVersions library.symbolVersionsNeeded library.dynamic.file.definitions,
        next.toNat ≤ (outputVersion (computeVersionMapping next library.symbolVersionsNeeded)
          verdef.vdNdx).toNat ∧
        (outputVersion (computeVersionMapping next library.symbolVersionsNeeded)
          verdef.vdNdx).toNat < next.toNat + (keptVersions library.symbolVersionsNeeded
            library.dynamic.file.definitions).length := by
  have hcount := count_needed_le hwell hbase h.needed h.indexes
  have hfits' : next.toNat + library.symbolVersionsNeeded.count true < 2 ^ 16 := by omega
  constructor
  · refine List.Nodup.map_on ?_ (hwell.distinct.of_map.filter _)
    intro a ha b hb hsame
    obtain ⟨hamem, -, haneeded⟩ := mem_keptVersions.mp ha
    obtain ⟨hbmem, -, hbneeded⟩ := mem_keptVersions.mp hb
    exact List.inj_on_of_nodup_map hwell.distinct hamem hbmem (outputVersion_inj hfits'
      (h.indexes a hamem) (h.indexes b hbmem) haneeded hbneeded hsame)
  · intro verdef hverdef
    obtain ⟨-, -, hneeded⟩ := mem_keptVersions.mp hverdef
    have := neededBefore_lt_count hneeded
    rw [outputVersion_toNat hfits' hneeded]
    omega

/-- An undefined symbol was requested, so that its version has an output index. -/
theorem copySymbolVersion_eq_ok (next : UInt16) (h : Sizing library) {symbol : Nat}
    (hsymbol : symbol ∈ library.dynamic.undefinedSymbols) :
    symbol < library.dynamic.file.symbolNames.length ∧
      symbol ∈ library.dynamic.requested ∧
      ∃ version, copySymbolVersion library.dynamic.file.versym symbol
        (computeVersionMapping next library.symbolVersionsNeeded) = .ok version := by
  rw [Dynamic.undefinedSymbols, List.mem_filter, List.mem_range, Bool.and_eq_true,
    List.contains_iff_mem] at hsymbol
  obtain ⟨hlt, hrequested, -⟩ := hsymbol
  refine ⟨hlt, hrequested, ?_⟩
  rw [copySymbolVersion_eq]
  cases hspecial : isSpecial (inputVersion library.dynamic.file symbol) with
  | true => exact ⟨_, rfl⟩
  | false =>
      have hneeded := ((loadSymbols_eq_ok h.needed).2 _).mpr ⟨symbol, hrequested, hspecial, rfl⟩
      rw [if_neg (by decide), computeVersionMapping_of_needed next hneeded]
      exact ⟨_, rfl⟩

/-- Writing a library uses up what was reserved for it. -/
theorem writeDynamicFile_eq_ok (hash : List UInt8 → UInt32)
    (hwell : library.dynamic.file.WellFormed) (h : Sizing library)
    (hbase : library.dynamic.BaseUnreferenced) (hnext : 2 ≤ next.toNat)
    (hfits : next.toNat + (keptVersions library.symbolVersionsNeeded
      library.dynamic.file.definitions).length < 2 ^ 16) (isLastVerneed : Bool)
    {writer : TableWriter}
    (hoffset : writer.strtab.nextOffset = UInt32.ofNat writer.strtab.strings.length)
    (hdynstr : nameSizes library.dynamic + library.sizes.dynstr ≤ writer.strtab.available)
    (hversionR : library.sizes.gnuVersionR ≤ writer.versionR) :
    ∃ output writer', writeDynamicFile hash {
          dynamic := library.dynamic
          verneedInfo := library.sizes.verneedInfo
          versionMapping := computeVersionMapping next library.symbolVersionsNeeded
          isLastVerneed := isLastVerneed } writer = .ok (output, writer') ∧
      Advances writer.strtab (nameSizes library.dynamic + library.sizes.dynstr) writer'.strtab ∧
      writer.versionR = writer'.versionR + library.sizes.gnuVersionR ∧
      Survives library.dynamic writer'.strtab.strings output ∧
      (output.auxes.map Vernaux.vnaOther).Nodup ∧
      (∀ aux ∈ output.auxes, next.toNat ≤ aux.vnaOther.toNat ∧
        aux.vnaOther.toNat < next.toNat + (keptVersions library.symbolVersionsNeeded
          library.dynamic.file.definitions).length) ∧
      output.verneed.isSome = library.sizes.verneedInfo.isSome := by
  have hcount := count_needed_le hwell hbase h.needed h.indexes
  have hfits' : next.toNat + library.symbolVersionsNeeded.count true < 2 ^ 16 := by omega
  obtain ⟨hdistinct, hrange⟩ := keptVersions_others hwell h hbase hfits
  unfold nameSizes at hdynstr
  obtain ⟨_, soname, hsoname, hadvances, -⟩ :=
    writeStr_eq_ok library.dynamic.file.libName hoffset (by omega)
  have hleft := hadvances.available
  obtain ⟨versym, symbols, hversym, hadvances', hkeys, hversions⟩ := writeUndefinedSymbols_eq_ok
    library.dynamic.file (computeVersionMapping next library.symbolVersionsNeeded)
    library.dynamic.undefinedSymbols hadvances.nextOffset
    (fun symbol hsymbol => ⟨(copySymbolVersion_eq_ok next h hsymbol).1,
      (copySymbolVersion_eq_ok next h hsymbol).2.2⟩) (by omega)
  have hleft' := hadvances'.available
  have hnamed := hadvances.trans hadvances'
  have hspecial : ∀ entry ∈ versym, isSpecial (inputVersion library.dynamic.file entry.1) = true →
      entry.2 = inputVersion library.dynamic.file entry.1 := by
    intro entry hentry hspecial
    have hcopy := hversions entry hentry
    rw [copySymbolVersion_eq, if_pos hspecial] at hcopy
    exact (Except.ok.inj hcopy).symm
  cases hinfo : library.sizes.verneedInfo with
  | none =>
      rcases h.sizes with ⟨hnil, hsizes⟩ | ⟨-, -, hsizes⟩
      · refine ⟨⟨versym, none⟩, { writer with strtab := symbols }, ?_, ?_, ?_, ⟨hkeys, hspecial, ?_⟩,
          List.nodup_nil, ?_, rfl⟩
        · unfold writeDynamicFile
          dsimp only
          rw [hsoname, Fallible.bind_ok, hversym]
          rfl
        · rw [hsizes]
          exact hnamed
        · rw [hsizes]
          rfl
        · -- no version is kept, so that no requested symbol has one
          intro entry hentry hnot
          have hsymbol : entry.1 ∈ library.dynamic.undefinedSymbols := by
            rw [← hkeys]
            exact List.mem_map_of_mem hentry
          obtain ⟨verdef, hverdef, -⟩ := exists_kept hwell hbase h.needed h.indexes
            (copySymbolVersion_eq_ok next h hsymbol).2.1 hnot
          rw [hnil] at hverdef
          cases hverdef
        · intro aux haux
          cases haux
      · rw [hsizes] at hinfo
        cases hinfo
  | some info =>
      obtain ⟨verneed, writer', hwrite, hadvances'', hversionR', hfile, hothers, hnames⟩ :=
        writeVerneed_eq_ok hash h hnext hfits' hinfo isLastVerneed
          { writer with strtab := symbols } hnamed.nextOffset (by omega)
          (by dsimp only; omega) hversionR
      refine ⟨⟨versym, some verneed⟩, writer', ?_, hnamed.trans hadvances'', hversionR',
        ⟨hkeys, hspecial, ?_⟩, ?_, ?_, rfl⟩
      · unfold writeDynamicFile
        dsimp only
        rw [hsoname, Fallible.bind_ok, hversym, Fallible.bind_ok, writeVerneedInfo]
        dsimp only
        rw [hwrite]
        rfl
      · intro entry hentry hnot
        have hsymbol : entry.1 ∈ library.dynamic.undefinedSymbols := by
          rw [← hkeys]
          exact List.mem_map_of_mem hentry
        obtain ⟨verdef, hverdef, hindex⟩ := exists_kept hwell hbase h.needed h.indexes
          (copySymbolVersion_eq_ok next h hsymbol).2.1 hnot
        obtain ⟨hmem, hbaseFalse, hneeded⟩ := mem_keptVersions.mp hverdef
        obtain ⟨aux, haux, hother, hat⟩ := exists_aux hothers hnames hverdef
        refine ⟨verdef, hmem, hindex, hbaseFalse, verneed, rfl, hfile, aux, haux, ?_,
          versionName verdef, h.names verdef hverdef, hat⟩
        have hcopy := hversions entry hentry
        rw [copySymbolVersion_eq, hnot, if_neg (by decide), ← hindex, Fallible.unwrap_eq_ok] at hcopy
        rw [hother, outputVersion, hcopy]
        rfl
      · rw [DynamicOutput.auxes, hothers]
        exact hdistinct
      · intro aux haux
        have hmem : aux.vnaOther ∈ verneed.auxes.map Vernaux.vnaOther := List.mem_map_of_mem haux
        rw [hothers] at hmem
        obtain ⟨verdef, hverdef, heq⟩ := List.mem_map.mp hmem
        rw [← heq]
        exact hrange verdef hverdef

end File

end JdxLinker.SymbolVersion
