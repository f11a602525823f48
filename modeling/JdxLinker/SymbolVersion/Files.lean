import JdxLinker.SymbolVersion.Records

/-!
# The output for a library

What is written for a library that was laid out: its undefined symbols and its record use up the
reservation, and every symbol version leads to the auxiliary record with the version's name.
-/

namespace JdxLinker.SymbolVersion

/-! ### Sizes -/

/-- What is known of a library whose sizes were computed. -/
structure Sizing (library : SizedLibrary) : Prop where
  needed : loadSymbols library.dynamic = .ok library.symbolVersionsNeeded
  indexes : ∀ verdef ∈ library.dynamic.file.definitions, verdef.vdNdx ≠ verNdxLocal
  places : ∀ verdef ∈ library.dynamic.file.definitions, verdef.isBase = false →
    tableIndex verdef.vdNdx < library.symbolVersionsNeeded.length
  names : ∀ verdef ∈ keptVersions library.symbolVersionsNeeded library.dynamic.file.definitions,
    verdef.auxNames.head? = some (versionName verdef)
  sizes :
    (keptVersions library.symbolVersionsNeeded library.dynamic.file.definitions = [] ∧
      library.sizes = { verneedInfo := none, dynstr := 0, gnuVersionR := 0 }) ∨
    (keptVersions library.symbolVersionsNeeded library.dynamic.file.definitions ≠ [] ∧
      library.dynamic.file.definitions.countP Verdef.isBase = 1 ∧
      library.sizes = {
        verneedInfo := some {
          defs := library.dynamic.file.definitions
          versionCount := UInt16.ofNat
            (keptVersions library.symbolVersionsNeeded library.dynamic.file.definitions).length }
        dynstr := writtenBytes library.dynamic.file.libName library.symbolVersionsNeeded
          library.dynamic.file.definitions
        gnuVersionR := sizeOfVerneed + sizeOfVernaux *
          (keptVersions library.symbolVersionsNeeded library.dynamic.file.definitions).length })

theorem sizeLibrary_eq_ok {dynamic : Dynamic} {library : SizedLibrary}
    (hwell : dynamic.file.WellFormed) (h : sizeLibrary dynamic = .ok library) :
    library.dynamic = dynamic ∧ Sizing library := by
  obtain ⟨needed, hneeded, h⟩ := Fallible.bind_eq_ok.mp h
  obtain ⟨sizes, hsizes, h⟩ := Fallible.bind_eq_ok.mp h
  cases h
  refine ⟨rfl, ?_⟩
  unfold finaliseSizesDynamic at hsizes
  cases hverdef : dynamic.file.verdef with
  | none =>
      rw [hverdef] at hsizes
      cases hsizes
      have hnil : dynamic.file.definitions = [] := by rw [File.definitions, hverdef]; rfl
      exact ⟨hneeded, by simp [hnil], by simp [hnil], by simp [hnil, keptVersions],
        .inl ⟨by simp [hnil, keptVersions], rfl⟩⟩
  | some defs =>
      rw [hverdef] at hsizes
      have hdefs : dynamic.file.definitions = defs := by rw [File.definitions, hverdef]; rfl
      obtain ⟨counted, hcounted, hsizes⟩ := Fallible.bind_eq_ok.mp hsizes
      have hsized := Fallible.foldlM_invariant
        (Sized dynamic.file.libName needed) hcounted (sized_nil _ _)
        fun visited verdef s s' hs hstep => hs.step hstep
      subst hdefs
      have hlength := keptVersions_length_lt needed hwell hsized.indexes
      have hcount : counted.versionCount.toNat
          = (keptVersions needed dynamic.file.definitions).length := by
        rw [hsized.versionCount, UInt16.toNat_ofNat']
        omega
      refine ⟨hneeded, hsized.indexes, hsized.places, hsized.names, ?_⟩
      split at hsizes
      · rename_i hzero
        cases hsizes
        rw [hzero] at hcount
        have hnil := List.length_eq_zero_iff.mp hcount.symm
        refine .inl ⟨hnil, ?_⟩
        rw [hsized.dynstr, hnil]
        rfl
      · rename_i hzero
        cases hsizes
        have hone := hwell.oneBase _ hverdef
        have hexists := List.countP_pos_iff.mp (hone ▸ Nat.one_pos)
        refine .inr ⟨fun hnil => hzero ?_, hone, ?_⟩
        · rw [hsized.versionCount, hnil]
          rfl
        · rw [hcount, hsized.dynstr, hsized.baseSize hexists, ← hsized.versionCount, writtenBytes,
            hone, Nat.one_mul, Nat.mul_comm sizeOfVernaux]

/-! ### Output versions -/

section Output

variable {needed : List Bool} {next : UInt16}

theorem outputVersion_toNat (hfits : next.toNat + needed.count true < 2 ^ 16) {index : UInt16}
    (h : needed[tableIndex index]? = some true) :
    (outputVersion (computeVersionMapping next needed) index).toNat
      = next.toNat + neededBefore needed (tableIndex index) := by
  obtain ⟨version, hversion, htoNat⟩ := computeVersionMapping_toNat hfits h
  rw [outputVersion, hversion]
  exact htoNat

/-- Output indices start after the global index, which tells the needed versions from the others. -/
theorem tells (hfits : next.toNat + needed.count true < 2 ^ 16) (hnext : 2 ≤ next.toNat)
    {verdef : Verdef} (hplace : tableIndex verdef.vdNdx < needed.length) :
    Tells needed (computeVersionMapping next needed) verdef := by
  unfold Tells
  cases hneeded : needed[tableIndex verdef.vdNdx] with
  | true =>
      have htrue : needed[tableIndex verdef.vdNdx]? = some true := by
        rw [List.getElem?_eq_getElem hplace, hneeded]
      have htoNat := outputVersion_toNat hfits htrue
      constructor
      · intro hglobal
        rw [hglobal] at htoNat
        have : verNdxGlobal.toNat = 1 := rfl
        omega
      · exact fun hnot => absurd htrue hnot
  | false =>
      have hfalse : needed[tableIndex verdef.vdNdx]? = some false := by
        rw [List.getElem?_eq_getElem hplace, hneeded]
      constructor
      · intro _
        rw [hfalse]
        simp
      · intro _
        rw [outputVersion, computeVersionMapping_of_not_needed next hfalse]
        rfl

/-- Different needed versions get different output indices. -/
theorem outputVersion_inj (hfits : next.toNat + needed.count true < 2 ^ 16) {a b : UInt16}
    (ha : a ≠ verNdxLocal) (hb : b ≠ verNdxLocal) (hneededA : needed[tableIndex a]? = some true)
    (hneededB : needed[tableIndex b]? = some true)
    (h : outputVersion (computeVersionMapping next needed) a
      = outputVersion (computeVersionMapping next needed) b) : a = b := by
  have hsame := congrArg UInt16.toNat h
  rw [outputVersion_toNat hfits hneededA, outputVersion_toNat hfits hneededB] at hsame
  refine tableIndex_inj ha hb ?_
  rcases Nat.lt_trichotomy (tableIndex a) (tableIndex b) with hlt | heq | hlt
  · have := neededBefore_lt hneededA hlt
    omega
  · exact heq
  · have := neededBefore_lt hneededB hlt
    omega

end Output

/-! ### Symbols -/

/-- The version that is written for a symbol. -/
theorem copySymbolVersion_eq (file : File) (symbol : Nat) (mapping : List UInt16) :
    copySymbolVersion file.versym symbol mapping
      = if isSpecial (inputVersion file symbol) then
          .ok (inputVersion file symbol)
        else
          Fallible.unwrap mapping[tableIndex (inputVersion file symbol)]? := by
  unfold copySymbolVersion inputVersion
  cases file.versym[symbol]? with
  | none => rfl
  | some versym => rfl

theorem writeUndefinedSymbols_eq_ok (file : File) (mapping : List UInt16) (symbols : List Nat)
    {strtab : StrTabWriter} (hoffset : strtab.nextOffset = UInt32.ofNat strtab.strings.length)
    (hsymbols : ∀ symbol ∈ symbols, symbol < file.symbolNames.length ∧
      ∃ version, copySymbolVersion file.versym symbol mapping = .ok version)
    (hfits : (symbols.map fun symbol => (file.symbolNames.getD symbol []).length + 1).sum
      ≤ strtab.available) :
    ∃ entries strtab', writeUndefinedSymbols file mapping strtab symbols = .ok (entries, strtab') ∧
      Advances strtab (symbols.map fun symbol =>
        (file.symbolNames.getD symbol []).length + 1).sum strtab' ∧
      entries.map Prod.fst = symbols ∧
      ∀ entry ∈ entries, copySymbolVersion file.versym entry.1 mapping = .ok entry.2 := by
  induction symbols generalizing strtab with
  | nil => exact ⟨[], strtab, rfl, .refl hoffset, rfl, by simp⟩
  | cons symbol symbols ih =>
      obtain ⟨hlt, version, hversion⟩ := hsymbols symbol List.mem_cons_self
      have hname : file.symbolNames[symbol]? = some (file.symbolNames.getD symbol []) := by
        rw [List.getD_eq_getElem?_getD, List.getElem?_eq_getElem hlt]
        rfl
      rw [List.map_cons, List.sum_cons] at hfits ⊢
      obtain ⟨offset, next, hok, hadvances, -⟩ :=
        writeStr_eq_ok (file.symbolNames.getD symbol []) hoffset (by omega)
      have hnext := hadvances.available
      obtain ⟨entries, strtab', hrest, hadvances', hkeys, hversions⟩ :=
        ih hadvances.nextOffset (fun other hother => hsymbols other (List.mem_cons_of_mem _ hother))
          (by omega)
      refine ⟨(symbol, version) :: entries, strtab', ?_, hadvances.trans hadvances', ?_, ?_⟩
      · have hone : writeUndefinedSymbol file mapping strtab symbol
            = .ok ((symbol, version), next) := by
          rw [writeUndefinedSymbol, hname]
          simp only [Fallible.unwrap, Fallible.bind_ok, hok, hversion]
          rfl
        rw [writeUndefinedSymbols, hone, Fallible.bind_ok]
        exact Fallible.bind_eq_ok.mpr ⟨(entries, strtab'), hrest, rfl⟩
      · rw [List.map_cons, hkeys]
      · intro entry hentry
        rcases List.mem_cons.mp hentry with rfl | hentry
        · exact hversion
        · exact hversions entry hentry

end JdxLinker.SymbolVersion
