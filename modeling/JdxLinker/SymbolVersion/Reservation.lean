import JdxLinker.SymbolVersion.Library
import JdxLinker.Lib.Lists

/-!
# Needed versions and their output indices

A version is needed exactly if a requested symbol has it. The needed versions of a library get
consecutive output indices in the order of their input indices.
-/

namespace JdxLinker.SymbolVersion

/-! ### Needed versions -/

theorem markVersionAsNeeded_eq_ok {needed needed' : List Bool} {versym : UInt16}
    (h : markVersionAsNeeded needed versym = .ok needed') :
    needed'.length = needed.length ∧ ∀ p, needed'[p]? = some true ↔
      needed[p]? = some true ∨
        isSpecial (versymIndex versym) = false ∧ tableIndex (versymIndex versym) = p := by
  unfold markVersionAsNeeded at h
  dsimp only at h
  split at h
  · rename_i hspecial
    cases h
    exact ⟨rfl, fun p => by simp [hspecial]⟩
  · rename_i hspecial
    obtain ⟨⟨⟩, hlt, h⟩ := Fallible.bind_eq_ok.mp h
    have hlt := Fallible.ensure_eq_ok.mp hlt
    cases h
    refine ⟨List.length_set, fun p => ?_⟩
    rw [Bool.not_eq_true] at hspecial
    by_cases hp : tableIndex (versymIndex versym) = p
    · subst hp
      simp [List.getElem?_set_self hlt, hspecial]
    · simp [List.getElem?_set_ne hp, hp]

/-- The version of a symbol of a library. Symbols without a version table entry are global. -/
def inputVersion (file : File) (symbol : Nat) : UInt16 :=
  match file.versym[symbol]? with
  | some versym => versymIndex versym
  | none => verNdxGlobal

theorem dynamicSymbolUsed_eq_ok {file : File} {needed needed' : List Bool} {symbol : Nat}
    (h : dynamicSymbolUsed file needed symbol = .ok needed') :
    needed'.length = needed.length ∧ ∀ p, needed'[p]? = some true ↔
      needed[p]? = some true ∨
        isSpecial (inputVersion file symbol) = false ∧ tableIndex (inputVersion file symbol) = p := by
  unfold dynamicSymbolUsed at h
  unfold inputVersion
  cases hversym : file.versym[symbol]? with
  | some versym =>
      rw [hversym] at h
      exact markVersionAsNeeded_eq_ok h
  | none =>
      rw [hversym] at h
      cases h
      exact ⟨rfl, fun p => by simp [isSpecial]⟩

/-- The needed versions are those of the requested symbols. -/
theorem loadSymbols_eq_ok {dynamic : Dynamic} {needed : List Bool}
    (h : loadSymbols dynamic = .ok needed) :
    needed.length = dynamic.file.verdefnum ∧ ∀ p, needed[p]? = some true ↔
      ∃ symbol ∈ dynamic.requested, isSpecial (inputVersion dynamic.file symbol) = false ∧
        tableIndex (inputVersion dynamic.file symbol) = p := by
  refine Fallible.foldlM_invariant
    (fun visited needed => needed.length = dynamic.file.verdefnum ∧
      ∀ p, needed[p]? = some true ↔ ∃ symbol ∈ visited,
        isSpecial (inputVersion dynamic.file symbol) = false ∧
          tableIndex (inputVersion dynamic.file symbol) = p) h ?_ ?_
  · refine ⟨List.length_replicate, fun p => ?_⟩
    rw [List.getElem?_replicate]
    split <;> simp
  · rintro visited symbol needed needed' ⟨hlength, hmem⟩ hstep
    obtain ⟨hlength', hmem'⟩ := dynamicSymbolUsed_eq_ok hstep
    refine ⟨hlength'.trans hlength, fun p => ?_⟩
    rw [hmem', hmem]
    simp [or_and_right, exists_or]

/-! ### Output indices -/

/-- The number of needed versions before a place. -/
def neededBefore (needed : List Bool) (p : Nat) : Nat := (needed.take p).count true

theorem neededBefore_lt_count {needed : List Bool} {p : Nat} (h : needed[p]? = some true) :
    neededBefore needed p < needed.count true := by
  obtain ⟨hlt, hget⟩ := List.getElem?_eq_some_iff.mp h
  have hsplit : needed.count true = neededBefore needed p + (needed.drop p).count true := by
    rw [neededBefore, ← List.count_append, List.take_append_drop]
  rw [hsplit, List.drop_eq_getElem_cons hlt, hget, List.count_cons_self]
  omega

theorem neededBefore_lt {needed : List Bool} {p q : Nat} (h : needed[p]? = some true)
    (hlt : p < q) : neededBefore needed p < neededBefore needed q := by
  have htake : (needed.take q)[p]? = some true := by rw [List.getElem?_take_of_lt hlt, h]
  have := neededBefore_lt_count htake
  rwa [neededBefore, List.take_take, min_eq_left hlt.le] at this

theorem computeVersionMapping_length (next : UInt16) (needed : List Bool) :
    (computeVersionMapping next needed).length = needed.length := by
  induction needed generalizing next with
  | nil => rfl
  | cons b needed ih =>
      cases b <;> simp only [computeVersionMapping, List.length_cons, ih]

theorem computeVersionMapping_of_not_needed {needed : List Bool} (next : UInt16) {p : Nat}
    (h : needed[p]? = some false) :
    (computeVersionMapping next needed)[p]? = some verNdxGlobal := by
  induction needed generalizing next p with
  | nil => cases h
  | cons b needed ih =>
      cases p with
      | zero =>
          obtain rfl : b = false := by simpa using h
          rfl
      | succ p =>
          cases b
          · exact ih next (by simpa using h)
          · exact ih (next + 1) (by simpa using h)

theorem computeVersionMapping_of_needed {needed : List Bool} (next : UInt16) {p : Nat}
    (h : needed[p]? = some true) :
    (computeVersionMapping next needed)[p]?
      = some (next + UInt16.ofNat (neededBefore needed p)) := by
  induction needed generalizing next p with
  | nil => cases h
  | cons b needed ih =>
      cases p with
      | zero =>
          obtain rfl : b = true := by simpa using h
          simp [computeVersionMapping, neededBefore]
      | succ p =>
          have hrest : needed[p]? = some true := by simpa using h
          cases b
          · simpa [computeVersionMapping, neededBefore] using ih next hrest
          · have hnext := ih (next + 1) hrest
            rw [computeVersionMapping, List.getElem?_cons_succ, hnext, neededBefore,
              neededBefore, List.take_succ_cons, List.count_cons_self, UInt16.ofNat_add,
              UInt16.add_comm (UInt16.ofNat _), ← UInt16.add_assoc]
            rfl

/-- The output index of a needed version does not wrap. -/
theorem computeVersionMapping_toNat {needed : List Bool} {next : UInt16}
    (hfits : next.toNat + needed.count true < 2 ^ 16) {p : Nat} (h : needed[p]? = some true) :
    ∃ index, (computeVersionMapping next needed)[p]? = some index ∧
      index.toNat = next.toNat + neededBefore needed p := by
  refine ⟨_, computeVersionMapping_of_needed next h, ?_⟩
  have := neededBefore_lt_count h
  rw [UInt16.toNat_add, UInt16.toNat_ofNat']
  omega

end JdxLinker.SymbolVersion

/-!
## The reservation for a library

The walk that counts keeps the version definitions that are needed, in their order. In a library with
well-formed definitions they are as many as the indices that the needed versions take.
-/

namespace JdxLinker.SymbolVersion

/-- The versions that get auxiliary records. -/
def keptVersions (needed : List Bool) (defs : List Verdef) : List Verdef :=
  defs.filter fun verdef => !verdef.isBase && needed[tableIndex verdef.vdNdx]?.getD false

def versionName (verdef : Verdef) : List UInt8 := verdef.auxNames.headD []

/-- The bytes of strings with their terminators. -/
def stringBytes (strings : List (List UInt8)) : Nat := (strings.map fun str => str.length + 1).sum

theorem stringBytes_append (a b : List (List UInt8)) :
    stringBytes (a ++ b) = stringBytes a + stringBytes b := by
  simp [stringBytes]

theorem stringBytes_singleton (str : List UInt8) : stringBytes [str] = str.length + 1 := by
  simp [stringBytes]

theorem keptVersions_append (needed : List Bool) (defs : List Verdef) (verdef : Verdef) :
    keptVersions needed (defs ++ [verdef])
      = keptVersions needed defs
        ++ if !verdef.isBase && needed[tableIndex verdef.vdNdx]?.getD false then
            [verdef]
          else
            [] := by
  rw [keptVersions, List.filter_append, List.filter_singleton, Bool.cond_eq_ite]
  rfl

theorem mem_keptVersions {needed : List Bool} {defs : List Verdef} {verdef : Verdef} :
    verdef ∈ keptVersions needed defs ↔
      verdef ∈ defs ∧ verdef.isBase = false ∧
        needed[tableIndex verdef.vdNdx]? = some true := by
  rw [keptVersions, List.mem_filter, Bool.and_eq_true, Bool.not_eq_true', Option.getD_eq_iff]
  simp

/-! ### Sizes -/

/-- What the counting walk found. -/
structure Sized (libName : List UInt8) (needed : List Bool) (defs : List Verdef)
    (sizes : VersionSizes) : Prop where
  indexes : ∀ verdef ∈ defs, verdef.vdNdx ≠ verNdxLocal
  places : ∀ verdef ∈ defs, verdef.isBase = false → tableIndex verdef.vdNdx < needed.length
  names : ∀ verdef ∈ keptVersions needed defs, verdef.auxNames.head? = some (versionName verdef)
  dynstr : sizes.dynstr = stringBytes ((keptVersions needed defs).map versionName)
  versionCount : sizes.versionCount = UInt16.ofNat (keptVersions needed defs).length
  baseSize : (∃ verdef ∈ defs, verdef.isBase = true) → sizes.baseSize = libName.length + 1

theorem sized_nil (libName : List UInt8) (needed : List Bool) :
    Sized libName needed [] { dynstr := 0, versionCount := 0, baseSize := 0 } where
  indexes := by simp
  places := by simp
  names := by simp [keptVersions]
  dynstr := rfl
  versionCount := rfl
  baseSize := by simp

theorem Sized.step {libName : List UInt8} {needed : List Bool} {defs : List Verdef}
    {sizes sizes' : VersionSizes} {verdef : Verdef} (h : Sized libName needed defs sizes)
    (hstep : sizeVerdef libName needed sizes verdef = .ok sizes') :
    Sized libName needed (defs ++ [verdef]) sizes' := by
  obtain ⟨⟨⟩, hindex, hstep⟩ := Fallible.bind_eq_ok.mp hstep
  have hindex := Fallible.ensure_eq_ok.mp hindex
  obtain ⟨keeps, hkeeps, hstep⟩ := Fallible.bind_eq_ok.mp hstep
  have hindexes : ∀ other ∈ defs ++ [verdef], other.vdNdx ≠ verNdxLocal := by
    intro other hother
    rcases List.mem_append.mp hother with hother | hother
    · exact h.indexes other hother
    · rwa [List.mem_singleton.mp hother]
  cases hbase : verdef.isBase with
  | true =>
      -- the base version has the name of the library
      rw [keepsVerdef, if_pos hbase] at hkeeps
      cases hkeeps
      rw [if_neg (by decide), if_pos hbase] at hstep
      cases hstep
      have hkept : keptVersions needed (defs ++ [verdef]) = keptVersions needed defs := by
        rw [keptVersions_append, hbase]
        exact List.append_nil _
      refine ⟨hindexes, fun other hother hfalse => ?_, ?_, ?_, ?_, fun _ => rfl⟩
      · rcases List.mem_append.mp hother with hother | hother
        · exact h.places other hother hfalse
        · rw [List.mem_singleton.mp hother, hbase] at hfalse
          cases hfalse
      · rw [hkept]
        exact h.names
      · rw [hkept]
        exact h.dynstr
      · rw [hkept]
        exact h.versionCount
  | false =>
      rw [keepsVerdef, hbase, if_neg (by decide)] at hkeeps
      have hplace := Fallible.context_eq_ok.mp hkeeps
      have hplaces : ∀ other ∈ defs ++ [verdef], other.isBase = false →
          tableIndex other.vdNdx < needed.length := by
        intro other hother hfalse
        rcases List.mem_append.mp hother with hother | hother
        · exact h.places other hother hfalse
        · rw [List.mem_singleton.mp hother]
          exact (List.getElem?_eq_some_iff.mp hplace).1
      have hbases : (∃ other ∈ defs ++ [verdef], other.isBase = true) →
          sizes.baseSize = libName.length + 1 := by
        rintro ⟨other, hother, htrue⟩
        rcases List.mem_append.mp hother with hother | hother
        · exact h.baseSize ⟨other, hother, htrue⟩
        · rw [List.mem_singleton.mp hother, hbase] at htrue
          cases htrue
      cases keeps with
      | false =>
          -- a version that no symbol has
          cases hstep
          have hkept : keptVersions needed (defs ++ [verdef]) = keptVersions needed defs := by
            rw [keptVersions_append, hbase, hplace]
            exact List.append_nil _
          exact ⟨hindexes, hplaces, by rw [hkept]; exact h.names, by rw [hkept]; exact h.dynstr,
            by rw [hkept]; exact h.versionCount, hbases⟩
      | true =>
          -- a needed version
          rw [if_neg (by decide), hbase, if_neg (by decide)] at hstep
          obtain ⟨name, hname, hstep⟩ := Fallible.bind_eq_ok.mp hstep
          have hname := Fallible.context_eq_ok.mp hname
          have hversionName : versionName verdef = name := by
            rw [versionName, List.headD_eq_head?_getD, hname]
            rfl
          cases hstep
          have hkept : keptVersions needed (defs ++ [verdef])
              = keptVersions needed defs ++ [verdef] := by
            rw [keptVersions_append, hbase, hplace]
            rfl
          refine ⟨hindexes, hplaces, ?_, ?_, ?_, hbases⟩
          · intro other hother
            rw [hkept] at hother
            rcases List.mem_append.mp hother with hother | hother
            · exact h.names other hother
            · rw [List.mem_singleton.mp hother, hname, hversionName]
          · rw [hkept, List.map_append, List.map_singleton, stringBytes_append,
              stringBytes_singleton, hversionName, ← h.dynstr]
          · dsimp only
            rw [hkept, List.length_append, List.length_singleton, h.versionCount,
              UInt16.ofNat_add]
            rfl

/-! ### Well-formed definitions -/

def File.definitions (file : File) : List Verdef := file.verdef.getD []

/-- The version definitions of a library: one of them is the base version, and their indices are
distinct and not above their number. -/
structure File.WellFormed (file : File) : Prop where
  oneBase : ∀ defs, file.verdef = some defs → defs.countP Verdef.isBase = 1
  distinct : (file.definitions.map Verdef.vdNdx).Nodup
  bounded : ∀ verdef ∈ file.definitions, verdef.vdNdx.toNat < file.definitions.length + 1
  count : file.verdefnum = file.definitions.length

theorem File.WellFormed.numbers_nodup {file : File} (h : file.WellFormed) :
    (file.definitions.map fun verdef => verdef.vdNdx.toNat).Nodup := by
  have := h.distinct.map fun a b => UInt16.toNat_inj.mp
  rwa [List.map_map] at this

/-- No requested symbol has the base version of its library, other than as the global version. -/
def Dynamic.BaseUnreferenced (dynamic : Dynamic) : Prop :=
  ∀ symbol ∈ dynamic.requested, isSpecial (inputVersion dynamic.file symbol) = false →
    ∀ verdef ∈ dynamic.file.definitions, verdef.vdNdx = inputVersion dynamic.file symbol →
      verdef.isBase = false

theorem tableIndex_toNat {index : UInt16} (h : index ≠ verNdxLocal) :
    tableIndex index = index.toNat - 1 := by
  have hpos : index.toNat ≠ 0 := fun hzero => h (UInt16.toNat_inj.mp hzero)
  have hlt := index.toNat_lt
  have hone : verNdxGlobal.toNat = 1 := rfl
  rw [tableIndex, UInt16.toNat_sub, hone]
  omega

theorem not_local_of_not_special {index : UInt16} (h : isSpecial index = false) :
    index ≠ verNdxLocal ∧ index ≠ verNdxGlobal := by
  unfold isSpecial at h
  simpa using h

/-- Different indices have different places. -/
theorem tableIndex_inj {a b : UInt16} (ha : a ≠ verNdxLocal) (hb : b ≠ verNdxLocal)
    (h : tableIndex a = tableIndex b) : a = b := by
  have hapos : a.toNat ≠ 0 := fun hzero => ha (UInt16.toNat_inj.mp hzero)
  have hbpos : b.toNat ≠ 0 := fun hzero => hb (UInt16.toNat_inj.mp hzero)
  rw [tableIndex_toNat ha, tableIndex_toNat hb] at h
  exact UInt16.toNat_inj.mp (by omega)

section WellFormed

variable {dynamic : Dynamic} {needed : List Bool}

/-- Every index up to the number of definitions is that of a definition. -/
theorem File.WellFormed.exists_definition (h : dynamic.file.WellFormed)
    (hindexes : ∀ verdef ∈ dynamic.file.definitions, verdef.vdNdx ≠ verNdxLocal) {index : UInt16}
    (hindex : index ≠ verNdxLocal) (hlt : tableIndex index < dynamic.file.verdefnum) :
    ∃ verdef ∈ dynamic.file.definitions, verdef.vdNdx = index := by
  have hpos : index.toNat ≠ 0 := fun hzero => hindex (UInt16.toNat_inj.mp hzero)
  rw [tableIndex_toNat hindex, h.count] at hlt
  have hmem := Lists.mem_of_nodup_of_le_length h.numbers_nodup (n := index.toNat) ?_ (by omega)
    (by rw [List.length_map]; omega)
  · obtain ⟨verdef, hverdef, heq⟩ := List.mem_map.mp hmem
    exact ⟨verdef, hverdef, UInt16.toNat_inj.mp heq⟩
  · intro n hn
    obtain ⟨verdef, hverdef, rfl⟩ := List.mem_map.mp hn
    have hne : verdef.vdNdx.toNat ≠ 0 :=
      fun hzero => hindexes verdef hverdef (UInt16.toNat_inj.mp hzero)
    have := h.bounded verdef hverdef
    rw [List.length_map]
    omega

/-- The version of a requested symbol is kept. -/
theorem exists_kept (h : dynamic.file.WellFormed) (hbase : dynamic.BaseUnreferenced)
    (hneeded : loadSymbols dynamic = .ok needed)
    (hindexes : ∀ verdef ∈ dynamic.file.definitions, verdef.vdNdx ≠ verNdxLocal) {symbol : Nat}
    (hsymbol : symbol ∈ dynamic.requested)
    (hspecial : isSpecial (inputVersion dynamic.file symbol) = false) :
    ∃ verdef ∈ keptVersions needed dynamic.file.definitions,
      verdef.vdNdx = inputVersion dynamic.file symbol := by
  obtain ⟨hlength, hmem⟩ := loadSymbols_eq_ok hneeded
  have htrue := (hmem _).mpr ⟨symbol, hsymbol, hspecial, rfl⟩
  have hlt := (List.getElem?_eq_some_iff.mp htrue).1
  obtain ⟨verdef, hverdef, heq⟩ := h.exists_definition hindexes
    (not_local_of_not_special hspecial).1 (by rwa [← hlength])
  exact ⟨verdef, mem_keptVersions.mpr ⟨hverdef,
    hbase symbol hsymbol hspecial verdef hverdef heq, by rw [heq, htrue]⟩, heq⟩

/-- The needed versions take no more indices than there are kept versions. -/
theorem count_needed_le (h : dynamic.file.WellFormed) (hbase : dynamic.BaseUnreferenced)
    (hneeded : loadSymbols dynamic = .ok needed)
    (hindexes : ∀ verdef ∈ dynamic.file.definitions, verdef.vdNdx ≠ verNdxLocal) :
    needed.count true ≤ (keptVersions needed dynamic.file.definitions).length := by
  rw [← List.length_map (f := fun verdef => tableIndex verdef.vdNdx)]
  refine Lists.count_true_le fun p hp => ?_
  obtain ⟨symbol, hsymbol, hspecial, rfl⟩ := ((loadSymbols_eq_ok hneeded).2 p).mp hp
  obtain ⟨verdef, hverdef, heq⟩ := exists_kept h hbase hneeded hindexes hsymbol hspecial
  exact List.mem_map.mpr ⟨verdef, hverdef, by rw [heq]⟩

/-- The count of kept versions does not wrap. -/
theorem keptVersions_length_lt (needed : List Bool) (h : dynamic.file.WellFormed)
    (hindexes : ∀ verdef ∈ dynamic.file.definitions, verdef.vdNdx ≠ verNdxLocal) :
    (keptVersions needed dynamic.file.definitions).length < 2 ^ 16 := by
  have hsub : (dynamic.file.definitions.map fun verdef => verdef.vdNdx.toNat)
      ⊆ List.range' 1 (2 ^ 16 - 1) := by
    intro n hn
    obtain ⟨verdef, hverdef, rfl⟩ := List.mem_map.mp hn
    have hne : verdef.vdNdx.toNat ≠ 0 :=
      fun hzero => hindexes verdef hverdef (UInt16.toNat_inj.mp hzero)
    have := verdef.vdNdx.toNat_lt
    exact List.mem_range'_1.mpr (by omega)
  have hle := (List.subperm_of_subset h.numbers_nodup hsub).length_le
  rw [List.length_map, List.length_range'] at hle
  have := List.length_filter_le (fun verdef =>
    !verdef.isBase && needed[tableIndex verdef.vdNdx]?.getD false) dynamic.file.definitions
  unfold keptVersions
  omega

end WellFormed

end JdxLinker.SymbolVersion
