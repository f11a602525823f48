import JdxLinker.SymbolVersion.Writer
import JdxLinker.SymbolVersion.Reservation

/-!
# The record of a library

The walk that writes visits the version definitions as the one that counts did, so that it writes an
auxiliary record for every kept version, with its name and its output index, and uses up exactly what
was reserved.
-/

namespace JdxLinker.SymbolVersion

/-! ### Strings -/

/-- A string is in the string table at an offset, which has 32 bits. -/
def NamedAt (strings : List UInt8) (offset : UInt32) (str : List UInt8) : Prop :=
  ∃ position, offset = UInt32.ofNat position ∧ (str ++ [0]) <+: strings.drop position

theorem NamedAt.mono {strings strings' : List UInt8} {offset : UInt32} {str : List UInt8}
    (h : NamedAt strings offset str) (hle : strings <+: strings') : NamedAt strings' offset str := by
  obtain ⟨position, rfl, hat⟩ := h
  exact ⟨position, rfl, hat.trans (hle.drop position)⟩

/-- A writer that wrote a number of bytes after what was there. -/
structure Advances (writer : StrTabWriter) (bytes : Nat) (writer' : StrTabWriter) : Prop where
  nextOffset : writer'.nextOffset = UInt32.ofNat writer'.strings.length
  extends_ : writer.strings <+: writer'.strings
  available : writer.available = writer'.available + bytes

theorem Advances.refl {writer : StrTabWriter}
    (h : writer.nextOffset = UInt32.ofNat writer.strings.length) : Advances writer 0 writer where
  nextOffset := h
  extends_ := List.prefix_refl _
  available := rfl

theorem Advances.trans {a b c : StrTabWriter} {m n : Nat} (hab : Advances a m b)
    (hbc : Advances b n c) : Advances a (m + n) c where
  nextOffset := hbc.nextOffset
  extends_ := hab.extends_.trans hbc.extends_
  available := by
    have := hab.available
    have := hbc.available
    omega

theorem writeStr_eq_ok {writer : StrTabWriter} (str : List UInt8)
    (hoffset : writer.nextOffset = UInt32.ofNat writer.strings.length)
    (hfits : str.length + 1 ≤ writer.available) :
    ∃ offset writer', writer.writeStr str = .ok (offset, writer') ∧
      Advances writer (str.length + 1) writer' ∧ NamedAt writer'.strings offset str := by
  refine ⟨_, _, Fallible.bind_eq_ok.mpr ⟨(), if_pos hfits, rfl⟩, ⟨?_, ?_, ?_⟩, ?_⟩
  · dsimp only
    rw [hoffset, ← UInt32.ofNat_add, List.length_append, List.length_append, List.length_singleton]
  · exact List.prefix_append ..
  · dsimp only
    omega
  · refine ⟨_, hoffset, ?_⟩
    rw [List.drop_left]

/-! ### Auxiliary records -/

section Walk

variable {hash : List UInt8 → UInt32} {libName : List UInt8} {needed : List Bool}
  {mapping : List UInt16} {start : StrTabWriter}

/-- The bytes of the names that the walk writes. -/
def writtenBytes (libName : List UInt8) (needed : List Bool) (defs : List Verdef) : Nat :=
  stringBytes ((keptVersions needed defs).map versionName)
    + defs.countP Verdef.isBase * (libName.length + 1)

/-- What the writing walk wrote. -/
structure Written (libName : List UInt8) (needed : List Bool) (mapping : List UInt16)
    (start : StrTabWriter) (defs : List Verdef) (state : VerneedState) : Prop where
  strtab : Advances start (writtenBytes libName needed defs) state.strtab
  others : state.auxes.map Vernaux.vnaOther
    = (keptVersions needed defs).map fun verdef => outputVersion mapping verdef.vdNdx
  names : List.Forall₂
    (fun verdef aux => NamedAt state.strtab.strings aux.vnaName (versionName verdef))
    (keptVersions needed defs) state.auxes
  file : (∃ verdef ∈ defs, verdef.isBase = true) →
    ∃ offset, state.vnFile = some offset ∧ NamedAt state.strtab.strings offset libName

theorem Written.length {defs : List Verdef} {state : VerneedState}
    (h : Written libName needed mapping start defs state) :
    state.auxes.length = (keptVersions needed defs).length := h.names.length_eq.symm

/-- A mapping tells the kept versions from the others. -/
def Tells (needed : List Bool) (mapping : List UInt16) (verdef : Verdef) : Prop :=
  outputVersion mapping verdef.vdNdx = verNdxGlobal ↔
    needed[tableIndex verdef.vdNdx]? ≠ some true

theorem writeVerdef_eq_ok {defs : List Verdef} {state : VerneedState} {verdef : Verdef}
    {versionCount : Nat} (h : Written libName needed mapping start defs state)
    (hindex : verdef.vdNdx ≠ verNdxLocal)
    (htells : verdef.isBase = false → Tells needed mapping verdef)
    (hname : verdef ∈ keptVersions needed [verdef] →
      verdef.auxNames.head? = some (versionName verdef))
    (hcount : (keptVersions needed (defs ++ [verdef])).length ≤ versionCount)
    (hfits : writtenBytes libName needed (defs ++ [verdef]) ≤ start.available) :
    ∃ state', writeVerdef hash libName mapping versionCount state verdef = .ok state' ∧
      Written libName needed mapping start (defs ++ [verdef]) state' := by
  have hbefore := h.strtab.available
  cases hbase : verdef.isBase with
  | true =>
      have hkept : keptVersions needed (defs ++ [verdef]) = keptVersions needed defs := by
        rw [keptVersions_append, hbase]
        exact List.append_nil _
      have hbytes : writtenBytes libName needed (defs ++ [verdef])
          = writtenBytes libName needed defs + (libName.length + 1) := by
        rw [writtenBytes, hkept, List.countP_append, List.countP_singleton, if_pos hbase, Nat.add_mul,
          Nat.one_mul, ← Nat.add_assoc]
        rfl
      obtain ⟨offset, strtab, hok, hadvances, hnamed⟩ :=
        writeStr_eq_ok libName h.strtab.nextOffset (by omega)
      refine ⟨{ state with strtab := strtab, vnFile := some offset }, ?_, ?_⟩
      · rw [writeVerdef, if_pos hbase, hok]
        rfl
      · refine ⟨?_, ?_, ?_, fun _ => ⟨offset, rfl, hnamed⟩⟩
        · rw [hbytes]
          exact h.strtab.trans hadvances
        · rw [hkept]
          exact h.others
        · rw [hkept]
          exact h.names.imp fun _ _ hat => hat.mono hadvances.extends_
  | false =>
      have hfile : (∃ other ∈ defs ++ [verdef], other.isBase = true) →
          ∃ other ∈ defs, other.isBase = true := by
        rintro ⟨other, hother, htrue⟩
        rcases List.mem_append.mp hother with hother | hother
        · exact ⟨other, hother, htrue⟩
        · rw [List.mem_singleton.mp hother, hbase] at htrue
          cases htrue
      have hcountBase : (defs ++ [verdef]).countP Verdef.isBase = defs.countP Verdef.isBase := by
        rw [List.countP_append, List.countP_singleton, if_neg (by rw [hbase]; decide), Nat.add_zero]
      by_cases hglobal : outputVersion mapping verdef.vdNdx = verNdxGlobal
      · -- no symbol has the version
        have hneeded := (htells hbase).mp hglobal
        have hkept : keptVersions needed (defs ++ [verdef]) = keptVersions needed defs := by
          rw [keptVersions_append, if_neg, List.append_nil]
          intro hboth
          rw [Bool.and_eq_true, Option.getD_eq_iff] at hboth
          exact hneeded (by simpa using hboth.2)
        refine ⟨state, ?_, ?_⟩
        · rw [writeVerdef, if_neg (by rw [hbase]; decide), if_neg hindex, if_pos hglobal]
          rfl
        · refine ⟨?_, ?_, ?_, fun hexists => h.file (hfile hexists)⟩
          · rw [writtenBytes, hkept, hcountBase]
            exact h.strtab
          · rw [hkept]
            exact h.others
          · rw [hkept]
            exact h.names
      · -- a needed version gets an auxiliary record
        have hneeded : needed[tableIndex verdef.vdNdx]? = some true := by
          by_contra hnot
          exact hglobal ((htells hbase).mpr hnot)
        have hkept : keptVersions needed (defs ++ [verdef])
            = keptVersions needed defs ++ [verdef] := by
          rw [keptVersions_append, hbase, hneeded]
          rfl
        have hbytes : writtenBytes libName needed (defs ++ [verdef])
            = writtenBytes libName needed defs + ((versionName verdef).length + 1) := by
          rw [writtenBytes, hkept, hcountBase, List.map_append, List.map_singleton,
            stringBytes_append, stringBytes_singleton, writtenBytes]
          omega
        have hfirst := hname (mem_keptVersions.mpr ⟨List.mem_singleton_self _, hbase, hneeded⟩)
        obtain ⟨offset, strtab, hok, hadvances, hnamed⟩ :=
          writeStr_eq_ok (versionName verdef) h.strtab.nextOffset (by omega)
        have hroom : state.auxes.length < versionCount := by
          rw [hkept, List.length_append, List.length_singleton, ← h.length] at hcount
          omega
        refine ⟨{ state with
          strtab := strtab
          auxes := state.auxes ++ [{
            vnaHash := hash (versionName verdef)
            vnaFlags := 0
            vnaOther := outputVersion mapping verdef.vdNdx
            vnaName := offset
            vnaNext := if state.auxes.length + 1 = versionCount then
                0
              else
                UInt32.ofNat sizeOfVernaux }] }, ?_, ?_⟩
        · rw [writeVerdef, if_neg (by rw [hbase]; decide), if_neg hindex, if_neg hglobal,
            firstAuxName, hfirst]
          simp only [Fallible.context, Fallible.bind_ok, hok]
          rw [Fallible.ensure_pos _ hroom, Fallible.bind_ok]
          rfl
        · refine ⟨?_, ?_, ?_, fun hexists => ?_⟩
          · rw [hbytes]
            exact h.strtab.trans hadvances
          · rw [hkept, List.map_append, List.map_append, h.others]
            rfl
          · rw [hkept]
            exact List.rel_append (h.names.imp fun _ _ hat => hat.mono hadvances.extends_)
              (.cons hnamed .nil)
          · obtain ⟨offset', hoffset', hat⟩ := h.file (hfile hexists)
            exact ⟨offset', hoffset', hat.mono hadvances.extends_⟩

/-- The whole walk. -/
theorem writeVerdefs_eq_ok (hash : List UInt8 → UInt32) {defs : List Verdef}
    (hoffset : start.nextOffset = UInt32.ofNat start.strings.length)
    (hindexes : ∀ verdef ∈ defs, verdef.vdNdx ≠ verNdxLocal)
    (htells : ∀ verdef ∈ defs, verdef.isBase = false → Tells needed mapping verdef)
    (hnames : ∀ verdef ∈ keptVersions needed defs,
      verdef.auxNames.head? = some (versionName verdef))
    (hfits : writtenBytes libName needed defs ≤ start.available) :
    ∃ state, defs.foldlM
        (writeVerdef hash libName mapping (keptVersions needed defs).length)
        { strtab := start, vnFile := none, auxes := [] } = .ok state ∧
      Written libName needed mapping start defs state := by
  refine Fallible.foldlM_eq_ok (Written libName needed mapping start) ?_ ?_
  · refine ⟨?_, rfl, .nil, by simp⟩
    rw [show writtenBytes libName needed [] = 0 by simp [writtenBytes, keptVersions, stringBytes]]
    exact .refl hoffset
  · rintro visited verdef rest state hsplit hstate
    have hmem : verdef ∈ defs := by simp [hsplit]
    have hsplit' : defs = (visited ++ [verdef]) ++ rest := by simp [hsplit]
    have hkept : keptVersions needed defs
        = keptVersions needed (visited ++ [verdef]) ++ keptVersions needed rest := by
      rw [hsplit', keptVersions, List.filter_append]
      rfl
    refine writeVerdef_eq_ok hstate (hindexes verdef hmem) (htells verdef hmem) ?_ ?_ ?_
    · intro hkeeps
      obtain ⟨-, hbase, hneeded⟩ := mem_keptVersions.mp hkeeps
      exact hnames verdef (mem_keptVersions.mpr ⟨hmem, hbase, hneeded⟩)
    · rw [hkept, List.length_append]
      omega
    · refine le_trans ?_ hfits
      rw [writtenBytes, writtenBytes, hkept, List.map_append, stringBytes_append, hsplit',
        @List.countP_append _ _ _ rest, Nat.add_mul]
      omega

end Walk

end JdxLinker.SymbolVersion
