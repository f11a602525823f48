import JdxLinker.SymbolVersion.VersionDefinitions

/-!
# Following the version definitions

What the epilogue writes for each version, and what is visited by following the distances from the
first record.
-/

namespace JdxLinker.SymbolVersion.Epilogue

open Bytes LinkedRecords

variable {hash : List UInt8 → UInt32} {soname : Option (List UInt8 × UInt32)}

/-! ### One version -/

/-- The bytes of the records of a version. -/
def recordBytes (verdef : VersionDef) : Nat :=
  sizeOfVerdef + sizeOfVerdaux * (auxCount verdef).toNat

def ownName (soname : Option (List UInt8 × UInt32)) (i : Nat) (verdef : VersionDef) : List UInt8 :=
  if i = 0 then soname.elim verdef.name (·.1) else verdef.name

/-- The strings that are written for a version: the soname was written before. -/
def ownStrings (soname : Option (List UInt8 × UInt32)) (i : Nat) (verdef : VersionDef) :
    List (List UInt8) :=
  if i = 0 ∧ soname.isSome then [] else [verdef.name]

def parentNames (verdefs : List VersionDef) (verdef : VersionDef) : List (List UInt8) :=
  (verdef.parentIndex.bind fun parent => verdefs[parent.toNat]?).toList.map VersionDef.name

/-- A writer after the versions that were visited. -/
structure Ready (soname : Option (List UInt8 × UInt32)) (visited : List VersionDef)
    (writer : VerdefWriter) : Prop where
  offset : writer.strtab.nextOffset = UInt32.ofNat writer.strtab.strings.length
  soname : ∀ s ∈ soname, NamedAt writer.strtab.strings s.2 s.1
  named : List.Forall₂ (fun offset verdef => NamedAt writer.strtab.strings offset verdef.name)
    writer.versionStringOffsets visited.tail

/-- What was written for a version. -/
structure Wrote (hash : List UInt8 → UInt32) (count : Nat) (strings : List UInt8) (i : Nat)
    (names : List (List UInt8)) (record : VerdefRecord)
    (auxes : List (VerdauxRecord × List UInt8)) : Prop where
  ndx : record.vdNdx = scriptVersionIndex i
  flags : record.vdFlags = if i = 0 then verFlgBase else 0
  cnt : record.vdCnt.toNat = auxes.length
  hash : record.vdHash = hash (names.headD [])
  aux : record.vdAux.toNat = sizeOfVerdef
  next : record.vdNext.toNat =
    if i < count - 1 then sizeOfVerdef + (verdauxFormat.table auxes).length else 0
  linked : verdauxFormat.Linked auxes
  names : List.Forall₂ (fun aux name => NamedAt strings aux.1.vdaName name) auxes names

theorem Wrote.mono {count : Nat} {strings strings' : List UInt8} {i : Nat}
    {names : List (List UInt8)} {record : VerdefRecord} {auxes : List (VerdauxRecord × List UInt8)}
    (h : Wrote hash count strings i names record auxes) (hle : strings <+: strings') :
    Wrote hash count strings' i names record auxes :=
  { h with names := h.names.imp fun _ _ hname => hname.mono hle }

namespace VerdefWriter

theorem takeBytesD_eq_ok {writer : VerdefWriter} {size : Nat} (h : size ≤ writer.versionD) :
    writer.takeBytesD size = .ok { writer with versionD := writer.versionD - size } := by
  rw [takeBytesD, Fallible.ensure_pos _ h]
  rfl

theorem takeVerdaux_eq_ok {writer : VerdefWriter} (h : sizeOfVerdaux ≤ writer.versionD)
    (record : VerdauxRecord) :
    writer.takeVerdaux record = .ok { writer with
      versionD := writer.versionD - sizeOfVerdaux
      out := writer.out ++ verdauxFormat.encode record } := by
  rw [takeVerdaux, takeBytesD_eq_ok h]
  rfl

theorem writeName_eq_ok {visited : List VersionDef} {writer : VerdefWriter}
    (hready : Ready soname visited writer) (verdef : VersionDef)
    (hroom : stringBytes (ownStrings soname visited.length verdef) ≤ writer.strtab.available) :
    ∃ offset writer', writer.writeName soname visited.length verdef =
        .ok ((ownName soname visited.length verdef, offset), writer') ∧
      Ready soname (visited ++ [verdef]) writer' ∧
      Advances writer.strtab (stringBytes (ownStrings soname visited.length verdef)) writer'.strtab ∧
      NamedAt writer'.strtab.strings offset (ownName soname visited.length verdef) ∧
      writer'.versionD = writer.versionD ∧ writer'.out = writer.out ∧
      writer.versionStringOffsets <+: writer'.versionStringOffsets := by
  cases visited with
  | nil =>
      cases soname with
      | some s =>
          refine ⟨s.2, writer, rfl, ?_, ?_, hready.soname s rfl, rfl, rfl, List.prefix_rfl⟩
          · exact ⟨hready.offset, hready.soname, hready.named⟩
          · exact Advances.refl hready.offset
      | none =>
          rw [ownStrings, if_neg (by simp), stringBytes_singleton] at hroom ⊢
          obtain ⟨offset, strtab, hwrite, hadvances, hnamed⟩ :=
            writeStr_eq_ok verdef.name hready.offset hroom
          refine ⟨offset, { writer with strtab := strtab }, ?_, ?_, hadvances, hnamed, rfl, rfl,
            List.prefix_rfl⟩
          · show (writer.strtab.writeStr verdef.name >>= _) = _
            rw [hwrite]
            rfl
          · exact ⟨hadvances.nextOffset, fun s hs => (hready.soname s hs).mono hadvances.extends_,
              hready.named.imp fun _ _ h => h.mono hadvances.extends_⟩
  | cons base visited =>
      rw [ownStrings, if_neg (fun h => Nat.succ_ne_zero _ h.1), stringBytes_singleton] at hroom ⊢
      obtain ⟨offset, strtab, hwrite, hadvances, hnamed⟩ :=
        writeStr_eq_ok verdef.name hready.offset hroom
      refine ⟨offset, { writer with
        strtab := strtab
        versionStringOffsets := writer.versionStringOffsets ++ [offset] }, ?_, ?_, hadvances, hnamed,
        rfl, rfl, List.prefix_append _ _⟩
      · show (writer.strtab.writeStr verdef.name >>= _) = _
        rw [hwrite]
        rfl
      · refine ⟨hadvances.nextOffset, fun s hs => (hready.soname s hs).mono hadvances.extends_, ?_⟩
        have hkept := hready.named.imp fun _ _ h => h.mono hadvances.extends_
        exact List.rel_append hkept (.cons hnamed .nil)

end VerdefWriter

/-- What was written for a version, from the records of its names. -/
theorem wrote_verdefRecord {count i : Nat} {strings : List UInt8} {verdef : VersionDef}
    {name : List UInt8} {parents : List (List UInt8)} {auxes : List (VerdauxRecord × List UInt8)}
    (hlength : (auxCount verdef).toNat = auxes.length)
    (htable : (verdauxFormat.table auxes).length = sizeOfVerdaux * auxes.length)
    (hlinked : verdauxFormat.Linked auxes)
    (hnames : List.Forall₂ (fun aux name => NamedAt strings aux.1.vdaName name) auxes
      (name :: parents)) :
    Wrote hash count strings i (name :: parents) (verdefRecord hash count i verdef name) auxes where
  ndx := rfl
  flags := rfl
  cnt := hlength
  hash := rfl
  aux := rfl
  next := by
    show UInt32.toNat (if i < count - 1 then _ else 0) = _
    have hle : (auxCount verdef).toNat ≤ 2 := by
      rw [auxCount]
      split <;> decide
    rw [htable, ← hlength]
    split
    · have hlt : sizeOfVerdef + sizeOfVerdaux * (auxCount verdef).toNat < 2 ^ 32 := by
        rw [sizeOfVerdef, sizeOfVerdaux]
        omega
      exact UInt32.toNat_ofNat_of_lt hlt
    · rfl
  linked := hlinked
  names := hnames

/-- A parent was visited before, and is not the base version. -/
def ParentBefore (before : Nat) (verdef : VersionDef) : Prop :=
  ∀ parent, verdef.parentIndex = some parent → 1 ≤ parent.toNat ∧ parent.toNat < before

theorem Ready.parent {all visited : List VersionDef} {writer : VerdefWriter}
    (h : Ready soname visited writer) (hall : visited <+: all) {parent : Nat} (hpos : 1 ≤ parent)
    (hlt : parent < visited.length) :
    ∃ offset verdef, writer.versionStringOffsets[parent - 1]? = some offset ∧
      all[parent]? = some verdef ∧ NamedAt writer.strtab.strings offset verdef.name := by
  obtain ⟨hlen, hget⟩ := List.forall₂_iff_get.mp h.named
  rw [List.length_tail] at hlen
  have hoffset : parent - 1 < writer.versionStringOffsets.length := by omega
  have hverdef : parent - 1 < visited.tail.length := by
    rw [List.length_tail]
    omega
  refine ⟨_, visited[parent], List.getElem?_eq_getElem hoffset, ?_, ?_⟩
  · exact List.prefix_iff_getElem?.mp hall parent hlt
  · have hnamed := hget (parent - 1) hoffset hverdef
    rw [List.get_eq_getElem, List.get_eq_getElem, List.getElem_tail] at hnamed
    simpa only [Nat.sub_add_cancel hpos] using hnamed

theorem writeEntry_eq_ok (hash : List UInt8 → UInt32) (count : Nat) {all visited : List VersionDef}
    {writer : VerdefWriter} (hready : Ready soname visited writer) (hall : visited <+: all)
    {verdef : VersionDef} (hparent : ParentBefore visited.length verdef)
    (hversionD : recordBytes verdef ≤ writer.versionD)
    (hstrings : stringBytes (ownStrings soname visited.length verdef) ≤ writer.strtab.available) :
    ∃ writer' record auxes,
      writeEntry hash soname count visited.length verdef writer = .ok writer' ∧
      Ready soname (visited ++ [verdef]) writer' ∧
      Advances writer.strtab (stringBytes (ownStrings soname visited.length verdef)) writer'.strtab ∧
      writer.versionD = writer'.versionD + recordBytes verdef ∧
      writer'.out = writer.out ++ (verdefFormat.encode record ++ verdauxFormat.table auxes) ∧
      writer'.out.length = writer.out.length + recordBytes verdef ∧
      Wrote hash count writer'.strtab.strings visited.length
        (ownName soname visited.length verdef :: parentNames all verdef) record auxes := by
  have htwo : 1 ≤ (auxCount verdef).toNat := by
    rw [auxCount]
    split <;> decide
  rw [recordBytes, sizeOfVerdef, sizeOfVerdaux] at hversionD
  have hready₀ : Ready soname visited { writer with versionD := writer.versionD - sizeOfVerdef } :=
    ⟨hready.offset, hready.soname, hready.named⟩
  obtain ⟨offset, named, hname, hready', hadvances, hnamed, hleft, hout, hoffsets⟩ :=
    VerdefWriter.writeName_eq_ok hready₀ verdef hstrings
  change named.versionD = writer.versionD - 20 at hleft
  change named.out = writer.out at hout
  have hroom : sizeOfVerdaux ≤ named.versionD := by
    rw [sizeOfVerdaux]
    omega
  rw [writeEntry, VerdefWriter.takeBytesD_eq_ok (by rw [sizeOfVerdef]; omega), Fallible.bind_ok, hname,
    Fallible.bind_ok]
  dsimp only
  rw [VerdefWriter.takeVerdaux_eq_ok (by exact hroom), Fallible.bind_ok, writeParent]
  cases hindex : verdef.parentIndex with
  | none =>
      have hcount : (auxCount verdef).toNat = 1 := by rw [auxCount, hindex]; rfl
      refine ⟨_, verdefRecord hash count visited.length verdef (ownName soname visited.length verdef),
        [(⟨offset, 0⟩, [])], rfl, ?_, hadvances, ?_, ?_, ?_, ?_⟩
      · exact ⟨hready'.offset, hready'.soname, hready'.named⟩
      · show writer.versionD = named.versionD - 8 + (20 + 8 * (auxCount verdef).toNat)
        omega
      · show named.out ++ _ ++ _ = _
        rw [hout, List.append_assoc]
        rfl
      · show (named.out ++ _ ++ _).length = _
        rw [hout, List.append_assoc, List.length_append, recordBytes, hcount]
        rfl
      · refine wrote_verdefRecord hcount rfl ?_ ?_
        · show (0 : UInt32).toNat = 0
          rfl
        · rw [parentNames, hindex]
          exact .cons hnamed .nil
  | some parent =>
      have hcount : (auxCount verdef).toNat = 2 := by rw [auxCount, hindex]; rfl
      obtain ⟨hpos, hlt⟩ := hparent parent hindex
      obtain ⟨offset', parent', hoffset', hparent', hnamed'⟩ := hready.parent hall hpos hlt
      have hmore : sizeOfVerdaux ≤ named.versionD - sizeOfVerdaux := by
        rw [sizeOfVerdaux]
        omega
      have hget : named.versionStringOffsets[parent.toNat - 1]? = some offset' := by
        obtain ⟨rest, hrest⟩ := hoffsets
        obtain ⟨hlt', -⟩ := List.getElem?_eq_some_iff.mp hoffset'
        rw [← hrest, List.getElem?_append_left hlt', hoffset']
      dsimp only [VerdefWriter.put]
      rw [Fallible.assert, if_pos hpos, Fallible.bind_ok, hget, Fallible.unwrap, Fallible.bind_ok,
        VerdefWriter.takeVerdaux_eq_ok (by exact hmore)]
      refine ⟨_, verdefRecord hash count visited.length verdef (ownName soname visited.length verdef),
        [(⟨offset, UInt32.ofNat sizeOfVerdaux⟩, []), (⟨offset', 0⟩, [])], rfl, ?_, hadvances, ?_, ?_, ?_, ?_⟩
      · exact ⟨hready'.offset, hready'.soname, hready'.named⟩
      · show writer.versionD = named.versionD - 8 - 8 + (20 + 8 * (auxCount verdef).toNat)
        omega
      · show named.out ++ _ ++ _ ++ _ = _
        rw [hout, List.append_assoc, List.append_assoc]
        rfl
      · show (named.out ++ _ ++ _ ++ _).length = _
        rw [hout, List.append_assoc, List.append_assoc, List.length_append, recordBytes, hcount]
        rfl
      · refine wrote_verdefRecord hcount rfl ?_ ?_
        · show (UInt32.ofNat sizeOfVerdaux).toNat = sizeOfVerdaux ∧ (0 : UInt32).toNat = 0
          exact ⟨rfl, rfl⟩
        · rw [parentNames, hindex, Option.bind_some, hparent']
          exact .cons hnamed (.cons (hnamed'.mono hadvances.extends_) .nil)

/-! ### All versions -/

/-- The strings that are written for versions. -/
def writtenStrings (soname : Option (List UInt8 × UInt32)) : Nat → List VersionDef →
    List (List UInt8)
  | _, [] => []
  | i, verdef :: verdefs => ownStrings soname i verdef ++ writtenStrings soname (i + 1) verdefs

theorem writtenStrings_succ (soname : Option (List UInt8 × UInt32)) (i : Nat)
    (verdefs : List VersionDef) :
    writtenStrings soname (i + 1) verdefs = verdefs.map VersionDef.name := by
  induction verdefs generalizing i with
  | nil => rfl
  | cons verdef verdefs ih =>
      rw [writtenStrings, ih, ownStrings, if_neg (fun h => Nat.succ_ne_zero i h.1)]
      rfl

/-- Records, each with the records of its names, as blocks of bytes. -/
def tables (blocks : List (VerdefRecord × List (VerdauxRecord × List UInt8))) :
    List (VerdefRecord × List UInt8) :=
  blocks.map fun block => (block.1, verdauxFormat.table block.2)

theorem writeEntries_eq_ok (hash : List UInt8 → UInt32) (count : Nat)
    {all visited rest : List VersionDef} {writer : VerdefWriter} (hall : all = visited ++ rest)
    (hready : Ready soname visited writer)
    (hparents : ∀ i verdef, rest[i]? = some verdef → ParentBefore (visited.length + i) verdef)
    (hversionD : writer.versionD = (rest.map recordBytes).sum)
    (hstrings : writer.strtab.available = stringBytes (writtenStrings soname visited.length rest)) :
    ∃ writer' blocks, writeEntries hash soname count visited.length rest writer = .ok writer' ∧
      writer'.versionD = 0 ∧ writer'.strtab.available = 0 ∧
      writer.strtab.strings <+: writer'.strtab.strings ∧
      writer'.out = writer.out ++ verdefFormat.table (tables blocks) ∧
      writer'.out.length = writer.out.length + (rest.map recordBytes).sum ∧
      blocks.length = rest.length ∧
      ∀ i verdef, rest[i]? = some verdef → ∃ block, blocks[i]? = some block ∧
        Wrote hash count writer'.strtab.strings (visited.length + i)
          (ownName soname (visited.length + i) verdef :: parentNames all verdef) block.1 block.2 := by
  induction rest generalizing visited writer with
  | nil =>
      refine ⟨writer, [], rfl, hversionD, hstrings, List.prefix_rfl, ?_, rfl, rfl, fun i verdef h => ?_⟩
      · rw [tables, List.map_nil, Format.table, List.flatMap_nil, List.append_nil]
      · cases h
  | cons verdef rest ih =>
      rw [List.map_cons, List.sum_cons] at hversionD
      rw [writtenStrings, stringBytes_append] at hstrings
      obtain ⟨next, record, auxes, hentry, hready', hadvances, hleft, hout, hsize, hwrote⟩ :=
        writeEntry_eq_ok hash count hready (hall ▸ List.prefix_append visited _)
          (hparents 0 verdef rfl) (by omega) (by omega)
      have havailable := hadvances.available
      obtain ⟨writer', blocks, hrest, hdone, hdone', hleading, hout', hsize', hlength, hblocks⟩ :=
        ih (by rw [hall, List.append_assoc]; rfl) hready'
          (fun i verdef' h => by
            rw [List.length_append, List.length_singleton, Nat.add_assoc, Nat.add_comm 1 i]
            exact hparents (i + 1) verdef' h)
          (by omega) (by rw [List.length_append, List.length_singleton]; omega)
      rw [List.length_append, List.length_singleton] at hrest hblocks
      refine ⟨writer', (record, auxes) :: blocks, ?_, hdone, hdone', hadvances.extends_.trans hleading,
        ?_, ?_, by rw [List.length_cons, List.length_cons, hlength], fun i verdef' h => ?_⟩
      · rw [writeEntries, hentry, Fallible.bind_ok, hrest]
      · rw [hout', hout, List.append_assoc]
        rfl
      · rw [hsize', hsize, List.map_cons, List.sum_cons, Nat.add_assoc]
      · cases i with
        | zero =>
            cases h
            exact ⟨_, rfl, hwrote.mono hleading⟩
        | succ i =>
            have hblock := hblocks i verdef' h
            rw [Nat.add_assoc, Nat.add_comm 1 i] at hblock
            exact hblock

/-! ### The walk -/

/-- What the record at a position says of a version: its index, its name and its parent's name. -/
structure Describes (hash : List UInt8 → UInt32) (bytes strings : List UInt8) (i : Nat)
    (names : List (List UInt8)) (position : Nat) (record : VerdefRecord) : Prop where
  ndx : record.vdNdx = scriptVersionIndex i
  flags : record.vdFlags = if i = 0 then verFlgBase else 0
  hash : record.vdHash = hash (names.headD [])
  cnt : record.vdCnt.toNat = names.length
  names : ∃ auxes, verdauxFormat.Visits bytes (position + record.vdAux.toNat) auxes ∧
    List.Forall₂ (fun aux name => NamedAt strings aux.2.vdaName name) auxes names

/-- Following the records from the first one visits the versions with these names, each once. -/
def WalkVisits (hash : List UInt8 → UInt32) (bytes strings : List UInt8)
    (names : List (List (List UInt8))) : Prop :=
  ∃ visited, verdefFormat.Visits bytes 0 visited ∧ visited.length = names.length ∧
    ∀ i own, names[i]? = some own → ∃ position record, visited[i]? = some (position, record) ∧
      Describes hash bytes strings i own position record

theorem positions_forall₂ {strings : List UInt8} {auxes : List (VerdauxRecord × List UInt8)}
    {names : List (List UInt8)} (position : Nat)
    (h : List.Forall₂ (fun aux name => NamedAt strings aux.1.vdaName name) auxes names) :
    List.Forall₂ (fun aux name => NamedAt strings aux.2.vdaName name)
      (verdauxFormat.positions position auxes) names := by
  induction h generalizing position with
  | nil => exact .nil
  | cons hname _ ih => exact .cons hname (ih _)

/-- The records that were written can be followed. -/
theorem walkVisits_of_wrote {strings : List UInt8} {names : List (List (List UInt8))}
    {blocks : List (VerdefRecord × List (VerdauxRecord × List UInt8))} (hne : names ≠ [])
    (hlength : blocks.length = names.length)
    (hwrote : ∀ i own, names[i]? = some own → own ≠ [] ∧ ∃ block, blocks[i]? = some block ∧
      Wrote hash names.length strings i own block.1 block.2) :
    WalkVisits hash (verdefFormat.table (tables blocks)) strings names := by
  have hlinked : verdefFormat.Linked (tables blocks) := by
    apply verdefFormat.linked_of_getElem?
    intro i block hget
    rw [tables, List.getElem?_map, Option.map_eq_some_iff] at hget
    obtain ⟨block', hget', rfl⟩ := hget
    obtain ⟨hlt, -⟩ := List.getElem?_eq_some_iff.mp hget'
    rw [hlength] at hlt
    obtain ⟨-, block, hsame, hblock⟩ := hwrote i names[i] (List.getElem?_eq_getElem hlt)
    obtain rfl := Option.some.inj (hget'.symm.trans hsame)
    rw [tables, List.length_map, hlength]
    exact hblock.next.trans (if_congr (by omega) rfl rfl)
  have hnil : tables blocks ≠ [] := by
    intro h
    rw [tables, List.map_eq_nil_iff] at h
    rw [h] at hlength
    exact hne (List.eq_nil_of_length_eq_zero hlength.symm)
  have hvisits := verdefFormat.visits_table hlinked hnil [] []
  rw [List.nil_append, List.append_nil] at hvisits
  refine ⟨_, hvisits, ?_, fun i own hown => ?_⟩
  · rw [Format.positions_length, tables, List.length_map, hlength]
  · obtain ⟨hnames, block, hget, hblock⟩ := hwrote i own hown
    have htable : (tables blocks)[i]? = some (block.1, verdauxFormat.table block.2) := by
      rw [tables, List.getElem?_map, hget]
      rfl
    obtain ⟨before, after, hsplit, hposition⟩ := verdefFormat.positions_getElem? [] [] htable
    rw [List.nil_append, List.append_nil] at hsplit
    have hlen := hblock.names.length_eq
    have haux : block.2 ≠ [] := by
      intro h
      rw [h] at hlen
      exact hnames (List.eq_nil_of_length_eq_zero hlen.symm)
    have hauxes := verdauxFormat.visits_table hblock.linked haux
      (before ++ verdefFormat.encode block.1) after
    rw [List.append_assoc, ← hsplit, List.length_append, verdefFormat.encode_length] at hauxes
    refine ⟨before.length, block.1, hposition, hblock.ndx, hblock.flags, hblock.hash,
      hblock.cnt.trans hlen, ?_⟩
    rw [hblock.aux]
    exact ⟨_, hauxes, positions_forall₂ _ hblock.names⟩

end JdxLinker.SymbolVersion.Epilogue
