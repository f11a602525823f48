import JdxLinker.SymbolVersion.DefinitionWalk

/-!
# The space of the version definitions

A script whose definitions take less than 2^16 bytes gets exactly the space that is skipped and
written, and all of its versions are visited with their names and their parents' names. No other
script does.
-/

namespace JdxLinker.SymbolVersion

open Bytes LinkedRecords

/-- The versions in the text of a script. -/
def ScriptText.texts : ScriptText → List VersionText
  | versions texts => texts
  | absent | body _ => []

/-- The bytes of the definitions of a script: those of the base version and of every other one, with a
name for each and one for each parent. A script without versions has no definitions. -/
def ScriptText.definitionSpace (text : ScriptText) : Nat :=
  if text.texts = [] then
    0
  else
    Epilogue.sizeOfVerdef * (text.texts.length + 1) + Epilogue.sizeOfVerdaux * (text.texts.length + 1
      + text.texts.countP fun version => !version.parentName.isEmpty)

/-- The names of each definition: its own, and its parent's. -/
def ScriptText.definitionNames (text : ScriptText) (baseName : List UInt8) :
    List (List (List UInt8)) :=
  if text.texts = [] then
    []
  else
    [baseName] :: text.texts.map fun version =>
      version.name :: if version.parentName.isEmpty then [] else [version.parentName]

namespace Epilogue

/-- The string table before the names of versions, with the soname if there is one. -/
structure StringTable where
  strings : List UInt8
  soname : Option (List UInt8 × UInt32)
  named : ∀ s ∈ soname, NamedAt strings s.2 s.1

namespace StringTable

def sizes (table : StringTable) (script : VersionScript) (fileName : List UInt8) : VerdefSizes :=
  finaliseSizesEpilogue script (table.soname.map (·.1)) fileName

/-- A writer for what is reserved. -/
def writer (table : StringTable) (sizes : VerdefSizes) : VerdefWriter where
  strtab := {
    nextOffset := UInt32.ofNat table.strings.length
    strings := table.strings
    available := sizes.dynstr }
  versionD := sizes.gnuVersionD
  out := []
  versionStringOffsets := []

def baseName (table : StringTable) (fileName : List UInt8) : List UInt8 :=
  table.soname.elim fileName (·.1)

end StringTable

/-- The reserved bytes are those that are skipped and those that are written, and following the
records visits every version once. -/
structure VerdefsExact (hash : List UInt8 → UInt32) (table : StringTable) (fileName : List UInt8)
    (text : ScriptText) (script : VersionScript) : Prop where
  skipped : finaliseLayoutEpilogue script (table.sizes script fileName).verdefs =
    (table.sizes script fileName).gnuVersionD
  written : ∃ writer, writeEpilogue hash table.soname (table.sizes script fileName).verdefs
      (table.writer (table.sizes script fileName)) = .ok writer ∧
    writer.out.length = (table.sizes script fileName).gnuVersionD ∧
    writer.versionD = 0 ∧ writer.strtab.available = 0 ∧
    (text.texts ≠ [] → WalkVisits hash writer.out writer.strtab.strings
      (text.definitionNames (table.baseName fileName)))

/-! ### Sizes -/

theorem sum_recordBytes (verdefs : List VersionDef) :
    (verdefs.map recordBytes).sum = sizeOfVerdef * verdefs.length + sizeOfVerdaux *
      (verdefs.length + verdefs.countP fun verdef => verdef.parentIndex.isSome) := by
  induction verdefs with
  | nil => rfl
  | cons verdef verdefs ih =>
      have hcount : (auxCount verdef).toNat = 1 + if verdef.parentIndex.isSome then 1 else 0 := by
        rw [auxCount]
        split <;> rfl
      rw [List.map_cons, List.sum_cons, ih, recordBytes, hcount, List.length_cons, List.countP_cons]
      ring

/-- The number of bytes of 16 bits. -/
theorem reserved_toNat (count parents : UInt16) :
    (UInt16.ofNat sizeOfVerdef * count + UInt16.ofNat sizeOfVerdaux * (count + parents)).toNat =
      (sizeOfVerdef * count.toNat + sizeOfVerdaux * (count.toNat + parents.toNat)) % 2 ^ 16 := by
  have h : (UInt16.ofNat sizeOfVerdef).toNat = 20 := rfl
  have h' : (UInt16.ofNat sizeOfVerdaux).toNat = 8 := rfl
  rw [UInt16.toNat_add, UInt16.toNat_mul, UInt16.toNat_mul, UInt16.toNat_add, h, h', sizeOfVerdef,
    sizeOfVerdaux]
  omega

/-- A script without versions gets no definitions. -/
theorem verdefsExact_of_no_count (hash : List UInt8 → UInt32) (table : StringTable)
    (fileName : List UInt8) {text : ScriptText} {script : VersionScript} (htexts : text.texts = [])
    (hcount : script.versionCount = 0) : VerdefsExact hash table fileName text script := by
  have hsizes : table.sizes script fileName = ⟨0, 0, none⟩ := by
    rw [StringTable.sizes, finaliseSizesEpilogue, hcount]
    rfl
  constructor
  · rw [hsizes]
    rfl
  · rw [hsizes]
    exact ⟨_, rfl, rfl, rfl, rfl, fun h => absurd htexts h⟩

/-- The versions after the base version are those of the text. -/
structure ParsedAs (texts : List VersionText) (rest : List Version) : Prop where
  length : rest.length = texts.length
  parses : ∀ i text, texts[i]? = some text → ∃ version, rest[i]? = some version ∧
    Parses (Version.base :: rest) (1 + i) text version

theorem parseVersionScript_eq_ok {texts : List VersionText} {script : VersionScript}
    (h : parseVersionScript (.versions texts) = .ok script) :
    ∃ rest, script = .regular (Version.base :: rest) ∧ ParsedAs texts rest := by
  obtain ⟨versions, hversions, hok⟩ := Fallible.bind_eq_ok.mp h
  cases hok
  obtain ⟨⟨rest, rfl⟩, hlength, hparses⟩ := parseVersions_eq_ok hversions
  rw [List.length_append, Nat.add_left_cancel_iff] at hlength
  refine ⟨rest, rfl, hlength, fun i text htext => ?_⟩
  obtain ⟨version, hget, hversion⟩ := hparses i text htext
  rw [List.length_singleton, Nat.add_comm] at hget
  exact ⟨version, hget, hversion⟩

section Parsed

variable {texts : List VersionText} {rest : List Version}

theorem ParsedAs.countP (h : ParsedAs texts rest) :
    rest.countP (fun version => version.parentIndex.isSome) =
      texts.countP fun text => !text.parentName.isEmpty := by
  have hmap : rest.map (fun version => version.parentIndex.isSome) =
      texts.map fun text => !text.parentName.isEmpty := by
    apply List.ext_getElem?
    intro i
    rw [List.getElem?_map, List.getElem?_map]
    cases htext : texts[i]? with
    | none =>
        have hlt := List.getElem?_eq_none_iff.mp htext
        rw [List.getElem?_eq_none_iff.mpr (h.length ▸ hlt)]
        rfl
    | some text =>
        obtain ⟨version, hget, hversion⟩ := h.parses i text htext
        rw [hget, Option.map_some, Option.map_some, hversion.isSome_parentIndex]
  have hcount := congrArg (List.countP id) hmap
  rw [List.countP_map, List.countP_map] at hcount
  exact hcount

theorem ParsedAs.versionCount (h : ParsedAs texts rest) (hne : texts ≠ []) :
    (VersionScript.regular (Version.base :: rest)).versionCount =
      UInt16.ofNat (texts.length + 1) := by
  have hpos := List.length_pos_iff.mpr hne
  rw [VersionScript.versionCount, scriptVersionCount, List.length_cons, h.length, if_neg (by omega)]

/-- The definition of a version that was parsed. -/
def toVersionDef (version : Version) : VersionDef := ⟨version.name, version.parentIndex⟩

/-- The definitions of a script, with the base version first. -/
def scriptVerdefs (table : StringTable) (fileName : List UInt8) (rest : List Version) :
    List VersionDef :=
  ⟨if table.soname.isNone then fileName else [], none⟩ :: rest.map toVersionDef

theorem sizes_verdefs (table : StringTable) (fileName : List UInt8)
    (hcount : 0 < (VersionScript.regular (Version.base :: rest)).versionCount) :
    (table.sizes (.regular (Version.base :: rest)) fileName).verdefs =
      some (scriptVerdefs table fileName rest) := by
  rw [StringTable.sizes, finaliseSizesEpilogue, if_pos hcount, Option.isNone_map]
  rfl

theorem definitionSpace_eq (hne : texts ≠ []) : (ScriptText.versions texts).definitionSpace =
    sizeOfVerdef * (texts.length + 1) + sizeOfVerdaux * (texts.length + 1
      + texts.countP fun version => !version.parentName.isEmpty) :=
  if_neg hne

theorem definitionNames_eq (hne : texts ≠ []) (baseName : List UInt8) :
    (ScriptText.versions texts).definitionNames baseName =
      [baseName] :: texts.map fun version =>
        version.name :: if version.parentName.isEmpty then [] else [version.parentName] :=
  if_neg hne

theorem sum_recordBytes_eq (h : ParsedAs texts rest) (hne : texts ≠ []) (table : StringTable)
    (fileName : List UInt8) :
    ((scriptVerdefs table fileName rest).map recordBytes).sum =
      (ScriptText.versions texts).definitionSpace := by
  have hcount : rest.countP ((fun verdef => verdef.parentIndex.isSome) ∘ toVersionDef) = _ := h.countP
  rw [sum_recordBytes, scriptVerdefs, List.countP_cons_of_neg (fun hsome => by cases hsome),
    List.countP_map, hcount,
    List.length_cons, List.length_map, h.length, definitionSpace_eq hne]

/-- A parent is one of the versions before, and not the base version. -/
theorem parent_named {i : Nat} {text : VersionText} {version : Version}
    (h : Parses (Version.base :: rest) (1 + i) text version) (hlt : 1 + i < 2 ^ 16)
    (hparent : text.parentName ≠ []) (table : StringTable) (fileName : List UInt8) :
    ∃ parent : UInt16, version.parentIndex = some parent ∧ 1 ≤ parent.toNat ∧
      parent.toNat < 1 + i ∧
      (scriptVerdefs table fileName rest)[parent.toNat]?.map VersionDef.name =
        some text.parentName := by
  obtain ⟨parent, hbefore, hindex, hname⟩ := h.parent hparent
  have htoNat : (UInt16.ofNat parent).toNat = parent := by
    rw [UInt16.toNat_ofNat', Nat.mod_eq_of_lt (by omega)]
  cases parent with
  | zero => exact absurd (Option.some.inj hname).symm hparent
  | succ parent =>
      refine ⟨_, hindex, ?_, ?_, ?_⟩
      · rw [htoNat]
        exact Nat.le_add_left 1 parent
      · rwa [htoNat]
      · rw [htoNat, scriptVerdefs, List.getElem?_cons_succ, List.getElem?_map, Option.map_map]
        exact hname

section Fits

variable (h : ParsedAs texts rest) (hne : texts ≠ [])
  (hfits : (ScriptText.versions texts).definitionSpace < 2 ^ 16)

include hne hfits in
theorem length_lt_of_fits : texts.length + 1 < 2 ^ 16 := by
  rw [definitionSpace_eq hne, sizeOfVerdef, sizeOfVerdaux] at hfits
  omega

include h hne hfits

theorem versionCount_toNat :
    (VersionScript.regular (Version.base :: rest)).versionCount.toNat = texts.length + 1 := by
  rw [h.versionCount hne, UInt16.toNat_ofNat', Nat.mod_eq_of_lt (length_lt_of_fits hne hfits)]

theorem versionCount_pos : 0 < (VersionScript.regular (Version.base :: rest)).versionCount := by
  rw [UInt16.lt_iff_toNat_lt, versionCount_toNat h hne hfits]
  exact Nat.succ_pos _

theorem parentCount_toNat : (VersionScript.regular (Version.base :: rest)).parentCount.toNat =
    texts.countP fun version => !version.parentName.isEmpty := by
  have hlt := length_lt_of_fits hne hfits
  have hle := List.countP_le_length (p := fun version : VersionText => !version.parentName.isEmpty)
    (l := texts)
  rw [VersionScript.parentCount, List.countP_cons_of_neg (by decide), h.countP, UInt16.toNat_ofNat',
    Nat.mod_eq_of_lt (by omega)]

theorem gnuVersionD_eq (table : StringTable) (fileName : List UInt8) :
    (table.sizes (.regular (Version.base :: rest)) fileName).gnuVersionD =
      (ScriptText.versions texts).definitionSpace := by
  rw [StringTable.sizes, finaliseSizesEpilogue, if_pos (versionCount_pos h hne hfits)]
  show UInt16.toNat _ = _
  rw [reserved_toNat, versionCount_toNat h hne hfits, parentCount_toNat h hne hfits,
    definitionSpace_eq hne]
  apply Nat.mod_eq_of_lt
  rwa [definitionSpace_eq hne] at hfits

theorem skipped_eq (table : StringTable) (fileName : List UInt8) :
    finaliseLayoutEpilogue (.regular (Version.base :: rest))
        (some (scriptVerdefs table fileName rest)) =
      (ScriptText.versions texts).definitionSpace := by
  rw [finaliseLayoutEpilogue, parentCount_toNat h hne hfits, scriptVerdefs, List.length_cons,
    List.length_map, h.length, definitionSpace_eq hne]

theorem parentBefore_scriptVerdefs (table : StringTable) (fileName : List UInt8) {i : Nat}
    {verdef : VersionDef} (hverdef : (scriptVerdefs table fileName rest)[i]? = some verdef) :
    ParentBefore i verdef := by
  have hlt := length_lt_of_fits hne hfits
  intro parent hparent
  cases i with
  | zero =>
      cases hverdef
      cases hparent
  | succ i =>
      rw [scriptVerdefs, List.getElem?_cons_succ, List.getElem?_map, Option.map_eq_some_iff] at hverdef
      obtain ⟨version, hget, rfl⟩ := hverdef
      have hi : i < texts.length := by
        rw [← h.length]
        exact (List.getElem?_eq_some_iff.mp hget).1
      obtain ⟨version', hget', hversion⟩ := h.parses i texts[i] (List.getElem?_eq_getElem hi)
      obtain rfl := Option.some.inj (hget.symm.trans hget')
      by_cases hnone : texts[i].parentName = []
      · rw [toVersionDef, hversion.orphan hnone] at hparent
        cases hparent
      · obtain ⟨parent', hindex, hpos, hbefore, -⟩ :=
          parent_named hversion (by omega) hnone table fileName
        obtain rfl := Option.some.inj (hindex.symm.trans hparent)
        exact ⟨hpos, by omega⟩

/-- The names of a definition are those that the text gives it. -/
theorem definitionNames_getElem? (table : StringTable) (fileName : List UInt8) {i : Nat}
    {own : List (List UInt8)}
    (hown : ((ScriptText.versions texts).definitionNames (table.baseName fileName))[i]? = some own) :
    ∃ verdef, (scriptVerdefs table fileName rest)[i]? = some verdef ∧
      own = ownName table.soname i verdef ::
        parentNames (scriptVerdefs table fileName rest) verdef := by
  have hlt := length_lt_of_fits hne hfits
  rw [definitionNames_eq hne] at hown
  cases i with
  | zero =>
      cases hown
      refine ⟨_, rfl, ?_⟩
      rw [ownName, if_pos rfl, StringTable.baseName]
      cases table.soname <;> rfl
  | succ i =>
      rw [List.getElem?_cons_succ, List.getElem?_map, Option.map_eq_some_iff] at hown
      obtain ⟨text, htext, rfl⟩ := hown
      obtain ⟨version, hget, hversion⟩ := h.parses i text htext
      have hi := (List.getElem?_eq_some_iff.mp htext).1
      refine ⟨toVersionDef version, ?_, ?_⟩
      · rw [scriptVerdefs, List.getElem?_cons_succ, List.getElem?_map, hget]
        rfl
      · rw [ownName, if_neg (Nat.succ_ne_zero i), toVersionDef, hversion.name, parentNames]
        by_cases hnone : text.parentName = []
        · rw [hversion.orphan hnone, hnone]
          rfl
        · obtain ⟨parent, hindex, -, -, hname⟩ :=
            parent_named hversion (by omega) hnone table fileName
          obtain ⟨verdef, hverdef, hname'⟩ := Option.map_eq_some_iff.mp hname
          rw [if_neg (fun hempty => hnone (List.isEmpty_iff.mp hempty)), hindex, Option.bind_some,
            hverdef, ← hname']
          rfl

theorem dynstr_eq (table : StringTable) (fileName : List UInt8) :
    (table.sizes (.regular (Version.base :: rest)) fileName).dynstr =
      stringBytes (writtenStrings table.soname 0 (scriptVerdefs table fileName rest)) := by
  have hmap : (rest.map toVersionDef).map VersionDef.name = rest.map Version.name := by
    rw [List.map_map]
    rfl
  rw [StringTable.sizes, finaliseSizesEpilogue, if_pos (versionCount_pos h hne hfits),
    Option.isNone_map, scriptVerdefs, writtenStrings, writtenStrings_succ, hmap, stringBytes_append,
    ownStrings]
  show _ + stringBytes (rest.map Version.name) = _
  cases table.soname with
  | none => rfl
  | some s => rfl

theorem verdefsExact_of_fits (hash : List UInt8 → UInt32) (table : StringTable)
    (fileName : List UInt8) :
    VerdefsExact hash table fileName (.versions texts) (.regular (Version.base :: rest)) := by
  have hverdefs := sizes_verdefs table fileName (versionCount_pos h hne hfits)
  have hspace := gnuVersionD_eq h hne hfits table fileName
  constructor
  · rw [hverdefs, hspace]
    exact skipped_eq h hne hfits table fileName
  · have hready : Ready table.soname []
        (table.writer (table.sizes (.regular (Version.base :: rest)) fileName)) :=
      ⟨rfl, table.named, .nil⟩
    have hlength : (scriptVerdefs table fileName rest).length = texts.length + 1 := by
      rw [scriptVerdefs, List.length_cons, List.length_map, h.length]
    obtain ⟨writer, blocks, hrun, hleft, hleft', -, hout, hsize, hcount, hblocks⟩ :=
      writeEntries_eq_ok hash (scriptVerdefs table fileName rest).length rfl hready
        (fun i verdef hverdef => by
          rw [List.length_nil, Nat.zero_add]
          exact parentBefore_scriptVerdefs h hne hfits table fileName hverdef)
        (hspace.trans (sum_recordBytes_eq h hne table fileName).symm)
        (dynstr_eq h hne hfits table fileName)
    have hnames : ((ScriptText.versions texts).definitionNames (table.baseName fileName)).length =
        (scriptVerdefs table fileName rest).length := by
      rw [definitionNames_eq hne, List.length_cons, List.length_map, hlength]
    refine ⟨writer, ?_, ?_, hleft, hleft', fun _ => ?_⟩
    · rw [hverdefs]
      exact hrun
    · rw [hspace, hsize, sum_recordBytes_eq h hne]
      exact Nat.zero_add _
    · have hout' : writer.out = verdefFormat.table (tables blocks) := hout
      rw [hout']
      apply walkVisits_of_wrote
      · rw [definitionNames_eq hne]
        exact List.cons_ne_nil _ _
      · rw [hcount, hnames]
      · intro i own hown
        obtain ⟨verdef, hverdef, rfl⟩ := definitionNames_getElem? h hne hfits table fileName hown
        obtain ⟨block, hblock, hwrote⟩ := hblocks i verdef hverdef
        rw [List.length_nil, Nat.zero_add, ← hnames] at hwrote
        exact ⟨List.cons_ne_nil _ _, block, hblock, hwrote⟩

end Fits

/-- What is skipped without a bound is only reserved if it has 16 bits. -/
theorem fits_of_verdefsExact (h : ParsedAs texts rest) (hne : texts ≠ [])
    {hash : List UInt8 → UInt32} {table : StringTable} {fileName : List UInt8}
    (hexact : VerdefsExact hash table fileName (.versions texts) (.regular (Version.base :: rest))) :
    (ScriptText.versions texts).definitionSpace < 2 ^ 16 := by
  by_cases hcount : 0 < (VersionScript.regular (Version.base :: rest)).versionCount
  · have hskipped := hexact.skipped
    have hlt : (table.sizes (.regular (Version.base :: rest)) fileName).gnuVersionD < 2 ^ 16 := by
      rw [StringTable.sizes, finaliseSizesEpilogue, if_pos hcount]
      exact UInt16.toNat_lt _
    rw [sizes_verdefs table fileName hcount, finaliseLayoutEpilogue, scriptVerdefs, List.length_cons,
      List.length_map, h.length] at hskipped
    have hle := List.countP_le_length (p := fun text : VersionText => !text.parentName.isEmpty)
      (l := texts)
    rw [sizeOfVerdef, sizeOfVerdaux] at hskipped
    have hparents : (VersionScript.regular (Version.base :: rest)).parentCount.toNat =
        texts.countP fun text => !text.parentName.isEmpty := by
      rw [VersionScript.parentCount, List.countP_cons_of_neg (by decide), h.countP,
        UInt16.toNat_ofNat', Nat.mod_eq_of_lt (by omega)]
    rw [hparents] at hskipped
    rw [definitionSpace_eq hne, sizeOfVerdef, sizeOfVerdaux]
    omega
  · -- A number of versions that wraps to 0 leaves no record to start from.
    obtain ⟨writer, hrun, -, -, -, hwalk⟩ := hexact.written
    have hsizes : table.sizes (.regular (Version.base :: rest)) fileName = ⟨0, 0, none⟩ := by
      rw [StringTable.sizes, finaliseSizesEpilogue, if_neg hcount]
    rw [hsizes] at hrun
    cases hrun
    obtain ⟨visited, hvisits, -⟩ := hwalk hne
    obtain ⟨record, hread⟩ := hvisits.exists_read
    have hnone := verdefFormat.read_nil 0
    rw [show (table.writer ⟨0, 0, none⟩).out = [] from rfl, hnone] at hread
    cases hread

end Parsed

def StringTable.empty : StringTable := ⟨[], none, fun _ h => by cases h⟩

/-- The name of a version: `V` with three letters for its number. -/
def numberedName (number : Nat) : List UInt8 :=
  [86, UInt8.ofNat (65 + number / 676), UInt8.ofNat (65 + number / 26 % 26),
    UInt8.ofNat (65 + number % 26)]

/-- Versions without a parent are parsed one after another. -/
theorem parseVersions_orphans (versions : List Version) (names : List (List UInt8)) :
    parseVersions versions (names.map fun name => ⟨name, []⟩) =
      .ok (versions ++ names.map fun name => ⟨name, none⟩) := by
  induction names generalizing versions with
  | nil => rw [List.map_nil, List.map_nil, List.append_nil, parseVersions]
  | cons name names ih =>
      show parseVersions (versions ++ [⟨name, none⟩]) (names.map fun name => ⟨name, []⟩) = _
      rw [ih, List.append_assoc]
      rfl

/-- A script with 2340 versions without parents. -/
def wideNames : List (List UInt8) := (List.range 2340).map numberedName

end Epilogue

end JdxLinker.SymbolVersion
