import JdxLinker.SortedSections.Epilogue

/-!
# What sorted sections reserve and use

The groups reserve the entries of their sorted sections and the epilogue takes them, so that they only
agree where there are none. The epilogue reserves bytes without padding between the sections, so that
they only agree with the addresses where none is needed.
-/

namespace JdxLinker.SortedSections

open Filling

variable {T : Type} {C : ElfClass}

/-! ### Entries -/

theorem TableEntries.add_eq_zero {a b : TableEntries} :
    a.add b = .zero ↔ a = .zero ∧ b = .zero := by
  rw [← total_eq_zero, ← total_eq_zero, ← total_eq_zero]
  simp only [TableEntries.add, TableEntries.total]
  omega

/-- No relocation of the section is given an entry when it is loaded. -/
def SortedSection.LoadsNoEntry (sec : SortedSection T) (options : Options) : Prop :=
  ∀ rel ∈ visited LoadedRelocation.nextModifier .normal sec.loaded,
    ¬ rel.NeedsEntry options sec.flags

/-- No relocation of the section takes an entry when it is written. -/
def SortedSection.WritesNoEntry (sec : SortedSection T) (options : Options) : Prop :=
  ∀ rel ∈ visited WrittenRelocation.nextModifier .normal sec.written,
    ¬ rel.NeedsEntry options sec.flags

theorem loadGroup_eq_zero {options : Options} {group : List (SortedSection T)}
    {entries : TableEntries} (h : loadGroup C options group = .ok entries) :
    entries = .zero ↔ ∀ sec ∈ group, sec.LoadsNoEntry options := by
  induction group generalizing entries with
  | nil =>
      cases h
      exact ⟨fun _ sec hsec => absurd hsec List.not_mem_nil, fun _ => rfl⟩
  | cons sec group ih =>
      obtain ⟨first, hfirst, h⟩ := Fallible.bind_eq_ok.mp h
      obtain ⟨rest, hrest, h⟩ := Fallible.bind_eq_ok.mp h
      cases h
      rw [TableEntries.add_eq_zero, List.forall_mem_cons, loadSectionRelocations_eq_zero hfirst,
        ih hrest]
      rfl

theorem loadGroups_eq_zero {options : Options} {groups : List (List (SortedSection T))}
    {reserved : List TableEntries} (h : loadGroups C options groups = .ok reserved) :
    (∀ entries ∈ reserved, entries = .zero) ↔
      ∀ group ∈ groups, ∀ sec ∈ group, sec.LoadsNoEntry options := by
  induction groups generalizing reserved with
  | nil =>
      cases h
      exact ⟨fun _ group hgroup => absurd hgroup List.not_mem_nil,
        fun _ entries hentries => absurd hentries List.not_mem_nil⟩
  | cons group groups ih =>
      obtain ⟨first, hfirst, h⟩ := Fallible.bind_eq_ok.mp h
      obtain ⟨rest, hrest, h⟩ := Fallible.bind_eq_ok.mp h
      cases h
      rw [List.forall_mem_cons, List.forall_mem_cons, loadGroup_eq_zero hfirst, ih hrest]

/-! ### Bytes -/

/-- The bytes of sections in a part. -/
def bytesIn (partId : Nat) (secs : List (InputSortedSection T)) : Nat :=
  extentIn InputSortedSection.partId InputSortedSection.size partId secs

/-- A section's offset, aligned as its part is. -/
def alignOffset (sec : InputSortedSection T) (offset : Nat) : Nat := sec.alignment.alignUp offset

theorem assignAddresses_eq (offsets : Nat → Nat) (secs : List (InputSortedSection T)) :
    assignAddressesToSortedSections offsets secs =
      addresses InputSortedSection.partId InputSortedSection.size alignOffset offsets secs := by
  induction secs generalizing offsets with
  | nil => rfl
  | cons sec secs ih =>
      rw [assignAddressesToSortedSections, addresses, ih]
      rfl

theorem finaliseLayout_eq (offsets : Nat → Nat) (secs : List (InputSortedSection T)) :
    finaliseLayout offsets secs =
      fill InputSortedSection.partId InputSortedSection.size alignOffset offsets secs := rfl

/-- Rounding nothing. -/
def keepOffset (_ : InputSortedSection T) (offset : Nat) : Nat := offset

theorem allFit_keepOffset (offsets : Nat → Nat) (secs : List (InputSortedSection T)) :
    AllFit InputSortedSection.partId InputSortedSection.size keepOffset offsets secs :=
  fun _ _ _ _ => rfl

theorem applyLateSizeAdjustments_eq (secs : List (InputSortedSection T)) (partId : Nat) :
    applyLateSizeAdjustments secs partId = bytesIn partId secs := by
  have hfill := (fill_eq_iff (fun _ _ => le_rfl) _ secs).mpr (allFit_keepOffset (fun _ => 0) secs)
  rw [bytesIn, ← Nat.zero_add (extentIn _ _ _ _)]
  exact hfill partId

/-- No section needs padding before it. -/
def Link.NoPadding (link : Link T) : Prop :=
  ∀ before (sec : InputSortedSection T) after,
    link.harvestAndSortScriptSections = before ++ sec :: after →
      sec.alignment.value ∣ link.startOffsets sec.partId + bytesIn sec.partId before

theorem alignUp_eq_self_iff {a : Alignment} {x : Nat} : a.alignUp x = x ↔ a.value ∣ x := by
  constructor
  · intro h
    rw [← h]
    exact a.dvd_alignUp x
  · intro h
    exact Nat.le_antisymm (Alignment.alignUp_le le_rfl h) (a.le_alignUp x)

theorem noPadding_iff (link : Link T) : link.NoPadding ↔
    AllFit InputSortedSection.partId InputSortedSection.size alignOffset link.startOffsets
      link.harvestAndSortScriptSections := by
  constructor
  · intro h before sec after heq
    exact alignUp_eq_self_iff.mpr (h before sec after heq)
  · intro h before sec after heq
    exact alignUp_eq_self_iff.mp (h before sec after heq)

/-! ### Writing -/

/-- The sections that are harvested are those of the groups. -/
theorem mem_harvest {link : Link T} {sec : InputSortedSection T} :
    sec ∈ link.harvestAndSortScriptSections ↔
      ∃ group ∈ link.groups, ∃ s ∈ group, link.inputSection s = sec := by
  simp only [Link.harvestAndSortScriptSections, List.mem_map, List.mem_mergeSort, List.mem_flatten]
  constructor
  · intro h
    obtain ⟨pair, ⟨s, ⟨group, hgroup, hs⟩, rfl⟩, rfl⟩ := h
    exact ⟨group, hgroup, s, hs, rfl⟩
  · intro h
    obtain ⟨group, hgroup, s, hs, rfl⟩ := h
    exact ⟨_, ⟨s, ⟨group, hgroup, hs⟩, rfl⟩, rfl⟩

/-- The bytes that a section takes of its buffer. -/
theorem takeBytes_eq_ok {link : Link T} {sizes : Nat → Nat} {writer : EpilogueWriter}
    {sec : SortedSection T}
    (hroom : link.parts.hasDataInFile sec.partId →
      writer.taken sec.partId + (link.inputSection sec).size ≤ sizes sec.partId) :
    ∃ taken, writer.takeBytes link.parts sizes sec =
        .ok (if link.parts.hasDataInFile sec.partId then some (writer.taken sec.partId) else none,
          { writer with taken := taken }) ∧
      ∀ partId, link.parts.hasDataInFile partId →
        taken partId = writer.taken partId +
          if sec.partId = partId then (link.inputSection sec).size else 0 := by
  rw [EpilogueWriter.takeBytes]
  by_cases hdata : link.parts.hasDataInFile sec.partId
  · have hle : link.parts.capacity sec.partId sec.size ≤
        sizes sec.partId - writer.taken sec.partId :=
      Nat.le_sub_of_add_le' (hroom hdata)
    refine ⟨Function.update writer.taken sec.partId
      (writer.taken sec.partId + link.parts.capacity sec.partId sec.size), ?_, fun partId _ => ?_⟩
    · rw [if_pos hdata, if_pos hdata]
      dsimp only
      rw [Fallible.ensure_pos _ hle, Fallible.bind_ok]
    · rw [Function.update_apply]
      by_cases hpart : sec.partId = partId
      · subst hpart
        rw [if_pos rfl, if_pos rfl]
        rfl
      · rw [if_neg (fun h => hpart h.symm), if_neg hpart, Nat.add_zero]
  · refine ⟨writer.taken, ?_, fun partId hpart => ?_⟩
    · rw [if_neg hdata, if_neg hdata]
    · rw [if_neg, Nat.add_zero]
      intro h
      rw [h] at hdata
      exact hdata hpart

/-- The sections are written if none of them takes an entry, each after the ones before it. -/
theorem writeSortedSections_eq_ok {link : Link T} {sizes : Nat → Nat}
    {secs : List (InputSortedSection T)} {writer : EpilogueWriter}
    (hsecs : ∀ sec ∈ secs, link.inputSection sec.section_ = sec)
    (hnone : ∀ sec ∈ secs, sec.section_.WritesNoEntry link.options) (htable : writer.table.Exhausted)
    (hroom : ∀ partId, link.parts.hasDataInFile partId →
      writer.taken partId + bytesIn partId secs ≤ sizes partId) :
    ∃ slices taken, writeSortedSections C link sizes writer secs =
        .ok (slices, { writer with taken := taken }) ∧
      (∀ partId, link.parts.hasDataInFile partId →
        taken partId = writer.taken partId + bytesIn partId secs) ∧
      ∀ before sec after offset, secs = before ++ sec :: after →
        slices[before.length]? = some (some offset) →
          link.parts.hasDataInFile sec.partId ∧
            offset = writer.taken sec.partId + bytesIn sec.partId before := by
  induction secs generalizing writer with
  | nil =>
      refine ⟨[], writer.taken, rfl, fun _ _ => rfl, fun before sec after offset heq => ?_⟩
      exact absurd heq (by simp)
  | cons sec secs ih =>
      have hsec := hsecs sec List.mem_cons_self
      have hpart : sec.section_.partId = sec.partId := congrArg InputSortedSection.partId hsec
      have hbytes := fun k =>
        extentIn_cons InputSortedSection.partId InputSortedSection.size k sec secs
      obtain ⟨taken, htake, htaken⟩ := @takeBytes_eq_ok _ link sizes writer sec.section_ (by
        intro hdata
        have hle := hroom sec.section_.partId hdata
        rw [bytesIn, hbytes, if_pos hpart.symm] at hle
        rw [hsec]
        omega)
      rw [hsec, hpart] at htaken
      obtain ⟨table, hwrite⟩ := (applyRelocations_exhausted (C := C) htable sec.section_.written).mpr
        (hnone sec List.mem_cons_self)
      obtain rfl := applyRelocations_eq htable hwrite
      obtain ⟨slices, taken', hrest, htaken', hslices⟩ :=
        @ih { writer with taken := taken } (fun s hs => hsecs s (List.mem_cons_of_mem _ hs))
          (fun s hs => hnone s (List.mem_cons_of_mem _ hs)) htable (fun k hdata => by
            have hle := hroom k hdata
            rw [bytesIn, hbytes] at hle
            show taken k + bytesIn k secs ≤ sizes k
            rw [htaken k hdata, bytesIn]
            omega)
      refine ⟨(if link.parts.hasDataInFile sec.section_.partId then
        some (writer.taken sec.section_.partId) else none) :: slices, taken', ?_, fun k hdata => ?_,
        fun before s after offset heq hslice => ?_⟩
      · rw [writeSortedSections, writeObjectSection, htake, Fallible.bind_ok]
        dsimp only
        rw [hwrite, Fallible.bind_ok, Fallible.bind_ok, hrest, Fallible.bind_ok]
      · rw [htaken' k hdata]
        show taken k + bytesIn k secs = _
        rw [htaken k hdata, bytesIn, bytesIn, hbytes, Nat.add_assoc]
      · cases before with
        | nil =>
            obtain ⟨rfl, -⟩ := List.cons.inj heq
            have hhead := Option.some.inj hslice
            rw [hpart] at hhead
            split at hhead
            · rename_i hdata
              exact ⟨hdata, (Option.some.inj hhead).symm⟩
            · cases hhead
        | cons first before =>
            obtain ⟨rfl, htail⟩ := List.cons.inj heq
            obtain ⟨hdata, hoffset⟩ := hslices before s after offset htail hslice
            refine ⟨hdata, hoffset.trans ?_⟩
            show taken s.partId + bytesIn s.partId before = _
            rw [htaken _ hdata, bytesIn, bytesIn, extentIn_cons, Nat.add_assoc]

/-- Sections that are written take no entries. -/
theorem writesNoEntry_of_writeSortedSections {link : Link T} {sizes : Nat → Nat}
    {secs : List (InputSortedSection T)} {writer writer' : EpilogueWriter}
    {slices : List (Option Nat)} (htable : writer.table.Exhausted)
    (h : writeSortedSections C link sizes writer secs = .ok (slices, writer')) :
    ∀ sec ∈ secs, sec.section_.WritesNoEntry link.options := by
  induction secs generalizing writer writer' slices with
  | nil => exact fun sec hsec => absurd hsec List.not_mem_nil
  | cons sec secs ih =>
      rw [writeSortedSections] at h
      obtain ⟨⟨offset, next⟩, hstep, h⟩ := Fallible.bind_eq_ok.mp h
      obtain ⟨⟨offset', taken⟩, htake, hstep⟩ := Fallible.bind_eq_ok.mp hstep
      obtain ⟨table, hwrite, hok⟩ := Fallible.bind_eq_ok.mp hstep
      obtain ⟨⟨slices', writer''⟩, hrest, -⟩ := Fallible.bind_eq_ok.mp h
      have hsame : taken.table = writer.table := by
        rw [EpilogueWriter.takeBytes] at htake
        split at htake
        · obtain ⟨-, -, htake⟩ := Fallible.bind_eq_ok.mp htake
          cases htake
          rfl
        · cases htake
          rfl
      rw [hsame] at hwrite
      obtain rfl := applyRelocations_eq htable hwrite
      cases hok
      rw [List.forall_mem_cons]
      constructor
      · exact (applyRelocations_exhausted htable _).mp ⟨_, hwrite⟩
      · exact @ih { taken := taken.taken, table := writer.table } _ _ htable hrest

/-! ### Accounts -/

/-- The epilogue's bytes end where its sizes say if and only if there is no padding. -/
theorem layout_iff (link : Link T) :
    (∀ partId, finaliseLayout link.startOffsets link.harvestAndSortScriptSections partId =
      link.startOffsets partId + link.sizes partId) ↔ link.NoPadding := by
  have hround : ∀ (sec : InputSortedSection T) offset, offset ≤ alignOffset sec offset :=
    fun sec offset => sec.alignment.le_alignUp offset
  rw [noPadding_iff, ← fill_eq_iff hround, finaliseLayout_eq]
  apply forall_congr'
  intro partId
  rw [Link.sizes, applyLateSizeAdjustments_eq, bytesIn]

/-- Without padding, the address of a section is where the sections before it end. -/
theorem address_eq {link : Link T} (h : link.NoPadding)
    {before after : List (InputSortedSection T)} {sec : InputSortedSection T}
    (heq : link.harvestAndSortScriptSections = before ++ sec :: after) :
    (assignAddressesToSortedSections link.startOffsets
        link.harvestAndSortScriptSections)[before.length]? =
      some (link.startOffsets sec.partId + bytesIn sec.partId before) := by
  rw [assignAddresses_eq]
  exact addresses_getElem? ((noPadding_iff link).mp h) heq

theorem forall_harvest {link : Link T} {P : SortedSection T → Prop} :
    (∀ sec ∈ link.harvestAndSortScriptSections, P sec.section_) ↔
      ∀ group ∈ link.groups, ∀ sec ∈ group, P sec := by
  constructor
  · intro h group hgroup sec hsec
    exact h (link.inputSection sec) (mem_harvest.mpr ⟨group, hgroup, sec, hsec, rfl⟩)
  · intro h sec hsec
    obtain ⟨group, hgroup, s, hs, rfl⟩ := mem_harvest.mp hsec
    exact h group hgroup s hs

theorem inputSection_of_mem {link : Link T} {sec : InputSortedSection T}
    (h : sec ∈ link.harvestAndSortScriptSections) : link.inputSection sec.section_ = sec := by
  obtain ⟨group, hgroup, s, hs, rfl⟩ := mem_harvest.mp h
  rfl

theorem exists_append_of_getElem? {α : Type} {xs : List α} {i : Nat} {x : α} (h : xs[i]? = some x) :
    ∃ before after, xs = before ++ x :: after ∧ before.length = i := by
  obtain ⟨hlt, hx⟩ := List.getElem?_eq_some_iff.mp h
  refine ⟨xs.take i, xs.drop (i + 1), ?_, List.length_take_of_le hlt.le⟩
  rw [← hx, List.getElem_cons_drop, List.take_append_drop]

theorem Link.agrees_of_no_entries {link : Link T} {reserved : List TableEntries}
    (hzero : ∀ entries ∈ reserved, entries = .zero)
    (hnone : ∀ group ∈ link.groups, ∀ sec ∈ group, sec.WritesNoEntry link.options)
    (hpadding : link.NoPadding) : link.Agrees C reserved where
  groups entries hentries := TableEntries.validateEmpty_eq_ok.mpr (hzero entries hentries)
  written := by
    have htable : link.epilogueWriter.table.Exhausted := ⟨rfl, rfl⟩
    have hroom : ∀ partId, link.parts.hasDataInFile partId →
        link.epilogueWriter.taken partId + bytesIn partId link.harvestAndSortScriptSections ≤
          link.sizes partId := by
      intro partId _
      rw [Link.sizes, applyLateSizeAdjustments_eq]
      exact (Nat.zero_add _).le
    obtain ⟨slices, taken, hwrite, htaken, hslices⟩ :=
      @writeSortedSections_eq_ok _ C _ _ _ _ (fun sec => inputSection_of_mem)
        (forall_harvest.mpr hnone) htable hroom
    refine ⟨slices, _, hwrite, TableEntries.validateEmpty_eq_ok.mpr rfl, fun partId hdata => ?_,
      fun i address offset sec hsec haddress hslice => ?_⟩
    · rw [Link.sizes, applyLateSizeAdjustments_eq]
      exact (htaken partId hdata).trans (Nat.zero_add _)
    · obtain ⟨before, after, heq, hlength⟩ := exists_append_of_getElem? hsec
      subst hlength
      obtain ⟨-, hoffset⟩ := hslices before sec after offset heq hslice
      rw [address_eq hpadding heq] at haddress
      rw [← Option.some.inj haddress, hoffset]
      exact congrArg _ (Nat.zero_add _).symm
  layout := (layout_iff link).mpr hpadding

/-- What sorted sections reserve is what is used of it if and only if none of their relocations needs a
dynamic entry, and each of them ends where the next one of its part starts. -/
theorem Link.agrees_iff (link : Link T) {reserved : List TableEntries}
    (h : loadGroups C link.options link.groups = .ok reserved) :
    link.Agrees C reserved ↔
      (∀ group ∈ link.groups, ∀ sec ∈ group,
        sec.LoadsNoEntry link.options ∧ sec.WritesNoEntry link.options) ∧ link.NoPadding := by
  have htable : link.epilogueWriter.table.Exhausted := ⟨rfl, rfl⟩
  constructor
  · intro hagrees
    have hzero : ∀ entries ∈ reserved, entries = .zero := fun entries hentries =>
      TableEntries.validateEmpty_eq_ok.mp (hagrees.groups entries hentries)
    have hloads := (loadGroups_eq_zero h).mp hzero
    obtain ⟨slices, writer, hwrite, -⟩ := hagrees.written
    have hwrites := (@forall_harvest T link fun sec => sec.WritesNoEntry link.options).mp
      (writesNoEntry_of_writeSortedSections htable hwrite)
    exact ⟨fun group hgroup sec hsec => ⟨hloads group hgroup sec hsec, hwrites group hgroup sec hsec⟩,
      (layout_iff link).mp hagrees.layout⟩
  · intro hcondition
    obtain ⟨hnone, hpadding⟩ := hcondition
    have hloads : ∀ group ∈ link.groups, ∀ sec ∈ group, sec.LoadsNoEntry link.options :=
      fun group hgroup sec hsec => (hnone group hgroup sec hsec).1
    exact Link.agrees_of_no_entries ((loadGroups_eq_zero h).mpr hloads)
      (fun group hgroup sec hsec => (hnone group hgroup sec hsec).2) hpadding

theorem dvd_bytesIn {d partId : Nat} {secs : List (InputSortedSection T)}
    (h : ∀ sec ∈ secs, sec.partId = partId → d ∣ sec.size) : d ∣ bytesIn partId secs := by
  induction secs with
  | nil => exact Nat.dvd_zero d
  | cons sec secs ih =>
      rw [List.forall_mem_cons] at h
      rw [bytesIn, extentIn_cons]
      apply Nat.dvd_add _ (ih h.2)
      split
      · rename_i hpart
        exact h.1 hpart
      · exact Nat.dvd_zero d

/-- Only the sections of packed parts can need padding, as the others have theirs behind them. -/
theorem Link.noPadding_of_unpacked {link : Link T}
    (hpack : ∀ sec ∈ link.harvestAndSortScriptSections, link.parts.shouldPack sec.partId = false)
    (hstart : ∀ partId, (link.parts.alignment partId).value ∣ link.startOffsets partId) :
    link.NoPadding := by
  intro before sec after heq
  have hmem : ∀ s ∈ before ++ sec :: after, link.inputSection s.section_ = s := fun s hs =>
    inputSection_of_mem (heq ▸ hs)
  have halign := hmem sec (List.mem_append_right _ List.mem_cons_self)
  rw [← halign]
  apply Nat.dvd_add (hstart _)
  apply dvd_bytesIn
  intro s hs hpart
  have hsection := hmem s (List.mem_append_left _ hs)
  have hunpacked := hpack s (heq ▸ List.mem_append_left _ hs)
  rw [← hsection] at hpart hunpacked ⊢
  show _ ∣ link.parts.capacity s.section_.partId s.section_.size
  rw [Parts.capacity, if_neg (by exact ne_true_of_eq_false hunpacked)]
  have hsame : s.section_.partId = sec.section_.partId := hpart
  rw [hsame]
  exact Alignment.dvd_alignUp _ _

theorem harvest_eq_singleton {link : Link T} {sec : SortedSection T}
    (h : link.groups.flatten = [sec]) :
    link.harvestAndSortScriptSections = [link.inputSection sec] := by
  rw [Link.harvestAndSortScriptSections, h, List.map_singleton, List.mergeSort_singleton]
  rfl

/-- A pointer to a local symbol. -/
def pointerSection : SortedSection Unit where
  name := [105]
  displayName := "i"
  partId := 0
  size := 8
  flags := ⟨true, true⟩
  loaded := [⟨.absolute, "R_X86_64_64", false, 0, { nonInterposable := true, direct := true }, "s",
    .normal⟩]
  written := [⟨.absolute, 4096, { nonInterposable := true, direct := true }, none, .normal⟩]

/-- An executable with one sorted section. -/
def pointerTable (model : RelocationModel) : Link Unit where
  options := ⟨.dynamicExecutable model, false, none⟩
  parts := ⟨fun _ => .USIZE, fun _ => false, fun _ => true⟩
  groups := [[pointerSection]]
  epilogueEntries := .zero
  startOffsets _ := 4096

/-- At a fixed position, the pointer needs no entry. -/
theorem Link.agrees_iff_fixed : (pointerTable .fixed).Agrees Class64 [.zero] := by
  apply ((pointerTable .fixed).agrees_iff rfl).mpr
  constructor
  · intro group hgroup sec hsec
    obtain rfl := List.mem_singleton.mp hgroup
    obtain rfl := List.mem_singleton.mp hsec
    constructor
    · intro rel hrel
      obtain rfl := List.mem_singleton.mp hrel
      simp [LoadedRelocation.NeedsEntry, pointerTable, isTls, ValueFlags.isInterposable,
        OutputKind.isPositionIndependent]
    · intro rel hrel
      obtain rfl := List.mem_singleton.mp hrel
      simp [WrittenRelocation.NeedsEntry, pointerTable, ValueFlags.isInterposable,
        OutputKind.isPositionIndependent]
  · intro before sec after heq
    rw [harvest_eq_singleton rfl] at heq
    obtain ⟨rfl, rfl, -⟩ := List.singleton_eq_append_iff.mp heq |>.elim id fun h => by simp at h
    decide

/-- Its group reserves an entry, and the epilogue has none for it. -/
theorem pointerTable_not_agrees :
    loadGroups Class64 (pointerTable .positionIndependent).options
        (pointerTable .positionIndependent).groups = .ok [⟨1, 0, 0⟩] ∧
      ¬ (pointerTable .positionIndependent).Agrees Class64 [⟨1, 0, 0⟩] ∧
      writeSortedSections Class64 (pointerTable .positionIndependent)
          (pointerTable .positionIndependent).sizes (pointerTable .positionIndependent).epilogueWriter
          (pointerTable .positionIndependent).harvestAndSortScriptSections =
        .error (.error "Insufficient .rela.dyn (relative) allocation. Setting JDXLD_VERIFY_ALLOCATIONS=1 might give more info") := by
  refine ⟨rfl, fun h => ?_, ?_⟩
  · have hempty := TableEntries.validateEmpty_eq_ok.mp (h.groups _ List.mem_cons_self)
    cases hempty
  · rw [Link.sizes, harvest_eq_singleton rfl]
    rfl

end JdxLinker.SortedSections
