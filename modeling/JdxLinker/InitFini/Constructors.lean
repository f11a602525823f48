import JdxLinker.InitFini.RunOrder

/-!
# Constructors in priority order

An array runs its functions in the order that the names of their sections ask for, and holds nothing
else, whatever the sections hold.
-/

namespace JdxLinker.InitFini

open StableSort

variable {W R : Type}

/-- The functions of a section in the order in which they run. -/
def Section.running (sec : Section W R) : List (Entry W R) :=
  if sec.header.name.isOlder then sec.contents.entries.reverse else sec.contents.entries

/-- The functions of all sections of an array in the order in which they have to run: by priority,
and in the order of the sections where that is the same. -/
def inRunOrder (primary : Primary) (objects : List (List (Section W R))) : List (Entry W R) :=
  (sortBy (fun sec => sec.header.name.runsAt) (ofPrimary primary objects.flatten)).flatMap
    Section.running

/-- Objects with these sections get this array right, whatever the sections hold. -/
def RunsInOrder (address : Nat) (primary : Primary) (headers : List (List SectionHeader)) : Prop :=
  ∀ (W R : Type) (objects : List (List (Section W R))),
    objects.map (fun object => object.map Section.header) = headers →
      arrayImage address objects primary = (inRunOrder primary objects).map some

theorem Section.written_entries (sec : Section W R) : sec.written.entries = sec.running := by
  rw [Section.written, Section.running, shouldReverseContents_bytes]
  split
  · exact sec.contents.entries_writeSectionReversed
  · rfl

theorem entriesOf_eq (sections : List (Section W R)) :
    entriesOf sections = sections.flatMap Section.running :=
  List.flatMap_congr fun sec _ => sec.written_entries

/-- Sections without words do not matter. -/
theorem entriesOf_filter (sections : List (Section W R)) :
    entriesOf (sections.filter fun sec => sec.header.words ≠ 0) = entriesOf sections := by
  induction sections with
  | nil => rfl
  | cons sec rest ih =>
    by_cases hwords : sec.header.words = 0
    · have hnone : sec.written.entries = [] := by
        rw [← List.length_eq_zero_iff, sec.written_entries_length, hwords]
      rw [List.filter_cons_of_neg (by simp [hwords]), ih, entriesOf, entriesOf, List.flatMap_cons,
        hnone, List.nil_append]
    · rw [List.filter_cons_of_pos (by simp [hwords]), entriesOf, List.flatMap_cons]
      exact congrArg (sec.written.entries ++ ·) ih

/-! ## Sections whose words tell where they are from -/

/-- A section with words that are all different from those of other sections. -/
def Section.numbered (header : SectionHeader) (number : Nat) : Section (Nat × Nat) Empty where
  header := header
  contents := {
    words := (List.range header.words).map fun i => (number, i)
    relocations := []
    atWords := fun _ h => nomatch h }
  words_eq := by rw [List.length_map, List.length_range]

def numberSections (start : Nat) (headers : List SectionHeader) :
    List (Section (Nat × Nat) Empty) :=
  (headers.zipIdx start).map fun entry => Section.numbered entry.1 entry.2

def numberObjects (start : Nat) :
    List (List SectionHeader) → List (List (Section (Nat × Nat) Empty))
  | [] => []
  | object :: rest =>
    numberSections start object :: numberObjects (start + object.length) rest

theorem numberSections_headers (start : Nat) (headers : List SectionHeader) :
    (numberSections start headers).map Section.header = headers := by
  rw [numberSections, List.map_map]
  exact List.zipIdx_map_fst start headers

theorem numberObjects_headers (start : Nat) (headers : List (List SectionHeader)) :
    (numberObjects start headers).map (fun object => object.map Section.header) = headers := by
  induction headers generalizing start with
  | nil => rfl
  | cons object rest ih =>
    rw [numberObjects, List.map_cons, numberSections_headers, ih]

theorem numberObjects_flatten (start : Nat) (headers : List (List SectionHeader)) :
    (numberObjects start headers).flatten = numberSections start headers.flatten := by
  induction headers generalizing start with
  | nil => rfl
  | cons object rest ih =>
    rw [numberObjects, List.flatten_cons, List.flatten_cons, ih, numberSections, numberSections,
      numberSections, ← List.map_append, List.zipIdx_append]

theorem numbered_words (header : SectionHeader) (number : Nat) :
    (Section.numbered header number).contents.words =
      (List.range header.words).map fun i => (number, i) := rfl

/-- The number that the words of a section have. -/
def Section.number (sec : Section (Nat × Nat) Empty) : Nat := (sec.contents.words.headD (0, 0)).1

theorem number_numbered {header : SectionHeader} (h : header.words ≠ 0) (number : Nat) :
    (Section.numbered header number).number = number := by
  obtain ⟨n, hn⟩ := Nat.exists_eq_succ_of_ne_zero h
  rw [Section.number, numbered_words, hn, List.range_succ_eq_map]
  rfl

/-- The first word of a section stands for the section. -/
def firstWord (entry : Entry (Nat × Nat) Empty) : Option Nat :=
  if entry.1.2 = 0 then some entry.1.1 else none

theorem Contents.entries_words (contents : Contents W R) :
    contents.entries.map Prod.fst = contents.words := by
  apply List.ext_getElem
  · rw [List.length_map, entries_length]
  · intro i _ _
    simp only [entries, List.getElem_map, List.getElem_mapIdx]

theorem firstWords_numbered {header : SectionHeader} (h : header.words ≠ 0) (number : Nat) :
    (Section.numbered header number).contents.entries.filterMap firstWord = [number] := by
  obtain ⟨n, hn⟩ := Nat.exists_eq_succ_of_ne_zero h
  have hfirst : (Section.numbered header number).contents.entries.filterMap firstWord =
      (Section.numbered header number).contents.words.filterMap fun word =>
        if word.2 = 0 then some word.1 else none := by
    rw [← Contents.entries_words, List.filterMap_map]
    rfl
  have hlater : ((List.range n).map Nat.succ).filterMap
      (fun i => if i = 0 then some number else none) = [] := by
    rw [List.filterMap_eq_nil_iff]
    intro i hi
    obtain ⟨j, -, rfl⟩ := List.mem_map.mp hi
    rfl
  rw [hfirst, numbered_words, List.filterMap_map, hn, List.range_succ_eq_map]
  exact congrArg (number :: ·) hlater

theorem firstWords_running {header : SectionHeader} (h : header.words ≠ 0) (number : Nat) :
    (Section.numbered header number).running.filterMap firstWord = [number] := by
  rw [Section.running]
  split
  · rw [List.filterMap_reverse, firstWords_numbered h]
    rfl
  · exact firstWords_numbered h number

/-- The words of numbered sections tell their order. -/
theorem firstWords_entriesOf {sections : List (Section (Nat × Nat) Empty)}
    (h : ∀ sec ∈ sections, sec.header.words ≠ 0 ∧ ∃ number, sec = Section.numbered sec.header number) :
    (entriesOf sections).filterMap firstWord = sections.map Section.number := by
  rw [entriesOf_eq]
  induction sections with
  | nil => rfl
  | cons sec rest ih =>
    obtain ⟨⟨hwords, number, hsec⟩, hrest⟩ := List.forall_mem_cons.mp h
    have hfirst : sec.running.filterMap firstWord = [sec.number] := by
      rw [hsec, firstWords_running hwords, number_numbered hwords]
    rw [List.flatMap_cons, List.filterMap_append, hfirst, ih hrest]
    rfl

theorem eq_of_map_eq {α β : Type*} {f : α → β} {l l' all : List α} (hall : (all.map f).Nodup)
    (h : ∀ a ∈ l, a ∈ all) (h' : ∀ a ∈ l', a ∈ all) (heq : l.map f = l'.map f) : l = l' := by
  have hinj := List.inj_on_of_nodup_map hall
  induction l generalizing l' with
  | nil => exact (List.map_eq_nil_iff.mp heq.symm).symm
  | cons a l ih =>
    cases l' with
    | nil => exact nomatch heq
    | cons b l' =>
      obtain ⟨hab, hrest⟩ := List.cons_eq_cons.mp heq
      obtain ⟨ha, hl⟩ := List.forall_mem_cons.mp h
      obtain ⟨hb, hl'⟩ := List.forall_mem_cons.mp h'
      rw [hinj ha hb hab, ih hl hl' hrest]

theorem mem_numberSections {headers : List SectionHeader} {start : Nat}
    {sec : Section (Nat × Nat) Empty} (h : sec ∈ numberSections start headers) :
    ∃ number, sec = Section.numbered sec.header number := by
  obtain ⟨entry, -, rfl⟩ := List.mem_map.mp h
  exact ⟨entry.2, rfl⟩

theorem numbers_nodup (headers : List SectionHeader) (start : Nat) (p : SectionHeader → Bool) :
    (((numberSections start headers).filter fun sec => p sec.header && sec.header.words ≠ 0).map
      Section.number).Nodup := by
  have hnumber : ((numberSections start headers).filter fun sec =>
      p sec.header && sec.header.words ≠ 0).map Section.number =
      ((headers.zipIdx start).filter fun entry =>
        p entry.1 && entry.1.words ≠ 0).map Prod.snd := by
    rw [numberSections, List.filter_map, List.map_map]
    apply List.map_congr_left
    intro entry hentry
    have hwords := (Bool.and_eq_true _ _ ▸ (List.mem_filter.mp hentry).2).2
    exact number_numbered (of_decide_eq_true hwords) entry.2
  rw [hnumber]
  have hsublist := (List.filter_sublist (l := headers.zipIdx start)
    (p := fun entry => p entry.1 && entry.1.words ≠ 0)).map Prod.snd
  rw [List.zipIdx_map_snd] at hsublist
  exact hsublist.nodup List.nodup_range'

/-! ## When constructors run in order -/

/-- The sections of an array, of all objects. -/
def arraySections (primary : Primary) (headers : List (List SectionHeader)) :
    List SectionHeader :=
  headers.flatten.filter fun header => header.name.primary = primary

/-- A section is placed before another one of the same or a later priority, unless that has the same
priority and is more aligned. -/
def SectionHeader.PlacedBefore (header other : SectionHeader) : Prop :=
  header.priority < other.priority ∨
    header.priority = other.priority ∧ other.alignment.exponent ≤ header.alignment.exponent

/-- Where sections with words are in order in the input, they are placed in that order exactly where
they are to run in it. -/
def PlacedAsNamed (hs : List SectionHeader) : Prop :=
  (hs.filter fun header => header.words ≠ 0).Pairwise fun header other =>
    (header.PlacedBefore other ↔ header.name.runsAt ≤ other.name.runsAt)

theorem placedBefore_iff {header other : SectionHeader} :
    header.PlacedBefore other ↔ placeKey header ≤ placeKey other := by
  rw [placeKey, placeKey, Prod.Lex.toLex_le_toLex]
  exact Iff.rfl

theorem arraySections_eq (primary : Primary) (objects : List (List (Section W R))) :
    arraySections primary (objects.map fun object => object.map Section.header) =
      (ofPrimary primary objects.flatten).map Section.header := by
  have hflatten : (objects.map fun object => object.map Section.header).flatten =
      objects.flatten.map Section.header := List.map_flatten.symm
  rw [arraySections, hflatten, List.filter_map, ofPrimary]
  rfl

/-- Both orders are the same where they are for the sections with words. -/
theorem entriesOf_sortBy_eq {sections : List (Section W R)}
    (h : PlacedAsNamed (sections.map Section.header)) :
    entriesOf (sortBy (fun sec => placeKey sec.header) sections) =
      entriesOf (sortBy (fun sec => sec.header.name.runsAt) sections) := by
  have hpairs : (sections.filter fun sec => sec.header.words ≠ 0).Pairwise fun sec other =>
      (placeKey sec.header ≤ placeKey other.header ↔
        sec.header.name.runsAt ≤ other.header.name.runsAt) := by
    rw [PlacedAsNamed, List.filter_map, List.pairwise_map] at h
    exact h.imp fun hpair => placedBefore_iff.symm.trans hpair
  rw [← entriesOf_filter, filter_sortBy, sortBy_eq_iff.mpr hpairs, ← filter_sortBy,
    entriesOf_filter]

/-- If the numbered sections run in the order of their names, then both orders are the same. -/
theorem placedAsNamed_of_numbered {primary : Primary} {headers : List (List SectionHeader)}
    (h : entriesOf (sortBy (fun sec => placeKey sec.header)
        (ofPrimary primary (numberObjects 0 headers).flatten)) =
      entriesOf (sortBy (fun sec => sec.header.name.runsAt)
        (ofPrimary primary (numberObjects 0 headers).flatten))) :
    PlacedAsNamed (arraySections primary headers) := by
  have hheaders := arraySections_eq primary (numberObjects 0 headers)
  rw [numberObjects_headers] at hheaders
  rw [hheaders, PlacedAsNamed, List.filter_map, List.pairwise_map]
  rw [← entriesOf_filter, ← entriesOf_filter (sortBy (fun sec => sec.header.name.runsAt) _),
    filter_sortBy, filter_sortBy] at h
  have hnumbered : ∀ sec ∈ (ofPrimary primary (numberObjects 0 headers).flatten).filter
      (fun sec => sec.header.words ≠ 0),
      sec.header.words ≠ 0 ∧ ∃ number, sec = Section.numbered sec.header number := by
    intro sec hsec
    obtain ⟨hmem, hwords⟩ := List.mem_filter.mp hsec
    rw [ofPrimary, numberObjects_flatten] at hmem
    exact ⟨of_decide_eq_true hwords, mem_numberSections (List.mem_filter.mp hmem).1⟩
  have hnodup : (((ofPrimary primary (numberObjects 0 headers).flatten).filter
      fun sec => sec.header.words ≠ 0).map Section.number).Nodup := by
    rw [ofPrimary, List.filter_filter, numberObjects_flatten]
    have hnumbers := numbers_nodup headers.flatten 0 fun header => header.name.primary = primary
    simpa only [Bool.and_comm] using hnumbers
  change ((ofPrimary primary (numberObjects 0 headers).flatten).filter
    fun sec => sec.header.words ≠ 0).Pairwise _
  generalize (ofPrimary primary (numberObjects 0 headers).flatten).filter
    (fun sec => sec.header.words ≠ 0) = sections at h hnumbered hnodup ⊢
  have hmem : ∀ {κ : Type} [LinearOrder κ] (key : Section (Nat × Nat) Empty → κ),
      ∀ sec ∈ sortBy key sections, sec ∈ sections :=
    fun key sec hsec => (sortBy_perm key sections).mem_iff.mp hsec
  have hfirst := congrArg (List.filterMap firstWord) h
  rw [firstWords_entriesOf fun sec hsec => hnumbered sec (hmem _ sec hsec),
    firstWords_entriesOf fun sec hsec => hnumbered sec (hmem _ sec hsec)] at hfirst
  have hsame := eq_of_map_eq hnodup (hmem _) (hmem _) hfirst
  exact (sortBy_eq_iff.mp hsame).imp fun hpair => placedBefore_iff.trans hpair

/-- An array holds the functions of its sections in the order that the names ask for, and nothing
else, exactly where priorities and alignments place the sections in that order and leave no gap. -/
theorem constructors_run_in_order_iff (address : Nat) (primary : Primary)
    (headers : List (List SectionHeader)) :
    RunsInOrder address primary headers ↔
      PlacedAsNamed (arraySections primary headers) ∧
        Unpadded address (arraySections primary headers) := by
  constructor
  · intro h
    have himage := h (Nat × Nat) Empty (numberObjects 0 headers) (numberObjects_headers 0 headers)
    obtain ⟨hentries, hunpadded⟩ := (arrayImage_eq_iff _ _ _ _).mp himage
    rw [inRunOrder, ← entriesOf_eq] at hentries
    rw [← arraySections_eq, numberObjects_headers] at hunpadded
    exact ⟨placedAsNamed_of_numbered hentries, hunpadded⟩
  · rintro ⟨hnamed, hunpadded⟩ W R objects rfl
    rw [arraySections_eq] at hnamed hunpadded
    apply (arrayImage_eq_iff _ _ _ _).mpr
    refine ⟨?_, hunpadded⟩
    rw [inRunOrder, ← entriesOf_eq]
    exact entriesOf_sortBy_eq hnamed

/-- Two unsuffixed sections of one word, the second one aligned to 16 bytes. -/
def secondMoreAligned : List SectionHeader :=
  [⟨⟨.INIT_ARRAY, false, none⟩, ⟨3⟩, by decide, by decide, 1⟩,
    ⟨⟨.INIT_ARRAY, false, none⟩, ⟨4⟩, by decide, by decide, 1⟩]

/-- The second one runs first, and a null pointer follows it. -/
theorem secondMoreAligned_swapped : ¬ RunsInOrder 4096 .INIT_ARRAY [secondMoreAligned] := by
  intro h
  have himage := h (Nat × Nat) Empty (numberObjects 0 [secondMoreAligned])
    (numberObjects_headers 0 _)
  revert himage
  decide +kernel

end JdxLinker.InitFini
