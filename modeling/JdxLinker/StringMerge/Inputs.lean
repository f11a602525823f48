import JdxLinker.StringMerge.Bucket
import Mathlib

/-!
# The input sections and their groups

The merge sections of one output section are placed one after the other in a linear space, and the
space is cut into groups of about equal size. What the rest of the merge needs of the groups is that
they cut the space at block boundaries and leave sections without strings whole.
-/

namespace JdxLinker

/-- A merge section as it comes out of resolution. -/
structure StringMergeSectionExtra where
  sectionData : Bytes
  isStrings : Bool
  deriving DecidableEq, Repr

/-- The merge sections that are kept: those without content are discarded. -/
def stringMergeExtras (sections : List StringMergeSectionExtra) : List StringMergeSectionExtra :=
  sections.filter (·.sectionData ≠ [])

/-- Places the sections from `startingOffset` on. -/
def placeSections (startingOffset : Nat) :
    List StringMergeSectionExtra → List StringMergeInputSection
  | [] => []
  | extra :: extras =>
      ⟨extra.sectionData, startingOffset, extra.isStrings⟩
        :: placeSections (startingOffset + nextMultipleOf extra.sectionData.length mapBlockSize)
          extras

def groupMergeStringSections (sections : List StringMergeSectionExtra) :
    List StringMergeInputSection :=
  placeSections 0 (stringMergeExtras sections)

def totalInputSize (sections : List StringMergeInputSection) : Nat :=
  (sections.getLast?.map fun sec => sec.startInputOffset + sec.paddedLen).getD 0

/-! ### Cutting the space -/

/-- Where the inner loop of `split_sections` stops: the sections of the group, what is left of its
size, the last section and how far into it the group goes, and the sections after that one. -/
structure Filled where
  taken : List StringMergeInputSection
  remaining : Int
  last : StringMergeInputSection
  offsetInSection : Nat
  endSection : Bool
  rest : List StringMergeInputSection

/-- The sections that are left for the next group. -/
def Filled.next (filled : Filled) : List StringMergeInputSection :=
  if filled.endSection then filled.rest else filled.last :: filled.rest

/-- How far into the first of them the next group starts. -/
def Filled.nextOffset (filled : Filled) : Nat :=
  if filled.endSection then 0 else filled.offsetInSection

/-- Iterates through the sections until the group is full, from `offsetInSection` bytes into the
current section. -/
def fillGroup (remaining : Int) (offsetInSection : Nat) (sec : StringMergeInputSection)
    (sections : List StringMergeInputSection) : Filled :=
  if remaining ≤ 0 then
    ⟨[sec], remaining, sec, offsetInSection, false, sections⟩
  else
    let available : Int := sec.paddedLen - offsetInSection
    if available > remaining ∧ sec.isString then
      ⟨[sec], 0, sec, offsetInSection + remaining.toNat, false, sections⟩
    else
      match sections with
      | [] => ⟨[sec], remaining - available, sec, offsetInSection + available.toNat, true, []⟩
      | next :: rest =>
          if remaining - available ≤ 0 then
            ⟨[sec], remaining - available, sec, offsetInSection + available.toNat, true, next :: rest⟩
          else
            let filled := fillGroup (remaining - available) 0 next rest
            { filled with taken := sec :: filled.taken }

/-- The groups from group `index` on. The shards are taken one after the other, from `shardBase` on.
The loop does not end when `size` is zero. -/
def splitSectionsFrom (size : Nat) :
    (fuel index shardBase offsetInSection : Nat) → List StringMergeInputSection →
      Option (List SectionGroup)
  | _, _, _, _, [] => some []
  | 0, _, _, _, _ :: _ => none
  | fuel + 1, index, shardBase, offsetInSection, sec :: sections =>
      let filled := fillGroup size offsetInSection sec sections
      let groupSize := (size - filled.remaining).toNat
      let group : SectionGroup :=
        { index
          sections := filled.taken
          rangeStart := sec.startInputOffset + offsetInSection
          rangeEnd := filled.last.startInputOffset + filled.offsetInSection
          shardBase
          shardLen := groupSize }
      (splitSectionsFrom size fuel (index + 1) (shardBase + groupSize) filled.nextOffset
        filled.next).map (group :: ·)

def splitSections (size fuel : Nat) (sections : List StringMergeInputSection) :
    Option (List SectionGroup) :=
  splitSectionsFrom size fuel 0 0 0 sections

/-! ### What the groups are for -/

/-- Whether a group's range reaches into a section. -/
def SectionGroup.overlaps (group : SectionGroup) (sec : StringMergeInputSection) : Bool :=
  sec.startInputOffset < group.rangeEnd && group.rangeStart < sec.startInputOffset + sec.paddedLen

/-- The groups cover the linear space from `start` to `total`, one after the other. -/
def RangesFrom (start total : Nat) : List SectionGroup → Prop
  | [] => start = total
  | group :: groups =>
      group.rangeStart = start ∧ start < group.rangeEnd ∧ RangesFrom group.rangeEnd total groups

/-- The groups know their positions. -/
def IndexedGroups (groups : List SectionGroup) : Prop :=
  ∀ (i : Nat) (group : SectionGroup), groups[i]? = some group → group.index = i

/-- One group among those that cut the space of `sections` at block boundaries. -/
structure BlockGroup (sections : List StringMergeInputSection) (group : SectionGroup) : Prop where
  aligned : mapBlockSize ∣ group.rangeStart
  sections_eq : group.sections = sections.filter group.overlaps
  whole : ∀ sec ∈ group.sections, sec.isString = false →
    group.rangeStart ≤ sec.startInputOffset
      ∧ sec.startInputOffset + sec.paddedLen ≤ group.rangeEnd
  shardBase_eq : group.shardBase = group.rangeStart
  shardLen_eq : group.shardLen = group.rangeEnd - group.rangeStart

/-- A split of the sections into groups at block boundaries. -/
structure BlockSplit (sections : List StringMergeInputSection) (groups : List SectionGroup) :
    Prop where
  indexed : IndexedGroups groups
  ranges : RangesFrom 0 (totalInputSize sections) groups
  group : ∀ group ∈ groups, BlockGroup sections group

/-! ### Placed sections -/

/-- The sections lie one after the other from `start` on, and none is empty. -/
def PlacedFrom (start : Nat) : List StringMergeInputSection → Prop
  | [] => True
  | sec :: sections => sec.startInputOffset = start ∧ sec.sectionData ≠ []
      ∧ PlacedFrom (start + sec.paddedLen) sections

theorem dvd_nextMultipleOf (n m : Nat) : m ∣ nextMultipleOf n m :=
  Nat.dvd_mul_left m _

theorem paddedLen_bounds (sec : StringMergeInputSection) :
    sec.sectionData.length ≤ sec.paddedLen
      ∧ sec.paddedLen < sec.sectionData.length + mapBlockSize := by
  simp only [StringMergeInputSection.paddedLen, nextMultipleOf, mapBlockSize]
  omega

theorem dvd_paddedLen (sec : StringMergeInputSection) : mapBlockSize ∣ sec.paddedLen :=
  dvd_nextMultipleOf _ _

theorem placeSections_placed {extras : List StringMergeSectionExtra}
    (h : ∀ extra ∈ extras, extra.sectionData ≠ []) (start : Nat) :
    PlacedFrom start (placeSections start extras) := by
  induction extras generalizing start with
  | nil => trivial
  | cons extra extras ih =>
      exact ⟨rfl, h extra List.mem_cons_self,
        ih (fun e he => h e (List.mem_cons_of_mem _ he)) _⟩

theorem groupMergeStringSections_placed (sections : List StringMergeSectionExtra) :
    PlacedFrom 0 (groupMergeStringSections sections) :=
  placeSections_placed (fun _ h => by simpa using (List.mem_filter.mp h).2) 0

/-- Placing a section keeps its data. -/
theorem placeSections_data {extras : List StringMergeSectionExtra} {start : Nat}
    {sec : StringMergeInputSection} (h : sec ∈ placeSections start extras) :
    ∃ extra ∈ extras, sec.sectionData = extra.sectionData := by
  induction extras generalizing start with
  | nil => simp [placeSections] at h
  | cons extra extras ih =>
      rcases List.mem_cons.mp h with rfl | h
      · exact ⟨extra, List.mem_cons_self, rfl⟩
      · obtain ⟨extra', hextra', hsame⟩ := ih h
        exact ⟨extra', List.mem_cons_of_mem _ hextra', hsame⟩

theorem groupMergeStringSections_data {sections : List StringMergeSectionExtra}
    {sec : StringMergeInputSection} (h : sec ∈ groupMergeStringSections sections) :
    ∃ extra ∈ sections, sec.sectionData = extra.sectionData := by
  obtain ⟨extra, hextra, hsame⟩ := placeSections_data h
  exact ⟨extra, (List.mem_filter.mp hextra).1, hsame⟩

theorem PlacedFrom.le_start {sections : List StringMergeInputSection} {start : Nat}
    (h : PlacedFrom start sections) : ∀ sec ∈ sections, start ≤ sec.startInputOffset := by
  induction sections generalizing start with
  | nil => simp
  | cons sec sections ih =>
      obtain ⟨hstart, -, hrest⟩ := h
      intro s hs
      rcases List.mem_cons.mp hs with rfl | hs
      · exact hstart.ge
      · exact Nat.le_trans (Nat.le_add_right _ _) (ih hrest s hs)

theorem PlacedFrom.nonempty {sections : List StringMergeInputSection} {start : Nat}
    (h : PlacedFrom start sections) : ∀ sec ∈ sections, sec.sectionData ≠ [] := by
  induction sections generalizing start with
  | nil => simp
  | cons sec sections ih =>
      obtain ⟨-, hdata, hrest⟩ := h
      intro s hs
      rcases List.mem_cons.mp hs with rfl | hs
      · exact hdata
      · exact ih hrest s hs

theorem PlacedFrom.dvd_start {sections : List StringMergeInputSection} {start : Nat}
    (h : PlacedFrom start sections) (hstart : mapBlockSize ∣ start) :
    ∀ sec ∈ sections, mapBlockSize ∣ sec.startInputOffset := by
  induction sections generalizing start with
  | nil => simp
  | cons sec sections ih =>
      obtain ⟨heq, -, hrest⟩ := h
      intro s hs
      rcases List.mem_cons.mp hs with rfl | hs
      · exact heq ▸ hstart
      · exact ih hrest (Nat.dvd_add hstart (dvd_paddedLen sec)) s hs

theorem paddedLen_pos {sec : StringMergeInputSection} (h : sec.sectionData ≠ []) :
    0 < sec.paddedLen :=
  Nat.lt_of_lt_of_le (List.length_pos_of_ne_nil h) (paddedLen_bounds sec).1

/-! ### The cut of `split_sections` -/

/-- The end of the sections, or `position` if there are none. -/
def endFrom (position : Nat) (sections : List StringMergeInputSection) : Nat :=
  (sections.getLast?.map fun sec => sec.startInputOffset + sec.paddedLen).getD position

theorem endFrom_cons_cons (position position' : Nat) (sec next : StringMergeInputSection)
    (rest : List StringMergeInputSection) :
    endFrom position (sec :: next :: rest) = endFrom position' (next :: rest) := by
  simp [endFrom, List.getLast?_cons]

/-- What the inner loop leaves when it starts at `start` with the sections `sections`. -/
structure FilledOk (start : Nat) (remaining : Int) (sections : List StringMergeInputSection)
    (f : Filled) : Prop where
  append : sections = f.taken ++ f.rest
  stop : (f.last.startInputOffset + f.offsetInSection : Int) = start + (remaining - f.remaining)
  progress : start < f.last.startInputOffset + f.offsetInSection
  overlap : ∀ s ∈ f.taken, s.startInputOffset < f.last.startInputOffset + f.offsetInSection
    ∧ start < s.startInputOffset + s.paddedLen
  whole : ∀ s ∈ f.taken, s.isString = false → start ≤ s.startInputOffset
    ∧ s.startInputOffset + s.paddedLen ≤ f.last.startInputOffset + f.offsetInSection
  after : ∀ s ∈ f.rest, f.last.startInputOffset + f.offsetInSection ≤ s.startInputOffset
  dropped : ∃ dropped, sections = dropped ++ f.next ∧ ∀ s ∈ dropped,
    s.startInputOffset + s.paddedLen ≤ f.last.startInputOffset + f.offsetInSection
  total : endFrom (f.last.startInputOffset + f.offsetInSection) f.next = endFrom start sections
  ended : f.endSection = true → PlacedFrom (f.last.startInputOffset + f.offsetInSection) f.rest
  cut : f.endSection = false → f.offsetInSection < f.last.paddedLen ∧ mapBlockSize ∣ f.offsetInSection
    ∧ f.last.isString = true ∧ PlacedFrom f.last.startInputOffset (f.last :: f.rest)

section FillGroup

variable {remaining : Int} {offset : Nat} {sec : StringMergeInputSection}
  {sections : List StringMergeInputSection}

/-- The group ends inside a section of strings. -/
theorem filledOk_cut (hplaced : PlacedFrom sec.startInputOffset (sec :: sections))
    (haligned : mapBlockSize ∣ offset) (hremaining : 0 < remaining)
    (hblocks : (mapBlockSize : Int) ∣ remaining)
    (havailable : remaining < (sec.paddedLen - offset : Int)) (hstring : sec.isString = true) :
    FilledOk (sec.startInputOffset + offset) remaining (sec :: sections)
      ⟨[sec], 0, sec, offset + remaining.toNat, false, sections⟩ := by
  have hcut : offset + remaining.toNat < sec.paddedLen := by omega
  constructor
  case append => rfl
  case stop => simp only; omega
  case progress => simp only; omega
  case overlap => simp only [List.mem_singleton, forall_eq]; omega
  case whole => simp [hstring]
  case after =>
    intro s hs
    have hle := hplaced.2.2.le_start s hs
    simp only
    omega
  case dropped => exact ⟨[], rfl, by simp⟩
  case total => cases sections <;> rfl
  case ended => simp
  case cut =>
    refine fun _ => ⟨hcut, ?_, hstring, hplaced⟩
    have htoNat : mapBlockSize ∣ remaining.toNat := by
      rw [← Int.natCast_dvd_natCast, Int.toNat_of_nonneg hremaining.le]
      exact hblocks
    exact Nat.dvd_add haligned htoNat

/-- The group ends with a section. -/
theorem filledOk_end (hplaced : PlacedFrom sec.startInputOffset (sec :: sections))
    (hoffset : offset < sec.paddedLen) (hwhole : sec.isString = false → offset = 0) :
    FilledOk (sec.startInputOffset + offset) remaining (sec :: sections)
      ⟨[sec], remaining - (sec.paddedLen - offset : Int), sec,
        offset + (sec.paddedLen - offset : Int).toNat, true, sections⟩ := by
  have hend : offset + (sec.paddedLen - offset : Int).toNat = sec.paddedLen := by omega
  constructor
  case append => rfl
  case stop => simp only; omega
  case progress => simp only; omega
  case overlap => simp only [List.mem_singleton, forall_eq]; omega
  case whole =>
    intro s hs hstring
    obtain rfl := List.mem_singleton.mp hs
    have hzero := hwhole hstring
    simp only
    omega
  case after =>
    intro s hs
    have hle := hplaced.2.2.le_start s hs
    simp only
    omega
  case dropped => exact ⟨[sec], rfl, by simp only [List.mem_singleton, forall_eq]; omega⟩
  case total =>
    cases sections with
    | nil =>
        simp only [endFrom, Filled.next, if_true, hend]
        rfl
    | cons next rest => exact (endFrom_cons_cons _ _ _ _ _).symm
  case ended => exact fun _ => by simpa only [hend] using hplaced.2.2
  case cut => simp

/-- The group takes the whole rest of a section and goes on. -/
theorem filledOk_cons {next : StringMergeInputSection} {f : Filled}
    (hplaced : PlacedFrom sec.startInputOffset (sec :: next :: sections))
    (hoffset : offset < sec.paddedLen) (hwhole : sec.isString = false → offset = 0)
    (hf : FilledOk (next.startInputOffset + 0) (remaining - (sec.paddedLen - offset : Int))
      (next :: sections) f) :
    FilledOk (sec.startInputOffset + offset) remaining (sec :: next :: sections)
      { f with taken := sec :: f.taken } := by
  have hnext : next.startInputOffset = sec.startInputOffset + sec.paddedLen := hplaced.2.2.1
  have hstop := hf.stop
  have hprogress := hf.progress
  constructor
  case append => exact congrArg (sec :: ·) hf.append
  case stop => simp only; omega
  case progress => simp only; omega
  case overlap =>
    intro s hs
    rcases List.mem_cons.mp hs with rfl | hs
    · simp only
      omega
    · have hoverlap := hf.overlap s hs
      simp only
      omega
  case whole =>
    intro s hs hstring
    rcases List.mem_cons.mp hs with rfl | hs
    · have hzero := hwhole hstring
      simp only
      omega
    · have hinside := hf.whole s hs hstring
      simp only
      omega
  case after => exact hf.after
  case dropped =>
    obtain ⟨dropped, heq, hdropped⟩ := hf.dropped
    refine ⟨sec :: dropped, congrArg (sec :: ·) heq, fun s hs => ?_⟩
    rcases List.mem_cons.mp hs with rfl | hs
    · simp only
      omega
    · exact hdropped s hs
  case total => exact hf.total.trans (endFrom_cons_cons _ _ _ _ _).symm
  case ended => exact hf.ended
  case cut => exact hf.cut

theorem fillGroup_ok (remaining : Int) (hplaced : PlacedFrom sec.startInputOffset (sec :: sections))
    (hoffset : offset < sec.paddedLen) (haligned : mapBlockSize ∣ offset)
    (hwhole : sec.isString = false → offset = 0) (hremaining : 0 < remaining)
    (hblocks : (mapBlockSize : Int) ∣ remaining) :
    FilledOk (sec.startInputOffset + offset) remaining (sec :: sections)
      (fillGroup remaining offset sec sections) := by
  induction sections generalizing remaining offset sec with
  | nil =>
      rw [fillGroup, if_neg (by omega)]
      by_cases hcut : (sec.paddedLen - offset : Int) > remaining ∧ sec.isString
      · rw [if_pos hcut]
        exact filledOk_cut hplaced haligned hremaining hblocks hcut.1 hcut.2
      · rw [if_neg hcut]
        exact filledOk_end hplaced hoffset hwhole
  | cons next rest ih =>
      rw [fillGroup, if_neg (by omega)]
      by_cases hcut : (sec.paddedLen - offset : Int) > remaining ∧ sec.isString
      · rw [if_pos hcut]
        exact filledOk_cut hplaced haligned hremaining hblocks hcut.1 hcut.2
      · rw [if_neg hcut]
        by_cases hfull : remaining - (sec.paddedLen - offset : Int) ≤ 0
        · simp only [if_pos hfull]
          exact filledOk_end hplaced hoffset hwhole
        · simp only [if_neg hfull]
          have hnext : PlacedFrom next.startInputOffset (next :: rest) := by
            have hrest := hplaced.2.2
            rwa [← hrest.1] at hrest
          have hdvd : (mapBlockSize : Int) ∣ remaining - (sec.paddedLen - offset : Int) := by
            refine dvd_sub hblocks (dvd_sub ?_ ?_)
            · exact Int.natCast_dvd_natCast.mpr (dvd_paddedLen sec)
            · exact Int.natCast_dvd_natCast.mpr haligned
          exact filledOk_cons hplaced hoffset hwhole
            (ih _ hnext (paddedLen_pos hnext.2.1) (Nat.dvd_zero _) (fun _ => rfl) (by omega) hdvd)

end FillGroup

theorem RangesFrom.le_start {groups : List SectionGroup} {start total : Nat}
    (h : RangesFrom start total groups) : ∀ group ∈ groups, start ≤ group.rangeStart := by
  induction groups generalizing start with
  | nil => simp
  | cons group groups ih =>
      obtain ⟨hstart, hlt, hrest⟩ := h
      intro g hg
      rcases List.mem_cons.mp hg with rfl | hg
      · exact hstart.ge
      · exact Nat.le_trans hlt.le (ih hrest g hg)

/-- Sections that end before the group starts do not matter to it. -/
theorem BlockGroup.append {sections dropped : List StringMergeInputSection} {group : SectionGroup}
    (h : BlockGroup sections group)
    (hdropped : ∀ s ∈ dropped, s.startInputOffset + s.paddedLen ≤ group.rangeStart) :
    BlockGroup (dropped ++ sections) group where
  aligned := h.aligned
  sections_eq := by
    have hnone : dropped.filter group.overlaps = [] := by
      refine List.filter_eq_nil_iff.mpr fun s hs => ?_
      have hle := hdropped s hs
      simp only [SectionGroup.overlaps, Bool.and_eq_true, decide_eq_true_eq]
      omega
    rw [List.filter_append, hnone, List.nil_append, h.sections_eq]
  whole := h.whole
  shardBase_eq := h.shardBase_eq
  shardLen_eq := h.shardLen_eq

/-- Where the outer loop stands: `offset` bytes into the first of the sections that are left. -/
def Resumes (position offset : Nat) : List StringMergeInputSection → Prop
  | [] => True
  | sec :: sections => PlacedFrom sec.startInputOffset (sec :: sections)
      ∧ position = sec.startInputOffset + offset ∧ offset < sec.paddedLen ∧ mapBlockSize ∣ offset
      ∧ (sec.isString = false → offset = 0)

theorem FilledOk.resumes {start : Nat} {remaining : Int} {sections : List StringMergeInputSection}
    {f : Filled} (h : FilledOk start remaining sections f) :
    Resumes (f.last.startInputOffset + f.offsetInSection) f.nextOffset f.next := by
  simp only [Filled.nextOffset, Filled.next]
  cases hend : f.endSection with
  | false =>
      obtain ⟨hlt, hdvd, hstring, hplaced⟩ := h.cut hend
      simp only [Bool.false_eq_true, if_false]
      exact ⟨hplaced, rfl, hlt, hdvd, by simp [hstring]⟩
  | true =>
      have hplaced := h.ended hend
      simp only [if_true]
      cases hrest : f.rest with
      | nil => trivial
      | cons s rest =>
          rw [hrest] at hplaced
          have hstart := hplaced.1
          refine ⟨hstart ▸ hplaced, hstart.symm, paddedLen_pos hplaced.2.1, Nat.dvd_zero _,
            fun _ => rfl⟩

theorem Resumes.le_endFrom {position offset : Nat} {sections : List StringMergeInputSection}
    (h : Resumes position offset sections) : position ≤ endFrom position sections := by
  cases sections with
  | nil => exact Nat.le_refl _
  | cons sec rest =>
      obtain ⟨hplaced, hposition, hoffset, -⟩ := h
      obtain ⟨last, hlast⟩ : ∃ last, (sec :: rest).getLast? = some last :=
        ⟨_, List.getLast?_eq_some_getLast (List.cons_ne_nil _ _)⟩
      have hmem := List.mem_of_getLast? hlast
      simp only [endFrom, hlast, Option.map_some, Option.getD_some]
      rcases List.mem_cons.mp hmem with rfl | hmem
      · omega
      · have hle := hplaced.2.2.le_start last hmem
        omega

/-- The group that one pass of the outer loop makes. -/
theorem FilledOk.blockGroup {start index : Nat} {remaining : Int}
    {sections : List StringMergeInputSection} {f : Filled}
    (h : FilledOk start remaining sections f) (haligned : mapBlockSize ∣ start) :
    BlockGroup sections
      { index
        sections := f.taken
        rangeStart := start
        rangeEnd := f.last.startInputOffset + f.offsetInSection
        shardBase := start
        shardLen := (remaining - f.remaining).toNat } where
  aligned := haligned
  sections_eq := by
    have htaken : ∀ s ∈ f.taken, SectionGroup.overlaps
        ⟨index, f.taken, start, f.last.startInputOffset + f.offsetInSection, start,
          (remaining - f.remaining).toNat⟩ s = true := by
      intro s hs
      have hoverlap := h.overlap s hs
      simp only [SectionGroup.overlaps, Bool.and_eq_true, decide_eq_true_eq]
      exact hoverlap
    have hrest : f.rest.filter (SectionGroup.overlaps
        ⟨index, f.taken, start, f.last.startInputOffset + f.offsetInSection, start,
          (remaining - f.remaining).toNat⟩) = [] := by
      refine List.filter_eq_nil_iff.mpr fun s hs => ?_
      have hle := h.after s hs
      simp only [SectionGroup.overlaps, Bool.and_eq_true, decide_eq_true_eq]
      omega
    rw [h.append, List.filter_append, hrest, List.append_nil, List.filter_eq_self.mpr htaken]
  whole := h.whole
  shardBase_eq := rfl
  shardLen_eq := by
    have hstop := h.stop
    simp only
    omega

theorem splitSectionsFrom_ok {size : Nat} (hsize : 0 < size) (hblocks : mapBlockSize ∣ size)
    (fuel index : Nat) {position offset : Nat} {sections : List StringMergeInputSection}
    (hresumes : Resumes position offset sections)
    (hstarts : ∀ sec ∈ sections, mapBlockSize ∣ sec.startInputOffset)
    (hfuel : endFrom position sections ≤ position + fuel) :
    ∃ groups, splitSectionsFrom size fuel index position offset sections = some groups
      ∧ (∀ (i : Nat) (group : SectionGroup), groups[i]? = some group → group.index = index + i)
      ∧ RangesFrom position (endFrom position sections) groups
      ∧ ∀ group ∈ groups, BlockGroup sections group := by
  induction fuel generalizing index position offset sections with
  | zero =>
      cases sections with
      | nil => exact ⟨[], rfl, by simp, rfl, by simp⟩
      | cons sec rest =>
          exfalso
          have hle := hresumes.le_endFrom
          obtain ⟨hplaced, hposition, hoffset, haligned, hwhole⟩ := hresumes
          have hok := fillGroup_ok size hplaced hoffset haligned hwhole
            (by omega) (Int.natCast_dvd_natCast.mpr hblocks)
          have hprogress := hok.progress
          have htotal := hok.total
          have hnext := hok.resumes.le_endFrom
          rw [← hposition] at hprogress htotal
          omega
  | succ fuel ih =>
      cases sections with
      | nil => exact ⟨[], rfl, by simp, rfl, by simp⟩
      | cons sec rest =>
          obtain ⟨hplaced, hposition, hoffset, haligned, hwhole⟩ := hresumes
          have hok := fillGroup_ok size hplaced hoffset haligned hwhole
            (by omega) (Int.natCast_dvd_natCast.mpr hblocks)
          rw [← hposition] at hok
          generalize hf : fillGroup size offset sec rest = f at hok
          have hstop := hok.stop
          have hprogress := hok.progress
          have hsizeEq : position + (size - f.remaining).toNat
              = f.last.startInputOffset + f.offsetInSection := by omega
          obtain ⟨dropped, hdropped, hends⟩ := hok.dropped
          obtain ⟨groups, hgroups, hindexed, hranges, hblock⟩ := ih (index + 1)
            hok.resumes (fun s hs => hstarts s (hdropped ▸ List.mem_append_right _ hs))
            (by rw [hok.total]; omega)
          have hdvd : mapBlockSize ∣ position := by
            rw [hposition]
            exact Nat.dvd_add (hstarts sec List.mem_cons_self) haligned
          refine ⟨⟨index, f.taken, position, f.last.startInputOffset + f.offsetInSection, position,
            (size - f.remaining).toNat⟩ :: groups, ?_, ?_, ?_, ?_⟩
          · rw [splitSectionsFrom, hf]
            simp only [hsizeEq, hgroups, Option.map_some]
            rw [← hposition]
          · intro i group hgroup
            cases i with
            | zero =>
                simp only [List.getElem?_cons_zero, Option.some.injEq] at hgroup
                rw [← hgroup]
                rfl
            | succ i =>
                rw [List.getElem?_cons_succ] at hgroup
                rw [hindexed i group hgroup]
                omega
          · exact ⟨rfl, hprogress, hok.total ▸ hranges⟩
          · intro group hgroup
            rcases List.mem_cons.mp hgroup with rfl | hgroup
            · exact hok.blockGroup hdvd
            · rw [hdropped]
              exact (hblock group hgroup).append fun s hs =>
                Nat.le_trans (hends s hs) (hranges.le_start group hgroup)

/-- The groups that the linker makes cut the space at block boundaries. -/
theorem splitSections_blockSplit {size : Nat} (hsize : 0 < size) (hblocks : mapBlockSize ∣ size)
    {sections : List StringMergeInputSection} (hplaced : PlacedFrom 0 sections) :
    ∃ groups, splitSections size (totalInputSize sections) sections = some groups
      ∧ BlockSplit sections groups := by
  have hresumes : Resumes 0 0 sections := by
    cases sections with
    | nil => trivial
    | cons sec rest =>
        have hstart := hplaced.1
        exact ⟨hstart ▸ hplaced, by omega, paddedLen_pos hplaced.2.1, Nat.dvd_zero _, fun _ => rfl⟩
  obtain ⟨groups, hgroups, hindexed, hranges, hblock⟩ := splitSectionsFrom_ok hsize hblocks
    (totalInputSize sections) 0 hresumes (hplaced.dvd_start (Nat.dvd_zero _))
    (Nat.le_add_left _ _)
  exact ⟨groups, hgroups, fun i group h => by simpa using hindexed i group h, hranges, hblock⟩

end JdxLinker
