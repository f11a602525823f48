import JdxLinker.OutputOrder.SectionEvents

/-!
# The segments that are open at a section

At each primary section, one segment is open for each definition that includes the section, and no
other is. A section with a fixed address is in new segments only, and the end of a segment that cuts
the writable load segment ends that one too.
-/

namespace JdxLinker.OutputOrder

open Script (Expression Name)
open Brackets

variable {p : Platform} {n : Nat} {inputs : BuilderInputs p n} {b b' : OutputOrderBuilder p n}
  {s : Fin n}

/-- The segment was started for a section: no other section is between its start and the section. -/
def StartedFor (events : List (OrderEvent n)) (id : ProgramSegmentId) (t : Fin n) : Prop :=
  ∃ before after, events = before ++ .section t :: after ∧ StartedSince before id

/-- What holds of the segments where a primary section is put. -/
structure AtSection (inputs : BuilderInputs p n) (segments : List p.ProgramSegmentDef)
    (before : List (OrderEvent n)) (s : Fin n) : Prop where
  /-- One segment is open for each definition that includes the section. -/
  included : ∀ d ∈ inputs.segmentDefs, inputs.outputSections.shouldIncludeInSegment s d →
    ∃! id, Open before id ∧ segments[id]? = some d
  /-- No other segment is open. -/
  nothingElse : ∀ id, Open before id → ∃ d ∈ inputs.segmentDefs, segments[id]? = some d ∧
    inputs.outputSections.shouldIncludeInSegment s d
  /-- The open segments were started for a section in the same region. -/
  region : ∀ id, Open before id → ∃ t, StartedFor (before ++ [.section s]) id t ∧
    (inputs.outputSections.outputInfo t).regionName = (inputs.outputSections.outputInfo s).regionName
  /-- A section with a fixed address is in new segments only. -/
  address : (inputs.outputSections.location s).isSome → ∀ id, Open before id →
    StartedSince before id
  /-- Where a segment has ended that cuts the writable load segment, the latter is new. -/
  relro : ∀ earlier latest, before = earlier ++ latest → (∀ t, .section t ∉ latest) →
    ∀ ended d, .segmentEnd ended ∈ latest → segments[ended]? = some d →
      p.shouldCutRwSegmentWhenEnding d → ∀ rw, inputs.segmentDefs.find? OutputOrderBuilder.isRwLoad =
        some rw → ∀ id, Open before id → segments[id]? = some rw → StartedSince before id

/-- The slots hold the open segments. -/
structure Tracks (inputs : BuilderInputs p n) (b : OutputOrderBuilder p n) : Prop where
  defs : b.slots.map SegmentSlot.segmentDef = inputs.segmentDefs
  numbered : Numbered segmentMark b.programSegments.length b.events
  isOpen : ∀ id, Open b.events id ↔ id ∈ activeIds b.slots
  nodup : (activeIds b.slots).Nodup
  segment : ∀ slot ∈ b.slots, ∀ id, slot.activeKind = some id →
    b.programSegments[id]? = some slot.segmentDef

/-- What holds where each primary section was put. -/
def Past (inputs : BuilderInputs p n) (events : List (OrderEvent n))
    (segments : List p.ProgramSegmentDef) : Prop :=
  ∀ before t after, events = before ++ .section t :: after →
    inputs.outputSections.mergeTarget t = none → AtSection inputs segments before t

/-- What holds between two sections. -/
structure Rests (inputs : BuilderInputs p n) (b : OutputOrderBuilder p n) : Prop
    extends Tracks inputs b where
  last : b.events = [] ∨ ∃ init t, b.events = init ++ [.section t]
  sameRegion : ∃ region, ∀ slot ∈ b.slots, slot.activeKind.isSome → slot.activeRegion = region
  started : ∀ slot ∈ b.slots, ∀ id, slot.activeKind = some id → ∃ t, StartedFor b.events id t ∧
    (inputs.outputSections.outputInfo t).regionName = slot.activeRegion
  past : Past inputs b.events b.programSegments


/-! ### Segments started since a section -/

theorem StartedFor.append {events : List (OrderEvent n)} {id : ProgramSegmentId} {t : Fin n}
    (h : StartedFor events id t) (more : List (OrderEvent n)) :
    StartedFor (events ++ more) id t := by
  obtain ⟨before, after, rfl, hsince⟩ := h
  exact ⟨before, after ++ more, by simp, hsince⟩

theorem StartedSince.startedFor {before : List (OrderEvent n)} {id : ProgramSegmentId}
    (h : StartedSince before id) (t : Fin n) : StartedFor (before ++ [.section t]) id t :=
  ⟨before, [], rfl, h⟩

theorem startedSince_of_mem {before more : List (OrderEvent n)} {start : List ProgramSegmentId}
    {id : ProgramSegmentId} (hid : id ∈ start) (hmore : ∀ e ∈ more, ∀ t, e ≠ .section t) :
    StartedSince (before ++ start.map .segmentStart ++ more) id := by
  obtain ⟨earlier, later, rfl⟩ := List.append_of_mem hid
  refine ⟨before ++ earlier.map .segmentStart, .segmentStart id,
    later.map .segmentStart ++ more, by simp, rfl, ?_⟩
  rintro e he ⟨t, rfl⟩
  rcases List.mem_append.mp he with he | he
  · simp at he
  · exact hmore _ he t rfl

theorem mem_kept_iff {ids kept gone : List ProgramSegmentId} (hnodup : ids.Nodup)
    (h : ids.Perm (kept ++ gone)) {id : ProgramSegmentId} : id ∈ kept ↔ id ∈ ids ∧ id ∉ gone := by
  have hdisjoint := (List.nodup_append.mp (h.nodup_iff.mp hnodup)).2.2
  rw [h.mem_iff, List.mem_append]
  constructor
  · exact fun hkept => ⟨.inl hkept, fun hgone => hdisjoint id hkept id hgone rfl⟩
  · rintro ⟨hkept | hgone, hnot⟩
    · exact hkept
    · exact absurd hgone hnot

/-! ### The slots after each part -/

namespace Tracks

theorem lt_of_mem_activeIds (h : Tracks inputs b) {id : ProgramSegmentId}
    (hid : id ∈ activeIds b.slots) : id < b.programSegments.length :=
  h.numbered.lt_of_isOpen ((h.isOpen id).mpr hid)

theorem slots_nodup (h : Tracks inputs b) : (b.slots.map SegmentSlot.segmentDef).Nodup := by
  rw [h.defs]
  exact inputs.segmentDefs_nodup

theorem new : Tracks inputs (OutputOrderBuilder.new inputs) where
  defs := by
    rw [OutputOrderBuilder.new, List.map_map]
    exact List.map_id' _
  numbered := .nil
  isOpen id := by simp [OutputOrderBuilder.new, activeIds, Open, Brackets.IsOpen]
  nodup := by simp [OutputOrderBuilder.new, activeIds]
  segment := by simp [OutputOrderBuilder.new]

theorem append_neutral (h : Tracks inputs b) {events : List (OrderEvent n)}
    (hneutral : ∀ e ∈ events, segmentMark e = .neutral) (hevents : b'.events = b.events ++ events)
    (hslots : b'.slots = b.slots) (hsegments : b'.programSegments = b.programSegments) :
    Tracks inputs b' where
  defs := by rw [hslots, h.defs]
  numbered := by
    rw [hevents, hsegments]
    exact h.numbered.append_neutral hneutral
  isOpen id := by
    rw [hevents, hslots]
    exact (isOpen_append_iff (untouched_of_neutral hneutral)).trans (h.isOpen id)
  nodup := by rw [hslots]; exact h.nodup
  segment := by rw [hslots, hsegments]; exact h.segment

theorem endRwLoadSegment (h : Tracks inputs b) : Tracks inputs b.endRwLoadSegment where
  defs := (OutputOrderBuilder.takeRwLoad_map_segmentDef _).trans h.defs
  numbered := by
    refine h.numbered.append_closes (map_segmentEnd _) ?_ (by
      cases (OutputOrderBuilder.takeRwLoad b.slots).1 <;> simp)
    intro id hid
    refine (h.isOpen id).mpr ?_
    exact (OutputOrderBuilder.activeIds_perm_takeRwLoad b.slots).mem_iff.mpr
      (List.mem_append_right _ hid)
  isOpen id := by
    refine (isOpen_append_closes (map_segmentEnd _)).trans
      ((and_congr_left' (h.isOpen id)).trans ?_)
    exact (mem_kept_iff h.nodup (OutputOrderBuilder.activeIds_perm_takeRwLoad b.slots)).symm
  nodup := (List.nodup_append.mp
    ((OutputOrderBuilder.activeIds_perm_takeRwLoad b.slots).nodup_iff.mp h.nodup)).1
  segment slot hslot id hid :=
    h.segment slot (OutputOrderBuilder.mem_of_mem_takeRwLoad hslot (by rw [hid]; rfl)) id hid

theorem cut (h : Tracks inputs b) : Tracks inputs (b.cut inputs s) := by
  rw [OutputOrderBuilder.cut]
  split
  · exact h.endRwLoadSegment
  · exact h

/-- The slots hold the open segments at the event of a section. -/
theorem sectionSegments (h : Tracks inputs b) {stop start kept : List ProgramSegmentId}
    {newDefs : List p.ProgramSegmentDef} {address more : List (OrderEvent n)}
    {c : OutputOrderBuilder p n}
    (hs : OutputOrderBuilder.SectionSegments inputs b s stop start b' kept newDefs)
    (haddress : ∀ e ∈ address, segmentMark e = .neutral)
    (hmore : ∀ e ∈ more, segmentMark e = .neutral)
    (hevents : c.events = b.events ++ stop.map .segmentEnd ++ address ++
      start.map .segmentStart ++ more)
    (hslots : c.slots = b'.slots) (hsegments : c.programSegments = b'.programSegments) :
    Tracks inputs c := by
  have hstops : ∀ id ∈ stop, Open b.events id := fun id hid =>
    (h.isOpen id).mpr (hs.before.mem_iff.mpr (List.mem_append_right _ hid))
  have hnodups := List.nodup_append.mp (hs.before.nodup_iff.mp h.nodup)
  have hstopped := h.numbered.append_closes (map_segmentEnd stop) hstops hnodups.2.1
  have hstarted : Numbered segmentMark (b.programSegments.length + newDefs.length)
      (b.events ++ stop.map .segmentEnd ++ address ++ start.map .segmentStart) :=
    (hstopped.append_neutral haddress).append_opens (by rw [map_segmentStart, hs.startIds])
  have hlength : b'.programSegments.length = b.programSegments.length + newDefs.length := by
    rw [hs.programSegments, List.length_append]
  have hopen : ∀ id, Open (b.events ++ stop.map .segmentEnd ++ address ++
      start.map .segmentStart) id ↔ id ∈ activeIds b'.slots := by
    intro id
    have hnew : ∀ new ∈ start, Mark.closes new ∉
        (b.events ++ stop.map OrderEvent.segmentEnd ++ address).map segmentMark := by
      intro new hnew
      rw [hs.startIds, List.mem_range'_1] at hnew
      exact ((hstopped.append_neutral haddress).untouched hnew.1).2
    refine (isOpen_append_opens (map_segmentStart start) hnew).trans ?_
    rw [hs.after.mem_iff, List.mem_append]
    refine or_congr_left ((isOpen_append_iff (untouched_of_neutral haddress)).trans ?_)
    refine (isOpen_append_closes (map_segmentEnd stop)).trans ?_
    exact (and_congr_left' (h.isOpen id)).trans (mem_kept_iff h.nodup hs.before).symm
  let started : OutputOrderBuilder p n :=
    ⟨b.events ++ stop.map .segmentEnd ++ address ++ start.map .segmentStart, b'.programSegments,
      b'.slots, b'.lastLocationCounter⟩
  suffices htracks : Tracks inputs started from
    htracks.append_neutral hmore hevents hslots hsegments
  constructor
  case defs => exact hs.defs.trans h.defs
  case numbered =>
    rw [hlength]
    exact hstarted
  case isOpen => exact hopen
  case nodup =>
    refine hs.after.nodup_iff.mpr (List.nodup_append.mpr ⟨hnodups.1, ?_, ?_⟩)
    · rw [hs.startIds]
      exact List.nodup_range'
    · rintro id hkept _ hstart rfl
      have hlt := h.lt_of_mem_activeIds (hs.before.mem_iff.mpr (List.mem_append_left _ hkept))
      rw [hs.startIds, List.mem_range'_1] at hstart
      exact absurd hlt (Nat.not_lt.mpr hstart.1)
  case segment => exact hs.segment

end Tracks

/-! ### At the event of a section -/

/-- What was found at a section is not changed by segments that are added later. -/
theorem AtSection.mono {segments more : List p.ProgramSegmentDef} {before : List (OrderEvent n)}
    (h : AtSection inputs segments before s)
    (hopens : ∀ id, Mark.opens id ∈ before.map segmentMark → id < segments.length)
    (hcloses : ∀ id, Mark.closes id ∈ before.map segmentMark → id < segments.length) :
    AtSection inputs (segments ++ more) before s := by
  have hsame : ∀ id, Open before id → (segments ++ more)[id]? = segments[id]? := fun id hopen =>
    List.getElem?_append_left (hopens id hopen.1)
  constructor
  case included =>
    intro d hd hincludes
    obtain ⟨id, ⟨hopen, hdef⟩, hunique⟩ := h.included d hd hincludes
    refine ⟨id, ⟨hopen, (hsame id hopen).trans hdef⟩, ?_⟩
    rintro other ⟨hother, hotherDef⟩
    exact hunique other ⟨hother, (hsame other hother).symm.trans hotherDef⟩
  case nothingElse =>
    intro id hopen
    obtain ⟨d, hd, hdef, hincludes⟩ := h.nothingElse id hopen
    exact ⟨d, hd, (hsame id hopen).trans hdef, hincludes⟩
  case region => exact h.region
  case address => exact h.address
  case relro =>
    intro earlier latest hbefore hsections ended d hended hdef hcut rw hrw id hopen hid
    have hclosed : ended < segments.length := by
      refine hcloses ended ?_
      rw [hbefore, List.map_append, List.mem_append]
      exact .inr (List.mem_map_of_mem hended)
    rw [List.getElem?_append_left hclosed] at hdef
    rw [hsame id hopen] at hid
    exact h.relro earlier latest hbefore hsections ended d hended hdef hcut rw hrw id hopen hid

theorem cut_cases (inputs : BuilderInputs p n) (b : OutputOrderBuilder p n) (s : Fin n) :
    (b.shouldEndCurrentRwSegment inputs s = true ∧ b.cut inputs s = b.endRwLoadSegment) ∨
      (b.shouldEndCurrentRwSegment inputs s = false ∧ b.cut inputs s = b) := by
  rw [OutputOrderBuilder.cut]
  cases b.shouldEndCurrentRwSegment inputs s <;> simp

theorem mem_of_mem_cut {slot : SegmentSlot p} (h : slot ∈ (b.cut inputs s).slots)
    (hactive : slot.activeKind.isSome) : slot ∈ b.slots := by
  rcases cut_cases inputs b s with ⟨-, hcut⟩ | ⟨-, hcut⟩
  · rw [hcut] at h
    exact OutputOrderBuilder.mem_of_mem_takeRwLoad h hactive
  · rwa [hcut] at h

theorem shouldEnd_of_mem {slot : SegmentSlot p} (h : slot ∈ b.slots)
    (hactive : slot.activeKind.isSome) (hcut : p.shouldCutRwSegmentWhenEnding slot.segmentDef)
    (hincludes : inputs.outputSections.shouldIncludeInSegment s slot.segmentDef = false) :
    b.shouldEndCurrentRwSegment inputs s = true := by
  rw [OutputOrderBuilder.shouldEndCurrentRwSegment, List.any_eq_true]
  exact ⟨slot, h, by rw [hactive, hcut, hincludes]; rfl⟩

/-- The events before a section, from its predecessor on. -/
def ownEvents (inputs : BuilderInputs p n) (s : Fin n) (taken stop start : List ProgramSegmentId) :
    List (OrderEvent n) :=
  taken.map .segmentEnd ++ stop.map .segmentEnd ++ OutputOrderBuilder.sectionAddress inputs s ++
    start.map .segmentStart ++ OutputOrderBuilder.counterEvents inputs s

theorem ownEvents_ne_section {taken stop start : List ProgramSegmentId} {e : OrderEvent n}
    (h : e ∈ ownEvents inputs s taken stop start) (t : Fin n) : e ≠ .section t := by
  simp only [ownEvents, List.mem_append, List.mem_map] at h
  rcases h with (((⟨id, -, rfl⟩ | ⟨id, -, rfl⟩) | haddress) | ⟨id, -, rfl⟩) | hcounter
  · simp
  · simp
  · exact (OutputOrderBuilder.sectionAddress_neutral haddress).2 t
  · simp
  · exact (OutputOrderBuilder.counterEvents_neutral hcounter).2 t

theorem segmentEnd_mem_ownEvents {taken stop start : List ProgramSegmentId} {id : ProgramSegmentId}
    (h : .segmentEnd id ∈ ownEvents inputs s taken stop start) : id ∈ taken ∨ id ∈ stop := by
  simp only [ownEvents, List.mem_append, List.mem_map] at h
  rcases h with (((⟨id', hid, heq⟩ | ⟨id', hid, heq⟩) | haddress) | ⟨id', -, heq⟩) | hcounter
  · cases heq
    exact .inl hid
  · cases heq
    exact .inr hid
  · simpa [segmentMark] using (OutputOrderBuilder.sectionAddress_neutral haddress).1
  · cases heq
  · simpa [segmentMark] using (OutputOrderBuilder.counterEvents_neutral hcounter).1

/-- What follows the last section of a builder at rest is among the events that were added. -/
theorem Rests.latest_subset (h : Rests inputs b) {new earlier latest : List (OrderEvent n)}
    (heq : b.events ++ new = earlier ++ latest) (hlatest : ∀ t, .section t ∉ latest) {e : OrderEvent n}
    (he : e ∈ latest) : e ∈ new := by
  rcases List.append_eq_append_iff.mp heq with ⟨rest, -, rfl⟩ | ⟨rest, hevents, rfl⟩
  · exact List.mem_append_right _ he
  · rcases List.eq_nil_or_concat rest with rfl | ⟨init, last, rfl⟩
    · simpa using he
    · rcases h.last with hnil | ⟨init', t, hlast⟩
      · rw [hnil] at hevents
        simp at hevents
      · rw [hevents, List.concat_eq_append, ← List.append_assoc] at hlast
        obtain ⟨-, rfl⟩ := List.append_singleton_inj.mp hlast
        exact absurd (by simp) (hlatest t)

theorem Rests.atSection (h : Rests inputs b) {stop start kept : List ProgramSegmentId}
    {newDefs : List p.ProgramSegmentDef} {c : OutputOrderBuilder p n}
    (hs : OutputOrderBuilder.SectionSegments inputs (b.cut inputs s) s stop start b' kept newDefs)
    (htracks : Tracks inputs c) {taken : List ProgramSegmentId}
    (hcut : (b.cut inputs s).events = b.events ++ taken.map .segmentEnd)
    (hevents : c.events = b.events ++ ownEvents inputs s taken stop start)
    (hslots : c.slots = b'.slots) (hsegments : c.programSegments = b'.programSegments) :
    AtSection inputs c.programSegments c.events s := by
  have hstart : ∀ id ∈ start, StartedSince c.events id := by
    intro id hid
    have hsince : StartedSince (b.events ++ taken.map .segmentEnd ++ stop.map .segmentEnd ++
        OutputOrderBuilder.sectionAddress inputs s ++ start.map .segmentStart ++
        OutputOrderBuilder.counterEvents inputs s) id :=
      startedSince_of_mem hid fun e he => (OutputOrderBuilder.counterEvents_neutral he).2
    simpa only [hevents, ownEvents, List.append_assoc] using hsince
  have hopen : ∀ id, Open c.events id → id ∈ kept ∨ id ∈ start := by
    intro id hid
    have hactive := (htracks.isOpen id).mp hid
    rw [hslots, hs.after.mem_iff] at hactive
    exact List.mem_append.mp hactive
  have hslot : ∀ id, Open c.events id → ∃ slot ∈ b'.slots, slot.activeKind = some id := by
    intro id hid
    have hactive := (htracks.isOpen id).mp hid
    rw [hslots] at hactive
    exact mem_activeIds.mp hactive
  have hdefs : b'.slots.map SegmentSlot.segmentDef = inputs.segmentDefs := hslots ▸ htracks.defs
  have hnodup : (b'.slots.map SegmentSlot.segmentDef).Nodup := hslots ▸ htracks.slots_nodup
  constructor
  case included =>
    intro d hd hincludes
    rw [← hdefs] at hd
    obtain ⟨slot, hslot', rfl⟩ := List.mem_map.mp hd
    have hactive := hs.active slot hslot'
    rw [hincludes] at hactive
    obtain ⟨id, hid⟩ := Option.isSome_iff_exists.mp hactive
    have hidOpen : Open c.events id := by
      rw [htracks.isOpen, hslots]
      exact mem_activeIds.mpr ⟨slot, hslot', hid⟩
    refine ⟨id, ⟨hidOpen, ?_⟩, ?_⟩
    · rw [hsegments]
      exact hs.segment slot hslot' id hid
    · rintro other ⟨hother, hotherDef⟩
      obtain ⟨slot₂, hslot₂, hid₂⟩ := hslot other hother
      rw [hsegments, hs.segment slot₂ hslot₂ other hid₂] at hotherDef
      obtain rfl := slot_unique hnodup hslot₂ hslot' (Option.some.inj hotherDef)
      exact Option.some.inj (hid₂.symm.trans hid)
  case nothingElse =>
    intro id hid
    obtain ⟨slot, hslot', hactive⟩ := hslot id hid
    refine ⟨slot.segmentDef, hdefs ▸ List.mem_map_of_mem hslot', ?_, ?_⟩
    · rw [hsegments]
      exact hs.segment slot hslot' id hactive
    · rw [← hs.active slot hslot', hactive]
      rfl
  case region =>
    intro id hid
    rcases hopen id hid with hkept | hnew
    · obtain ⟨slot, hslot', hactive, hregion⟩ := hs.keptFrom id hkept
      obtain ⟨t, hfor, ht⟩ :=
        h.started slot (mem_of_mem_cut hslot' (by rw [hactive]; rfl)) id hactive
      refine ⟨t, ?_, ht.trans hregion⟩
      rw [hevents, List.append_assoc]
      exact hfor.append _
    · exact ⟨s, (hstart id hnew).startedFor s, rfl⟩
  case address =>
    intro haddress id hid
    rcases hopen id hid with hkept | hnew
    · rw [hs.address haddress] at hkept
      simp at hkept
    · exact hstart id hnew
  case relro =>
    intro earlier latest hbefore hsections ended d hended hdef hcutDef rw hrw id hid hidDef
    rcases hopen id hid with hkept | hnew
    · obtain ⟨slot, hslot', hactive, hregion⟩ := hs.keptFrom id hkept
      have hslotDef : ∀ slot ∈ (b.cut inputs s).slots, ∀ id, slot.activeKind = some id →
          ∀ d, c.programSegments[id]? = some d → slot.segmentDef = d := by
        intro slot hslot id hactive d hd
        have hold := h.toTracks.cut.segment slot hslot id hactive
        rw [hsegments, hs.programSegments,
          List.getElem?_append_left (List.getElem?_eq_some_iff.mp hold).1, hold] at hd
        exact Option.some.inj hd
      have hended' := segmentEnd_mem_ownEvents
        (h.latest_subset (hevents.symm.trans hbefore) hsections hended)
      have hends : b.cut inputs s = b.endRwLoadSegment := by
        rcases cut_cases inputs b s with ⟨-, hends⟩ | ⟨hends, hkeeps⟩
        · exact hends
        · rcases hended' with htaken | hstop
          · rw [hkeeps] at hcut
            rw [List.map_eq_nil_iff.mp (List.self_eq_append_right.mp hcut)] at htaken
            simp at htaken
          · exfalso
            rcases hs.stoppedFrom ended hstop with hnil | ⟨slot₂, hslot₂, hactive₂, hreason⟩
            · rw [hnil] at hkept
              simp at hkept
            · have hsome₂ : slot₂.activeKind.isSome := by rw [hactive₂]; rfl
              have hdef₂ := hslotDef slot₂ hslot₂ ended hactive₂ d hdef
              rw [hkeeps] at hslot' hslot₂
              rcases hreason with hexcluded | hother
              · rw [shouldEnd_of_mem hslot₂ hsome₂ (hdef₂ ▸ hcutDef) hexcluded] at hends
                cases hends
              · -- All active segments were in one region, and one of them was kept.
                obtain ⟨region, hsame⟩ := h.sameRegion
                refine hother ?_
                rw [hsame slot₂ hslot₂ hsome₂, ← hregion,
                  hsame slot hslot' (by rw [hactive]; rfl)]
      have hrwSlot := hslotDef slot hslot' id hactive rw hidDef
      rw [hends] at hslot'
      have hinactive := OutputOrderBuilder.activeKind_of_takeRwLoad h.slots_nodup
        (by rw [h.defs]; exact hrw) hslot' hrwSlot
      rw [hinactive] at hactive
      cases hactive
    · exact hstart id hnew

/-! ### Runs -/

theorem secondaryEvents_neutral {keyed : List (UInt16 × Fin n)} {e : OrderEvent n}
    (h : e ∈ OutputOrderBuilder.secondaryEvents inputs keyed) : segmentMark e = .neutral := by
  obtain ⟨key, -, he⟩ := List.mem_flatMap.mp h
  rcases List.mem_append.mp he with he | he
  · exact (OutputOrderBuilder.counterEvents_neutral he).1
  · rw [List.mem_singleton.mp he]
    rfl

/-- The sections that come with a section are secondary. -/
theorem mergeTarget_of_mem_secondaryEvents {t : Fin n}
    (h : .section t ∈ OutputOrderBuilder.secondaryEvents inputs
      (OutputOrderBuilder.keyedSecondaries inputs s)) :
    inputs.outputSections.mergeTarget t = some s := by
  obtain ⟨⟨priority, sid⟩, hkey, he⟩ := List.mem_flatMap.mp h
  rcases List.mem_append.mp he with he | he
  · exact absurd rfl ((OutputOrderBuilder.counterEvents_neutral he).2 t)
  · obtain rfl : t = sid := by simpa using he
    rw [OutputOrderBuilder.keyedSecondaries, List.mem_mergeSort] at hkey
    obtain ⟨sid, hsid, heq⟩ := List.mem_map.mp hkey
    have hsame : sid = t := by
      split at heq
      · exact (Prod.mk.inj heq).2
      · exact (Prod.mk.inj heq).2
    rw [← hsame]
    exact of_decide_eq_true (List.mem_filter.mp hsid).2

theorem last_of_secondaryEvents (before : List (OrderEvent n)) (keyed : List (UInt16 × Fin n)) :
    ∃ init t, before ++ .section s :: OutputOrderBuilder.secondaryEvents inputs keyed =
      init ++ [.section t] := by
  rcases List.eq_nil_or_concat keyed with rfl | ⟨keyed, key, rfl⟩
  · exact ⟨before, s, rfl⟩
  · refine ⟨before ++ .section s :: (OutputOrderBuilder.secondaryEvents inputs keyed ++
      OutputOrderBuilder.counterEvents inputs key.2), key.2, ?_⟩
    simp [OutputOrderBuilder.secondaryEvents, List.concat_eq_append]

theorem Rests.new : Rests inputs (OutputOrderBuilder.new inputs) where
  toTracks := Tracks.new
  last := .inl rfl
  sameRegion := ⟨none, by simp [OutputOrderBuilder.new]⟩
  started := by simp [OutputOrderBuilder.new]
  past := by simp [OutputOrderBuilder.new, Past]

/-- Two ways to split a list where `x` stands: before or after the border. -/
theorem split_cases {α : Type} {xs ys l r : List α} {x : α} (h : xs ++ ys = l ++ x :: r) :
    (∃ r', xs = l ++ x :: r') ∨ ∃ l', l = xs ++ l' ∧ ys = l' ++ x :: r := by
  rcases List.append_eq_append_iff.mp h with ⟨l', rfl, rfl⟩ | ⟨rest, rfl, hrest⟩
  · exact .inr ⟨l', rfl, rfl⟩
  · rcases List.cons_eq_append_iff.mp hrest with ⟨rfl, rfl⟩ | ⟨r', rfl, -⟩
    · exact .inr ⟨[], by simp, rfl⟩
    · exact .inl ⟨r', rfl⟩

/-- What was found at earlier sections is kept by events that come later. -/
theorem Past.append {events new : List (OrderEvent n)} {segments more : List p.ProgramSegmentDef}
    (h : Past inputs events segments) (hnumbered : Numbered segmentMark segments.length events)
    (hnew : ∀ before t after, new = before ++ .section t :: after →
      inputs.outputSections.mergeTarget t = none →
        AtSection inputs (segments ++ more) (events ++ before) t) :
    Past inputs (events ++ new) (segments ++ more) := by
  intro before t after hsplit ht
  rcases split_cases hsplit with ⟨after', hold⟩ | ⟨before', rfl, hrest⟩
  · refine (h before t after' hold ht).mono (fun id hid => ?_) (fun id hid => ?_)
    · refine hnumbered.lt_of_opens ?_
      rw [hold, List.map_append, List.mem_append]
      exact .inl hid
    · refine hnumbered.lt_of_closes ?_
      rw [hold, List.map_append, List.mem_append]
      exact .inl hid
  · exact hnew before' t after hrest ht

/-- The one primary section among the events that a section adds is the section itself. -/
theorem primary_of_split {new before after : List (OrderEvent n)} {t : Fin n}
    (hnew : ∀ e ∈ new, ∀ t, e ≠ .section t)
    (hsplit : new ++ .section s :: OutputOrderBuilder.secondaryEvents inputs
      (OutputOrderBuilder.keyedSecondaries inputs s) = before ++ .section t :: after)
    (ht : inputs.outputSections.mergeTarget t = none) : before = new ∧ t = s := by
  rcases split_cases hsplit with ⟨after', rfl⟩ | ⟨before', rfl, hrest⟩
  · exact absurd rfl (hnew _ (by simp) t)
  · rcases List.cons_eq_append_iff.mp hrest with ⟨rfl, heq⟩ | ⟨rest, rfl, heq⟩
    · rw [List.cons.injEq, OrderEvent.section.injEq] at heq
      exact ⟨List.append_nil _, heq.1⟩
    · have hsecondary : inputs.outputSections.mergeTarget t = some s :=
        mergeTarget_of_mem_secondaryEvents (by rw [heq]; simp)
      rw [ht] at hsecondary
      cases hsecondary

theorem cut_events (inputs : BuilderInputs p n) (b : OutputOrderBuilder p n) (s : Fin n) :
    ∃ taken : List ProgramSegmentId,
      (b.cut inputs s).events = b.events ++ taken.map .segmentEnd ∧
        (b.cut inputs s).programSegments = b.programSegments := by
  rcases cut_cases inputs b s with ⟨-, hcut⟩ | ⟨-, hcut⟩
  · rw [hcut]
    exact ⟨_, rfl, rfl⟩
  · rw [hcut]
    exact ⟨[], by simp, rfl⟩

/-- A primary section: the slots are moved to the segments of the section. -/
theorem Rests.addSection_primary (h : Rests inputs b) (hcustom : inputs.hasCustomPhdrs = false)
    (hwhole : inputs.outputKind.isPartialLink = false)
    (hprimary : inputs.outputSections.mergeTarget s = none) :
    Rests inputs (b.addSection inputs s) := by
  obtain ⟨taken, hcut, hcutSegments⟩ := cut_events inputs b s
  obtain ⟨kept, newDefs, hs⟩ := OutputOrderBuilder.startStop_spec (b := b.cut inputs s) hcustom
    hwhole hprimary h.toTracks.cut.segment
  obtain ⟨hevents, hslots, hsegments⟩ :=
    OutputOrderBuilder.addSection_eq inputs b s
  generalize ((b.cut inputs s).startStopSegmentsForSection inputs s).1 = stop at hs hevents
  generalize ((b.cut inputs s).startStopSegmentsForSection inputs s).2.1 = start at hs hevents
  generalize ((b.cut inputs s).startStopSegmentsForSection inputs s).2.2 = b' at *
  let c : OutputOrderBuilder p n :=
    ⟨b.events ++ ownEvents inputs s taken stop start, b'.programSegments, b'.slots,
      b'.lastLocationCounter⟩
  have htracks : Tracks inputs c := by
    refine h.toTracks.cut.sectionSegments hs
      (fun e (he : e ∈ OutputOrderBuilder.sectionAddress inputs s) =>
        (OutputOrderBuilder.sectionAddress_neutral he).1)
      (fun e (he : e ∈ OutputOrderBuilder.counterEvents inputs s) =>
        (OutputOrderBuilder.counterEvents_neutral he).1) ?_ rfl rfl
    simp only [c, hcut, ownEvents, List.append_assoc]
  have hat : AtSection inputs b'.programSegments c.events s :=
    h.atSection (c := c) hs htracks hcut rfl rfl rfl
  have hall : (b.addSection inputs s).events = b.events ++ ownEvents inputs s taken stop start ++
      .section s :: OutputOrderBuilder.secondaryEvents inputs
        (OutputOrderBuilder.keyedSecondaries inputs s) := by
    rw [hevents, hs.events, hcut]
    simp only [ownEvents, List.append_assoc]
  have hfinal : Tracks inputs (b.addSection inputs s) := by
    refine htracks.append_neutral ?_ hall hslots hsegments
    intro e he
    rcases List.mem_cons.mp he with rfl | he
    · rfl
    · exact secondaryEvents_neutral he
  refine ⟨hfinal, ?_, ?_, ?_, ?_⟩
  · rw [hall]
    exact .inr (last_of_secondaryEvents _ _)
  · rw [hslots]
    exact ⟨_, hs.region⟩
  · intro slot hslot id hid
    rw [hslots] at hslot
    have hopen : Open c.events id := (htracks.isOpen id).mpr (mem_activeIds.mpr ⟨slot, hslot, hid⟩)
    obtain ⟨t, hfor, ht⟩ := hat.region id hopen
    refine ⟨t, ?_, ht.trans (hs.region slot hslot (by rw [hid]; rfl)).symm⟩
    rw [hall, ← List.singleton_append, ← List.append_assoc]
    exact hfor.append _
  · rw [hall, List.append_assoc, hsegments, hs.programSegments, hcutSegments]
    refine h.past.append h.numbered ?_
    intro before t after hsplit ht
    obtain ⟨rfl, rfl⟩ := primary_of_split (fun e he => ownEvents_ne_section he) hsplit ht
    rw [← hcutSegments, ← hs.programSegments]
    exact hat

/-- A secondary section: no segment is started. -/
theorem Rests.addSection_secondary (h : Rests inputs b) (hcustom : inputs.hasCustomPhdrs = false)
    (hwhole : inputs.outputKind.isPartialLink = false)
    (hsecondary : (inputs.outputSections.mergeTarget s).isSome) :
    Rests inputs (b.addSection inputs s) := by
  obtain ⟨taken, hcut, hcutSegments⟩ := cut_events inputs b s
  obtain ⟨hevents, hslots, hsegments⟩ :=
    OutputOrderBuilder.addSection_eq inputs b s
  have hnone : (b.cut inputs s).startStopSegmentsForSection inputs s =
      ([], [], b.cut inputs s) := by
    simp [OutputOrderBuilder.startStopSegmentsForSection, hcustom, hwhole, hsecondary]
  rw [hnone] at hevents hslots hsegments
  have hall : (b.addSection inputs s).events = b.events ++ (ownEvents inputs s taken [] [] ++
      .section s :: OutputOrderBuilder.secondaryEvents inputs
        (OutputOrderBuilder.keyedSecondaries inputs s)) := by
    rw [hevents, hcut]
    simp [ownEvents]
  have hfinal : Tracks inputs (b.addSection inputs s) := by
    suffices hneutral : ∀ e ∈ OutputOrderBuilder.sectionAddress inputs s ++
        OutputOrderBuilder.counterEvents inputs s ++ .section s ::
          OutputOrderBuilder.secondaryEvents inputs (OutputOrderBuilder.keyedSecondaries inputs s),
        segmentMark e = .neutral from
      h.toTracks.cut.append_neutral hneutral (by rw [hevents]; simp) hslots hsegments
    intro e he
    rcases List.mem_append.mp he with he | he
    · rcases List.mem_append.mp he with he | he
      · exact (OutputOrderBuilder.sectionAddress_neutral he).1
      · exact (OutputOrderBuilder.counterEvents_neutral he).1
    · rcases List.mem_cons.mp he with rfl | he
      · rfl
      · exact secondaryEvents_neutral he
  refine ⟨hfinal, ?_, ?_, ?_, ?_⟩
  · rw [hall, ← List.append_assoc]
    exact .inr (last_of_secondaryEvents _ _)
  · obtain ⟨region, hregion⟩ := h.sameRegion
    rw [hslots]
    exact ⟨region, fun slot hslot hactive => hregion slot (mem_of_mem_cut hslot hactive) hactive⟩
  · intro slot hslot id hid
    rw [hslots] at hslot
    obtain ⟨t, hfor, ht⟩ := h.started slot (mem_of_mem_cut hslot (by rw [hid]; rfl)) id hid
    rw [hall]
    exact ⟨t, hfor.append _, ht⟩
  · rw [hall, hsegments, hcutSegments, ← List.append_nil b.programSegments]
    refine h.past.append h.numbered ?_
    intro before t after hsplit ht
    obtain ⟨-, rfl⟩ := primary_of_split (fun e he => ownEvents_ne_section he) hsplit ht
    rw [ht] at hsecondary
    cases hsecondary

theorem Rests.addSections (h : Rests inputs b) (hcustom : inputs.hasCustomPhdrs = false)
    (hwhole : inputs.outputKind.isPartialLink = false) (sections : List (Fin n)) :
    Rests inputs (b.addSections inputs sections) := by
  induction sections generalizing b with
  | nil => exact h
  | cons s sections ih =>
      refine ih (b := b.addSection inputs s) ?_
      cases hprimary : inputs.outputSections.mergeTarget s with
      | none => exact h.addSection_primary hcustom hwhole hprimary
      | some _ => exact h.addSection_secondary hcustom hwhole (by rw [hprimary]; rfl)

end JdxLinker.OutputOrder
