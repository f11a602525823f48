import JdxLinker.OutputOrder.Tracking

/-!
# The events of one section

The events that a section adds are those that stop and start segments, and events that do not touch
segments.
-/

namespace JdxLinker.OutputOrder

open Script (Expression Name)
open Brackets

variable {p : Platform} {n : Nat} {inputs : BuilderInputs p n} {b b' : OutputOrderBuilder p n}
  {s : Fin n}

namespace OutputOrderBuilder

def counterEvents (inputs : BuilderInputs p n) (sid : Fin n) : List (OrderEvent n) :=
  match (inputs.outputSections.outputInfo sid).locationInfo with
  | some locInfo =>
      ((inputs.locationCounters.zipIdx.take locInfo.locationCounters.2).drop
        locInfo.locationCounters.1).map fun entry => locationCounterEvent inputs entry.2 entry.1
  | none => []

def secondaryEvents (inputs : BuilderInputs p n) (keyed : List (UInt16 × Fin n)) :
    List (OrderEvent n) :=
  keyed.flatMap fun key => counterEvents inputs key.2 ++ [.section key.2]

theorem locationCounterEvent_neutral (index : Nat) (lc : LocationCounter n) :
    segmentMark (locationCounterEvent inputs index lc) = .neutral ∧
      ∀ t, locationCounterEvent inputs index lc ≠ .section t := by
  cases lc <;> simp [locationCounterEvent, segmentMark]

theorem counterEvents_neutral {sid : Fin n} {e : OrderEvent n} (h : e ∈ counterEvents inputs sid) :
    segmentMark e = .neutral ∧ ∀ t, e ≠ .section t := by
  simp only [counterEvents] at h
  split at h
  · obtain ⟨⟨lc, index⟩, -, rfl⟩ := List.mem_map.mp h
    exact locationCounterEvent_neutral index lc
  · simp at h

theorem sectionAddress_neutral {e : OrderEvent n} (h : e ∈ sectionAddress inputs s) :
    segmentMark e = .neutral ∧ ∀ t, e ≠ .section t := by
  simp only [sectionAddress] at h
  split at h
  · split at h
    · obtain rfl := List.mem_singleton.mp h
      simp [segmentMark]
    · simp at h
  · simp at h

theorem addSecondary_eq (inputs : BuilderInputs p n) (b : OutputOrderBuilder p n) (sid : Fin n) :
    (b.addSecondary inputs sid).events = b.events ++ (counterEvents inputs sid ++ [.section sid]) ∧
      (b.addSecondary inputs sid).slots = b.slots ∧
      (b.addSecondary inputs sid).programSegments = b.programSegments := by
  simp only [addSecondary, counterEvents]
  cases (inputs.outputSections.outputInfo sid).locationInfo <;>
    simp [pushEvents, emitLocationCounters]

theorem foldl_addSecondary_eq (keyed : List (UInt16 × Fin n)) :
    (keyed.foldl (fun b key => b.addSecondary inputs key.2) b).events =
        b.events ++ secondaryEvents inputs keyed ∧
      (keyed.foldl (fun b key => b.addSecondary inputs key.2) b).slots = b.slots ∧
      (keyed.foldl (fun b key => b.addSecondary inputs key.2) b).programSegments =
        b.programSegments := by
  induction keyed generalizing b with
  | nil => simp [secondaryEvents]
  | cons key keyed ih =>
      obtain ⟨hevents, hslots, hsegments⟩ := ih (b := b.addSecondary inputs key.2)
      obtain ⟨hevents', hslots', hsegments'⟩ := addSecondary_eq inputs b key.2
      refine ⟨?_, hslots.trans hslots', hsegments.trans hsegments'⟩
      simp only [List.foldl_cons, hevents, hevents', secondaryEvents, List.flatMap_cons,
        List.append_assoc]

/-- The builder before the segments of a section are determined. -/
def cut (inputs : BuilderInputs p n) (b : OutputOrderBuilder p n) (s : Fin n) :
    OutputOrderBuilder p n :=
  if b.shouldEndCurrentRwSegment inputs s then b.endRwLoadSegment else b

theorem addSection_eq (inputs : BuilderInputs p n) (b : OutputOrderBuilder p n) (s : Fin n) :
    (b.addSection inputs s).events =
        (((b.cut inputs s).startStopSegmentsForSection inputs s).2.2.events ++
          ((b.cut inputs s).startStopSegmentsForSection inputs s).1.map .segmentEnd ++
          sectionAddress inputs s ++
          ((b.cut inputs s).startStopSegmentsForSection inputs s).2.1.map .segmentStart ++
          counterEvents inputs s) ++
        .section s :: secondaryEvents inputs (keyedSecondaries inputs s) ∧
      (b.addSection inputs s).slots =
        ((b.cut inputs s).startStopSegmentsForSection inputs s).2.2.slots ∧
      (b.addSection inputs s).programSegments =
        ((b.cut inputs s).startStopSegmentsForSection inputs s).2.2.programSegments := by
  simp only [addSection, cut]
  rw [(foldl_addSecondary_eq _).1, (foldl_addSecondary_eq _).2.1, (foldl_addSecondary_eq _).2.2]
  simp only [counterEvents]
  cases (inputs.outputSections.outputInfo s).locationInfo <;>
    simp [pushEvents, emitLocationCounters]

/-- What a primary section does to the segments. -/
structure SectionSegments (inputs : BuilderInputs p n) (b : OutputOrderBuilder p n) (s : Fin n)
    (stop start : List ProgramSegmentId) (b' : OutputOrderBuilder p n)
    (kept : List ProgramSegmentId) (newDefs : List p.ProgramSegmentDef) : Prop where
  events : b'.events = b.events
  before : (activeIds b.slots).Perm (kept ++ stop)
  startIds : start = List.range' b.programSegments.length newDefs.length
  programSegments : b'.programSegments = b.programSegments ++ newDefs
  after : (activeIds b'.slots).Perm (kept ++ start)
  defs : b'.slots.map SegmentSlot.segmentDef = b.slots.map SegmentSlot.segmentDef
  segment : ∀ slot ∈ b'.slots, ∀ id, slot.activeKind = some id →
    b'.programSegments[id]? = some slot.segmentDef
  active : ∀ slot ∈ b'.slots,
    slot.activeKind.isSome = inputs.outputSections.shouldIncludeInSegment s slot.segmentDef
  region : ∀ slot ∈ b'.slots, slot.activeKind.isSome →
    slot.activeRegion = (inputs.outputSections.outputInfo s).regionName
  address : (inputs.outputSections.location s).isSome → kept = []
  keptFrom : ∀ id ∈ kept, ∃ slot ∈ b.slots, slot.activeKind = some id ∧
    slot.activeRegion = (inputs.outputSections.outputInfo s).regionName
  stoppedFrom : ∀ id ∈ stop, kept = [] ∨ ∃ slot ∈ b.slots, slot.activeKind = some id ∧
    (inputs.outputSections.shouldIncludeInSegment s slot.segmentDef = false ∨
      slot.activeRegion ≠ (inputs.outputSections.outputInfo s).regionName)

theorem deactivate_segmentDef (slot : SegmentSlot p) :
    (deactivate slot).segmentDef = slot.segmentDef := by
  rw [deactivate]
  split <;> rfl

theorem deactivate_activeKind (slot : SegmentSlot p) : (deactivate slot).activeKind = none := by
  rw [deactivate]
  split
  · rfl
  · assumption

theorem activeIds_deactivate (slots : List (SegmentSlot p)) :
    activeIds (slots.map deactivate) = [] := by
  rw [activeIds, List.filterMap_map]
  exact List.filterMap_eq_nil_iff.mpr fun slot _ => deactivate_activeKind slot

theorem startStop_spec (hcustom : inputs.hasCustomPhdrs = false)
    (hwhole : inputs.outputKind.isPartialLink = false)
    (hprimary : inputs.outputSections.mergeTarget s = none)
    (h : ∀ slot ∈ b.slots, ∀ id, slot.activeKind = some id →
      b.programSegments[id]? = some slot.segmentDef) :
    ∃ kept newDefs, SectionSegments inputs b s (b.startStopSegmentsForSection inputs s).1
      (b.startStopSegmentsForSection inputs s).2.1 (b.startStopSegmentsForSection inputs s).2.2
      kept newDefs := by
  by_cases hlocation : (inputs.outputSections.location s).isSome
  · obtain ⟨kept, stopped, newDefs, hspec⟩ := stopStartSlots_spec
      (inputs.outputSections.shouldIncludeInSegment s)
      (inputs.outputSections.outputInfo s).regionName
      ⟨activeIds b.slots, [], b.programSegments⟩ (b.slots.map deactivate) (by
        intro slot hslot id hid
        obtain ⟨slot, -, rfl⟩ := List.mem_map.mp hslot
        simp [deactivate_activeKind] at hid)
    have hnone : kept ++ stopped = [] := by
      have hperm := hspec.before
      rw [activeIds_deactivate] at hperm
      exact hperm.symm.eq_nil
    obtain ⟨rfl, rfl⟩ := List.append_eq_nil_iff.mp hnone
    have hids : b.slots.filterMap SegmentSlot.activeKind = activeIds b.slots := rfl
    refine ⟨[], newDefs, ?_⟩
    simp only [startStopSegmentsForSection, hcustom, hwhole, hprimary, hlocation, hids,
      Bool.false_eq_true, if_false, if_true, Option.isSome_none]
    constructor
    case events => rfl
    case before =>
      rw [hspec.stop, List.append_nil, List.nil_append]
    case startIds => rw [hspec.start, List.nil_append]
    case programSegments => exact hspec.programSegments
    case after =>
      rw [hspec.start, List.nil_append]
      exact hspec.after
    case defs =>
      rw [hspec.defs, List.map_map]
      exact List.map_congr_left fun slot _ => deactivate_segmentDef slot
    case segment => exact hspec.segment
    case active => exact hspec.active
    case region => exact hspec.region
    case address => exact fun _ => rfl
    case keptFrom => simp
    case stoppedFrom => exact fun _ _ => .inl rfl
  · obtain ⟨kept, stopped, newDefs, hspec⟩ := stopStartSlots_spec
      (inputs.outputSections.shouldIncludeInSegment s)
      (inputs.outputSections.outputInfo s).regionName ⟨[], [], b.programSegments⟩ b.slots h
    refine ⟨kept, newDefs, ?_⟩
    simp only [startStopSegmentsForSection, hcustom, hwhole, hprimary, hlocation,
      Bool.false_eq_true, if_false, Option.isSome_none]
    constructor
    case events => rfl
    case before =>
      rw [hspec.stop, List.nil_append]
      exact hspec.before
    case startIds => rw [hspec.start, List.nil_append]
    case programSegments => exact hspec.programSegments
    case after =>
      rw [hspec.start, List.nil_append]
      exact hspec.after
    case defs => exact hspec.defs
    case segment => exact hspec.segment
    case active => exact hspec.active
    case region => exact hspec.region
    case address => exact fun hsome => absurd hsome hlocation
    case keptFrom => exact hspec.keptFrom
    case stoppedFrom =>
      rw [hspec.stop, List.nil_append]
      exact fun id hid => .inr (hspec.stoppedFrom id hid)

end OutputOrderBuilder

end JdxLinker.OutputOrder
