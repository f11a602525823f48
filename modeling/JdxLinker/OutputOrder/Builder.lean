import JdxLinker.Layout.OutputKind
import JdxLinker.Lib.Failure
import JdxLinker.Script.Evaluation

/-!
# The order of output sections

Sections are added in the order in which they are output. Before each section, segments are ended and
started so that the open segments are those that should contain the section.
-/

namespace JdxLinker.OutputOrder

open Script (Expression Name SymbolLoc)

/-- The index of a segment among those that have been added. -/
abbrev ProgramSegmentId := Nat

/-- A segment is numbered by a byte. -/
def ProgramSegmentId.LIMIT : Nat := 256

inductive SectionKind (SectionIdentity : Type) (n : Nat) where
  | primary (identity : SectionIdentity)
  /-- The section is merged into another. -/
  | secondary (primaryId : Fin n)

structure SectionLocationInfo where
  /-- The end is exclusive. -/
  locationCounters : Nat × Nat
  location : Option Expression

inductive SecondaryOrder where
  | initFini (priority : UInt16)

structure SectionOutputInfo (SectionAttributes SectionIdentity : Type) (n : Nat) where
  kind : SectionKind SectionIdentity n
  sectionAttributes : SectionAttributes
  locationInfo : Option SectionLocationInfo
  secondaryOrder : Option SecondaryOrder
  regionName : Option Name

/-- What the order of sections needs to know of an object file format. -/
structure Platform where
  ProgramSegmentDef : Type
  SectionAttributes : Type
  SectionIdentity : Type
  isWritable : ProgramSegmentDef → Bool
  isExecutable : ProgramSegmentDef → Bool
  isLoadable : ProgramSegmentDef → Bool
  shouldCutRwSegmentWhenEnding : ProgramSegmentDef → Bool
  isAlloc : SectionAttributes → Bool
  unconditionalSegmentDefs : List ProgramSegmentDef
  programSegmentShouldIncludeSection {n : Nat} (segmentDef : ProgramSegmentDef)
    (info : SectionOutputInfo SectionAttributes SectionIdentity n) (sectionId : Fin n)
    (rosegment : Bool) : Bool

inductive LocationCounter (n : Nat) where
  | absolute (expr : Expression) (loc : SymbolLoc)
  | relative (expr : Expression) (loc : SymbolLoc) (sectionId : Fin n)

inductive OrderEvent (n : Nat) where
  | segmentStart (id : ProgramSegmentId)
  | segmentEnd (id : ProgramSegmentId)
  | «section» (id : Fin n)
  | setLocation (expr : Expression) (loc : SymbolLoc) (index : Nat)
  | setLocationRelative (expr : Expression) (primaryId : Fin n) (loc : SymbolLoc) (index : Nat)
  | setSectionAddress (location : Expression)
  deriving DecidableEq

variable {p : Platform} {n : Nat}

structure OutputSections (p : Platform) (n : Nat) where
  outputInfo : Fin n → SectionOutputInfo p.SectionAttributes p.SectionIdentity n
  rosegment : Bool

namespace OutputSections

variable (sections : OutputSections p n)

/-- The section that another one is merged into. -/
def mergeTarget (id : Fin n) : Option (Fin n) :=
  match (sections.outputInfo id).kind with
  | .primary _ => none
  | .secondary primaryId => some primaryId

def primaryOutputSection (id : Fin n) : Fin n := (sections.mergeTarget id).getD id

def secondaryOrder (id : Fin n) : Option SecondaryOrder := (sections.outputInfo id).secondaryOrder

def shouldIncludeInSegment (id : Fin n) (segmentDef : p.ProgramSegmentDef) : Bool :=
  p.programSegmentShouldIncludeSection segmentDef (sections.outputInfo id) id sections.rosegment

/-- The sections that are merged into a section, in the order of their ids. -/
def secondary (id : Fin n) : List (Fin n) :=
  (List.finRange n).filter fun sid => sections.mergeTarget sid = some id

def location (id : Fin n) : Option Expression :=
  (sections.outputInfo id).locationInfo.bind SectionLocationInfo.location

end OutputSections

/-- A definition of segments, with the segment of that definition that is active. -/
structure SegmentSlot (p : Platform) where
  segmentDef : p.ProgramSegmentDef
  activeKind : Option ProgramSegmentId
  activeRegion : Option Name

/-- What a builder is given. -/
structure BuilderInputs (p : Platform) (n : Nat) where
  segmentDefs : List p.ProgramSegmentDef
  /-- A platform lists each of its segments once. -/
  segmentDefs_nodup : segmentDefs.Nodup
  outputSections : OutputSections p n
  outputKind : OutputKind
  hasCustomPhdrs : Bool
  locationCounters : List (LocationCounter n)
  /-- Sections refer to location counters that exist. -/
  countersInRange : ∀ id info, (outputSections.outputInfo id).locationInfo = some info →
    info.locationCounters.2 ≤ locationCounters.length

/-- The state of a builder. -/
structure OutputOrderBuilder (p : Platform) (n : Nat) where
  events : List (OrderEvent n)
  programSegments : List p.ProgramSegmentDef
  slots : List (SegmentSlot p)
  lastLocationCounter : Option Nat

namespace OutputOrderBuilder

section Build

variable (inputs : BuilderInputs p n)

def new : OutputOrderBuilder p n where
  events := []
  programSegments := []
  slots := inputs.segmentDefs.map fun segmentDef => ⟨segmentDef, none, none⟩
  lastLocationCounter := inputs.locationCounters.getLast?.map fun _ => 0

variable (b : OutputOrderBuilder p n)

def pushEvents (events : List (OrderEvent n)) : OutputOrderBuilder p n :=
  { b with events := b.events ++ events }

def locationCounterEvent (index : Nat) : LocationCounter n → OrderEvent n
  | .absolute expr loc => .setLocation expr loc index
  | .relative expr loc sectionId =>
      .setLocationRelative expr (inputs.outputSections.primaryOutputSection sectionId) loc index

def emitLocationCounters (lcStart lcEnd : Nat) : OutputOrderBuilder p n :=
  { b with
    events := b.events ++ ((inputs.locationCounters.zipIdx.take lcEnd).drop lcStart).map
      fun entry => locationCounterEvent inputs entry.2 entry.1
    lastLocationCounter := b.lastLocationCounter.map fun l => max l lcEnd }

/-- The section will end a segment that cuts the writable segment when it ends. -/
def shouldEndCurrentRwSegment (sectionId : Fin n) : Bool :=
  b.slots.any fun slot => slot.activeKind.isSome &&
    p.shouldCutRwSegmentWhenEnding slot.segmentDef &&
    !inputs.outputSections.shouldIncludeInSegment sectionId slot.segmentDef

def isRwLoad (segmentDef : p.ProgramSegmentDef) : Bool :=
  p.isLoadable segmentDef && p.isWritable segmentDef && !p.isExecutable segmentDef

/-- Deactivates the first slot whose segments are loaded, writable and not executable, and returns
the segment that was active there. -/
def takeRwLoad : List (SegmentSlot p) → Option ProgramSegmentId × List (SegmentSlot p)
  | [] => (none, [])
  | slot :: slots =>
      if isRwLoad slot.segmentDef then
        match slot.activeKind with
        | some segmentId =>
            (some segmentId, { slot with activeKind := none, activeRegion := none } :: slots)
        | none => (none, slot :: slots)
      else
        let (taken, slots) := takeRwLoad slots
        (taken, slot :: slots)

def endRwLoadSegment : OutputOrderBuilder p n :=
  { b with
    events := b.events ++ (takeRwLoad b.slots).1.toList.map .segmentEnd
    slots := (takeRwLoad b.slots).2 }

/-- The segments to end and to start before a section, and the segments added so far. -/
structure StopStart (p : Platform) where
  stop : List ProgramSegmentId
  start : List ProgramSegmentId
  programSegments : List p.ProgramSegmentDef

/-- What a section does to the segments of one definition. -/
def stopStartSlot (shouldBeActive : Bool) (sectionRegion : Option Name) (t : StopStart p)
    (slot : SegmentSlot p) : StopStart p × SegmentSlot p :=
  let newSegmentId := t.programSegments.length
  match slot.activeKind, shouldBeActive with
  -- Remain inactive.
  | none, false => (t, slot)
  -- Remain active, unless the region changes.
  | some segmentId, true =>
      if slot.activeRegion ≠ sectionRegion then
        (⟨t.stop ++ [segmentId], t.start ++ [newSegmentId], t.programSegments ++ [slot.segmentDef]⟩,
          { slot with activeKind := some newSegmentId, activeRegion := sectionRegion })
      else (t, slot)
  -- Start a segment.
  | none, true =>
      (⟨t.stop, t.start ++ [newSegmentId], t.programSegments ++ [slot.segmentDef]⟩,
        { slot with activeKind := some newSegmentId, activeRegion := sectionRegion })
  -- End the segment.
  | some segmentId, false =>
      (⟨t.stop ++ [segmentId], t.start, t.programSegments⟩,
        { slot with activeKind := none, activeRegion := none })

def stopStartSlots (includes : p.ProgramSegmentDef → Bool) (sectionRegion : Option Name)
    (t : StopStart p) : List (SegmentSlot p) → StopStart p × List (SegmentSlot p)
  | [] => (t, [])
  | slot :: slots =>
      let (t, slot) := stopStartSlot (includes slot.segmentDef) sectionRegion t slot
      let (t, slots) := stopStartSlots includes sectionRegion t slots
      (t, slot :: slots)

/-- Ends every active segment. -/
def deactivate (slot : SegmentSlot p) : SegmentSlot p :=
  match slot.activeKind with
  | some _ => { slot with activeKind := none, activeRegion := none }
  | none => slot

/-- The segment events that are necessary before a section. -/
def startStopSegmentsForSection (sectionId : Fin n) :
    List ProgramSegmentId × List ProgramSegmentId × OutputOrderBuilder p n :=
  if inputs.hasCustomPhdrs then ([], [], b)
  else if inputs.outputKind.isPartialLink then ([], [], b)
  -- Secondary sections don't begin or end segments.
  else if (inputs.outputSections.mergeTarget sectionId).isSome then ([], [], b)
  else
    let info := inputs.outputSections.outputInfo sectionId
    -- A section whose location is set ends all active segments first.
    let (stop, slots) :=
      if (inputs.outputSections.location sectionId).isSome then
        (b.slots.filterMap SegmentSlot.activeKind, b.slots.map deactivate)
      else ([], b.slots)
    let (t, slots) := stopStartSlots (inputs.outputSections.shouldIncludeInSegment sectionId)
      info.regionName ⟨stop, [], b.programSegments⟩ slots
    (t.stop, t.start, { b with programSegments := t.programSegments, slots })

/-- The secondary sections of a section, by priority. -/
def keyedSecondaries (sectionId : Fin n) : List (UInt16 × Fin n) :=
  let keyed := (inputs.outputSections.secondary sectionId).map fun sid =>
    match inputs.outputSections.secondaryOrder sid with
    | some (.initFini priority) => (priority, sid)
    | none => (65535, sid)
  keyed.mergeSort fun a b => a.1 ≤ b.1

def addSecondary (sid : Fin n) : OutputOrderBuilder p n :=
  let b := match (inputs.outputSections.outputInfo sid).locationInfo with
    | some locInfo => b.emitLocationCounters inputs locInfo.locationCounters.1
        locInfo.locationCounters.2
    | none => b
  b.pushEvents [.section sid]

def sectionAddress (sectionId : Fin n) : List (OrderEvent n) :=
  match inputs.outputSections.location sectionId with
  | some location =>
      if p.isAlloc (inputs.outputSections.outputInfo sectionId).sectionAttributes then
        [.setSectionAddress location]
      else []
  | none => []

def addSection (sectionId : Fin n) : OutputOrderBuilder p n :=
  -- When the relro segment ends, also end the RW load segment.
  let b := if b.shouldEndCurrentRwSegment inputs sectionId then b.endRwLoadSegment else b
  let (stop, start, b) := b.startStopSegmentsForSection inputs sectionId
  let b := b.pushEvents (stop.map .segmentEnd)
  let b := b.pushEvents (sectionAddress inputs sectionId)
  let b := b.pushEvents (start.map .segmentStart)
  let b := match (inputs.outputSections.outputInfo sectionId).locationInfo with
    | some locInfo => b.emitLocationCounters inputs locInfo.locationCounters.1
        locInfo.locationCounters.2
    | none => b
  let b := b.pushEvents [.section sectionId]
  (keyedSecondaries inputs sectionId).foldl (fun b key => b.addSecondary inputs key.2) b

def addSections (sections : List (Fin n)) : OutputOrderBuilder p n :=
  sections.foldl (addSection inputs) b

def addUnconditional (segmentDef : p.ProgramSegmentDef) : OutputOrderBuilder p n :=
  let segmentId := b.programSegments.length
  { b with
    programSegments := b.programSegments ++ [segmentDef]
    events := b.events ++ [.segmentStart segmentId, .segmentEnd segmentId] }

/-- The builder once all events have been emitted. -/
def complete : OutputOrderBuilder p n :=
  let b := match b.lastLocationCounter with
    | some lc => b.emitLocationCounters inputs lc inputs.locationCounters.length
    | none => b
  let b := b.pushEvents ((b.slots.filterMap SegmentSlot.activeKind).map .segmentEnd)
  if !inputs.outputKind.isPartialLink && !inputs.hasCustomPhdrs then
    p.unconditionalSegmentDefs.foldl addUnconditional b
  else b

/-- The events and the segments. The run has panicked where a segment's number is no byte. -/
def build : Fallible (List (OrderEvent n) × List p.ProgramSegmentDef) :=
  let b := b.complete inputs
  if b.programSegments.length ≤ ProgramSegmentId.LIMIT then .ok (b.events, b.programSegments)
  else .error .panic

end Build

end OutputOrderBuilder

/-- The order of the given sections. -/
def outputOrder (inputs : BuilderInputs p n) (sections : List (Fin n)) :
    Fallible (List (OrderEvent n) × List p.ProgramSegmentDef) :=
  ((OutputOrderBuilder.new inputs).addSections inputs sections).build inputs

end JdxLinker.OutputOrder
