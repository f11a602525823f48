import JdxLinker.OutputOrder.Elf
import JdxLinker.OutputOrder.Segments

/-!
# Whole orders

The order that is built from any sections: every segment is started once and ended once later, and
the segments that are open at a primary section are those that should contain it.
-/

namespace JdxLinker.OutputOrder

open Brackets

variable {p : Platform} {n : Nat} {inputs : BuilderInputs p n} {b b' : OutputOrderBuilder p n}

/-- What holds once all active segments have ended. -/
structure Ended (inputs : BuilderInputs p n) (b : OutputOrderBuilder p n) : Prop where
  numbered : Numbered segmentMark b.programSegments.length b.events
  noneOpen : ∀ id, ¬ Open b.events id
  past : Past inputs b.events b.programSegments

theorem Past.append_without_sections {events new : List (OrderEvent n)}
    {segments more : List p.ProgramSegmentDef} (h : Past inputs events segments)
    (hnumbered : Numbered segmentMark segments.length events)
    (hnew : ∀ e ∈ new, ∀ t, e ≠ .section t) :
    Past inputs (events ++ new) (segments ++ more) := by
  refine h.append hnumbered ?_
  rintro before t after rfl -
  exact absurd rfl (hnew _ (by simp) t)

theorem Rests.emitCounters (h : Rests inputs b) (lcStart lcEnd : Nat) :
    Tracks inputs (b.emitLocationCounters inputs lcStart lcEnd) ∧
      Past inputs (b.emitLocationCounters inputs lcStart lcEnd).events b.programSegments := by
  have hneutral : ∀ e ∈ ((inputs.locationCounters.zipIdx.take lcEnd).drop lcStart).map
      (fun entry => OutputOrderBuilder.locationCounterEvent inputs entry.2 entry.1),
      segmentMark e = .neutral ∧ ∀ t, e ≠ .section t := by
    intro e he
    obtain ⟨⟨lc, index⟩, -, rfl⟩ := List.mem_map.mp he
    exact OutputOrderBuilder.locationCounterEvent_neutral index lc
  refine ⟨h.toTracks.append_neutral (fun e he => (hneutral e he).1) rfl rfl rfl, ?_⟩
  have hsegments : b.programSegments ++ [] = b.programSegments := List.append_nil _
  exact hsegments ▸ h.past.append_without_sections h.numbered fun e he => (hneutral e he).2

theorem ended_of_tracks (h : Tracks inputs b) (hpast : Past inputs b.events b.programSegments) :
    Ended inputs (b.pushEvents ((b.slots.filterMap SegmentSlot.activeKind).map .segmentEnd)) where
  numbered := h.numbered.append_closes (map_segmentEnd _) (fun id hid => (h.isOpen id).mpr hid)
    h.nodup
  noneOpen id hopen := by
    obtain ⟨hopen, hnot⟩ := (isOpen_append_closes (map_segmentEnd _)).mp hopen
    exact hnot ((h.isOpen id).mp hopen)
  past := by
    have hends : ∀ e ∈ (b.slots.filterMap SegmentSlot.activeKind).map OrderEvent.segmentEnd,
        ∀ t : Fin n, e ≠ .section t := by
      rintro e he t rfl
      obtain ⟨id, -, heq⟩ := List.mem_map.mp he
      cases heq
    have hsegments : b.programSegments ++ [] = b.programSegments := List.append_nil _
    exact hsegments ▸ hpast.append_without_sections h.numbered hends

theorem Ended.addUnconditional (h : Ended inputs b) (segmentDef : p.ProgramSegmentDef) :
    Ended inputs (b.addUnconditional segmentDef) where
  numbered := by
    have hstarted := h.numbered.opens (e := .segmentStart b.programSegments.length) rfl
    have hopen : Open (b.events ++ [.segmentStart b.programSegments.length])
        b.programSegments.length :=
      ⟨by simp [segmentMark], by
        simpa [segmentMark] using (h.numbered.untouched (Nat.le_refl _)).2⟩
    have hended := hstarted.closes (e := .segmentEnd b.programSegments.length) hopen rfl
    simpa [OutputOrderBuilder.addUnconditional] using hended
  noneOpen id hopen := by
    have hmarks : ∀ other, (Mark.opens other ∈ (b.addUnconditional segmentDef).events.map
        segmentMark → Mark.closes other ∉ (b.addUnconditional segmentDef).events.map segmentMark →
          Open b.events other) := by
      intro other hopens hcloses
      simp only [OutputOrderBuilder.addUnconditional, List.map_append, List.map_cons, segmentMark,
        List.map_nil, List.mem_append, List.mem_cons, Mark.opens.injEq, Mark.closes.injEq,
        List.not_mem_nil, reduceCtorEq, or_false, false_or, not_or] at hopens hcloses
      exact ⟨hopens.resolve_right hcloses.2, hcloses.1⟩
    exact h.noneOpen id (hmarks id hopen.1 hopen.2)
  past := h.past.append_without_sections h.numbered (by simp)

theorem Rests.complete (h : Rests inputs b) (hcustom : inputs.hasCustomPhdrs = false)
    (hwhole : inputs.outputKind.isPartialLink = false) : Ended inputs (b.complete inputs) := by
  have hall : ∀ (defs : List p.ProgramSegmentDef) {c : OutputOrderBuilder p n}, Ended inputs c →
      Ended inputs (defs.foldl OutputOrderBuilder.addUnconditional c) := by
    intro defs
    induction defs with
    | nil => exact fun hc => hc
    | cons segmentDef defs ih => exact fun hc => ih (hc.addUnconditional segmentDef)
  rw [OutputOrderBuilder.complete]
  simp only [hwhole, hcustom, Bool.not_false, Bool.and_self, if_true]
  refine hall _ ?_
  cases b.lastLocationCounter with
  | none => exact ended_of_tracks h.toTracks h.past
  | some lc =>
      obtain ⟨htracks, hpast⟩ := h.emitCounters lc inputs.locationCounters.length
      exact ended_of_tracks htracks hpast

/-! ### The sections of an order -/

def OrderEvent.sectionId? : OrderEvent n → Option (Fin n)
  | .section id => some id
  | _ => none

/-- The sections that have been put, in their order. -/
def sectionIds (events : List (OrderEvent n)) : List (Fin n) :=
  events.filterMap OrderEvent.sectionId?

theorem sectionIds_append (events events' : List (OrderEvent n)) :
    sectionIds (events ++ events') = sectionIds events ++ sectionIds events' :=
  List.filterMap_append ..

theorem sectionIds_eq_nil {events : List (OrderEvent n)} (h : ∀ e ∈ events, ∀ t, e ≠ .section t) :
    sectionIds events = [] := by
  refine List.filterMap_eq_nil_iff.mpr fun e he => ?_
  cases e with
  | «section» t => exact absurd rfl (h _ he t)
  | _ => rfl

theorem sectionIds_append_of_ne {events events' : List (OrderEvent n)}
    (h : ∀ e ∈ events', ∀ t, e ≠ .section t) : sectionIds (events ++ events') = sectionIds events := by
  rw [sectionIds_append, sectionIds_eq_nil h, List.append_nil]

theorem sectionIds_secondaryEvents (keyed : List (UInt16 × Fin n)) :
    sectionIds (OutputOrderBuilder.secondaryEvents inputs keyed) = keyed.map Prod.snd := by
  induction keyed with
  | nil => rfl
  | cons key keyed ih =>
      have hcounters : sectionIds (OutputOrderBuilder.counterEvents inputs key.2) = [] :=
        sectionIds_eq_nil fun e he => (OutputOrderBuilder.counterEvents_neutral he).2
      rw [OutputOrderBuilder.secondaryEvents, List.flatMap_cons, sectionIds_append,
        sectionIds_append, hcounters, List.map_cons, ← ih]
      rfl

theorem startStop_events (s : Fin n) :
    (b.startStopSegmentsForSection inputs s).2.2.events = b.events := by
  simp only [OutputOrderBuilder.startStopSegmentsForSection]
  split
  · rfl
  · split
    · rfl
    · split <;> rfl

/-- A section is put, and after it those that are merged into it. -/
theorem sectionIds_addSection (s : Fin n) : sectionIds (b.addSection inputs s).events =
    sectionIds b.events ++ s :: (OutputOrderBuilder.keyedSecondaries inputs s).map Prod.snd := by
  obtain ⟨taken, hcut, -⟩ := cut_events inputs b s
  have hown : sectionIds (ownEvents inputs s taken
      ((b.cut inputs s).startStopSegmentsForSection inputs s).1
      ((b.cut inputs s).startStopSegmentsForSection inputs s).2.1) = [] :=
    sectionIds_eq_nil fun e he => ownEvents_ne_section he
  rw [(OutputOrderBuilder.addSection_eq inputs b s).1, startStop_events, hcut, List.append_assoc b.events]
  simp only [ownEvents, sectionIds_append, List.append_eq_nil_iff] at hown
  simp only [sectionIds_append, hown, List.append_nil, ← @sectionIds_secondaryEvents _ _ inputs]
  rfl

theorem sectionIds_addSections (sections : List (Fin n)) :
    sectionIds (b.addSections inputs sections).events = sectionIds b.events ++
      sections.flatMap fun s =>
        s :: (OutputOrderBuilder.keyedSecondaries inputs s).map Prod.snd := by
  induction sections generalizing b with
  | nil => simp [OutputOrderBuilder.addSections]
  | cons s sections ih =>
      have hrest := ih (b := b.addSection inputs s)
      rw [sectionIds_addSection, List.append_assoc] at hrest
      exact hrest

theorem sectionIds_complete : sectionIds (b.complete inputs).events = sectionIds b.events := by
  have hunconditional : ∀ (defs : List p.ProgramSegmentDef) (c : OutputOrderBuilder p n),
      sectionIds (defs.foldl OutputOrderBuilder.addUnconditional c).events =
        sectionIds c.events := by
    intro defs
    induction defs with
    | nil => exact fun c => rfl
    | cons segmentDef defs ih =>
        intro c
        refine (ih (c.addUnconditional segmentDef)).trans ?_
        rw [OutputOrderBuilder.addUnconditional, sectionIds_append]
        exact List.append_nil _
  have hends : ∀ c : OutputOrderBuilder p n, sectionIds (c.pushEvents
      ((c.slots.filterMap SegmentSlot.activeKind).map .segmentEnd)).events =
        sectionIds c.events := by
    intro c
    refine sectionIds_append_of_ne ?_
    rintro e he t rfl
    obtain ⟨id, -, heq⟩ := List.mem_map.mp he
    cases heq
  have hcounters : ∀ lc, sectionIds (b.emitLocationCounters inputs lc
      inputs.locationCounters.length).events = sectionIds b.events := by
    intro lc
    refine sectionIds_append_of_ne fun e he => ?_
    obtain ⟨⟨counter, index⟩, -, rfl⟩ := List.mem_map.mp he
    exact (OutputOrderBuilder.locationCounterEvent_neutral index counter).2
  simp only [OutputOrderBuilder.complete]
  cases b.lastLocationCounter with
  | none =>
      split
      · rw [hunconditional, hends]
      · exact hends _
  | some lc =>
      split
      · rw [hunconditional, hends, hcounters]
      · rw [hends, hcounters]

/-! ### Results -/

/-- Every order: each segment is started once and ended once later, and where a primary section is
put, the open segments are as they should be. The run panics where there are more segments than
their numbers can tell apart. -/
theorem outputOrder_segments (inputs : BuilderInputs p n) (hcustom : inputs.hasCustomPhdrs = false)
    (hwhole : inputs.outputKind.isPartialLink = false) (sections : List (Fin n)) :
    ∃ (events : List (OrderEvent n)) (segments : List p.ProgramSegmentDef),
      outputOrder inputs sections = (if segments.length ≤ ProgramSegmentId.LIMIT then
        .ok (events, segments) else .error .panic) ∧
      sectionIds events = sections.flatMap (fun s =>
        s :: (OutputOrderBuilder.keyedSecondaries inputs s).map Prod.snd) ∧
      (∀ id < segments.length, OpenedAndClosed segmentMark events id) ∧
      (∀ id, segments.length ≤ id → Untouched segmentMark events id) ∧
      ∀ before s after, events = before ++ .section s :: after →
        inputs.outputSections.mergeTarget s = none → AtSection inputs segments before s := by
  have hnew : Rests inputs (OutputOrderBuilder.new inputs) := Rests.new
  have hended := (hnew.addSections hcustom hwhole sections).complete
    hcustom hwhole
  refine ⟨_, _, rfl, ?_, ?_, ?_, hended.past⟩
  · rw [sectionIds_complete, sectionIds_addSections]
    rfl
  · intro id hid
    exact (hended.numbered.isOpen_or_openedAndClosed hid).resolve_left (hended.noneOpen id)
  · exact fun id hid => hended.numbered.untouched hid

/-- Two sections that are written and executed, the first of them with thread-local data. -/
def executableTls : OutputSections Elf.platform 51 where
  outputInfo id :=
    { kind := .primary []
      sectionAttributes := if id = 49 then
          ⟨Elf.Shf.WRITE ||| Elf.Shf.ALLOC ||| Elf.Shf.EXECINSTR ||| Elf.Shf.TLS, 1⟩
        else ⟨Elf.Shf.WRITE ||| Elf.Shf.ALLOC ||| Elf.Shf.EXECINSTR, 1⟩
      locationInfo := none
      secondaryOrder := none
      regionName := none }
  rosegment := true

def executableTlsInputs : BuilderInputs Elf.platform 51 :=
  Elf.builderInputs executableTls .sharedObject [] (by intro id info h; cases h)

theorem keyedSecondaries_executableTls (s : Fin 51) :
    OutputOrderBuilder.keyedSecondaries executableTlsInputs s = [] := by
  have hnone : executableTlsInputs.outputSections.secondary s = [] :=
    List.filter_eq_nil_iff.mpr fun sid _ => by
      simp [executableTlsInputs, Elf.builderInputs, OutputSections.mergeTarget, executableTls]
  rw [OutputOrderBuilder.keyedSecondaries, hnone]
  simp

theorem executableTls_order : outputOrder executableTlsInputs [49, 50] = .ok
    ([.segmentStart 0, .segmentStart 1, .segmentStart 2, .section 49, .segmentEnd 1, .segmentEnd 2,
        .section 50, .segmentEnd 0, .segmentStart 3, .segmentEnd 3],
      [⟨.load, Elf.Pf.READABLE ||| Elf.Pf.WRITABLE ||| Elf.Pf.EXECUTABLE⟩,
        ⟨.tls, Elf.Pf.READABLE⟩, ⟨.gnuRelro, Elf.Pf.READABLE⟩, Elf.STACK_SEGMENT_DEF]) := by
  simp only [outputOrder, OutputOrderBuilder.addSections, List.foldl_cons, List.foldl_nil,
    OutputOrderBuilder.addSection, keyedSecondaries_executableTls]
  rfl

/-- The end of the relro segment begins no load segment where the open one is executable: the
second section is put in the load segment of the first. -/
theorem relroEnd_counterexample : ∃ events segments,
    outputOrder executableTlsInputs [49, 50] = .ok (events, segments) ∧
      ∃ earlier latest after, events = earlier ++ latest ++ .section 50 :: after ∧
        (∀ t, .section t ∉ latest) ∧
        (∃ relro d, .segmentEnd relro ∈ latest ∧ segments[relro]? = some d ∧
          Elf.platform.shouldCutRwSegmentWhenEnding d) ∧
        (∃ load d, Open (earlier ++ latest) load ∧ segments[load]? = some d ∧
          Elf.platform.isLoadable d) ∧
        ∀ id, .segmentStart id ∉ latest := by
  refine ⟨_, _, executableTls_order,
    [.segmentStart 0, .segmentStart 1, .segmentStart 2, .section 49],
    [.segmentEnd 1, .segmentEnd 2], [.segmentEnd 0, .segmentStart 3, .segmentEnd 3], rfl, ?_, ?_,
    ?_, ?_⟩
  · simp
  · exact ⟨2, ⟨.gnuRelro, Elf.Pf.READABLE⟩, by simp, rfl, rfl⟩
  · exact ⟨0, _, ⟨by simp [segmentMark], by simp [segmentMark]⟩, rfl, rfl⟩
  · simp

/-- The theorem on the two sections. -/
theorem outputOrder_segments_executableTls : ∃ (events : List (OrderEvent 51))
    (segments : List Elf.ProgramSegmentDef),
      outputOrder executableTlsInputs [49, 50] = (if segments.length ≤ ProgramSegmentId.LIMIT then
        .ok (events, segments) else .error .panic) ∧
      (∀ id < segments.length, OpenedAndClosed segmentMark events id) := by
  obtain ⟨events, segments, hrun, -, honce, -⟩ :=
    outputOrder_segments executableTlsInputs rfl rfl [49, 50]
  exact ⟨events, segments, hrun, honce⟩

end JdxLinker.OutputOrder
