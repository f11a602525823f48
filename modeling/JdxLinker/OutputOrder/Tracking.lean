import JdxLinker.Lib.Brackets
import JdxLinker.OutputOrder.Builder

/-!
# What the builder tracks

The events of a builder open and close segments. Between two sections, the slots hold the segments
that are open.
-/

namespace JdxLinker.OutputOrder

open Script (Expression Name)
open Brackets

variable {p : Platform} {n : Nat} {inputs : BuilderInputs p n} {b : OutputOrderBuilder p n}

def segmentMark : OrderEvent n → Mark
  | .segmentStart id => .opens id
  | .segmentEnd id => .closes id
  | _ => .neutral

def IsSection (e : OrderEvent n) : Prop := ∃ id, e = .section id

/-- The segment has been started, and it has not been ended. -/
abbrev Open (events : List (OrderEvent n)) (id : ProgramSegmentId) : Prop :=
  IsOpen segmentMark events id

/-- The segment was started after the last section. -/
abbrev StartedSince (events : List (OrderEvent n)) (id : ProgramSegmentId) : Prop :=
  OpenedSince segmentMark IsSection events id

def activeIds (slots : List (SegmentSlot p)) : List ProgramSegmentId :=
  slots.filterMap SegmentSlot.activeKind

theorem mem_activeIds {slots : List (SegmentSlot p)} {id : ProgramSegmentId} :
    id ∈ activeIds slots ↔ ∃ slot ∈ slots, slot.activeKind = some id := List.mem_filterMap

theorem map_segmentEnd (ids : List ProgramSegmentId) :
    (ids.map fun id => (OrderEvent.segmentEnd id : OrderEvent n)).map segmentMark =
      ids.map .closes := by
  rw [List.map_map]
  rfl

theorem map_segmentStart (ids : List ProgramSegmentId) :
    (ids.map fun id => (OrderEvent.segmentStart id : OrderEvent n)).map segmentMark =
      ids.map .opens := by
  rw [List.map_map]
  rfl

/-- Segments whose slots have different definitions are different. -/
theorem slot_unique {slots : List (SegmentSlot p)} (h : (slots.map SegmentSlot.segmentDef).Nodup)
    {slot slot' : SegmentSlot p} (hslot : slot ∈ slots) (hslot' : slot' ∈ slots)
    (hdef : slot.segmentDef = slot'.segmentDef) : slot = slot' :=
  List.inj_on_of_nodup_map h hslot hslot' hdef

/-! ### The end of the writable load segment -/

namespace OutputOrderBuilder

theorem takeRwLoad_map_segmentDef (slots : List (SegmentSlot p)) :
    (takeRwLoad slots).2.map SegmentSlot.segmentDef = slots.map SegmentSlot.segmentDef := by
  induction slots with
  | nil => rfl
  | cons slot slots ih =>
      by_cases hrw : isRwLoad slot.segmentDef
      · cases hactive : slot.activeKind <;> simp [takeRwLoad, hrw, hactive]
      · simp [takeRwLoad, hrw, ih]

/-- The segments that were active are the one that was taken and those that still are. -/
theorem activeIds_perm_takeRwLoad (slots : List (SegmentSlot p)) :
    (activeIds slots).Perm (activeIds (takeRwLoad slots).2 ++ (takeRwLoad slots).1.toList) := by
  induction slots with
  | nil => exact .refl _
  | cons slot slots ih =>
      by_cases hrw : isRwLoad slot.segmentDef
      · cases hactive : slot.activeKind with
        | none => simp [takeRwLoad, hrw, hactive, activeIds]
        | some id =>
            simp only [takeRwLoad, hrw, if_true, hactive, activeIds, List.filterMap_cons,
              Option.toList_some]
            exact (List.perm_append_singleton _ _).symm
      · simp only [takeRwLoad, hrw, Bool.false_eq_true, if_false]
        cases hactive : slot.activeKind with
        | none => simpa [activeIds, hactive] using ih
        | some id => simpa [activeIds, hactive] using ih.cons id

/-- What is still active after a segment was taken was active in the same slot. -/
theorem mem_of_mem_takeRwLoad {slots : List (SegmentSlot p)} {slot : SegmentSlot p}
    (h : slot ∈ (takeRwLoad slots).2) (hactive : slot.activeKind.isSome) : slot ∈ slots := by
  induction slots with
  | nil => exact h
  | cons first slots ih =>
      by_cases hrw : isRwLoad first.segmentDef
      · cases hfirst : first.activeKind with
        | none => simpa [takeRwLoad, hrw, hfirst] using h
        | some id =>
            have hcases : slot = { first with activeKind := none, activeRegion := none } ∨
                slot ∈ slots := by
              simpa [takeRwLoad, hrw, hfirst] using h
            rcases hcases with rfl | hslot
            · simp at hactive
            · exact List.mem_cons_of_mem _ hslot
      · have hcases : slot = first ∨ slot ∈ (takeRwLoad slots).2 := by
          simpa [takeRwLoad, hrw] using h
        rcases hcases with rfl | hslot
        · exact List.mem_cons_self
        · exact List.mem_cons_of_mem _ (ih hslot)

/-- No segment of the first writable load definition is active once it was taken. -/
theorem activeKind_of_takeRwLoad {slots : List (SegmentSlot p)} {rw : p.ProgramSegmentDef}
    (hnodup : (slots.map SegmentSlot.segmentDef).Nodup)
    (hrw : (slots.map SegmentSlot.segmentDef).find? isRwLoad = some rw) {slot : SegmentSlot p}
    (h : slot ∈ (takeRwLoad slots).2) (hdef : slot.segmentDef = rw) : slot.activeKind = none := by
  induction slots with
  | nil => simp at hrw
  | cons first slots ih =>
      obtain ⟨hnot, hnodup⟩ := List.nodup_cons.mp hnodup
      rw [List.map_cons, List.find?_cons] at hrw
      by_cases hfirst : isRwLoad first.segmentDef
      · rw [hfirst] at hrw
        obtain rfl : first.segmentDef = rw := Option.some.inj hrw
        have hlater : slot ∉ slots := fun hslot => hnot (hdef ▸ List.mem_map_of_mem hslot)
        cases hactive : first.activeKind with
        | none =>
            obtain rfl | hslot : slot = first ∨ slot ∈ slots := by
              simpa [takeRwLoad, hfirst, hactive] using h
            · exact hactive
            · exact absurd hslot hlater
        | some id =>
            obtain rfl | hslot : slot = { first with activeKind := none, activeRegion := none } ∨
                slot ∈ slots := by
              simpa [takeRwLoad, hfirst, hactive] using h
            · rfl
            · exact absurd hslot hlater
      · have hrest : (slots.map SegmentSlot.segmentDef).find? isRwLoad = some rw := by
          simpa [hfirst] using hrw
        obtain rfl | hslot : slot = first ∨ slot ∈ (takeRwLoad slots).2 := by
          simpa [takeRwLoad, hfirst] using h
        · exact absurd (List.find?_some hrest) (hdef ▸ hfirst)
        · exact ih hnodup hrest hslot

/-! ### The segments of a section -/

/-- What a section does to the slots: some segments are kept, some are stopped, and segments of some
definitions are started. -/
structure StopsStarts (includes : p.ProgramSegmentDef → Bool) (sectionRegion : Option Name)
    (t : StopStart p) (slots : List (SegmentSlot p)) (t' : StopStart p)
    (slots' : List (SegmentSlot p)) (kept stopped : List ProgramSegmentId)
    (newDefs : List p.ProgramSegmentDef) : Prop where
  stop : t'.stop = t.stop ++ stopped
  start : t'.start = t.start ++ List.range' t.programSegments.length newDefs.length
  programSegments : t'.programSegments = t.programSegments ++ newDefs
  before : (activeIds slots).Perm (kept ++ stopped)
  after : (activeIds slots').Perm (kept ++ List.range' t.programSegments.length newDefs.length)
  defs : slots'.map SegmentSlot.segmentDef = slots.map SegmentSlot.segmentDef
  active : ∀ slot ∈ slots', slot.activeKind.isSome = includes slot.segmentDef
  segment : ∀ slot ∈ slots', ∀ id, slot.activeKind = some id →
    t'.programSegments[id]? = some slot.segmentDef
  region : ∀ slot ∈ slots', slot.activeKind.isSome → slot.activeRegion = sectionRegion
  keptFrom : ∀ id ∈ kept, ∃ slot ∈ slots, slot.activeKind = some id ∧
    slot.activeRegion = sectionRegion
  stoppedFrom : ∀ id ∈ stopped, ∃ slot ∈ slots, slot.activeKind = some id ∧
    (includes slot.segmentDef = false ∨ slot.activeRegion ≠ sectionRegion)

private theorem perm_append_swap {α : Type} {as as' bs cs ds es : List α}
    (h : as.Perm (bs ++ cs)) (h' : as'.Perm (ds ++ es)) :
    (as ++ as').Perm (bs ++ ds ++ (cs ++ es)) := by
  refine (h.append h').trans ?_
  rw [List.append_assoc, List.append_assoc, ← List.append_assoc cs, ← List.append_assoc ds]
  exact (List.perm_append_comm.append_right es).append_left bs

/-- What is done to some slots and then to others is done to all of them. -/
theorem StopsStarts.append {includes : p.ProgramSegmentDef → Bool} {sectionRegion : Option Name}
    {t₁ t₂ t₃ : StopStart p} {slots₁ slots₁' slots₂ slots₂' : List (SegmentSlot p)}
    {kept₁ kept₂ stopped₁ stopped₂ : List ProgramSegmentId}
    {newDefs₁ newDefs₂ : List p.ProgramSegmentDef}
    (h₁ : StopsStarts includes sectionRegion t₁ slots₁ t₂ slots₁' kept₁ stopped₁ newDefs₁)
    (h₂ : StopsStarts includes sectionRegion t₂ slots₂ t₃ slots₂' kept₂ stopped₂ newDefs₂) :
    StopsStarts includes sectionRegion t₁ (slots₁ ++ slots₂) t₃ (slots₁' ++ slots₂')
      (kept₁ ++ kept₂) (stopped₁ ++ stopped₂) (newDefs₁ ++ newDefs₂) := by
  have hrange : List.range' t₁.programSegments.length (newDefs₁ ++ newDefs₂).length =
      List.range' t₁.programSegments.length newDefs₁.length ++
        List.range' t₂.programSegments.length newDefs₂.length := by
    rw [h₁.programSegments, List.length_append, List.length_append, List.range'_append_1]
  have hbefore : activeIds (slots₁ ++ slots₂) = activeIds slots₁ ++ activeIds slots₂ :=
    List.filterMap_append ..
  have hafter : activeIds (slots₁' ++ slots₂') = activeIds slots₁' ++ activeIds slots₂' :=
    List.filterMap_append ..
  constructor
  case stop => rw [h₂.stop, h₁.stop, List.append_assoc]
  case start => rw [h₂.start, h₁.start, hrange, List.append_assoc]
  case programSegments => rw [h₂.programSegments, h₁.programSegments, List.append_assoc]
  case before =>
    rw [hbefore]
    exact perm_append_swap h₁.before h₂.before
  case after =>
    rw [hafter, hrange]
    exact perm_append_swap h₁.after h₂.after
  case defs => rw [List.map_append, List.map_append, h₁.defs, h₂.defs]
  case active =>
    intro slot hslot
    rcases List.mem_append.mp hslot with hslot | hslot
    · exact h₁.active slot hslot
    · exact h₂.active slot hslot
  case segment =>
    intro slot hslot id hid
    rcases List.mem_append.mp hslot with hslot | hslot
    · have hfirst := h₁.segment slot hslot id hid
      rw [h₂.programSegments, List.getElem?_append_left (List.getElem?_eq_some_iff.mp hfirst).1]
      exact hfirst
    · exact h₂.segment slot hslot id hid
  case region =>
    intro slot hslot
    rcases List.mem_append.mp hslot with hslot | hslot
    · exact h₁.region slot hslot
    · exact h₂.region slot hslot
  case keptFrom =>
    intro id hid
    rcases List.mem_append.mp hid with hid | hid
    · obtain ⟨slot, hslot, hkept⟩ := h₁.keptFrom id hid
      exact ⟨slot, List.mem_append_left _ hslot, hkept⟩
    · obtain ⟨slot, hslot, hkept⟩ := h₂.keptFrom id hid
      exact ⟨slot, List.mem_append_right _ hslot, hkept⟩
  case stoppedFrom =>
    intro id hid
    rcases List.mem_append.mp hid with hid | hid
    · obtain ⟨slot, hslot, hstopped⟩ := h₁.stoppedFrom id hid
      exact ⟨slot, List.mem_append_left _ hslot, hstopped⟩
    · obtain ⟨slot, hslot, hstopped⟩ := h₂.stoppedFrom id hid
      exact ⟨slot, List.mem_append_right _ hslot, hstopped⟩

theorem stopStartSlot_spec (includes : p.ProgramSegmentDef → Bool) (sectionRegion : Option Name)
    (t : StopStart p) (slot : SegmentSlot p)
    (h : ∀ id, slot.activeKind = some id → t.programSegments[id]? = some slot.segmentDef) :
    ∃ kept stopped newDefs, StopsStarts includes sectionRegion t [slot]
      (stopStartSlot (includes slot.segmentDef) sectionRegion t slot).1
      [(stopStartSlot (includes slot.segmentDef) sectionRegion t slot).2] kept stopped newDefs := by
  cases hactive : slot.activeKind with
  | none =>
      cases hincludes : includes slot.segmentDef with
      | false =>
          exact ⟨[], [], [], by
            constructor <;> simp [stopStartSlot, hactive, hincludes, activeIds]⟩
      | true =>
          exact ⟨[], [], [slot.segmentDef], by
            constructor <;> simp [stopStartSlot, hactive, hincludes, activeIds]⟩
  | some id =>
      cases hincludes : includes slot.segmentDef with
      | false =>
          exact ⟨[], [id], [], by
            constructor <;> simp [stopStartSlot, hactive, hincludes, activeIds]⟩
      | true =>
          by_cases hregion : slot.activeRegion = sectionRegion
          · exact ⟨[id], [], [], by
              constructor <;> simp [stopStartSlot, hactive, hincludes, activeIds, hregion, h id hactive]⟩
          · exact ⟨[], [id], [slot.segmentDef], by
              constructor <;> simp [stopStartSlot, hactive, hincludes, activeIds, hregion]⟩

theorem stopStartSlots_spec (includes : p.ProgramSegmentDef → Bool) (sectionRegion : Option Name)
    (t : StopStart p) (slots : List (SegmentSlot p))
    (h : ∀ slot ∈ slots, ∀ id, slot.activeKind = some id →
      t.programSegments[id]? = some slot.segmentDef) :
    ∃ kept stopped newDefs, StopsStarts includes sectionRegion t slots
      (stopStartSlots includes sectionRegion t slots).1
      (stopStartSlots includes sectionRegion t slots).2 kept stopped newDefs := by
  induction slots generalizing t with
  | nil => exact ⟨[], [], [], by constructor <;> simp [stopStartSlots, activeIds]⟩
  | cons slot slots ih =>
      obtain ⟨kept, stopped, newDefs, hslot⟩ :=
        stopStartSlot_spec includes sectionRegion t slot (h slot (by simp))
      obtain ⟨kept', stopped', newDefs', hslots⟩ :=
        ih (stopStartSlot (includes slot.segmentDef) sectionRegion t slot).1 (by
          intro other hother id hid
          have hold := h other (by simp [hother]) id hid
          rw [hslot.programSegments,
            List.getElem?_append_left (List.getElem?_eq_some_iff.mp hold).1]
          exact hold)
      exact ⟨kept ++ kept', stopped ++ stopped', newDefs ++ newDefs', hslot.append hslots⟩

end OutputOrderBuilder

end JdxLinker.OutputOrder
