import JdxLinker.Thunks.Ownership
import JdxLinker.Thunks.Text

/-!
# Branches that skip their thunk

The bytes between a branch and its target are counted from the sizes of sections. In the layout there
are also the padding of the sections, the gaps between parts, and the blocks of thunks. Branches
without a thunk are in range exactly if all of that fits into what is allowed for a block.
-/

namespace JdxLinker.Thunks

open Placement

/-- The bytes in the sections of some objects. -/
abbrev countedBytes (objects : List (FileId × List Nat)) : Nat :=
  extent (fun object => object.2.sum) objects

/-- The positions in the counted bytes are those of the objects with the sums of their sections. -/
theorem objectsOf_state (groups : List (List LoadedFile)) :
    objectsOf (groups.map fun files => files.map LoadedFile.state)
      = (loadedObjects groups).map fun object => (object.1, object.2.sum) := by
  unfold objectsOf loadedObjects
  rw [List.zipIdx_map, List.flatMap_map, List.map_flatMap]
  refine List.flatMap_congr fun group _ => ?_
  simp only [Prod.map_fst, Prod.map_snd, id_eq]
  rw [List.zipIdx_map, List.filterMap_map, List.map_filterMap]
  refine List.filterMap_congr fun file _ => ?_
  obtain ⟨file, index⟩ := file
  cases file <;> rfl

namespace Text

variable {text : Text} {branchRange : Nat} {blockSize : ThunkBlockId → Nat}

theorem objectsOf_states (text : Text) :
    objectsOf text.states = text.objects.map fun object => (object.1, object.2.sum) :=
  objectsOf_state text.groups

theorem objects_nodup (text : Text) : (text.objects.map Prod.fst).Nodup := by
  have hnodup := objectsOf_nodup text.states
  rwa [objectsOf_states, List.map_map] at hnodup

/-- The range of an object after the given ones. -/
def rangeAfter (text : Text) (before : List (FileId × List Nat)) (object : FileId × List Nat) :
    PrimaryRange :=
  let start := text.computeNonPrimaryTextSize + countedBytes before
  ⟨object.1, start, start + object.2.sum⟩

theorem mem_primaryRanges {range : PrimaryRange} :
    range ∈ text.primaryRanges ↔ ∃ before object after, text.objects = before ++ object :: after ∧
      range = text.rangeAfter before object := by
  unfold primaryRanges
  rw [objectsOf_states]
  exact mem_place_iff
    (fun offset objects => collectPrimaryRanges offset
      (objects.map fun object : FileId × List Nat => (object.1, object.2.sum)))
    (fun offset object => ⟨object.1, offset, offset + object.2.sum⟩) _
    (fun _ => rfl) (fun _ _ _ => rfl)

theorem find?_primaryRanges {before after : List (FileId × List Nat)} {object : FileId × List Nat}
    (h : text.objects = before ++ object :: after) :
    (text.primaryRanges.find? fun range => range.fileId = object.1)
      = some (text.rangeAfter before object) := by
  cases hfind : text.primaryRanges.find? fun range => range.fileId = object.1 with
  | none =>
      have hmem := mem_primaryRanges.mpr ⟨before, object, after, h, rfl⟩
      exact absurd (List.find?_eq_none.mp hfind _ hmem) (by simp [rangeAfter])
  | some range =>
      have hid : range.fileId = object.1 := by simpa using List.find?_some hfind
      obtain ⟨before', object', after', h', rfl⟩ :=
        mem_primaryRanges.mp (List.mem_of_find?_eq_some hfind)
      obtain ⟨rfl, rfl⟩ := place_eq text.objects_nodup h' h hid
      rfl

/-! ### Places in the layout -/

theorem le_capacity (size : Nat) : size ≤ text.capacity size := by
  unfold capacity
  split
  · exact Nat.le_refl size
  · exact text.sectionAlignment.le_alignUp size

@[simp] theorem capacity_zero : text.capacity 0 = 0 := by
  unfold capacity
  split
  · rfl
  · unfold Alignment.alignUp
    rw [Nat.zero_add, Nat.div_eq_of_lt (Nat.sub_lt text.sectionAlignment.value_pos Nat.one_pos),
      Nat.zero_mul]

theorem mem_placeSections {address : Nat} {sections : List Nat} {found : Placed} :
    found ∈ text.placeSections address sections
      ↔ ∃ front size back, sections = front ++ size :: back ∧
        found = ⟨address + text.capacityOf front, size⟩ :=
  mem_place_iff text.placeSections Placed.mk text.capacity (fun _ => rfl) (fun _ _ _ => rfl)

/-- What some objects take up together. -/
abbrev extentOf (text : Text) (branchRange : Nat) (blockSize : ThunkBlockId → Nat)
    (objects : List (FileId × List Nat)) : Nat :=
  extent (text.spaceOf branchRange blockSize) objects

theorem mem_finalise {placed : PlacedSections} :
    placed ∈ text.finalise branchRange blockSize
      ↔ ∃ before object after, text.objects = before ++ object :: after ∧
        placed = ⟨object.1, text.placeSections
          (text.primaryAddress + text.extentOf branchRange blockSize before) object.2⟩ :=
  mem_place_iff (text.finaliseObjects branchRange blockSize)
    (fun address object => ⟨object.1, text.placeSections address object.2⟩)
    (text.spaceOf branchRange blockSize) (fun _ => rfl) (fun _ _ _ => rfl)

/-- A section ends in the space of its object. -/
theorem capacityOf_add_le (front back : List Nat) (size : Nat) :
    text.capacityOf front + size ≤ text.capacityOf (front ++ size :: back) := by
  simp only [capacityOf, extent_append, extent_cons]
  have hsize := text.le_capacity size
  omega

/-- The largest blocks leave the most space between objects. -/
theorem extentOf_le (branchRange : Nat)
    (hblocks : ∀ blockId, blockSize blockId ≤ maximumThunkBytesPerBlock)
    (objects : List (FileId × List Nat)) :
    text.extentOf branchRange blockSize objects
      ≤ text.extentOf branchRange (fun _ => maximumThunkBytesPerBlock) objects := by
  refine extent_mono (fun object => Nat.add_le_add_left ?_ _) objects
  unfold blockBytes
  dsimp only
  split
  · exact hblocks _
  · exact Nat.le_refl 0

/-- Objects that are assigned to a block have bytes. -/
theorem isOwner_of_sum_eq_zero {object : FileId × List Nat} (hmem : object ∈ text.objects)
    (hbytes : object.2.sum = 0) :
    (assignmentOf (text.assignments branchRange) object.1).isOwner = false := by
  cases hfind : (text.assignments branchRange).reverse.find? fun assignment =>
      assignment.fileId = object.1 with
  | none =>
      rw [assignmentOf, hfind]
      rfl
  | some assignment =>
      obtain ⟨-, hperm⟩ := assignThunkBlocksToGroups_segments branchRange
        text.computeNonPrimaryTextSize text.states
      have hid : assignment.fileId = object.1 := by simpa using List.find?_some hfind
      have hassigned : object.1 ∈ (primaryObjects text.states).map Prod.fst := by
        rw [← hid, ← (assignments_fileId_perm hperm).mem_iff]
        exact List.mem_map_of_mem (List.mem_reverse.mp (List.mem_of_find?_eq_some hfind))
      obtain ⟨primary, hprimary, hsame⟩ := List.mem_map.mp hassigned
      obtain ⟨hobject, hpositive⟩ := mem_primaryObjects.mp hprimary
      rw [objectsOf_states] at hobject
      obtain ⟨other, hother, rfl⟩ := List.mem_map.mp hobject
      have heq : other = object := List.inj_on_of_nodup_map text.objects_nodup hother hmem hsame
      rw [heq, hbytes] at hpositive
      exact absurd hpositive (Nat.lt_irrefl 0)

/-- An object without bytes takes up no space. -/
theorem spaceOf_eq_zero {object : FileId × List Nat} (hmem : object ∈ text.objects)
    (hbytes : object.2.sum = 0) : text.spaceOf branchRange blockSize object = 0 := by
  have hcapacity : text.capacityOf object.2 = 0 :=
    extent_eq_zero fun size hsize => by
      rw [List.sum_eq_zero_iff.mp hbytes size hsize, capacity_zero]
  have hblock : text.blockBytes branchRange blockSize object.1 = 0 := by
    unfold blockBytes
    dsimp only
    rw [isOwner_of_sum_eq_zero hmem hbytes]
    rfl
  rw [spaceOf, hcapacity, hblock]

/-! ### The other parts -/

theorem le_layoutParts (memOffset : Nat) (parts : List TextPart) :
    memOffset ≤ (layoutParts memOffset parts).2 := by
  induction parts generalizing memOffset with
  | nil => exact Nat.le_refl memOffset
  | cons part parts ih =>
      have haligned := part.alignment.le_alignUp memOffset
      have hrest := ih (part.alignment.alignUp memOffset + part.size)
      unfold layoutParts
      dsimp only
      omega

theorem mem_layoutParts {memOffset : Nat} {parts : List TextPart} {part : Placed}
    (h : part ∈ (layoutParts memOffset parts).1) :
    memOffset ≤ part.address ∧ part.address + part.size ≤ (layoutParts memOffset parts).2 := by
  induction parts generalizing memOffset with
  | nil => cases h
  | cons first parts ih =>
      have haligned := first.alignment.le_alignUp memOffset
      have hrest := le_layoutParts (first.alignment.alignUp memOffset + first.size) parts
      rcases List.mem_cons.mp h with rfl | h
      · exact ⟨haligned, hrest⟩
      · obtain ⟨hstart, hend⟩ := ih h
        exact ⟨by omega, hend⟩

/-- The other parts are between the first of them and the primary part. -/
theorem mem_placedParts {part : Placed} (h : part ∈ text.placedParts) :
    (∃ first ∈ text.placedParts.head?, first.address ≤ part.address) ∧
      part.address + part.size ≤ text.primaryAddress := by
  have hend := (mem_layoutParts h).2
  refine ⟨?_, hend.trans (text.primaryAlignment.le_alignUp _)⟩
  unfold placedParts at h ⊢
  cases hparts : text.nonPrimary with
  | nil =>
      rw [hparts] at h
      cases h
  | cons first parts =>
      rw [hparts] at h
      refine ⟨_, rfl, ?_⟩
      rcases List.mem_cons.mp h with rfl | h
      · exact Nat.le_refl _
      · exact (Nat.le_add_right _ first.size).trans (mem_layoutParts h).1

/-- The padding of sections, the gaps between parts and the blocks fit into what is allowed for one
block. -/
structure PaddingFits (branchRange : Nat) (text : Text) : Prop where
  /-- From an object with code to a section of the same object or a later one. -/
  primary : ∀ before between last after, text.objects = before ++ (between ++ last :: after) →
    (∃ first ∈ (between ++ [last]).head?, 0 < first.2.sum) →
    countedBytes (between ++ [last]) < branchRange →
    ∀ front size back, last.2 = front ++ size :: back →
      text.extentOf branchRange (fun _ => maximumThunkBytesPerBlock) between
          + text.capacityOf front + size
        < branchRange + maximumThunkBytesPerBlock
  /-- From the first of the other parts to a section with code. -/
  nonPrimary : ∀ first ∈ text.placedParts.head?, ∀ between last after,
    text.objects = between ++ last :: after →
    text.computeNonPrimaryTextSize + countedBytes (between ++ [last]) < branchRange →
    ∀ front size back, last.2 = front ++ size :: back → 0 < size →
      (text.primaryAddress - first.address)
          + text.extentOf branchRange (fun _ => maximumThunkBytesPerBlock) between
          + text.capacityOf front + size
        ≤ branchRange + maximumThunkBytesPerBlock

section Sufficient

variable (hfits : PaddingFits branchRange text)
  (hblocks : ∀ blockId, blockSize blockId ≤ maximumThunkBytesPerBlock)

include hfits

/-- Objects without bytes before the first one with code make no difference. -/
theorem PaddingFits.primary_of_pos (before between : List (FileId × List Nat))
    {after : List (FileId × List Nat)} {last : FileId × List Nat} (hobjects : text.objects = before ++ (between ++ last :: after))
    (hlast : 0 < last.2.sum) (hcounted : countedBytes (between ++ [last]) < branchRange)
    {front back : List Nat} {size : Nat} (hsections : last.2 = front ++ size :: back) :
    text.extentOf branchRange (fun _ => maximumThunkBytesPerBlock) between
        + text.capacityOf front + size
      < branchRange + maximumThunkBytesPerBlock := by
  induction between generalizing before with
  | nil => exact hfits.primary before [] last after hobjects ⟨last, rfl, hlast⟩ hcounted _ _ _ hsections
  | cons first between ih =>
      rcases Nat.eq_zero_or_pos first.2.sum with hzero | hpos
      · have hmem : first ∈ text.objects := by
          rw [hobjects]
          exact List.mem_append_right _ List.mem_cons_self
        have hrest := ih (before ++ [first]) (by rw [hobjects]; simp)
          (by simpa [hzero] using hcounted)
        rw [extentOf, extent_cons, spaceOf_eq_zero hmem hzero, Nat.zero_add]
        exact hrest
      · exact hfits.primary before (first :: between) last after hobjects ⟨first, rfl, hpos⟩ hcounted
          _ _ _ hsections

include hblocks

/-- Two places in the primary part whose ranges are close are in range. -/
theorem PaddingFits.inRange {before before' after after' : List (FileId × List Nat)}
    {object object' : FileId × List Nat} {front front' back back' : List Nat}
    {size size' offset offset' : Nat} (hobject : text.objects = before ++ object :: after)
    (hobject' : text.objects = before' ++ object' :: after')
    (hsections : object.2 = front ++ size :: back)
    (hsections' : object'.2 = front' ++ size' :: back') (hoffset : offset < size)
    (hoffset' : offset' ≤ size')
    (hspan : max (text.rangeAfter before object).stop (text.rangeAfter before' object').stop
      - min (text.rangeAfter before object).start (text.rangeAfter before' object').start
        < branchRange) :
    text.extentOf branchRange blockSize before + text.capacityOf front + offset
        < text.extentOf branchRange blockSize before' + text.capacityOf front' + offset'
          + (branchRange + maximumThunkBytesPerBlock) ∧
      text.extentOf branchRange blockSize before' + text.capacityOf front' + offset'
        < text.extentOf branchRange blockSize before + text.capacityOf front + offset
          + (branchRange + maximumThunkBytesPerBlock) := by
  have hbytes : 0 < object.2.sum := by
    rw [hsections, List.sum_append, List.sum_cons]
    omega
  have hspace := text.capacityOf_add_le front back size
  have hspace' := text.capacityOf_add_le front' back' size'
  rw [← hsections] at hspace
  rw [← hsections'] at hspace'
  simp only [rangeAfter] at hspan
  rcases places_cases (hobject.symm.trans hobject') with ⟨rfl, rfl⟩ | ⟨between, rfl⟩ | ⟨between, rfl⟩
  · -- both are in one object, which is smaller than the range
    have hcounted : countedBytes ([] ++ [object]) < branchRange := by
      simp only [countedBytes, extent_append, extent_cons, extent_nil]
      omega
    have hreach := hfits.primary_of_pos before [] hobject hbytes hcounted hsections
    have hreach' := hfits.primary_of_pos before [] hobject hbytes hcounted hsections'
    simp only [extentOf, extent_nil] at hreach hreach'
    constructor <;> omega
  · -- the target is in a later object
    have hcounted : countedBytes ((object :: between) ++ [object']) < branchRange := by
      simp only [countedBytes, extent_append, extent_cons, extent_nil] at hspan ⊢
      omega
    have hreach := hfits.primary before (object :: between) object' after' (by rw [hobject']; simp)
      ⟨object, rfl, hbytes⟩ hcounted _ _ _ hsections'
    have hle := text.extentOf_le branchRange hblocks (object :: between)
    simp only [extentOf, extent_append, extent_cons, spaceOf] at hreach hle ⊢
    constructor <;> omega
  · have hcounted : countedBytes ((object' :: between) ++ [object]) < branchRange := by
      simp only [countedBytes, extent_append, extent_cons, extent_nil] at hspan ⊢
      omega
    have hreach := hfits.primary_of_pos before' (object' :: between)
      (hobject.trans (List.append_assoc _ _ _)) hbytes hcounted hsections
    have hle := text.extentOf_le branchRange hblocks (object' :: between)
    simp only [extentOf, extent_append, extent_cons, spaceOf] at hreach hle ⊢
    constructor <;> omega

/-- A place in the primary part is in range of the parts before it. -/
theorem PaddingFits.inRange_elsewhere {before after : List (FileId × List Nat)}
    {object : FileId × List Nat} {front back : List Nat} {size offset : Nat} {part : Placed}
    (hobject : text.objects = before ++ object :: after)
    (hsections : object.2 = front ++ size :: back) (hoffset : offset < size)
    (hpart : part ∈ text.placedParts)
    (hcounted : (text.rangeAfter before object).stop < branchRange) :
    text.primaryAddress + text.extentOf branchRange blockSize before + text.capacityOf front + offset
      < part.address + (branchRange + maximumThunkBytesPerBlock) := by
  obtain ⟨⟨first, hfirst, hle⟩, hend⟩ := mem_placedParts hpart
  have hreach := hfits.nonPrimary first hfirst before object after hobject
    (by simpa [rangeAfter, Nat.add_assoc] using hcounted) _ _ _ hsections (by omega)
  have hblocksLe := text.extentOf_le branchRange hblocks before
  omega

end Sufficient

/-- A definition in the primary part that a branch goes to directly. -/
theorem primaryRangeForSymbol_eq {definition : Definition} {before after : List (FileId × List Nat)}
    {object : FileId × List Nat} (hprimary : definition.inPrimaryPart = true)
    (hifunc : definition.flags.ifunc = false) (hdynamic : definition.flags.dynamic = false)
    (hobject : text.objects = before ++ object :: after) (hid : object.1 = definition.fileId) :
    primaryRangeForSymbol text.primaryRanges definition = some (text.rangeAfter before object) := by
  unfold primaryRangeForSymbol
  rw [hprimary, hifunc, hdynamic, ← hid]
  exact find?_primaryRanges hobject

/-- If the branch may go to another part, the whole range of its object is counted. -/
theorem stop_lt_of_elsewhere {source : PrimaryRange} {definition : Definition}
    (helsewhere : definition.flags.plt = true ∨ definition.flags.ifunc = true ∨
      definition.flags.dynamic = true ∨ definition.inPrimaryPart = false)
    (h : provablyInRange branchRange text.primaryRanges source definition = true) :
    source.stop < branchRange := by
  unfold provablyInRange at h
  cases hrange : primaryRangeForSymbol text.primaryRanges definition with
  | none => simpa [hrange] using h
  | some range =>
      have hplt : definition.flags.plt = true := by
        rcases helsewhere with hplt | hother
        · exact hplt
        · unfold primaryRangeForSymbol at hrange
          rcases hother with hother | hother | hother <;> simp [hother] at hrange
      simp only [hrange, hplt, if_true, decide_eq_true_eq] at h
      omega

theorem skipsSafely_of_paddingFits (hfits : PaddingFits branchRange text) :
    SkipsSafely branchRange text := by
  intro blockSize hblocks placed hplaced source hsource hid found hfound offset hoffset definition
    target htarget hreported
  obtain ⟨before, object, after, hobject, rfl⟩ := mem_finalise.mp hplaced
  obtain ⟨front, size, back, hsections, rfl⟩ := mem_placeSections.mp hfound
  obtain ⟨_, _, _, hobject', rfl⟩ := mem_primaryRanges.mp hsource
  obtain ⟨rfl, rfl⟩ := place_eq text.objects_nodup hobject' hobject hid
  cases htarget with
  | primary hprimary hifunc hdynamic hplaced' hid' hfound' hoffset' =>
      obtain ⟨before', object', after', hobject', rfl⟩ := mem_finalise.mp hplaced'
      obtain ⟨front', size', back', hsections', rfl⟩ := mem_placeSections.mp hfound'
      unfold provablyInRange at hreported
      rw [primaryRangeForSymbol_eq hprimary hifunc hdynamic hobject' hid'] at hreported
      have hspan := of_decide_eq_true hreported
      have hreach := hfits.inRange hblocks hobject hobject' hsections hsections' hoffset hoffset'
        (by split at hspan <;> omega)
      constructor <;> dsimp only <;> omega
  | elsewhere helsewhere hpart hoffset' =>
      have hstop := stop_lt_of_elsewhere helsewhere hreported
      have hreach := hfits.inRange_elsewhere hblocks hobject hsections hoffset hpart hstop
      have hend := (mem_placedParts hpart).2
      constructor <;> dsimp only <;> omega

/-! ### The condition is needed -/

/-- The first byte of an object with code is at its start. -/
theorem exists_first_byte {sections : List Nat} (h : 0 < sections.sum) :
    ∃ front size back, sections = front ++ size :: back ∧ 0 < size ∧ text.capacityOf front = 0 := by
  induction sections with
  | nil => cases h
  | cons first sections ih =>
      rcases Nat.eq_zero_or_pos first with rfl | hpos
      · obtain ⟨front, size, back, rfl, hsize, hfront⟩ := ih (by simpa using h)
        refine ⟨0 :: front, size, back, rfl, hsize, ?_⟩
        rw [capacityOf, extent_cons, capacity_zero, Nat.zero_add]
        exact hfront
      · exact ⟨[], first, sections, rfl, hpos, rfl⟩

theorem primary_of_skipsSafely (h : SkipsSafely branchRange text)
    (hblocks : ∀ blockId, blockSize blockId ≤ maximumThunkBytesPerBlock)
    {before between after : List (FileId × List Nat)} {last : FileId × List Nat}
    (hobjects : text.objects = before ++ (between ++ last :: after))
    (hfirst : ∃ first ∈ (between ++ [last]).head?, 0 < first.2.sum)
    (hcounted : countedBytes (between ++ [last]) < branchRange) {front back : List Nat} {size : Nat}
    (hsections : last.2 = front ++ size :: back) :
    text.extentOf branchRange blockSize between + text.capacityOf front + size
      < branchRange + maximumThunkBytesPerBlock := by
  obtain ⟨first, hhead, hbytes⟩ := hfirst
  obtain ⟨rest, hrest⟩ : ∃ rest, between ++ [last] = first :: rest := List.head?_eq_some_iff.mp hhead
  obtain ⟨front', size', back', hsections', hsize', hfront'⟩ := text.exists_first_byte hbytes
  have hsource : text.objects = before ++ first :: (rest ++ after) := by
    rw [hobjects, List.append_cons, hrest, List.cons_append]
  have htarget : text.objects = (before ++ between) ++ last :: after := by
    rw [hobjects, List.append_assoc]
  have hrange : (text.rangeAfter before first).stop ≤ (text.rangeAfter (before ++ between) last).stop := by
    have hbytesLe := congrArg countedBytes hrest
    simp only [rangeAfter, countedBytes, extent_append, extent_cons, extent_nil] at hbytesLe ⊢
    omega
  -- a branch from the first byte to the end of the section
  have hreach := h blockSize hblocks _
    (mem_finalise.mpr ⟨before, first, _, hsource, rfl⟩) _
    (mem_primaryRanges.mpr ⟨before, first, _, hsource, rfl⟩) rfl _
    (mem_placeSections.mpr ⟨front', size', back', hsections', rfl⟩) 0 hsize'
    ⟨last.1, true, {}⟩ _
    (.primary rfl rfl rfl (mem_finalise.mpr ⟨before ++ between, last, after, htarget, rfl⟩) rfl
      (mem_placeSections.mpr ⟨front, size, back, hsections, rfl⟩) (Nat.le_refl size))
  have hreported : provablyInRange branchRange text.primaryRanges (text.rangeAfter before first)
      ⟨last.1, true, {}⟩ = true := by
    unfold provablyInRange
    rw [primaryRangeForSymbol_eq rfl rfl rfl htarget rfl]
    refine decide_eq_true ?_
    rw [max_eq_right hrange, min_eq_left]
    · simp only [rangeAfter, countedBytes, extent_append, extent_cons, extent_nil] at hcounted ⊢
      omega
    · simp [rangeAfter]
  have hlt := (hreach hreported).2
  simp only [extentOf, extent_append] at hlt ⊢
  omega

theorem nonPrimary_of_skipsSafely (h : SkipsSafely branchRange text) {first : Placed}
    (hfirst : first ∈ text.placedParts.head?) {between after : List (FileId × List Nat)}
    {last : FileId × List Nat} (hobjects : text.objects = between ++ last :: after)
    (hcounted : text.computeNonPrimaryTextSize + countedBytes (between ++ [last]) < branchRange)
    {front back : List Nat} {size : Nat} (hsections : last.2 = front ++ size :: back)
    (hsize : 0 < size) :
    (text.primaryAddress - first.address)
        + text.extentOf branchRange (fun _ => maximumThunkBytesPerBlock) between
        + text.capacityOf front + size
      ≤ branchRange + maximumThunkBytesPerBlock := by
  have hmem : first ∈ text.placedParts := List.mem_of_mem_head? hfirst
  -- a branch from the last byte of the section to the first other part
  have hreach := h (fun _ => maximumThunkBytesPerBlock) (fun _ => Nat.le_refl _) _
    (mem_finalise.mpr ⟨between, last, after, hobjects, rfl⟩) _
    (mem_primaryRanges.mpr ⟨between, last, after, hobjects, rfl⟩) rfl _
    (mem_placeSections.mpr ⟨front, size, back, hsections, rfl⟩) (size - 1) (Nat.sub_one_lt_of_lt hsize)
    ⟨last.1, false, {}⟩ _ (.elsewhere (.inr (.inr (.inr rfl))) hmem (Nat.zero_le _))
  have hreported : provablyInRange branchRange text.primaryRanges (text.rangeAfter between last)
      ⟨last.1, false, {}⟩ = true := by
    refine decide_eq_true ?_
    simpa [rangeAfter, Nat.add_assoc] using hcounted
  have hlt := (hreach hreported).1
  have hend := (mem_placedParts hmem).2
  dsimp only at hlt
  omega

/-- Sections of five bytes, and one with a function. -/
def paddedSections (count : Nat) : List Nat := List.replicate count 5 ++ [4]

theorem paddedSections_sum (count : Nat) : (paddedSections count).sum = count * 5 + 4 := by
  unfold paddedSections
  rw [List.sum_append, List.sum_replicate, smul_eq_mul, List.sum_singleton]

/-- A branch, and its target after the padded sections. -/
def paddedText (count : Nat) : Text where
  memOffset := 0
  nonPrimary := []
  primaryAlignment := ⟨2⟩
  sectionAlignment := ⟨2⟩
  shouldPack := false
  groups := [[.object [4], .object (paddedSections count)]]

/-- The padding of enough sections alone takes a branch out of the range, without any thunks. -/
theorem not_skipsSafely_paddedText {count : Nat} (hcounted : count * 5 + 8 < 132120576)
    (hpadded : 134217728 ≤ count * 8) : ¬ SkipsSafely 132120576 (paddedText count) := by
  intro h
  have hnone : ∀ blockId : ThunkBlockId, (fun _ => 0) blockId ≤ maximumThunkBytesPerBlock :=
    fun _ => Nat.zero_le _
  have hobjects : (paddedText count).objects
      = [] ++ ([(⟨0, 0⟩, [4])] ++ (⟨0, 1⟩, paddedSections count) :: []) := rfl
  have hbytes : countedBytes [(⟨0, 0⟩, [4]), (⟨0, 1⟩, paddedSections count)] < 132120576 := by
    simp only [countedBytes, extent_cons, extent_nil, paddedSections_sum, List.sum_singleton]
    omega
  have hsections : paddedSections count = List.replicate count 5 ++ 4 :: [] := rfl
  have hreach := primary_of_skipsSafely h hnone hobjects ⟨_, rfl, by decide⟩ hbytes hsections
  have hcapacity : (paddedText count).capacity 5 = 8 := by
    show Alignment.alignUp ⟨2⟩ 5 = 8
    decide
  rw [capacityOf, extent_replicate, hcapacity] at hreach
  unfold maximumThunkBytesPerBlock at hreach
  omega

end Text

end JdxLinker.Thunks
