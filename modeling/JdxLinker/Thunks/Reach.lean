import JdxLinker.Thunks.Blocks

/-!
# Which blocks are in reach

In the layout the block of a segment stands between the objects before it and those after it. The
objects after it are fewer bytes than the range. Those before it are where the owner ends too late.
-/

namespace JdxLinker.Thunks

/-! ### The layout of segments -/

/-- Objects that own no block. -/
def placeObjects (blockId : ThunkBlockId) : Nat → List (FileId × Nat) → List PlacedObject
  | _, [] => []
  | address, object :: objects =>
    ⟨⟨object.1, blockId, false⟩, address, object.2⟩
      :: placeObjects blockId (address + object.2) objects

namespace Segment

/-- The bytes of a segment with its block. -/
def extent (segment : Segment) (blockBytes : Nat) : Nat :=
  segment.bytesBefore + blockBytes + bytesOf segment.after

def place (segment : Segment) (blockId : ThunkBlockId) (blockBytes address : Nat) :
    List PlacedObject :=
  placeObjects blockId address segment.before
    ++ ⟨⟨segment.owner.1, blockId, true⟩, address + bytesOf segment.before, segment.owner.2⟩
      :: placeObjects blockId (address + segment.bytesBefore + blockBytes) segment.after

end Segment

def placeSegments (blockSize : ThunkBlockId → Nat) :
    ThunkBlockId → Nat → List Segment → List PlacedObject
  | _, _, [] => []
  | blockId, address, segment :: segments =>
    segment.place blockId (blockSize blockId) address
      ++ placeSegments blockSize (blockId + 1) (address + segment.extent (blockSize blockId)) segments

section Layout

variable {blockSize : ThunkBlockId → Nat} {assignments : List Assignment} {blockId : ThunkBlockId}

theorem finaliseLayout_append (address : Nat) (objects rest : List (FileId × Nat))
    (h : ∀ object ∈ objects, assignmentOf assignments object.1 = ⟨object.1, blockId, false⟩) :
    finaliseLayout blockSize assignments address (objects ++ rest)
      = placeObjects blockId address objects
        ++ finaliseLayout blockSize assignments (address + bytesOf objects) rest := by
  induction objects generalizing address with
  | nil => rfl
  | cons object objects ih =>
      have hobject := h object List.mem_cons_self
      have hrest := ih (address + object.2) fun other hother => h other (List.mem_cons_of_mem _ hother)
      rw [List.cons_append, finaliseLayout, placeObjects, hobject, List.cons_append]
      dsimp only
      rw [if_neg Bool.false_ne_true, Nat.add_zero, hrest, bytesOf_cons, Nat.add_assoc]

theorem finaliseLayout_segment (address : Nat) (segment : Segment) (rest : List (FileId × Nat))
    (h : ∀ assignment ∈ segment.assignments blockId,
      assignmentOf assignments assignment.fileId = assignment) :
    finaliseLayout blockSize assignments address (segment.objects ++ rest)
      = segment.place blockId (blockSize blockId) address
        ++ finaliseLayout blockSize assignments (address + segment.extent (blockSize blockId))
          rest := by
  have hbefore : ∀ object ∈ segment.before,
      assignmentOf assignments object.1 = ⟨object.1, blockId, false⟩ := fun object hobject =>
    h _ (List.mem_append_left _ (List.mem_map.mpr ⟨object, hobject, rfl⟩))
  have howner : assignmentOf assignments segment.owner.1 = ⟨segment.owner.1, blockId, true⟩ :=
    h _ (List.mem_append_right _ List.mem_cons_self)
  have hafter : ∀ object ∈ segment.after,
      assignmentOf assignments object.1 = ⟨object.1, blockId, false⟩ := fun object hobject =>
    h _ (List.mem_append_right _ (List.mem_cons_of_mem _ (List.mem_map.mpr ⟨object, hobject, rfl⟩)))
  unfold Segment.objects Segment.place Segment.extent
  rw [List.append_assoc, finaliseLayout_append address _ _ hbefore, List.cons_append, finaliseLayout,
    howner, List.append_assoc, List.cons_append]
  dsimp only
  rw [if_pos rfl, finaliseLayout_append _ _ _ hafter]
  unfold Segment.bytesBefore
  simp only [Nat.add_assoc]

theorem finaliseLayout_segments (address : Nat) (segments : List Segment)
    (h : ∀ assignment ∈ assignmentsFrom blockId segments,
      assignmentOf assignments assignment.fileId = assignment) :
    finaliseLayout blockSize assignments address (segments.flatMap Segment.objects)
      = placeSegments blockSize blockId address segments := by
  induction segments generalizing blockId address with
  | nil => rfl
  | cons segment segments ih =>
      rw [List.flatMap_cons, finaliseLayout_segment address segment _ fun assignment hmem =>
        h assignment (List.mem_append_left _ hmem), ih _ fun assignment hmem =>
        h assignment (List.mem_append_right _ hmem)]
      rfl

/-- What an object is assigned to where it was assigned once. -/
theorem assignmentOf_eq {assignment : Assignment} (hmem : assignment ∈ assignments)
    (hnodup : (assignments.map Assignment.fileId).Nodup) :
    assignmentOf assignments assignment.fileId = assignment := by
  unfold assignmentOf
  cases hfind : assignments.reverse.find? fun other => other.fileId = assignment.fileId with
  | none =>
      have hnot := List.find?_eq_none.mp hfind assignment (List.mem_reverse.mpr hmem)
      simp at hnot
  | some found =>
      have hfound := List.mem_reverse.mp (List.mem_of_find?_eq_some hfind)
      have hid : found.fileId = assignment.fileId := by simpa using List.find?_some hfind
      exact List.inj_on_of_nodup_map hnodup hfound hmem hid

end Layout

/-! ### Reach within a segment -/

section Reach

variable {range blockBytes address : Nat} {blockSize : ThunkBlockId → Nat} {blockId : ThunkBlockId}

theorem mem_placeObjects {placed : PlacedObject} {objects : List (FileId × Nat)}
    (h : placed ∈ placeObjects blockId address objects) :
    placed.assignment.blockId = blockId ∧ placed.assignment.isOwner = false ∧
      address ≤ placed.address ∧
      placed.address + placed.bytes ≤ address + bytesOf objects := by
  induction objects generalizing address with
  | nil => cases h
  | cons object objects ih =>
      rw [bytesOf_cons]
      rcases List.mem_cons.mp h with rfl | h
      · exact ⟨rfl, rfl, Nat.le_refl _, by dsimp only; omega⟩
      · obtain ⟨hblock, howner, hstart, hstop⟩ := ih h
        exact ⟨hblock, howner, by omega, by omega⟩

theorem mem_place {placed : PlacedObject} {segment : Segment}
    (h : placed ∈ segment.place blockId blockBytes address) :
    placed.assignment.blockId = blockId ∧
      (placed.assignment.isOwner = true →
        placed.blockAddress = address + segment.bytesBefore) ∧
      address ≤ placed.address ∧
      (placed.address + placed.bytes ≤ address + segment.bytesBefore ∨
        address + segment.bytesBefore + blockBytes ≤ placed.address ∧
          placed.address + placed.bytes ≤ address + segment.extent blockBytes) := by
  unfold Segment.extent Segment.bytesBefore
  unfold Segment.place Segment.bytesBefore at h
  rcases List.mem_append.mp h with h | h
  · obtain ⟨hblock, howner, hstart, hstop⟩ := mem_placeObjects h
    refine ⟨hblock, fun htrue => ?_, hstart, .inl (by omega)⟩
    rw [howner] at htrue
    cases htrue
  · rcases List.mem_cons.mp h with rfl | h
    · exact ⟨rfl, fun _ => (by simp only [PlacedObject.blockAddress]; omega), by simp, .inl (by
        simp only; omega)⟩
    · obtain ⟨hblock, howner, hstart, hstop⟩ := mem_placeObjects h
      refine ⟨hblock, fun htrue => ?_, by omega, .inr ⟨hstart, by omega⟩⟩
      rw [howner] at htrue
      cases htrue

theorem owner_mem_place (segment : Segment) :
    ⟨⟨segment.owner.1, blockId, true⟩, address + bytesOf segment.before, segment.owner.2⟩
      ∈ segment.place blockId blockBytes address :=
  List.mem_append_right _ List.mem_cons_self

/-- A segment is in reach of its block as long as neither the bytes before it nor those after it are
more than the range. -/
theorem inReach_place {segment : Segment}
    (hblock : blockSize blockId ≤ maximumThunkBytesPerBlock)
    (hbefore : segment.bytesBefore ≤ range) (hafter : bytesOf segment.after ≤ range) :
    InReach (range + maximumThunkBytesPerBlock) blockSize
      (segment.place blockId (blockSize blockId) address) := by
  intro object hobject owner howner hisOwner _ i hi j hj
  obtain ⟨hid, -, hstart, hstop⟩ := mem_place hobject
  obtain ⟨-, hposition, -⟩ := mem_place howner
  rw [hid] at hj
  rw [hposition hisOwner]
  unfold Segment.extent at hstop
  omega

/-- Where a segment is in reach of the largest block, the bytes before the block are not more than
the range. -/
theorem bytesBefore_le {segment : Segment} (hpositive : ∀ object ∈ segment.objects, 0 < object.2)
    (hblock : blockSize blockId = maximumThunkBytesPerBlock)
    (h : InReach (range + maximumThunkBytesPerBlock) blockSize
      (segment.place blockId (blockSize blockId) address)) : segment.bytesBefore ≤ range := by
  have hfirst : ∃ object ∈ segment.place blockId (blockSize blockId) address,
      object.address = address ∧ 0 < object.bytes := by
    unfold Segment.place
    cases hbefore : segment.before with
    | nil =>
        refine ⟨_, List.mem_append_right _ List.mem_cons_self, rfl, hpositive segment.owner ?_⟩
        exact List.mem_append_right _ List.mem_cons_self
    | cons first before =>
        refine ⟨_, List.mem_append_left _ List.mem_cons_self, rfl, hpositive first ?_⟩
        unfold Segment.objects
        rw [hbefore]
        exact List.mem_append_left _ List.mem_cons_self
  obtain ⟨object, hobject, haddress, hbytes⟩ := hfirst
  obtain ⟨hid, -⟩ := mem_place hobject
  have hlarge : 0 < maximumThunkBytesPerBlock := by decide
  have hreach := (h object hobject _ (owner_mem_place segment) rfl hid.symm 0 hbytes
    (maximumThunkBytesPerBlock - 1) (by rw [hid, hblock]; omega)).2
  unfold PlacedObject.blockAddress at hreach
  unfold Segment.bytesBefore
  dsimp only at hreach
  omega

theorem inReach_append {placed placed' : List PlacedObject}
    (h : ∀ a ∈ placed, ∀ b ∈ placed', a.assignment.blockId ≠ b.assignment.blockId) :
    InReach range blockSize (placed ++ placed')
      ↔ InReach range blockSize placed ∧ InReach range blockSize placed' := by
  constructor
  · intro hreach
    exact ⟨fun object hobject owner howner => hreach object (List.mem_append_left _ hobject) owner
        (List.mem_append_left _ howner),
      fun object hobject owner howner => hreach object (List.mem_append_right _ hobject) owner
        (List.mem_append_right _ howner)⟩
  · rintro ⟨hleft, hright⟩ object hobject owner howner hisOwner hsame
    rcases List.mem_append.mp hobject with hobject | hobject <;>
      rcases List.mem_append.mp howner with howner | howner
    · exact hleft object hobject owner howner hisOwner hsame
    · exact absurd hsame.symm (h object hobject owner howner)
    · exact absurd hsame (h owner howner object hobject)
    · exact hright object hobject owner howner hisOwner hsame

theorem le_blockId_of_mem {placed : PlacedObject} {segments : List Segment}
    (h : placed ∈ placeSegments blockSize blockId address segments) :
    blockId ≤ placed.assignment.blockId := by
  induction segments generalizing blockId address with
  | nil => cases h
  | cons segment segments ih =>
      rcases List.mem_append.mp h with h | h
      · exact (mem_place h).1.ge
      · exact (Nat.le_succ _).trans (ih h)

theorem inReach_placeSegments_cons {segment : Segment} {segments : List Segment} :
    InReach range blockSize (placeSegments blockSize blockId address (segment :: segments))
      ↔ InReach range blockSize (segment.place blockId (blockSize blockId) address) ∧
        InReach range blockSize (placeSegments blockSize (blockId + 1)
          (address + segment.extent (blockSize blockId)) segments) := by
  refine inReach_append fun object hobject other hother heq => ?_
  have hlt := le_blockId_of_mem hother
  rw [← heq, (mem_place hobject).1] at hlt
  exact Nat.not_succ_le_self _ hlt

theorem inReach_placeSegments {segments : List Segment}
    (hblock : ∀ blockId, blockSize blockId ≤ maximumThunkBytesPerBlock)
    (h : ∀ segment ∈ segments, segment.bytesBefore ≤ range ∧ bytesOf segment.after ≤ range) :
    InReach (range + maximumThunkBytesPerBlock) blockSize
      (placeSegments blockSize blockId address segments) := by
  induction segments generalizing blockId address with
  | nil => exact fun object hobject => (by cases hobject)
  | cons segment segments ih =>
      have hsegment := h segment List.mem_cons_self
      exact inReach_placeSegments_cons.mpr ⟨inReach_place (hblock blockId) hsegment.1 hsegment.2,
        ih fun other hother => h other (List.mem_cons_of_mem _ hother)⟩

theorem bytesBefore_le_of_mem {segments : List Segment}
    (hpositive : ∀ object ∈ segments.flatMap Segment.objects, 0 < object.2)
    (hblock : ∀ blockId, blockSize blockId = maximumThunkBytesPerBlock)
    (h : InReach (range + maximumThunkBytesPerBlock) blockSize
      (placeSegments blockSize blockId address segments)) :
    ∀ segment ∈ segments, segment.bytesBefore ≤ range := by
  induction segments generalizing blockId address with
  | nil =>
      intro segment hsegment
      cases hsegment
  | cons first segments ih =>
      rw [List.flatMap_cons] at hpositive
      obtain ⟨hfirst, hrest⟩ := inReach_placeSegments_cons.mp h
      intro segment hsegment
      rcases List.mem_cons.mp hsegment with rfl | hsegment
      · exact bytesBefore_le (fun object hobject => hpositive object
          (List.mem_append_left _ hobject)) (hblock blockId) hfirst
      · exact ih (fun object hobject => hpositive object (List.mem_append_right _ hobject)) hrest
          segment hsegment

end Reach

end JdxLinker.Thunks
