import JdxLinker.Thunks.Reach

/-!
# Owners that come too late

A block that waits for its place is placed on the first object that ends the range or more after the
first object that uses it. Only if it ends exactly there, the first object is still in reach.
-/

namespace JdxLinker.Thunks

/-! ### Where every owner is in time -/

/-- The bytes since the last block, or those of the first object that waits for a block and those
since the start of it. -/
inductive Count where
  | previous (bytes : Nat)
  | next (firstBytes bytes : Nat)
  deriving Repr, DecidableEq

/-- Objects that wait for a block end before the range, or exactly there. One that is given the block
of a group which is never closed is no larger than the range. -/
def ownersFitRest (maxBranchRange : Nat) : Count → List Nat → Bool
  | .previous _, [] => true
  | .next firstBytes _, [] => firstBytes ≤ maxBranchRange
  | .next firstBytes bytes, size :: sizes =>
    if bytes + size ≥ maxBranchRange then
      bytes + size = maxBranchRange && ownersFitRest maxBranchRange (.previous 0) sizes
    else ownersFitRest maxBranchRange (.next firstBytes (bytes + size)) sizes
  | .previous bytes, size :: sizes =>
    if bytes + size ≥ maxBranchRange then
      ownersFitRest maxBranchRange (.next size size) sizes
    else ownersFitRest maxBranchRange (.previous (bytes + size)) sizes

/-- The first object is no larger than the range either. -/
def ownersFit (maxBranchRange : Nat) : List Nat → Bool
  | [] => true
  | size :: sizes => size ≤ maxBranchRange && ownersFitRest maxBranchRange (.previous 0) sizes

section Fit

variable {maxBranchRange : Nat}

def OpenSegment.count : OpenSegment → Count
  | previous segment => .previous (bytesOf segment.after)
  | next first others => .next first.2 (bytesOf (first :: others))

/-- The block of the segment is placed in time, as far as that is known. -/
def OpenSegment.Fits (maxBranchRange : Nat) : OpenSegment → Prop
  | previous segment => segment.bytesBefore ≤ maxBranchRange
  | next _ _ => True

theorem segmentsFrom_bytesBefore (segment : OpenSegment) (objects : List (FileId × Nat)) :
    (∀ found ∈ segmentsFrom maxBranchRange segment objects, found.bytesBefore ≤ maxBranchRange)
      ↔ segment.Fits maxBranchRange ∧
        ownersFitRest maxBranchRange segment.count (objects.map Prod.snd) = true := by
  induction objects generalizing segment with
  | nil =>
      cases segment with
      | previous segment => simp [segmentsFrom, OpenSegment.Fits, OpenSegment.count, ownersFitRest]
      | next first others =>
          simp [segmentsFrom, OpenSegment.Fits, OpenSegment.count, ownersFitRest,
            Segment.bytesBefore]
  | cons object objects ih =>
      cases segment with
      | previous segment =>
          unfold segmentsFrom OpenSegment.count
          rw [List.map_cons, ownersFitRest]
          split
          · rw [List.forall_mem_cons, ih]
            exact and_congr_right fun _ => iff_of_eq (true_and _)
          · rw [ih]
            simp [OpenSegment.Fits, OpenSegment.count, Segment.bytesBefore]
      | next first others =>
          unfold segmentsFrom OpenSegment.count
          rw [List.map_cons, ownersFitRest]
          split
          · rename_i hclosed
            rw [ih, Bool.and_eq_true, decide_eq_true_eq]
            have hexact : (OpenSegment.previous ⟨first :: others, object, []⟩).Fits maxBranchRange
                ↔ bytesOf (first :: others) + object.2 = maxBranchRange :=
              ⟨fun h => Nat.le_antisymm h hclosed, fun h => h.le⟩
            rw [hexact]
            exact iff_of_eq (true_and _).symm
          · rw [ih]
            simp [OpenSegment.Fits, OpenSegment.count, Nat.add_assoc]

theorem segmentsOf_bytesBefore (objects : List (FileId × Nat)) :
    (∀ segment ∈ segmentsOf maxBranchRange objects, segment.bytesBefore ≤ maxBranchRange)
      ↔ ownersFit maxBranchRange (objects.map Prod.snd) = true := by
  cases objects with
  | nil => simp [segmentsOf, ownersFit]
  | cons first objects =>
      unfold segmentsOf
      rw [segmentsFrom_bytesBefore, List.map_cons, ownersFit, Bool.and_eq_true, decide_eq_true_eq]
      simp [OpenSegment.Fits, OpenSegment.count, Segment.bytesBefore]

/-- The objects after the block, or those that wait for it, are fewer bytes than the range. -/
def OpenSegment.AfterFits (maxBranchRange : Nat) : OpenSegment → Prop
  | previous segment => bytesOf segment.after ≤ maxBranchRange
  | next _ others => bytesOf others ≤ maxBranchRange

theorem segmentsFrom_after {segment : OpenSegment} (h : segment.AfterFits maxBranchRange)
    (objects : List (FileId × Nat)) :
    ∀ found ∈ segmentsFrom maxBranchRange segment objects, bytesOf found.after ≤ maxBranchRange := by
  induction objects generalizing segment with
  | nil =>
      cases segment <;> exact List.forall_mem_singleton.mpr h
  | cons object objects ih =>
      cases segment with
      | previous segment =>
          unfold segmentsFrom
          split
          · exact List.forall_mem_cons.mpr ⟨h, ih (Nat.zero_le _)⟩
          · refine ih ?_
            simp only [OpenSegment.AfterFits, bytesOf_append, bytesOf_cons, bytesOf_nil]
            omega
      | next first others =>
          unfold segmentsFrom
          split
          · exact ih (Nat.zero_le _)
          · rename_i hopen
            refine ih ?_
            simp only [OpenSegment.AfterFits, bytesOf_append, bytesOf_cons, bytesOf_nil] at hopen ⊢
            omega

theorem segmentsOf_after (objects : List (FileId × Nat)) :
    ∀ segment ∈ segmentsOf maxBranchRange objects, bytesOf segment.after ≤ maxBranchRange := by
  cases objects with
  | nil => exact fun segment hsegment => (by cases hsegment)
  | cons first objects => exact segmentsFrom_after (Nat.zero_le _) objects

end Fit

/-! ### Objects without primary bytes -/

section Filter

variable {blockSize : ThunkBlockId → Nat} {assignments : List Assignment}

theorem collectPrimaryRanges_filter (offset : Nat) (objects : List (FileId × Nat)) :
    (collectPrimaryRanges offset objects).filter (fun range => range.start < range.stop)
      = collectPrimaryRanges offset (objects.filter fun object => 0 < object.2) := by
  induction objects generalizing offset with
  | nil => rfl
  | cons object objects ih =>
      obtain ⟨fileId, bytes⟩ := object
      rw [collectPrimaryRanges]
      by_cases hbytes : 0 < bytes
      · rw [List.filter_cons_of_pos (by simpa using hbytes), ih,
          List.filter_cons_of_pos (by simpa using hbytes), collectPrimaryRanges]
      · obtain rfl : bytes = 0 := Nat.eq_zero_of_not_pos hbytes
        rw [List.filter_cons_of_neg (by simp), ih, List.filter_cons_of_neg (by simp)]
        rfl

theorem finaliseLayout_filter (address : Nat) (objects : List (FileId × Nat))
    (h : ∀ object ∈ objects, ¬ 0 < object.2 → (assignmentOf assignments object.1).isOwner = false) :
    (finaliseLayout blockSize assignments address objects).filter (fun placed => 0 < placed.bytes)
      = finaliseLayout blockSize assignments address (objects.filter fun object => 0 < object.2) := by
  induction objects generalizing address with
  | nil => rfl
  | cons object objects ih =>
      obtain ⟨fileId, bytes⟩ := object
      have hrest : ∀ other ∈ objects, ¬ 0 < other.2 →
          (assignmentOf assignments other.1).isOwner = false :=
        fun other hother => h other (List.mem_cons_of_mem _ hother)
      rw [finaliseLayout]
      by_cases hbytes : 0 < bytes
      · rw [List.filter_cons_of_pos (by simpa using hbytes), ih _ hrest,
          List.filter_cons_of_pos (by simpa using hbytes), finaliseLayout]
      · have howner := h _ List.mem_cons_self hbytes
        dsimp only at howner
        obtain rfl : bytes = 0 := Nat.eq_zero_of_not_pos hbytes
        rw [List.filter_cons_of_neg (by simp), ih _ hrest, List.filter_cons_of_neg (by simp), howner]
        rfl

/-- Objects without bytes are in reach of everything. -/
theorem inReach_filter {range : Nat} {placed : List PlacedObject}
    (h : ∀ object ∈ placed, ¬ 0 < object.bytes → object.assignment.isOwner = false) :
    InReach range blockSize (placed.filter fun object => 0 < object.bytes)
      ↔ InReach range blockSize placed := by
  constructor
  · intro hreach object hobject owner howner hisOwner hsame i hi
    have hownerBytes : 0 < owner.bytes := by
      by_contra hbytes
      rw [h owner howner hbytes] at hisOwner
      cases hisOwner
    exact hreach object (List.mem_filter.mpr ⟨hobject, by simpa using Nat.zero_lt_of_lt hi⟩) owner
      (List.mem_filter.mpr ⟨howner, by simpa using hownerBytes⟩) hisOwner hsame i hi
  · intro hreach object hobject owner howner
    exact hreach object (List.mem_filter.mp hobject).1 owner (List.mem_filter.mp howner).1

theorem mem_finaliseLayout {address : Nat} {objects : List (FileId × Nat)} {placed : PlacedObject}
    (h : placed ∈ finaliseLayout blockSize assignments address objects) :
    ∃ object ∈ objects, placed.assignment = assignmentOf assignments object.1 ∧
      placed.bytes = object.2 := by
  induction objects generalizing address with
  | nil => cases h
  | cons object objects ih =>
      rcases List.mem_cons.mp h with rfl | h
      · exact ⟨object, List.mem_cons_self, rfl, rfl⟩
      · obtain ⟨other, hother, hplaced⟩ := ih h
        exact ⟨other, List.mem_cons_of_mem _ hother, hplaced⟩

theorem pairwise_zipIdx {α : Type} (items : List α) :
    items.zipIdx.Pairwise fun a b => a.2 ≠ b.2 := by
  have hnodup : (items.zipIdx.map Prod.snd).Nodup := by
    rw [List.zipIdx_map_snd]
    exact List.nodup_range'
  exact List.pairwise_map.mp hnodup

/-- Objects have different files. -/
theorem objectsOf_nodup (groups : List (List FileLayoutState)) :
    ((objectsOf groups).map Prod.fst).Nodup := by
  unfold objectsOf
  rw [List.map_flatMap, List.nodup_flatMap]
  constructor
  · rintro ⟨files, group⟩ -
    rw [List.map_filterMap]
    refine List.Pairwise.filterMap _ ?_ (pairwise_zipIdx files)
    rintro ⟨file, index⟩ ⟨file', index'⟩ hne id hid id' hid' rfl
    cases file <;> cases file' <;> simp at hid hid'
    rw [← hid] at hid'
    exact hne (FileId.mk.inj hid').2.symm
  · refine (pairwise_zipIdx groups).imp ?_
    rintro ⟨files, group⟩ ⟨files', group'⟩ hne id hid hid'
    obtain ⟨object, hobject, rfl⟩ := List.mem_map.mp hid
    obtain ⟨object', hobject', heq⟩ := List.mem_map.mp hid'
    obtain ⟨⟨file, index⟩, -, hfile⟩ := List.mem_filterMap.mp hobject
    obtain ⟨⟨file', index'⟩, -, hfile'⟩ := List.mem_filterMap.mp hobject'
    cases file <;> cases file' <;> simp at hfile hfile'
    rw [← hfile, ← hfile'] at heq
    exact hne (FileId.mk.inj heq).1.symm

end Filter

/-! ### The blocks of an assignment -/

section Blocks

variable {blockId : ThunkBlockId} {assignment : Assignment}

theorem blockId_of_mem_assignments {segment : Segment}
    (h : assignment ∈ segment.assignments blockId) : assignment.blockId = blockId := by
  rcases List.mem_append.mp h with h | h
  · obtain ⟨object, -, rfl⟩ := List.mem_map.mp h
    rfl
  · rcases List.mem_cons.mp h with rfl | h
    · rfl
    · obtain ⟨object, -, rfl⟩ := List.mem_map.mp h
      rfl

theorem owner_of_mem_assignments {segment : Segment}
    (h : assignment ∈ segment.assignments blockId) (howner : assignment.isOwner = true) :
    assignment = ⟨segment.owner.1, blockId, true⟩ := by
  rcases List.mem_append.mp h with h | h
  · obtain ⟨object, -, rfl⟩ := List.mem_map.mp h
    cases howner
  · rcases List.mem_cons.mp h with rfl | h
    · rfl
    · obtain ⟨object, -, rfl⟩ := List.mem_map.mp h
      cases howner

theorem blockId_of_mem {segments : List Segment}
    (h : assignment ∈ assignmentsFrom blockId segments) :
    blockId ≤ assignment.blockId ∧ assignment.blockId < blockId + segments.length := by
  induction segments generalizing blockId with
  | nil => cases h
  | cons segment segments ih =>
      rw [List.length_cons]
      rcases List.mem_append.mp h with h | h
      · rw [blockId_of_mem_assignments h]
        exact ⟨Nat.le_refl _, Nat.lt_add_of_pos_right (Nat.succ_pos _)⟩
      · obtain ⟨hle, hlt⟩ := ih h
        exact ⟨Nat.le_of_succ_le hle, hlt.trans_eq (Nat.succ_add_eq_add_succ ..)⟩

/-- A block has one owner. -/
theorem existsUnique_owner {segments : List Segment} {block : ThunkBlockId}
    (hle : blockId ≤ block) (hlt : block < blockId + segments.length) :
    ∃! assignment, assignment ∈ assignmentsFrom blockId segments ∧ assignment.blockId = block ∧
      assignment.isOwner = true := by
  induction segments generalizing blockId with
  | nil => exact absurd hlt (Nat.not_lt.mpr hle)
  | cons segment segments ih =>
      rw [List.length_cons] at hlt
      by_cases heq : blockId = block
      · subst heq
        refine ⟨⟨segment.owner.1, blockId, true⟩, ⟨?_, rfl, rfl⟩, ?_⟩
        · exact List.mem_append_left _ (List.mem_append_right _ List.mem_cons_self)
        · rintro other ⟨hmem, hblock, howner⟩
          rcases List.mem_append.mp hmem with hmem | hmem
          · exact owner_of_mem_assignments hmem howner
          · have hlater := (blockId_of_mem hmem).1
            rw [hblock] at hlater
            exact absurd hlater (Nat.not_succ_le_self _)
      · obtain ⟨owner, ⟨hmem, hblock⟩, hunique⟩ := ih (Nat.lt_of_le_of_ne hle heq)
          (hlt.trans_eq (Nat.succ_add_eq_add_succ ..).symm)
        refine ⟨owner, ⟨List.mem_append_right _ hmem, hblock⟩, ?_⟩
        rintro other ⟨hother, hotherBlock⟩
        rcases List.mem_append.mp hother with hother | hother
        · exact absurd ((blockId_of_mem_assignments hother).symm.trans hotherBlock.1) heq
        · exact hunique other ⟨hother, hotherBlock⟩

end Blocks

/-! ### Every byte is in reach of its block -/

section Main

variable {maxBranchRange : Nat} {groups : List (List FileLayoutState)}

/-- The objects that have bytes in the primary part. -/
def primaryObjects (groups : List (List FileLayoutState)) : List (FileId × Nat) :=
  (objectsOf groups).filter fun object => 0 < object.2

theorem mem_primaryObjects {object : FileId × Nat} :
    object ∈ primaryObjects groups ↔ object ∈ objectsOf groups ∧ 0 < object.2 := by
  unfold primaryObjects
  rw [List.mem_filter, decide_eq_true_eq]

theorem primaryObjects_nodup (groups : List (List FileLayoutState)) :
    ((primaryObjects groups).map Prod.fst).Nodup :=
  (objectsOf_nodup groups).sublist (List.filter_sublist.map _)

/-- What the assignments of a link are, apart from their order. -/
theorem assignThunkBlocksToGroups_segments (maxBranchRange initialOffset : Nat)
    (groups : List (List FileLayoutState)) :
    (assignThunkBlocksToGroups maxBranchRange initialOffset groups).1
        = (segmentsOf maxBranchRange (primaryObjects groups)).length ∧
      (assignThunkBlocksToGroups maxBranchRange initialOffset groups).2.Perm
        (assignmentsFrom ThunkBlockId.first (segmentsOf maxBranchRange (primaryObjects groups))) := by
  unfold assignThunkBlocksToGroups
  rw [collectPrimaryRanges_filter]
  exact assignThunkBlocks_segments initialOffset (primaryObjects groups)

theorem assignments_fileId_perm {assignments : List Assignment}
    (hperm : assignments.Perm (assignmentsFrom ThunkBlockId.first
      (segmentsOf maxBranchRange (primaryObjects groups)))) :
    (assignments.map Assignment.fileId).Perm ((primaryObjects groups).map Prod.fst) := by
  have hids := hperm.map Assignment.fileId
  rwa [assignmentsFrom_fileId, segmentsOf_objects] at hids

/-- The layout of objects and blocks is that of the segments, where objects without bytes are left
out. -/
theorem inReach_finaliseLayout {range address : Nat} {blockSize : ThunkBlockId → Nat}
    {assignments : List Assignment}
    (hperm : assignments.Perm (assignmentsFrom ThunkBlockId.first
      (segmentsOf maxBranchRange (primaryObjects groups)))) :
    InReach range blockSize (finaliseLayout blockSize assignments address (objectsOf groups))
      ↔ InReach range blockSize (placeSegments blockSize ThunkBlockId.first address
          (segmentsOf maxBranchRange (primaryObjects groups))) := by
  have hids := assignments_fileId_perm hperm
  have hnodup : (assignments.map Assignment.fileId).Nodup :=
    hids.nodup_iff.mpr (primaryObjects_nodup groups)
  have hnotOwner : ∀ object ∈ objectsOf groups, ¬ 0 < object.2 →
      (assignmentOf assignments object.1).isOwner = false := by
    intro object hobject hbytes
    have hnone : assignments.reverse.find? (fun assignment => assignment.fileId = object.1)
        = none := by
      refine List.find?_eq_none.mpr fun assignment hassignment => ?_
      rw [decide_eq_true_eq]
      intro hfile
      have hmem : object.1 ∈ (primaryObjects groups).map Prod.fst := hids.mem_iff.mp
        (List.mem_map.mpr ⟨assignment, List.mem_reverse.mp hassignment, hfile⟩)
      obtain ⟨other, hother, heq⟩ := List.mem_map.mp hmem
      obtain ⟨hother, hpositive⟩ := mem_primaryObjects.mp hother
      rw [List.inj_on_of_nodup_map (objectsOf_nodup groups) hother hobject heq] at hpositive
      exact hbytes hpositive
    unfold assignmentOf
    rw [hnone]
    rfl
  have hplaced : ∀ placed ∈ finaliseLayout blockSize assignments address (objectsOf groups),
      ¬ 0 < placed.bytes → placed.assignment.isOwner = false := by
    intro placed hplaced hbytes
    obtain ⟨object, hobject, hassignment, heq⟩ := mem_finaliseLayout hplaced
    rw [hassignment]
    exact hnotOwner object hobject (heq ▸ hbytes)
  have hsegments : finaliseLayout blockSize assignments address (primaryObjects groups)
      = placeSegments blockSize ThunkBlockId.first address
          (segmentsOf maxBranchRange (primaryObjects groups)) := by
    have hagree : ∀ assignment ∈ assignmentsFrom ThunkBlockId.first
        (segmentsOf maxBranchRange (primaryObjects groups)),
        assignmentOf assignments assignment.fileId = assignment :=
      fun assignment hmem => assignmentOf_eq (hperm.mem_iff.mpr hmem) hnodup
    rw [← finaliseLayout_segments address _ hagree, segmentsOf_objects]
  rw [← inReach_filter hplaced, finaliseLayout_filter address _ hnotOwner, ← hsegments]
  rfl

/-- Where every byte is in reach of the largest blocks, no owner comes too late. -/
theorem ownersFit_of_reachable {initialOffset : Nat}
    (h : Reachable maxBranchRange groups
      (assignThunkBlocksToGroups maxBranchRange initialOffset groups).1
      (assignThunkBlocksToGroups maxBranchRange initialOffset groups).2) :
    ownersFit maxBranchRange ((primaryObjects groups).map Prod.snd) = true := by
  obtain ⟨-, hperm⟩ := assignThunkBlocksToGroups_segments maxBranchRange initialOffset groups
  have hreach := h.inReach (fun _ => maximumThunkBytesPerBlock) 0 fun _ => Nat.le_refl _
  rw [inReach_finaliseLayout hperm] at hreach
  refine (segmentsOf_bytesBefore _).mp (bytesBefore_le_of_mem ?_ (fun _ => rfl) hreach)
  rw [segmentsOf_objects]
  exact fun object hobject => (mem_primaryObjects.mp hobject).2

theorem reachable_of_ownersFit {initialOffset : Nat}
    (h : ownersFit maxBranchRange ((primaryObjects groups).map Prod.snd) = true) :
    Reachable maxBranchRange groups
      (assignThunkBlocksToGroups maxBranchRange initialOffset groups).1
      (assignThunkBlocksToGroups maxBranchRange initialOffset groups).2 := by
  obtain ⟨hcount, hperm⟩ := assignThunkBlocksToGroups_segments maxBranchRange initialOffset groups
  generalize assignThunkBlocksToGroups maxBranchRange initialOffset groups = assigned at hcount hperm ⊢
  have hids := assignments_fileId_perm hperm
  have hnodup : (assigned.2.map Assignment.fileId).Nodup :=
    hids.nodup_iff.mpr (primaryObjects_nodup groups)
  refine ⟨?_, hnodup, ?_, ?_, ?_⟩
  · intro object hobject hbytes
    have hmem : object.1 ∈ assigned.2.map Assignment.fileId := hids.mem_iff.mpr
      (List.mem_map.mpr ⟨object, mem_primaryObjects.mpr ⟨hobject, hbytes⟩, rfl⟩)
    obtain ⟨assignment, hassignment, hfile⟩ := List.mem_map.mp hmem
    refine ⟨assignment, ⟨hassignment, hfile⟩, ?_⟩
    rintro other ⟨hother, hotherFile⟩
    exact List.inj_on_of_nodup_map hnodup hother hassignment (hotherFile.trans hfile.symm)
  · intro blockId hlt
    rw [hcount] at hlt
    simp only [hperm.mem_iff]
    exact existsUnique_owner (Nat.zero_le _) (by rwa [ThunkBlockId.first, Nat.zero_add])
  · intro assignment hassignment
    rw [hcount]
    have hlt := (blockId_of_mem (hperm.mem_iff.mp hassignment)).2
    rwa [ThunkBlockId.first, Nat.zero_add] at hlt
  · intro blockSize address hblock
    rw [inReach_finaliseLayout hperm]
    exact inReach_placeSegments hblock fun segment hsegment =>
      ⟨(segmentsOf_bytesBefore _).mpr h segment hsegment, segmentsOf_after _ segment hsegment⟩

/-- Four bytes, and two objects of the whole range. The second object waits for a block, and the third
one owns it, so that the start of the second is twice the range away from the block. -/
def lateOwner : List (List FileLayoutState) :=
  [[.object 4, .object 132120576, .object 132120576]]

end Main

end JdxLinker.Thunks
