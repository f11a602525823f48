import Mathlib

/-!
# Thunk blocks

Thunks extend the range of branches. Objects with bytes in the primary function part share blocks of
thunks, each placed at the end of the object that owns it. The loop over the objects alternates
between the block before them, and a block after them whose place is not yet decided.
-/

namespace JdxLinker.Thunks

structure FileId where
  group : Nat
  file : Nat
  deriving Repr, DecidableEq

abbrev ThunkBlockId := Nat

/-- The first block. Its owner is the first object. -/
def ThunkBlockId.first : ThunkBlockId := 0

def maximumThunkBytesPerBlock : Nat := 2 * 1024 * 1024

/-- What is known of a file once its sections have been loaded. -/
inductive FileLayoutState where
  | object (postGcPrimaryBytes : Nat)
  | other
  deriving Repr, DecidableEq

/-- The objects of all groups in the order of their layout, with their bytes in the primary part. -/
def objectsOf (groups : List (List FileLayoutState)) : List (FileId × Nat) :=
  groups.zipIdx.flatMap fun group =>
    group.1.zipIdx.filterMap fun file =>
      match file.1 with
      | .object postGcPrimaryBytes => some (⟨group.2, file.2⟩, postGcPrimaryBytes)
      | .other => none

/-- Where an object begins and ends in the primary part, before there are thunks. -/
structure PrimaryRange where
  fileId : FileId
  start : Nat
  stop : Nat
  deriving Repr, DecidableEq

def collectPrimaryRanges : Nat → List (FileId × Nat) → List PrimaryRange
  | _, [] => []
  | offset, (fileId, postGcPrimaryBytes) :: objects =>
    ⟨fileId, offset, offset + postGcPrimaryBytes⟩
      :: collectPrimaryRanges (offset + postGcPrimaryBytes) objects

/-- A call that assigns an object to a block. -/
structure Assignment where
  fileId : FileId
  blockId : ThunkBlockId
  isOwner : Bool
  deriving Repr, DecidableEq

/-- Whether objects are assigned to the block before them, which ends the object at the position, or
to a block that has not been placed. -/
inductive Mode where
  | previous (blockId : ThunkBlockId) (blockPos : Nat)
  | next (blockId : ThunkBlockId) (firstFileId : FileId) (firstObjectStart : Nat)
  deriving Repr, DecidableEq

/-- The rest of the loop: the number of blocks, and the assignments in the order they are made. -/
def assignRest (maxBranchRange numBlocks : Nat) : Mode → List PrimaryRange → Nat × List Assignment
  | .previous _ _, [] => (numBlocks, [])
  -- a block that was never placed is owned by the first object that uses it
  | .next nextId firstFileId _, [] => (numBlocks, [⟨firstFileId, nextId, true⟩])
  | .next nextId firstFileId firstObjectStart, object :: objects =>
    if object.stop - firstObjectStart ≥ maxBranchRange then
      -- the block is placed on this object
      let rest := assignRest maxBranchRange numBlocks (.previous nextId object.stop) objects
      (rest.1, ⟨firstFileId, nextId, false⟩ :: ⟨object.fileId, nextId, true⟩ :: rest.2)
    else
      let rest := assignRest maxBranchRange numBlocks
        (.next nextId firstFileId firstObjectStart) objects
      (rest.1, ⟨object.fileId, nextId, false⟩ :: rest.2)
  | .previous blockId blockPos, object :: objects =>
    if object.stop - blockPos ≥ maxBranchRange then
      assignRest maxBranchRange (numBlocks + 1) (.next numBlocks object.fileId object.start) objects
    else
      let rest := assignRest maxBranchRange numBlocks (.previous blockId blockPos) objects
      (rest.1, ⟨object.fileId, blockId, false⟩ :: rest.2)

def assignThunkBlocks (maxBranchRange : Nat) : List PrimaryRange → Nat × List Assignment
  | [] => (0, [])
  | first :: objects =>
    let rest := assignRest maxBranchRange 1 (.previous ThunkBlockId.first first.stop) objects
    (rest.1, ⟨first.fileId, ThunkBlockId.first, true⟩ :: rest.2)

/-- The ranges that are not empty are assigned to blocks. -/
def assignThunkBlocksToGroups (maxBranchRange initialOffset : Nat)
    (groups : List (List FileLayoutState)) : Nat × List Assignment :=
  assignThunkBlocks maxBranchRange
    ((collectPrimaryRanges initialOffset (objectsOf groups)).filter fun range =>
      range.start < range.stop)

/-- What the assignments leave of an object: the last block it was assigned to, and whether it owns
it. -/
def assignmentOf (assignments : List Assignment) (fileId : FileId) : Assignment :=
  (assignments.reverse.find? fun assignment => assignment.fileId = fileId).getD
    ⟨fileId, ThunkBlockId.first, false⟩

/-! ### The layout -/

/-- An object in the primary part, and where its block begins if it owns one. -/
structure PlacedObject where
  assignment : Assignment
  address : Nat
  bytes : Nat
  deriving Repr, DecidableEq

/-- The address after the bytes of an object, where its block is. -/
def PlacedObject.blockAddress (placed : PlacedObject) : Nat := placed.address + placed.bytes

/-- Addresses in the primary part: an object is followed by its block. -/
def finaliseLayout (blockSize : ThunkBlockId → Nat) (assignments : List Assignment) :
    Nat → List (FileId × Nat) → List PlacedObject
  | _, [] => []
  | address, (fileId, bytes) :: objects =>
    let assignment := assignmentOf assignments fileId
    let next := address + bytes + if assignment.isOwner then blockSize assignment.blockId else 0
    ⟨assignment, address, bytes⟩ :: finaliseLayout blockSize assignments next objects

/-! ### What the assignment is for -/

/-- Every byte of every object is less than `range` away from every byte of its block. -/
def InReach (range : Nat) (blockSize : ThunkBlockId → Nat) (placed : List PlacedObject) : Prop :=
  ∀ object ∈ placed, ∀ owner ∈ placed, owner.assignment.isOwner = true →
    owner.assignment.blockId = object.assignment.blockId →
    ∀ i < object.bytes, ∀ j < blockSize object.assignment.blockId,
      object.address + i < owner.blockAddress + j + range ∧
        owner.blockAddress + j < object.address + i + range

/-- Objects with primary bytes are assigned to one block each, blocks have one owner each, and the
branches of the objects, whose range allows for the largest block, reach the blocks. -/
structure Reachable (maxBranchRange : Nat) (groups : List (List FileLayoutState))
    (numBlocks : Nat) (assignments : List Assignment) : Prop where
  assigned : ∀ object ∈ objectsOf groups, 0 < object.2 →
    ∃! assignment, assignment ∈ assignments ∧ assignment.fileId = object.1
  once : (assignments.map Assignment.fileId).Nodup
  owned : ∀ blockId < numBlocks,
    ∃! assignment, assignment ∈ assignments ∧ assignment.blockId = blockId ∧
      assignment.isOwner = true
  exists_block : ∀ assignment ∈ assignments, assignment.blockId < numBlocks
  inReach : ∀ (blockSize : ThunkBlockId → Nat) (address : Nat),
    (∀ blockId, blockSize blockId ≤ maximumThunkBytesPerBlock) →
    InReach (maxBranchRange + maximumThunkBytesPerBlock) blockSize
      (finaliseLayout blockSize assignments address (objectsOf groups))

end JdxLinker.Thunks

/-!
## The segments of the primary part

The objects of a block are consecutive: some before its owner, the owner, and some after it. The loop
over the objects splits them into such segments.
-/

namespace JdxLinker.Thunks

/-- The bytes of some objects. -/
def bytesOf (objects : List (FileId × Nat)) : Nat := (objects.map Prod.snd).sum

section Bytes

variable (object : FileId × Nat) (objects objects' : List (FileId × Nat))

@[simp] theorem bytesOf_nil : bytesOf [] = 0 := rfl

@[simp] theorem bytesOf_cons : bytesOf (object :: objects) = object.2 + bytesOf objects := rfl

@[simp] theorem bytesOf_append : bytesOf (objects ++ objects') = bytesOf objects + bytesOf objects' := by
  unfold bytesOf
  rw [List.map_append, List.sum_append]

end Bytes

/-- The objects of a block. -/
structure Segment where
  before : List (FileId × Nat)
  owner : FileId × Nat
  after : List (FileId × Nat)
  deriving Repr, DecidableEq

namespace Segment

def objects (segment : Segment) : List (FileId × Nat) :=
  segment.before ++ segment.owner :: segment.after

/-- The bytes up to the block. -/
def bytesBefore (segment : Segment) : Nat := bytesOf segment.before + segment.owner.2

def assignments (blockId : ThunkBlockId) (segment : Segment) : List Assignment :=
  segment.before.map (fun object => ⟨object.1, blockId, false⟩)
    ++ ⟨segment.owner.1, blockId, true⟩
      :: segment.after.map (fun object => ⟨object.1, blockId, false⟩)

theorem assignments_fileId (blockId : ThunkBlockId) (segment : Segment) :
    (segment.assignments blockId).map Assignment.fileId = segment.objects.map Prod.fst := by
  unfold assignments objects
  simp only [List.map_append, List.map_cons, List.map_map]
  rfl

end Segment

/-- The last segment, as far as the loop has come: its block has been placed or not. -/
inductive OpenSegment where
  | previous (segment : Segment)
  | next (first : FileId × Nat) (others : List (FileId × Nat))
  deriving Repr, DecidableEq

namespace OpenSegment

def objects : OpenSegment → List (FileId × Nat)
  | previous segment => segment.objects
  | next first others => first :: others

/-- The assignments that were made. That of the first object waits for its block. -/
def assignments (blockId : ThunkBlockId) : OpenSegment → List Assignment
  | previous segment => segment.assignments blockId
  | next _ others => others.map fun object => ⟨object.1, blockId, false⟩

/-- The mode of the loop at a position. -/
inductive At (blockId : ThunkBlockId) : OpenSegment → Nat → Mode → Prop where
  | previous {segment : Segment} {blockPos position : Nat}
      (h : position = blockPos + bytesOf segment.after) :
      At blockId (previous segment) position (.previous blockId blockPos)
  | next {first : FileId × Nat} {others : List (FileId × Nat)} {start position : Nat}
      (h : position = start + bytesOf (first :: others)) :
      At blockId (next first others) position (.next blockId first.1 start)

end OpenSegment

/-- The segments of the rest of the objects. -/
def segmentsFrom (maxBranchRange : Nat) : OpenSegment → List (FileId × Nat) → List Segment
  | .previous segment, [] => [segment]
  | .next first others, [] => [⟨[], first, others⟩]
  | .next first others, object :: objects =>
    if bytesOf (first :: others) + object.2 ≥ maxBranchRange then
      segmentsFrom maxBranchRange (.previous ⟨first :: others, object, []⟩) objects
    else segmentsFrom maxBranchRange (.next first (others ++ [object])) objects
  | .previous segment, object :: objects =>
    if bytesOf segment.after + object.2 ≥ maxBranchRange then
      segment :: segmentsFrom maxBranchRange (.next object []) objects
    else
      segmentsFrom maxBranchRange (.previous { segment with after := segment.after ++ [object] })
        objects

def segmentsOf (maxBranchRange : Nat) : List (FileId × Nat) → List Segment
  | [] => []
  | first :: objects => segmentsFrom maxBranchRange (.previous ⟨[], first, []⟩) objects

/-- The assignments of segments that are numbered from `blockId`. -/
def assignmentsFrom : ThunkBlockId → List Segment → List Assignment
  | _, [] => []
  | blockId, segment :: segments =>
    segment.assignments blockId ++ assignmentsFrom (blockId + 1) segments

section Split

variable {maxBranchRange : Nat} {blockId : ThunkBlockId}

theorem segmentsFrom_objects (segment : OpenSegment) (objects : List (FileId × Nat)) :
    (segmentsFrom maxBranchRange segment objects).flatMap Segment.objects
      = segment.objects ++ objects := by
  induction objects generalizing segment with
  | nil =>
      cases segment <;> simp [segmentsFrom, Segment.objects, OpenSegment.objects]
  | cons object objects ih =>
      cases segment with
      | previous segment =>
          unfold segmentsFrom
          split
          · rw [List.flatMap_cons, ih]
            rfl
          · rw [ih]
            simp [OpenSegment.objects, Segment.objects]
      | next first others =>
          unfold segmentsFrom
          split <;> rw [ih] <;> simp [OpenSegment.objects, Segment.objects]

theorem segmentsOf_objects (objects : List (FileId × Nat)) :
    (segmentsOf maxBranchRange objects).flatMap Segment.objects = objects := by
  cases objects with
  | nil => rfl
  | cons first objects => exact segmentsFrom_objects _ _

theorem assignmentsFrom_fileId (blockId : ThunkBlockId) (segments : List Segment) :
    (assignmentsFrom blockId segments).map Assignment.fileId
      = (segments.flatMap Segment.objects).map Prod.fst := by
  induction segments generalizing blockId with
  | nil => rfl
  | cons segment segments ih =>
      rw [assignmentsFrom, List.map_append, List.flatMap_cons, List.map_append, ih,
        Segment.assignments_fileId]

/-- The loop makes the assignments of the segments, though not in their order. -/
theorem assignRest_segments {segment : OpenSegment} {mode : Mode} {position : Nat}
    (objects : List (FileId × Nat)) (h : segment.At blockId position mode) :
    (assignRest maxBranchRange (blockId + 1) mode (collectPrimaryRanges position objects)).1
        = blockId + (segmentsFrom maxBranchRange segment objects).length ∧
      (segment.assignments blockId ++ (assignRest maxBranchRange (blockId + 1) mode
        (collectPrimaryRanges position objects)).2).Perm
        (assignmentsFrom blockId (segmentsFrom maxBranchRange segment objects)) := by
  induction objects generalizing segment mode position blockId with
  | nil =>
      cases h with
      | previous h =>
          refine ⟨rfl, List.Perm.of_eq ?_⟩
          simp [collectPrimaryRanges, assignRest, segmentsFrom, assignmentsFrom,
            OpenSegment.assignments]
      | next h =>
          refine ⟨rfl, ?_⟩
          simp only [collectPrimaryRanges, assignRest, segmentsFrom, assignmentsFrom,
            OpenSegment.assignments, Segment.assignments, List.map_nil, List.nil_append,
            List.append_nil]
          exact List.perm_append_singleton ..
  | cons object objects ih =>
      obtain ⟨fileId, bytes⟩ := object
      cases h with
      | @previous segment blockPos _ h =>
          have hbytes : position + bytes - blockPos = bytesOf segment.after + bytes := by omega
          unfold collectPrimaryRanges assignRest segmentsFrom
          dsimp only
          rw [hbytes]
          split
          · have hat : OpenSegment.At (blockId + 1) (.next (fileId, bytes) []) (position + bytes)
                (.next (blockId + 1) fileId position) := .next rfl
            obtain ⟨hcount, hperm⟩ := ih hat
            refine ⟨by rw [hcount, List.length_cons]; omega, ?_⟩
            exact List.Perm.append_left _ hperm
          · have hat : OpenSegment.At blockId
                (.previous { segment with after := segment.after ++ [(fileId, bytes)] })
                (position + bytes) (.previous blockId blockPos) := .previous (by simp; omega)
            obtain ⟨hcount, hperm⟩ := ih hat
            refine ⟨hcount, List.Perm.trans (List.Perm.of_eq ?_) hperm⟩
            simp [OpenSegment.assignments, Segment.assignments]
      | @next first others start _ h =>
          have hbytes : position + bytes - start = bytesOf (first :: others) + bytes := by omega
          unfold collectPrimaryRanges assignRest segmentsFrom
          dsimp only
          rw [hbytes]
          split
          · have hat : OpenSegment.At blockId (.previous ⟨first :: others, (fileId, bytes), []⟩)
                (position + bytes) (.previous blockId (position + bytes)) := .previous rfl
            obtain ⟨hcount, hperm⟩ := ih hat
            refine ⟨hcount, List.Perm.trans ?_ hperm⟩
            simp only [OpenSegment.assignments, Segment.assignments, List.map_cons, List.map_nil,
              List.cons_append, List.append_assoc, List.nil_append]
            exact List.perm_middle
          · have hat : OpenSegment.At blockId (.next first (others ++ [(fileId, bytes)]))
                (position + bytes) (.next blockId first.1 start) := .next (by simp at h ⊢; omega)
            obtain ⟨hcount, hperm⟩ := ih hat
            refine ⟨hcount, List.Perm.trans (List.Perm.of_eq ?_) hperm⟩
            simp [OpenSegment.assignments]

theorem assignThunkBlocks_segments (offset : Nat) (objects : List (FileId × Nat)) :
    (assignThunkBlocks maxBranchRange (collectPrimaryRanges offset objects)).1
        = (segmentsOf maxBranchRange objects).length ∧
      (assignThunkBlocks maxBranchRange (collectPrimaryRanges offset objects)).2.Perm
        (assignmentsFrom ThunkBlockId.first (segmentsOf maxBranchRange objects)) := by
  cases objects with
  | nil => exact ⟨rfl, List.Perm.refl _⟩
  | cons first objects =>
      have hat : OpenSegment.At ThunkBlockId.first (.previous ⟨[], first, []⟩) (offset + first.2)
          (.previous ThunkBlockId.first (offset + first.2)) := .previous rfl
      obtain ⟨hcount, hperm⟩ := assignRest_segments objects hat
      exact ⟨hcount.trans (Nat.zero_add _), hperm⟩

end Split

end JdxLinker.Thunks
