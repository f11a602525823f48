import JdxLinker.Lib.TaskSystem
import JdxLinker.StringMerge.Bucket

/-!
# Scheduling the merge

Group tasks split the input and leave the strings of each bucket in the slot of their group and
bucket. Every bucket walks over the groups in order: it takes the strings out of the slot, or parks
itself there until the group task comes by. Group tasks are started whenever sixteen buffers of the
pool are free. Each access to the shared state is one action of a task.
-/

namespace JdxLinker

/-- The vectors for strings that are reused. `available` counts those not reserved, whether or not
they have been allocated yet. -/
structure ReusePool where
  capacity : Nat
  stringVecs : Nat
  available : Nat
  deriving DecidableEq, Repr

/-- A fresh pool. A queue of capacity zero panics. -/
def ReusePool.new (capacity : Nat) : Option ReusePool :=
  if capacity = 0 then none else some ⟨capacity, 0, capacity⟩

/-- The pool of the whole merge: as many vectors as there are buckets for each group that may be
split at a time. -/
def mergeStringsPool (splitParallelism : Nat) : Option ReusePool :=
  ReusePool.new (mergeStringBuckets * splitParallelism)

/-- A pool between two sections: everything has been given back. -/
structure ReusePool.Idle (pool : ReusePool) : Prop where
  available : pool.available = pool.capacity
  stringVecs : pool.stringVecs ≤ pool.capacity

/-- The pool as one output section after another finds it. -/
structure ReusePool.Shared (splitParallelism : Nat) (pool : ReusePool) : Prop where
  created : ∃ fresh, mergeStringsPool splitParallelism = some fresh
    ∧ pool.capacity = fresh.capacity
  idle : pool.Idle

inductive StringsSlot where
  | empty
  | waitingForStrings (bucket : MergeStringsSectionBucket)
  | strings (stringsToMerge : List StringToMerge)
  deriving DecidableEq, Repr

def stringBucketOffset (input bucket : Nat) : Nat := input * mergeStringBuckets + bucket

/-- The state that the tasks share. `offsetStores` are the stores of output offsets so far. -/
structure SplitResources (M : OffsetMap) where
  numInputGroups : Nat
  unprocessed : List SectionGroup
  finishedShards : List (Option M.Shard)
  stringsByBucketAndGroup : List StringsSlot
  finishedBuckets : List MergeStringsSectionBucket
  offsetStores : List OffsetStore
  errors : Option String
  reusePool : ReusePool
  panicked : Bool

/-- Where a task is. A task inside `try_spawn_input_processing` remembers the bucket whose loop
called it, if any. -/
inductive Task (M : OffsetMap) where
  | load (caller : Option MergeStringsSectionBucket)
  | exchange (caller : Option MergeStringsSectionBucket) (available : Nat)
  | popGroup
  | takeVecs (group : SectionGroup) (reservation : Nat)
  | split (group : SectionGroup)
  | storeShard (group : SectionGroup) (st : SplitState M)
  | swapSlots (group : Nat) (bucket : Nat) (buckets : StringBuckets)
  | unreserve (reservation : Nat)
  | work (bucket : MergeStringsSectionBucket)
  | process (bucket : MergeStringsSectionBucket) (stringsToMerge : List StringToMerge)
  | returnVec (bucket : MergeStringsSectionBucket)
  | countVec (bucket : MergeStringsSectionBucket)

/-- A bucket has merged the strings of a group. -/
structure Merged where
  bucket : Nat
  group : Nat
  deriving DecidableEq, Repr

variable (M : OffsetMap) (hashBytes : Bytes → Nat)

/-- Nothing but the first error is kept. -/
def SplitResources.pushError {M : OffsetMap} (s : SplitResources M) (error : String) :
    SplitResources M :=
  { s with errors := some (s.errors.getD error) }

def SplitResources.swapStringsSlot {M : OffsetMap} (s : SplitResources M) (input bucket : Nat)
    (slot : StringsSlot) : SplitResources M :=
  { s with stringsByBucketAndGroup :=
      s.stringsByBucketAndGroup.set (stringBucketOffset input bucket) slot }

section SwapStringsSlot

variable {M : OffsetMap}

@[simp] theorem swapStringsSlot_numInputGroups (s : SplitResources M) (input bucket : Nat)
    (slot : StringsSlot) : (s.swapStringsSlot input bucket slot).numInputGroups = s.numInputGroups := rfl

@[simp] theorem swapStringsSlot_unprocessed (s : SplitResources M) (input bucket : Nat)
    (slot : StringsSlot) : (s.swapStringsSlot input bucket slot).unprocessed = s.unprocessed := rfl

@[simp] theorem swapStringsSlot_finishedShards (s : SplitResources M) (input bucket : Nat)
    (slot : StringsSlot) : (s.swapStringsSlot input bucket slot).finishedShards = s.finishedShards := rfl

@[simp] theorem swapStringsSlot_finishedBuckets (s : SplitResources M) (input bucket : Nat)
    (slot : StringsSlot) : (s.swapStringsSlot input bucket slot).finishedBuckets = s.finishedBuckets := rfl

@[simp] theorem swapStringsSlot_offsetStores (s : SplitResources M) (input bucket : Nat)
    (slot : StringsSlot) : (s.swapStringsSlot input bucket slot).offsetStores = s.offsetStores := rfl

@[simp] theorem swapStringsSlot_errors (s : SplitResources M) (input bucket : Nat)
    (slot : StringsSlot) : (s.swapStringsSlot input bucket slot).errors = s.errors := rfl

@[simp] theorem swapStringsSlot_reusePool (s : SplitResources M) (input bucket : Nat)
    (slot : StringsSlot) : (s.swapStringsSlot input bucket slot).reusePool = s.reusePool := rfl

@[simp] theorem swapStringsSlot_panicked (s : SplitResources M) (input bucket : Nat)
    (slot : StringsSlot) : (s.swapStringsSlot input bucket slot).panicked = s.panicked := rfl

end SwapStringsSlot

abbrev SplitEffect := Effect (SplitResources M) (Task M) Merged

/-- The task dies, and the whole link with it. -/
def panic {M : OffsetMap} (s : SplitResources M) : SplitEffect M :=
  ⟨{ s with panicked := true }, [], []⟩

/-- The bucket ready for its next group. -/
def MergeStringsSectionBucket.advance (bucket : MergeStringsSectionBucket) :
    MergeStringsSectionBucket :=
  { bucket with nextInputGroupIndex := bucket.nextInputGroupIndex + 1 }

/-- What follows `try_spawn_input_processing`: the main thread waits for the others, a bucket goes
on to the next group. -/
def afterSpawning {M : OffsetMap} : Option MergeStringsSectionBucket → List (Task M)
  | none => []
  | some bucket => [.work bucket.advance]

/-- One pass through the loop of `work_with_bucket`, up to the release of the slot. -/
def workWithBucket {M : OffsetMap} (s : SplitResources M) (bucket : MergeStringsSectionBucket) :
    SplitEffect M :=
  let groupIndex := bucket.nextInputGroupIndex
  if groupIndex < s.numInputGroups then
    match s.stringsByBucketAndGroup[stringBucketOffset groupIndex bucket.index]? with
    | some (.strings strings) =>
        ⟨s.swapStringsSlot groupIndex bucket.index .empty, [.process bucket strings], []⟩
    | some _ =>
        ⟨s.swapStringsSlot groupIndex bucket.index (.waitingForStrings bucket), [], []⟩
    | none => panic s
  else if s.finishedBuckets.length < mergeStringBuckets then
    ⟨{ s with finishedBuckets := s.finishedBuckets ++ [bucket] }, [], []⟩
  else
    ⟨s, [], []⟩

/-- The next slot that a group task fills, and the bucket it wakes. -/
def fillSlot {M : OffsetMap} (s : SplitResources M) (group bucket : Nat)
    (buckets : StringBuckets) : SplitEffect M :=
  if h : bucket < mergeStringBuckets then
    let next : Task M := .swapSlots group (bucket + 1) buckets
    let s' := s.swapStringsSlot group bucket (.strings (buckets ⟨bucket, h⟩))
    match s.stringsByBucketAndGroup[stringBucketOffset group bucket]? with
    | some (.waitingForStrings waiting) => ⟨s', [next, .work waiting], []⟩
    | some _ => ⟨s', [next], []⟩
    | none => panic s
  else
    ⟨s, [.unreserve 0], []⟩

/-- One action of a task. -/
def act : Task M → SplitResources M → SplitEffect M
  | .load caller, s =>
      if s.reusePool.available < mergeStringBuckets then
        ⟨s, afterSpawning caller, []⟩
      else
        ⟨s, [.exchange caller s.reusePool.available], []⟩
  | .exchange caller available, s =>
      if s.reusePool.available = available then
        ⟨{ s with reusePool.available := available - mergeStringBuckets },
          [.popGroup, .load caller], []⟩
      else
        ⟨s, afterSpawning caller, []⟩
  | .popGroup, s =>
      match s.unprocessed with
      | [] => ⟨s, [.unreserve mergeStringBuckets], []⟩
      | group :: unprocessed =>
          ⟨{ s with unprocessed }, [.takeVecs group mergeStringBuckets], []⟩
  | .takeVecs group reservation, s =>
      -- One vector for each bucket: the reservation is used up when the array is full.
      match reservation with
      | 0 => ⟨s, [.split group], []⟩
      | reservation + 1 =>
          ⟨{ s with reusePool.stringVecs := s.reusePool.stringVecs - 1 },
            [.takeVecs group reservation], []⟩
  | .split group, s =>
      match splitGroup M hashBytes group with
      | .error error => ⟨s.pushError error, [.unreserve 0], []⟩
      | .ok st => ⟨s, [.storeShard group st], []⟩
  | .storeShard group st, s =>
      if group.index < s.finishedShards.length then
        ⟨{ s with finishedShards := s.finishedShards.set group.index (some st.shard) },
          [.swapSlots group.index 0 st.buckets], []⟩
      else
        panic s
  | .swapSlots group bucket buckets, s => fillSlot s group bucket buckets
  | .unreserve reservation, s =>
      ⟨{ s with reusePool.available := s.reusePool.available + reservation }, [], []⟩
  | .work bucket, s => workWithBucket s bucket
  | .process bucket stringsToMerge, s =>
      match bucket.processSplitOutput stringsToMerge with
      | .error error => ⟨s.pushError error, [], []⟩
      | .ok (bucket', stores) =>
          ⟨{ s with offsetStores := s.offsetStores ++ stores }, [.returnVec bucket'],
            [⟨bucket.index, bucket.nextInputGroupIndex⟩]⟩
  | .returnVec bucket, s =>
      if s.reusePool.stringVecs < s.reusePool.capacity then
        ⟨{ s with reusePool.stringVecs := s.reusePool.stringVecs + 1 }, [.countVec bucket], []⟩
      else
        panic s
  | .countVec bucket, s =>
      ⟨{ s with reusePool.available := s.reusePool.available + 1 }, [.load (some bucket)], []⟩

/-- The slots after the first `k` buckets have been put in theirs. -/
def waitingSlots (numGroups k : Nat) : List StringsSlot :=
  (List.range k).foldl
    (fun slots i => slots.set (stringBucketOffset 0 i)
      (.waitingForStrings (MergeStringsSectionBucket.new i)))
    (List.replicate (numGroups * mergeStringBuckets) .empty)

/-- The state before any task runs: the buckets wait for the first group. -/
def initialResources (groups : List SectionGroup) (reusePool : ReusePool) : SplitResources M where
  numInputGroups := groups.length
  unprocessed := groups
  finishedShards := List.replicate groups.length none
  stringsByBucketAndGroup := waitingSlots groups.length mergeStringBuckets
  finishedBuckets := []
  offsetStores := []
  errors := none
  reusePool
  panicked := false

/-- Queues of capacity zero panic, so there is nothing to start without groups. -/
def createSplitResources (groups : List SectionGroup) (reusePool : ReusePool) :
    Option (SplitResources M) :=
  if groups = [] then none else some (initialResources M groups reusePool)

/-- The runs of the merge of one output section. The main thread starts the group tasks. -/
def ScheduleRun (s₀ : SplitResources M) (trace : List Merged)
    (c : Config (SplitResources M) (Task M)) : Prop :=
  TaskSystem.Run (act M hashBytes) ⟨s₀, {.load none}⟩ trace c

end JdxLinker

/-!
## The merged section

After the tasks have ended the buckets are put in order, the offsets that did not fit in the offset
map go to a hash map, and the shards go back to the offset map. Relocations are then resolved by
looking up the string that an input offset points into.
-/

namespace JdxLinker

structure MergedStringsSection (M : OffsetMap) where
  buckets : List MergeStringsSectionBucket
  bucketOffsets : List Nat
  stringOffsets : List M.Shard
  overflowedStringOffsets : List (Nat × BucketOffset)

variable {M : OffsetMap}

def OffsetMap.covers (M : OffsetMap) (shard : M.Shard) (k : Nat) : Bool :=
  M.base shard ≤ k && k < M.base shard + M.len shard

/-- A store through a reference that this shard, or another one, returned. -/
def storeInShard (shard : M.Shard) (store : OffsetStore) : M.Shard :=
  match store.out with
  | .inShard k => if M.covers shard k then M.store shard k store.output else shard
  | .overflow _ => shard

/-- The hash map of overflowed offsets after one more insert. -/
def insertOverflow (map : List (Nat × BucketOffset)) (store : OffsetStore) :
    List (Nat × BucketOffset) :=
  match store.out with
  | .inShard _ => map
  | .overflow k => (k, store.output) :: map

/-- The starting offset of each bucket. -/
def bucketOffset (buckets : List MergeStringsSectionBucket) : Nat → Nat
  | 0 => 0
  | i + 1 => bucketOffset buckets i + (buckets[i]?.map (·.nextOffset)).getD 0

/-- What `add_input_sections` makes of the state once all tasks have ended. -/
def addInputSections (s : SplitResources M) : Except String (MergedStringsSection M) :=
  match s.errors with
  | some error => .error error
  | none =>
      let buckets := s.finishedBuckets.mergeSort fun a b => a.index ≤ b.index
      .ok
        { buckets
          bucketOffsets := (List.range mergeStringBuckets).map (bucketOffset buckets)
          stringOffsets := (s.finishedShards.filterMap id).map fun shard =>
            s.offsetStores.foldl storeInShard shard
          overflowedStringOffsets := s.offsetStores.foldl insertOverflow [] }

namespace MergedStringsSection

variable (section_ : MergedStringsSection M)

/-- The output offset of the string that starts at a linear input offset. -/
def stringOffset (linearInputOffset : Nat) : Option BucketOffset :=
  ((section_.stringOffsets.find? (M.covers · linearInputOffset)).bind
    (M.get · linearInputOffset)).or
      (section_.overflowedStringOffsets.lookup linearInputOffset)

/-- Looks for the string at `inputOffset` in the section that starts at `startInputOffset`, and
backwards from there if no string starts at that offset. -/
def findString (startInputOffset inputOffset : Nat) : Except String BucketOffset :=
  let linearInputOffset := startInputOffset + inputOffset
  match section_.stringOffset linearInputOffset with
  | some stringOffset => .ok stringOffset
  | none =>
      let found := (List.range inputOffset).findSome? fun j =>
        let i := j + 1
        (section_.stringOffset (startInputOffset + (inputOffset - i))).map fun stringOffset =>
          (⟨(stringOffset.val + i) % 2 ^ 32⟩ : BucketOffset)
      match found with
      | some stringOffset => .ok stringOffset
      | none =>
          .error ("Failed to find merge-string at offset " ++ toString linearInputOffset)

/-- The bytes that are written for the section, one bucket after the other. -/
def writeMergedStrings : Bytes := section_.buckets.flatMap (·.strings.flatten)

end MergedStringsSection

end JdxLinker
