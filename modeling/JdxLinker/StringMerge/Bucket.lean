import Mathlib.Algebra.Group.Nat.Defs
import Mathlib.Data.List.Basic
import Mathlib.Logic.Function.Basic

/-!
# Buckets of merged strings

Strings are spread over sixteen buckets by their hash. A bucket keeps one copy of every string it is
given and hands out the offset of that copy. A `u32` packs the bucket's index and the offset.
-/

namespace JdxLinker

/-- The bytes of a section or of a string. -/
abbrev Bytes := List UInt8

def mergeStringBucketBits : Nat := 4

def mergeStringBuckets : Nat := 1 <<< mergeStringBucketBits

/-- Input offsets are handed to the offset map in blocks of this size. -/
def mapBlockSize : Nat := 256

/-- An offset into a bucket, below the index of the bucket. -/
structure BucketOffset where
  val : Nat
  deriving DecidableEq, Repr

namespace BucketOffset

def new (offset bucket : Nat) : Except String BucketOffset :=
  if 1 <<< (32 - mergeStringBucketBits) ≤ offset then
    .error "Merge-string bucket too large"
  else
    .ok ⟨(bucket <<< (32 - mergeStringBucketBits)) % 2 ^ 32 ||| offset⟩

def bucket (o : BucketOffset) : Nat := o.val >>> (32 - mergeStringBucketBits)

def offsetInBucket (o : BucketOffset) : Nat :=
  o.val &&& (1 <<< (32 - mergeStringBucketBits)) - 1

end BucketOffset

/-- Where the offset of a string goes once it is known: to the place that the offset map gave for
this input offset, or to the list of offsets that did not fit in the map. -/
inductive OffsetOut where
  | inShard (input : Nat)
  | overflow (input : Nat)
  deriving DecidableEq, Repr

structure StringToMerge where
  string : Bytes
  offsetOut : OffsetOut
  deriving DecidableEq, Repr

/-- A store of an output offset, through a reference into the map or onto the overflow list. -/
structure OffsetStore where
  out : OffsetOut
  output : BucketOffset
  deriving DecidableEq, Repr

/-- A bucket. `stringOffsets` is the hash map from the strings to their offsets. -/
structure MergeStringsSectionBucket where
  index : Nat
  nextInputGroupIndex : Nat
  strings : List Bytes
  nextOffset : Nat
  inputStringByteSize : Nat
  inputStringCount : Nat
  stringOffsets : List (Bytes × Nat)
  deriving DecidableEq, Repr

namespace MergeStringsSectionBucket

def new (i : Nat) : MergeStringsSectionBucket := ⟨i, 0, [], 0, 0, 0, []⟩

/-- The bucket after a string that it may already hold, and the offset of its copy. -/
def insertString (bucket : MergeStringsSectionBucket) (string : Bytes) :
    Nat × MergeStringsSectionBucket :=
  match bucket.stringOffsets.lookup string with
  | some offset => (offset, bucket)
  | none =>
      (bucket.nextOffset, { bucket with
        nextOffset := (bucket.nextOffset + string.length % 2 ^ 32) % 2 ^ 32
        strings := bucket.strings ++ [string]
        stringOffsets := (string, bucket.nextOffset) :: bucket.stringOffsets })

/-- The statistics with one more string. -/
def countString (bucket : MergeStringsSectionBucket) (string : Bytes) :
    MergeStringsSectionBucket :=
  { bucket with
    inputStringByteSize := bucket.inputStringByteSize + string.length
    inputStringCount := bucket.inputStringCount + 1 }

def addString (bucket : MergeStringsSectionBucket) (string : Bytes) (bucketIndex : Nat) :
    Except String (BucketOffset × MergeStringsSectionBucket) := do
  let (offset, bucket) := (bucket.countString string).insertString string
  let bucketOffset ← BucketOffset.new offset bucketIndex
  return (bucketOffset, bucket)

/-- Adds the strings of one group, with the stores of their offsets. -/
def processSplitOutput (bucket : MergeStringsSectionBucket) :
    List StringToMerge → Except String (MergeStringsSectionBucket × List OffsetStore)
  | [] => .ok (bucket, [])
  | string :: stringsToMerge => do
      let (offsetInBucket, bucket') ← bucket.addString string.string bucket.index
      let (bucket'', stores) ← bucket'.processSplitOutput stringsToMerge
      return (bucket'', ⟨string.offsetOut, offsetInBucket⟩ :: stores)

def len (bucket : MergeStringsSectionBucket) : Nat := bucket.nextOffset

end MergeStringsSectionBucket

end JdxLinker

/-!
## Splitting input sections into strings

The merge-string sections of one output section are laid one after the other, each padded to a
block, and the linear space is cut into groups. A group task finds the strings that start in its
range, reserves an entry of the offset map for each and puts them in buckets by their hash.
-/

namespace JdxLinker

structure StringMergeInputSection where
  sectionData : Bytes
  startInputOffset : Nat
  isString : Bool
  deriving DecidableEq, Repr

def nextMultipleOf (n m : Nat) : Nat := (n + (m - 1)) / m * m

/-- The section's size rounded up to a block. -/
def StringMergeInputSection.paddedLen (sec : StringMergeInputSection) : Nat :=
  nextMultipleOf sec.sectionData.length mapBlockSize

/-- The external map from input offsets to output offsets, filled through shards. `insert` fails
when the shard has no room for the offset, and `store` writes through the reference that a
successful insert returned. -/
structure OffsetMap where
  Shard : Type
  takeShard : (base len : Nat) → Shard
  base : Shard → Nat
  len : Shard → Nat
  insert : Shard → Nat → BucketOffset → Option Shard
  store : Shard → Nat → BucketOffset → Shard
  get : Shard → Nat → Option BucketOffset

/-- What the code relies on: an insert inside the shard's range and past all earlier ones is kept
and returned by `get`, or reported as an error. -/
structure OffsetMap.Lawful (M : OffsetMap) : Prop where
  base_takeShard : ∀ base len, M.base (M.takeShard base len) = base
  len_takeShard : ∀ base len, M.len (M.takeShard base len) = len
  get_takeShard : ∀ base len k, M.get (M.takeShard base len) k = none
  base_insert : ∀ s k v s', M.insert s k v = some s' → M.base s' = M.base s
  len_insert : ∀ s k v s', M.insert s k v = some s' → M.len s' = M.len s
  get_insert : ∀ s k v s', M.base s ≤ k → k < M.base s + M.len s →
    (∀ k', M.get s k' ≠ none → k' < k) → M.insert s k v = some s' →
    ∀ k', M.get s' k' = if k' = k then some v else M.get s k'
  base_store : ∀ s k v, M.base (M.store s k v) = M.base s
  len_store : ∀ s k v, M.len (M.store s k v) = M.len s
  get_store : ∀ s k v, M.get s k ≠ none →
    ∀ k', M.get (M.store s k v) k' = if k' = k then some v else M.get s k'

/-- A map that keeps a list of entries in each shard and has room for `blockCapacity` of them in
each block. -/
def listOffsetMap (blockCapacity : Nat) : OffsetMap where
  Shard := Nat × Nat × List (Nat × BucketOffset)
  takeShard base len := (base, len, [])
  base shard := shard.1
  len shard := shard.2.1
  insert shard k v :=
    if shard.2.2.countP (fun entry => entry.1 / mapBlockSize = k / mapBlockSize) < blockCapacity then
      some (shard.1, shard.2.1, (k, v) :: shard.2.2)
    else
      none
  store shard k v := (shard.1, shard.2.1, (k, v) :: shard.2.2)
  get shard k := shard.2.2.lookup k

theorem lookup_cons_ite (entries : List (Nat × BucketOffset)) (k k' : Nat) (v : BucketOffset) :
    ((k, v) :: entries).lookup k' = if k' = k then some v else entries.lookup k' := by
  rw [List.lookup_cons]
  split <;> simp_all

theorem listOffsetMap_insert {blockCapacity k : Nat} {shard shard' : (listOffsetMap blockCapacity).Shard}
    {v : BucketOffset} (h : (listOffsetMap blockCapacity).insert shard k v = some shard') :
    shard' = (shard.1, shard.2.1, (k, v) :: shard.2.2) := by
  obtain ⟨-, hshard⟩ := Option.ite_none_right_eq_some.mp h
  exact (Option.some.inj hshard).symm

theorem listOffsetMap_lawful (blockCapacity : Nat) : (listOffsetMap blockCapacity).Lawful where
  base_takeShard _ _ := rfl
  len_takeShard _ _ := rfl
  get_takeShard _ _ _ := rfl
  base_insert _ _ _ _ h := congrArg (·.1) (listOffsetMap_insert h)
  len_insert _ _ _ _ h := congrArg (·.2.1) (listOffsetMap_insert h)
  get_insert _ _ _ _ _ _ _ h _ := by
    rw [listOffsetMap_insert h]
    exact lookup_cons_ite _ _ _ _
  base_store _ _ _ := rfl
  len_store _ _ _ := rfl
  get_store _ _ _ _ _ := lookup_cons_ite _ _ _ _

/-- A group of neighbouring sections, restricted to the strings that start in its range, and the
part of the offset map that its shard covers. -/
structure SectionGroup where
  index : Nat
  sections : List StringMergeInputSection
  rangeStart : Nat
  rangeEnd : Nat
  shardBase : Nat
  shardLen : Nat
  deriving DecidableEq, Repr

/-- The strings of a group, by bucket. -/
abbrev StringBuckets := Fin mergeStringBuckets → List StringToMerge

def StringBuckets.at (buckets : StringBuckets) (b : Nat) : List StringToMerge :=
  if h : b < mergeStringBuckets then buckets ⟨b, h⟩ else []

/-- The bucket of a string. The hash function is external. -/
def bucketOf (hashBytes : Bytes → Nat) (string : Bytes) : Fin mergeStringBuckets :=
  ⟨hashBytes string % mergeStringBuckets, Nat.mod_lt _ (by decide)⟩

/-- Takes from `source` up to and including the next null terminator. -/
def takeString (source : Bytes) : Except String (Bytes × Bytes) :=
  match source.findIdx? (· == 0) with
  | none => .error "String in merge-string section is not null-terminated"
  | some i => .ok (source.splitAt (i + 1))

/-- How far into the section a range starts that begins `offsetInSection` bytes into it: there if a
string ends just before, else after the string it cuts. The error is an index out of bounds. -/
def advanceToString (data : Bytes) (offsetInSection : Nat) : Except String Nat :=
  match data[offsetInSection - 1]? with
  | none => .error "index out of bounds"
  | some 0 => .ok offsetInSection
  | some _ =>
      .ok (((data.drop offsetInSection).findIdx? (· == 0)).elim data.length
        fun nullOffset => offsetInSection + nullOffset + 1)

variable (M : OffsetMap) (hashBytes : Bytes → Nat)

/-- What a group task has collected: the strings by bucket and its shard of the offset map. -/
structure SplitState where
  buckets : StringBuckets
  shard : M.Shard

/-- Reserves the place for the string's offset and puts the string in its bucket. -/
def insertData (st : SplitState M) (data : Bytes) (inputOffset : Nat) : SplitState M :=
  let i := bucketOf hashBytes data
  match M.insert st.shard inputOffset ⟨0⟩ with
  | some shard =>
      ⟨Function.update st.buckets i (st.buckets i ++ [⟨data, .inShard inputOffset⟩]), shard⟩
  | none =>
      ⟨Function.update st.buckets i (st.buckets i ++ [⟨data, .overflow inputOffset⟩]), st.shard⟩

theorem takeString_length {source string rest : Bytes} (h : takeString source = .ok (string, rest)) :
    rest.length < source.length := by
  unfold takeString at h
  split at h
  · cases h
  · rename_i i hi
    have hlt := (List.findIdx?_eq_some_iff_getElem.mp hi).1
    rw [List.splitAt_eq] at h
    cases h
    rw [List.length_drop]
    omega

/-- Splits the remaining bytes of a string section, up to the end of the group's range. -/
def splitStrings (rangeEnd : Nat) (st : SplitState M) (remaining : Bytes) (inputOffset : Nat) :
    Except String (SplitState M) :=
  if remaining ≠ [] ∧ inputOffset < rangeEnd then
    match _h : takeString remaining with
    | .error e => .error e
    | .ok (string, rest) =>
        splitStrings rangeEnd (insertData M hashBytes st string inputOffset) rest
          (inputOffset + string.length)
  else
    .ok st
termination_by remaining.length
decreasing_by exact takeString_length _h

def processInputSection (group : SectionGroup) (st : SplitState M)
    (inputSection : StringMergeInputSection) : Except String (SplitState M) := do
  let advance ←
    if inputSection.startInputOffset < group.rangeStart then
      advanceToString inputSection.sectionData (group.rangeStart - inputSection.startInputOffset)
    else
      .ok 0
  let inputOffset := inputSection.startInputOffset + advance
  let remaining := inputSection.sectionData.drop advance
  if inputSection.isString then
    splitStrings M hashBytes group.rangeEnd st remaining inputOffset
  else
    return insertData M hashBytes st remaining inputOffset

/-- The strings of a group and its finished shard. -/
def splitGroup (group : SectionGroup) : Except String (SplitState M) :=
  group.sections.foldlM (processInputSection M hashBytes group)
    ⟨fun _ => [], M.takeShard group.shardBase group.shardLen⟩

end JdxLinker
