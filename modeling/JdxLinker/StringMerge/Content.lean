import JdxLinker.StringMerge.Bucket
import Mathlib

/-!
# The content of a bucket

A bucket's strings lie one after the other, every string that was added is at the offset that was
handed out for it, and adding more does not move it.
-/

namespace JdxLinker

/-! ### Packed offsets -/

theorem BucketOffset.new_val {offset bucket : Nat} {o : BucketOffset}
    (h : BucketOffset.new offset bucket = .ok o) (hbucket : bucket < mergeStringBuckets) :
    offset < 2 ^ 28 ∧ o.val = bucket * 2 ^ 28 + offset := by
  unfold BucketOffset.new at h
  split at h
  · cases h
  · rename_i hlt
    have hoffset : offset < 2 ^ 28 := by simpa [mergeStringBucketBits] using hlt
    have hshift : (bucket <<< (32 - mergeStringBucketBits)) % 2 ^ 32 = bucket <<< 28 := by
      have hbucket' : bucket < 16 := hbucket
      rw [show 32 - mergeStringBucketBits = 28 from rfl, Nat.shiftLeft_eq]
      exact Nat.mod_eq_of_lt (by omega)
    rw [hshift, ← Nat.shiftLeft_add_eq_or_of_lt hoffset, Nat.shiftLeft_eq] at h
    exact ⟨hoffset, congrArg BucketOffset.val (Except.ok.inj h).symm⟩

theorem BucketOffset.bucket_eq {o : BucketOffset} {bucket offset : Nat} (hoffset : offset < 2 ^ 28)
    (h : o.val = bucket * 2 ^ 28 + offset) : o.bucket = bucket := by
  rw [BucketOffset.bucket, h, Nat.shiftRight_eq_div_pow,
    show 32 - mergeStringBucketBits = 28 from rfl]
  omega

theorem BucketOffset.offsetInBucket_eq {o : BucketOffset} {bucket offset : Nat}
    (hoffset : offset < 2 ^ 28) (h : o.val = bucket * 2 ^ 28 + offset) :
    o.offsetInBucket = offset := by
  rw [BucketOffset.offsetInBucket, h,
    show (1 <<< (32 - mergeStringBucketBits)) - 1 = 2 ^ 28 - 1 from rfl,
    Nat.and_two_pow_sub_one_eq_mod]
  omega

theorem BucketOffset.new_eq_ok {offset : Nat} (bucket : Nat) (h : offset < 2 ^ 28) :
    ∃ o, BucketOffset.new offset bucket = .ok o := by
  unfold BucketOffset.new
  rw [if_neg (by simpa [mergeStringBucketBits] using h)]
  exact ⟨_, rfl⟩

/-! ### Bytes of a bucket -/

namespace MergeStringsSectionBucket

/-- The bytes that are written for a bucket. -/
def bytes (bucket : MergeStringsSectionBucket) : Bytes := bucket.strings.flatten

end MergeStringsSectionBucket

/-- `string` stands in `data` at `offset`. -/
def At (data string : Bytes) (offset : Nat) : Prop :=
  ∃ before after, data = before ++ string ++ after ∧ before.length = offset

theorem At.append {data string : Bytes} {offset : Nat} (h : At data string offset)
    (more : Bytes) : At (data ++ more) string offset := by
  obtain ⟨before, after, rfl, hlen⟩ := h
  exact ⟨before, after ++ more, by simp, hlen⟩

theorem At.le_length {data string : Bytes} {offset : Nat} (h : At data string offset) :
    offset + string.length ≤ data.length := by
  obtain ⟨before, after, rfl, rfl⟩ := h
  simp

theorem At.drop {data string : Bytes} {offset : Nat} (h : At data string offset) (n : Nat)
    (hn : n ≤ string.length) : ∃ after, data.drop (offset + n) = string.drop n ++ after := by
  obtain ⟨before, after, rfl, rfl⟩ := h
  refine ⟨after, ?_⟩
  rw [List.append_assoc, List.drop_append, List.drop_eq_nil_of_le (by omega), List.nil_append,
    Nat.add_sub_cancel_left, List.drop_append_of_le_length hn]

namespace MergeStringsSectionBucket

/-- The hash map points at the strings, which take up as much as was counted. -/
structure Laid (bucket : MergeStringsSectionBucket) : Prop where
  nextOffset : bucket.nextOffset = bucket.bytes.length
  offsets : ∀ string offset, bucket.stringOffsets.lookup string = some offset →
    At bucket.bytes string offset

/-- What adding strings to a bucket may do. -/
structure Extends (bucket bucket' : MergeStringsSectionBucket) : Prop where
  bytes : ∃ more, bucket'.bytes = bucket.bytes ++ more
  index : bucket'.index = bucket.index
  next : bucket'.nextInputGroupIndex = bucket.nextInputGroupIndex

theorem Extends.at {bucket bucket' : MergeStringsSectionBucket} (h : bucket.Extends bucket')
    {string : Bytes} {offset : Nat} (hat : At bucket.bytes string offset) :
    At bucket'.bytes string offset := by
  obtain ⟨more, hmore⟩ := h.bytes
  rw [hmore]
  exact hat.append more

theorem Extends.trans {a b c : MergeStringsSectionBucket} (hab : a.Extends b) (hbc : b.Extends c) :
    a.Extends c := by
  obtain ⟨more, hmore⟩ := hab.bytes
  obtain ⟨more', hmore'⟩ := hbc.bytes
  exact ⟨⟨more ++ more', by rw [hmore', hmore, List.append_assoc]⟩, hbc.index.trans hab.index,
    hbc.next.trans hab.next⟩

theorem insertString_extends (bucket : MergeStringsSectionBucket) (string : Bytes) :
    bucket.Extends (bucket.insertString string).2 := by
  unfold insertString
  split
  · exact ⟨⟨[], by simp⟩, rfl, rfl⟩
  · exact ⟨⟨string, by simp [bytes]⟩, rfl, rfl⟩

theorem addString_extends {bucket bucket' : MergeStringsSectionBucket} {string : Bytes} {b : Nat}
    {o : BucketOffset} (h : bucket.addString string b = .ok (o, bucket')) :
    bucket.Extends bucket' := by
  unfold MergeStringsSectionBucket.addString at h
  simp only [bind, Except.bind] at h
  split at h
  · cases h
  · cases h
    have hextends := insertString_extends (bucket.countString string) string
    exact ⟨hextends.bytes, hextends.index, hextends.next⟩

theorem processSplitOutput_extends {strings : List StringToMerge}
    {bucket bucket' : MergeStringsSectionBucket} {stores : List OffsetStore}
    (h : bucket.processSplitOutput strings = .ok (bucket', stores)) : bucket.Extends bucket' := by
  induction strings generalizing bucket bucket' stores with
  | nil =>
      cases h
      exact ⟨⟨[], by simp⟩, rfl, rfl⟩
  | cons string strings ih =>
      simp only [MergeStringsSectionBucket.processSplitOutput, bind, Except.bind] at h
      split at h
      · cases h
      · rename_i hadd
        split at h
        · cases h
        · rename_i hrest
          cases h
          exact (addString_extends hadd).trans (ih hrest)

/-- The string is where the returned offset says, be it old or new. -/
theorem Laid.insertString {bucket : MergeStringsSectionBucket} (h : bucket.Laid) {string : Bytes}
    (hsize : bucket.nextOffset + string.length < 2 ^ 32) :
    (bucket.insertString string).2.Laid
      ∧ At (bucket.insertString string).2.bytes string (bucket.insertString string).1
      ∧ (bucket.insertString string).2.nextOffset ≤ bucket.nextOffset + string.length := by
  unfold MergeStringsSectionBucket.insertString
  cases hlookup : bucket.stringOffsets.lookup string with
  | some offset => exact ⟨h, h.offsets _ _ hlookup, Nat.le_add_right _ _⟩
  | none =>
      have hbytes : (bucket.strings ++ [string]).flatten = bucket.bytes ++ string := by simp [bytes]
      have hsum : (bucket.nextOffset + string.length % 2 ^ 32) % 2 ^ 32
          = bucket.nextOffset + string.length := by omega
      have hat : At (bucket.bytes ++ string) string bucket.nextOffset :=
        ⟨bucket.bytes, [], by simp, h.nextOffset.symm⟩
      simp only [hsum]
      refine ⟨⟨?_, ?_⟩, ?_, Nat.le_refl _⟩
      · simp only [bytes, hbytes, List.length_append, h.nextOffset]
      · intro string' offset' hlookup'
        simp only [bytes, hbytes]
        rw [List.lookup_cons] at hlookup'
        split at hlookup'
        · rename_i heq
          obtain rfl : string' = string := by simpa using heq
          cases hlookup'
          exact hat
        · exact (h.offsets _ _ hlookup').append string
      · simpa only [bytes, hbytes] using hat

/-- A bucket whose strings take no more than the strings that were added. -/
structure Ok (bucket : MergeStringsSectionBucket) : Prop where
  laid : bucket.Laid
  le : bucket.nextOffset ≤ bucket.inputStringByteSize

theorem new_ok (i : Nat) : (MergeStringsSectionBucket.new i).Ok where
  laid := ⟨rfl, fun string offset h => by simp [MergeStringsSectionBucket.new] at h⟩
  le := Nat.le_refl _

theorem insertString_byteSize (bucket : MergeStringsSectionBucket) (string : Bytes) :
    (bucket.insertString string).2.inputStringByteSize = bucket.inputStringByteSize := by
  unfold insertString
  split <;> rfl

/-- Every string gets the offset of its copy while the bucket is small enough. -/
theorem Ok.addString {bucket : MergeStringsSectionBucket} (h : bucket.Ok) {string : Bytes}
    (b : Nat) (hsize : bucket.inputStringByteSize + string.length < 2 ^ 28) :
    ∃ o bucket' offset, bucket.addString string b = .ok (o, bucket') ∧ bucket'.Ok
      ∧ bucket'.inputStringByteSize = bucket.inputStringByteSize + string.length
      ∧ BucketOffset.new offset b = .ok o ∧ At bucket'.bytes string offset := by
  have hle := h.le
  have hcounted : (bucket.countString string).Laid := ⟨h.laid.nextOffset, h.laid.offsets⟩
  have hcount : (bucket.countString string).nextOffset = bucket.nextOffset := rfl
  have hsize' : (bucket.countString string).nextOffset + string.length < 2 ^ 32 := by omega
  obtain ⟨hlaid, hat, hnext⟩ := hcounted.insertString hsize'
  have hbytes : ((bucket.countString string).insertString string).2.inputStringByteSize
      = bucket.inputStringByteSize + string.length := insertString_byteSize _ _
  have hend := hat.le_length
  rw [← hlaid.nextOffset] at hend
  have hoffset : ((bucket.countString string).insertString string).1 < 2 ^ 28 := by omega
  obtain ⟨o, ho⟩ := BucketOffset.new_eq_ok b hoffset
  refine ⟨o, _, _, ?_, ⟨hlaid, by omega⟩, hbytes, ho, hat⟩
  simp only [MergeStringsSectionBucket.addString, bind, Except.bind, ho]
  rfl

/-- The total size of some strings. -/
def stringBytes (strings : List StringToMerge) : Nat := (strings.map (·.string.length)).sum

/-- A store hands out, for a string of bucket `b`, the place where `bytes` has it. -/
def Stored (b : Nat) (bytes : Bytes) (string : StringToMerge) (store : OffsetStore) : Prop :=
  store.out = string.offsetOut ∧ ∃ offset, BucketOffset.new offset b = .ok store.output
    ∧ At bytes string.string offset

theorem Ok.processSplitOutput {bucket : MergeStringsSectionBucket} (h : bucket.Ok)
    (strings : List StringToMerge) (hsize : bucket.inputStringByteSize + stringBytes strings < 2 ^ 28) :
    ∃ bucket' stores, bucket.processSplitOutput strings = .ok (bucket', stores) ∧ bucket'.Ok
      ∧ bucket'.inputStringByteSize = bucket.inputStringByteSize + stringBytes strings
      ∧ List.Forall₂ (Stored bucket.index bucket'.bytes) strings stores := by
  induction strings generalizing bucket with
  | nil => exact ⟨bucket, [], rfl, h, rfl, .nil⟩
  | cons string strings ih =>
      simp only [stringBytes, List.map_cons, List.sum_cons] at hsize
      have hlt : bucket.inputStringByteSize + string.string.length < 2 ^ 28 := by omega
      obtain ⟨o, bucket₁, offset, hadd, hok, hbytes, ho, hat⟩ := h.addString bucket.index hlt
      obtain ⟨bucket₂, stores, hrest, hok', hbytes', hstored⟩ :=
        ih hok (by rw [hbytes, stringBytes]; omega)
      rw [(addString_extends hadd).index] at hstored
      refine ⟨bucket₂, ⟨string.offsetOut, o⟩ :: stores, ?_, hok', ?_, ?_⟩
      · simp only [MergeStringsSectionBucket.processSplitOutput, bind, Except.bind, hadd, hrest]
        rfl
      · rw [hbytes', hbytes]
        simp only [stringBytes, List.map_cons, List.sum_cons]
        omega
      · exact .cons ⟨rfl, offset, ho, (processSplitOutput_extends hrest).at hat⟩ hstored

/-- The stores go where the strings say, whatever their number. -/
theorem processSplitOutput_out {strings : List StringToMerge}
    {bucket bucket' : MergeStringsSectionBucket} {stores : List OffsetStore}
    (h : bucket.processSplitOutput strings = .ok (bucket', stores)) :
    stores.map (·.out) = strings.map (·.offsetOut) := by
  induction strings generalizing bucket bucket' stores with
  | nil =>
      cases h
      rfl
  | cons string strings ih =>
      simp only [MergeStringsSectionBucket.processSplitOutput, bind, Except.bind] at h
      split at h
      · cases h
      · split at h
        · cases h
        · rename_i hrest
          cases h
          rw [List.map_cons, List.map_cons, ih hrest]

end MergeStringsSectionBucket

end JdxLinker
