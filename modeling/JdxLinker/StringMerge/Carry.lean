import JdxLinker.StringMerge.Distinct

/-!
# Offsets inside strings

A reference into the middle of a string adds its distance to a packed offset, but only the start of
the string was checked against the size of a bucket. The sum stays in its bucket exactly when the
distinct strings of every bucket fit into the range of packed offsets.
-/

namespace JdxLinker

open MergeStringsSectionBucket

variable {M : OffsetMap} {hashBytes : Bytes → Nat} {sections : List StringMergeInputSection}
  {groups : List SectionGroup}

variable (M hashBytes groups) in
/-- The states that bucket `b` goes through while it merges the groups, string by string. -/
def Passes (b : Nat) (bucket : MergeStringsSectionBucket) : Prop :=
  ∃ k < groups.length, ∃ before strings stores, bucketAfter M hashBytes groups b k = .ok before
    ∧ strings <+: groupStrings M hashBytes groups k b
    ∧ before.processSplitOutput strings = .ok (bucket, stores)

/-- What makes the offsets of a merge trustworthy: the distance into a string does not carry into
the number of the bucket, and no bucket's count ever wraps or differs from the size of its
strings. -/
structure MergedStringsSection.Sound (hashBytes : Bytes → Nat) (groups : List SectionGroup)
    (sections : List StringMergeInputSection) (merged : MergedStringsSection M) : Prop where
  inside : ∀ sec ∈ sections, ∀ p ∈ sectionPieces sec, ∀ offset,
    p.1 < sec.startInputOffset + offset → sec.startInputOffset + offset < p.1 + p.2.length →
    ∀ found, merged.findString sec.startInputOffset offset = .ok found →
      ∃ recorded, merged.stringOffset p.1 = some recorded ∧ found.bucket = recorded.bucket
        ∧ found.offsetInBucket
            = recorded.offsetInBucket + (sec.startInputOffset + offset - p.1)
  running : ∀ b < mergeStringBuckets, ∀ bucket, Passes M hashBytes groups b bucket →
    bucket.nextOffset = bucket.bytes.length
  total : ∀ bucket ∈ merged.buckets, bucket.len = bucket.bytes.length

/-- The size of the distinct strings of a bucket. -/
def bucketSize (hashBytes : Bytes → Nat) (sections : List StringMergeInputSection) (b : Nat) : Nat :=
  ∑ string ∈ bucketStrings hashBytes sections b, string.length

/-! ### Sizes -/

theorem BucketOffset.offsetInBucket_lt (o : BucketOffset) : o.offsetInBucket < 2 ^ 28 := by
  rw [BucketOffset.offsetInBucket,
    show (1 <<< (32 - mergeStringBucketBits)) - 1 = 2 ^ 28 - 1 from rfl,
    Nat.and_two_pow_sub_one_eq_mod]
  exact Nat.mod_lt _ (Nat.two_pow_pos 28)

theorem processSplitOutput_append {strings strings' : List StringToMerge}
    {bucket bucket' : MergeStringsSectionBucket} {stores : List OffsetStore}
    (h : bucket.processSplitOutput (strings ++ strings') = .ok (bucket', stores)) :
    ∃ between first rest, bucket.processSplitOutput strings = .ok (between, first)
      ∧ between.processSplitOutput strings' = .ok (bucket', rest) := by
  induction strings generalizing bucket bucket' stores with
  | nil => exact ⟨bucket, [], stores, rfl, h⟩
  | cons string strings ih =>
      simp only [List.cons_append, processSplitOutput, bind, Except.bind] at h
      split at h
      · cases h
      · rename_i result hadd
        split at h
        · cases h
        · rename_i result' hrest
          cases h
          obtain ⟨between, first, rest, hfirst, hsecond⟩ := ih hrest
          refine ⟨between, ⟨string.offsetOut, result.1⟩ :: first, rest, ?_, hsecond⟩
          simp only [processSplitOutput, bind, Except.bind, hadd, hfirst]
          rfl

/-- A bucket passes through no more strings than it ends with. -/
theorem Passes.filed {b : Nat} {bucket final : MergeStringsSectionBucket}
    (h : Passes M hashBytes groups b bucket)
    (hfinal : bucketAfter M hashBytes groups b groups.length = .ok final) :
    bucket.Filed ∧ bucket.bytes.length ≤ final.bytes.length := by
  obtain ⟨k, hk, before, strings, stores, hbefore, ⟨rest, hrest⟩, hprocess⟩ := h
  obtain ⟨reached, hreached⟩ := bucketAfter_le hk hfinal
  obtain ⟨before', after, stores', hbefore', hprocess', rfl, -⟩ := bucketAfter_succ hreached
  obtain rfl := Except.ok.inj (hbefore.symm.trans hbefore')
  rw [← hrest] at hprocess'
  obtain ⟨between, first, second, hfirst, hsecond⟩ := processSplitOutput_append hprocess'
  obtain ⟨rfl, -⟩ := Prod.mk.inj (Except.ok.inj (hprocess.symm.trans hfirst))
  obtain ⟨hfiled, -, -⟩ := (bucketAfter_filed hbefore).1.processSplitOutput hprocess
  have hleading : after.advance.strings <+: final.strings := bucketAfter_prefix hk hreached hfinal
  obtain ⟨more, hmore⟩ := ((hfiled.processSplitOutput hsecond).2.1).trans hleading
  refine ⟨hfiled, ?_⟩
  rw [MergeStringsSectionBucket.bytes, MergeStringsSectionBucket.bytes, ← hmore]
  simp

section Complete

variable {trace : List Merged} {s : SplitResources M}

theorem ScheduleComplete.bytes_length (h : ScheduleComplete hashBytes groups trace s)
    (hM : M.Lawful) (hplaced : PlacedFrom 0 sections) (hsplit : BlockSplit sections groups) {b : Nat}
    {bucket : MergeStringsSectionBucket}
    (hbucket : bucketAfter M hashBytes groups b groups.length = .ok bucket) :
    bucket.Filed ∧ bucket.bytes.length = bucketSize hashBytes sections b := by
  obtain ⟨hfiled, hstrings⟩ := h.bucket_strings hM hplaced hsplit hbucket
  refine ⟨hfiled, ?_⟩
  rw [bucketSize, ← hstrings, List.sum_toFinset _ hfiled.nodup, MergeStringsSectionBucket.bytes,
    List.length_flatten]

/-! ### References into the middle of a string -/

/-- The offset that is found in the middle of a string, from the strings of its bucket. -/
theorem ScheduleComplete.findString_inside (h : ScheduleComplete hashBytes groups trace s)
    (hM : M.Lawful) (hplaced : PlacedFrom 0 sections) (hsplit : BlockSplit sections groups)
    {merged : MergedStringsSection M} (hmerged : addInputSections s = .ok merged)
    {sec : StringMergeInputSection} (hsec : sec ∈ sections) {p : Piece} (hp : p ∈ sectionPieces sec)
    {offset : Nat} (hlt : p.1 < sec.startInputOffset + offset)
    (hend : sec.startInputOffset + offset < p.1 + p.2.length) {bucket : MergeStringsSectionBucket}
    (hbucket : bucketAfter M hashBytes groups (bucketOf hashBytes p.2) groups.length = .ok bucket) :
    ∃ recorded before after, merged.stringOffset p.1 = some recorded
      ∧ merged.findString sec.startInputOffset offset
          = .ok ⟨(recorded.val + (sec.startInputOffset + offset - p.1)) % 2 ^ 32⟩
      ∧ bucket.strings = before ++ p.2 :: after
      ∧ BucketOffset.new (before.flatten.length % 2 ^ 32) (bucketOf hashBytes p.2)
          = .ok recorded := by
  have hall : p ∈ allPieces sections := List.mem_flatMap.mpr ⟨sec, hsec, hp⟩
  have hstart := (sectionPieces_bounds (hplaced.nonempty sec hsec) hp).1
  obtain ⟨store, hstore, hinput, before, after, hstrings, hnew⟩ :=
    h.piece_kept hM hplaced hsplit hall hbucket
  have hfound : merged.stringOffset p.1 = some store.output := by
    rw [← hinput]
    exact h.stringOffset_store hM hplaced hsplit hmerged hstore
  refine ⟨store.output, before, after, hfound, findString_mod hstart hlt hfound ?_, hstrings, hnew⟩
  intro k hk hk'
  exact h.stringOffset_inside hM hplaced hsplit hmerged hall hk (by omega)

/-- While the string ends in range, so does every reference into it. -/
theorem inside_of_fits {before : List Bytes} {string : Bytes} {b distance : Nat}
    {recorded : BucketOffset} (hb : b < mergeStringBuckets)
    (hnew : BucketOffset.new (before.flatten.length % 2 ^ 32) b = .ok recorded)
    (hfits : before.flatten.length + string.length ≤ 2 ^ 28) (hdistance : distance < string.length) :
    (⟨(recorded.val + distance) % 2 ^ 32⟩ : BucketOffset).bucket = recorded.bucket
      ∧ (⟨(recorded.val + distance) % 2 ^ 32⟩ : BucketOffset).offsetInBucket
          = recorded.offsetInBucket + distance := by
  obtain ⟨hoffset, hval⟩ := BucketOffset.new_val hnew hb
  have hb' : b < 16 := hb
  have hsmall : before.flatten.length % 2 ^ 32 + distance < 2 ^ 28 := by omega
  have hsum : (recorded.val + distance) % 2 ^ 32
      = b * 2 ^ 28 + (before.flatten.length % 2 ^ 32 + distance) := by omega
  rw [BucketOffset.bucket_eq hsmall hsum, BucketOffset.offsetInBucket_eq hsmall hsum,
    BucketOffset.bucket_eq hoffset hval, BucketOffset.offsetInBucket_eq hoffset hval]
  exact ⟨rfl, rfl⟩

/-- The first string that goes beyond a size. -/
theorem exists_crossing {strings : List Bytes} {size : Nat} (h : size < strings.flatten.length) :
    ∃ before string after, strings = before ++ string :: after ∧ before.flatten.length ≤ size
      ∧ size < before.flatten.length + string.length := by
  induction strings using List.reverseRecOn with
  | nil => simp at h
  | append_singleton strings string ih =>
      by_cases hbefore : size < strings.flatten.length
      · obtain ⟨before, s, after, rfl, hle, hlt⟩ := ih hbefore
        exact ⟨before, s, after ++ [string], by simp, hle, hlt⟩
      · refine ⟨strings, string, [], rfl, Nat.le_of_not_lt hbefore, ?_⟩
        simpa using h

/-- A bucket whose strings do not fit has one that references carry out of. -/
theorem ScheduleComplete.carries (h : ScheduleComplete hashBytes groups trace s)
    (hM : M.Lawful) (hplaced : PlacedFrom 0 sections) (hsplit : BlockSplit sections groups)
    {merged : MergedStringsSection M} (hmerged : addInputSections s = .ok merged) {b : Nat}
    (hb : b < mergeStringBuckets) (hlarge : 2 ^ 28 < bucketSize hashBytes sections b) :
    ∃ sec ∈ sections, ∃ p ∈ sectionPieces sec, ∃ offset recorded,
      p.1 < sec.startInputOffset + offset ∧ sec.startInputOffset + offset < p.1 + p.2.length
        ∧ merged.stringOffset p.1 = some recorded
        ∧ merged.findString sec.startInputOffset offset
            = .ok ⟨(recorded.val + (sec.startInputOffset + offset - p.1)) % 2 ^ 32⟩
        ∧ recorded.offsetInBucket + (sec.startInputOffset + offset - p.1) = 2 ^ 28 := by
  obtain ⟨bucket, hbucket⟩ := h.exists_bucketAfter hb (Nat.le_refl groups.length)
  obtain ⟨hfiled, hsize⟩ := h.bytes_length hM hplaced hsplit hbucket
  obtain ⟨before, string, after, hstrings, hle, hlt⟩ := exists_crossing (hsize ▸ hlarge)
  have hmem : string ∈ bucketStrings hashBytes sections b := by
    rw [← (h.bucket_strings hM hplaced hsplit hbucket).2]
    simp [hstrings]
  rw [bucketStrings, Finset.mem_filter, List.mem_toFinset, List.mem_map] at hmem
  obtain ⟨⟨p, hp, rfl⟩, rfl⟩ := hmem
  obtain ⟨sec, hsec, hpsec⟩ := List.mem_flatMap.mp hp
  have hstart := (sectionPieces_bounds (hplaced.nonempty sec hsec) hpsec).1
  -- The string starts in range, since the start is what was checked.
  obtain ⟨store, -, -, before', after', hstrings', hnew⟩ := h.piece_kept hM hplaced hsplit hp hbucket
  obtain rfl := append_cons_inj hfiled.nodup hstrings hstrings'
  obtain ⟨hoffset, -⟩ := BucketOffset.new_val hnew hb
  have hmod : before.flatten.length % 2 ^ 32 = before.flatten.length := by omega
  obtain ⟨offset, hoffset'⟩ : ∃ offset,
      sec.startInputOffset + offset = p.1 + (2 ^ 28 - before.flatten.length) :=
    ⟨p.1 - sec.startInputOffset + (2 ^ 28 - before.flatten.length), by omega⟩
  have hinside : p.1 < sec.startInputOffset + offset := by omega
  have hend : sec.startInputOffset + offset < p.1 + p.2.length := by omega
  obtain ⟨recorded, before₂, after₂, hrecorded, hfind, hstrings₂, hnew₂⟩ :=
    h.findString_inside hM hplaced hsplit hmerged hsec hpsec hinside hend hbucket
  obtain rfl := append_cons_inj hfiled.nodup hstrings hstrings₂
  obtain ⟨hoffset₂, hval⟩ := BucketOffset.new_val hnew₂ hb
  refine ⟨sec, hsec, p, hpsec, offset, recorded, hinside, hend, hrecorded, hfind, ?_⟩
  rw [BucketOffset.offsetInBucket_eq hoffset₂ hval]
  omega

end Complete

/-- Mid-string references are right exactly when buckets are small. After any complete run, no
distance carries into the number of a bucket and no count wraps or is off, if and only if the
distinct strings of every bucket take up at most `2 ^ 28` bytes. -/
theorem merged_offsets_sound_iff {splitParallelism : Nat}
    {candidates : List StringMergeSectionExtra} {pool : ReusePool} {trace : List Merged}
    {s : SplitResources M} {merged : MergedStringsSection M} (hM : M.Lawful)
    (hsplit : BlockSplit (groupMergeStringSections candidates) groups)
    (hpool : pool.Shared splitParallelism) (hrun : CompleteRun M hashBytes groups pool trace s)
    (hmerged : addInputSections s = .ok merged) :
    merged.Sound hashBytes groups (groupMergeStringSections candidates)
      ↔ ∀ b < mergeStringBuckets,
          bucketSize hashBytes (groupMergeStringSections candidates) b ≤ 2 ^ 28 := by
  have hplaced := groupMergeStringSections_placed candidates
  obtain ⟨h, -⟩ := hrun.complete hsplit.indexed hpool
  constructor
  · intro hsound b hb
    by_contra hlarge
    obtain ⟨sec, hsec, p, hp, offset, recorded, hlt, hend, hrecorded, hfind, hcarry⟩ :=
      h.carries hM hplaced hsplit hmerged hb (Nat.lt_of_not_le hlarge)
    obtain ⟨recorded', hrecorded', -, hinside⟩ :=
      hsound.inside sec hsec p hp offset hlt hend _ hfind
    obtain rfl := Option.some.inj (hrecorded.symm.trans hrecorded')
    have hbound := BucketOffset.offsetInBucket_lt
      ⟨(recorded.val + (sec.startInputOffset + offset - p.1)) % 2 ^ 32⟩
    omega
  · intro hsmall
    constructor
    · intro sec hsec p hp offset hlt hend found hfound
      have hb := (bucketOf hashBytes p.2).isLt
      obtain ⟨bucket, hbucket⟩ := h.exists_bucketAfter hb (Nat.le_refl groups.length)
      obtain ⟨-, hsize⟩ := h.bytes_length hM hplaced hsplit hbucket
      obtain ⟨recorded, before, after, hrecorded, hfind, hstrings, hnew⟩ :=
        h.findString_inside hM hplaced hsplit hmerged hsec hp hlt hend hbucket
      obtain rfl := Except.ok.inj (hfind.symm.trans hfound)
      have hlength : before.flatten.length + p.2.length ≤ bucket.bytes.length := by
        rw [MergeStringsSectionBucket.bytes, hstrings]
        simp
      have hfits := hlength.trans (hsize.trans_le (hsmall _ hb))
      exact ⟨recorded, hrecorded, inside_of_fits hb hnew hfits (by omega)⟩
    · intro b hb bucket hpasses
      obtain ⟨final, hfinal⟩ := h.exists_bucketAfter hb (Nat.le_refl groups.length)
      obtain ⟨hfiled, hle⟩ := hpasses.filed hfinal
      have hsize := (h.bytes_length hM hplaced hsplit hfinal).2
      have hbound := hsmall b hb
      rw [hfiled.next]
      omega
    · intro bucket hbucket
      obtain ⟨merged', hmerged', hbuckets, -⟩ := addInputSections_ok hrun.errors
      obtain rfl := Except.ok.inj (hmerged.symm.trans hmerged')
      rw [hbuckets, (List.mergeSort_perm _ _).mem_iff] at hbucket
      have hindex : bucket.index < mergeStringBuckets := by
        have hmem : bucket.index ∈ Multiset.range mergeStringBuckets :=
          h.buckets ▸ Multiset.mem_map_of_mem _ (Multiset.mem_coe.mpr hbucket)
        exact Multiset.mem_range.mp hmem
      obtain ⟨hfiled, hsize⟩ := h.bytes_length hM hplaced hsplit (h.content bucket hbucket)
      have hbound := hsmall _ hindex
      rw [MergeStringsSectionBucket.len, hfiled.next]
      omega

theorem merged_offsets_sound_greetings : ∃ trace s merged,
    CompleteRun (listOffsetMap 256) List.length greetingGroups ⟨32, 0, 32⟩ trace s
      ∧ addInputSections s = .ok merged
      ∧ merged.Sound List.length greetingGroups (groupMergeStringSections greetings) := by
  obtain ⟨trace, s, hrun⟩ := greetings_run
  obtain ⟨merged, hmerged, -⟩ := addInputSections_ok hrun.errors
  have hsound := merged_offsets_sound_iff (listOffsetMap_lawful 256) greetingGroups_blockSplit
    greetings_pool hrun hmerged
  exact ⟨trace, s, merged, hrun, hmerged, hsound.mpr (by decide +kernel)⟩

/-! ### A string that crosses the limit -/

/-- The content of one merge section without terminated strings, a byte longer than a bucket. -/
def giantData : Bytes := List.replicate (2 ^ 28 + 1) 0

def giant : List StringMergeSectionExtra := [⟨giantData, false⟩]

def giantSection : StringMergeInputSection := ⟨giantData, 0, false⟩

def giantGroups : List SectionGroup := [⟨0, [giantSection], 0, 2 ^ 28 + 256, 0, 2 ^ 28 + 256⟩]

theorem giantData_length : giantData.length = 2 ^ 28 + 1 := by
  rw [giantData, List.length_replicate]

theorem giant_sections : groupMergeStringSections giant = [giantSection] := by
  have hne : giantData ≠ [] := List.ne_nil_of_length_pos (by rw [giantData_length]; omega)
  simp [groupMergeStringSections, stringMergeExtras, giant, hne, placeSections, giantSection]

theorem giant_paddedLen : giantSection.paddedLen = 2 ^ 28 + 256 := by
  rw [StringMergeInputSection.paddedLen, giantSection, giantData_length]
  decide

theorem giantGroups_blockSplit : BlockSplit (groupMergeStringSections giant) giantGroups := by
  rw [giant_sections]
  constructor
  · intro i group hgroup
    cases i with
    | zero =>
        obtain rfl := Option.some.inj hgroup
        rfl
    | succ i => simp [giantGroups] at hgroup
  · refine ⟨rfl, by decide, ?_⟩
    show 2 ^ 28 + 256 = totalInputSize [giantSection]
    rw [totalInputSize, List.getLast?_singleton, Option.map_some, Option.getD_some, giant_paddedLen]
    rfl
  · intro group hgroup
    obtain rfl := List.mem_singleton.mp hgroup
    constructor
    · exact Nat.dvd_zero _
    · have hoverlaps : SectionGroup.overlaps
          ⟨0, [giantSection], 0, 2 ^ 28 + 256, 0, 2 ^ 28 + 256⟩ giantSection = true := by
        rw [SectionGroup.overlaps, giant_paddedLen]
        decide
      rw [List.filter_cons_of_pos hoverlaps, List.filter_nil]
    · intro sec hsec _
      obtain rfl := List.mem_singleton.mp hsec
      rw [giant_paddedLen]
      exact ⟨Nat.le_refl _, Nat.le_refl _⟩
    · rfl
    · rfl

theorem giant_run : ∃ trace s,
    CompleteRun (listOffsetMap 256) (fun _ => 0) giantGroups ⟨32, 0, 32⟩ trace s := by
  have hfifo : (TaskSystem.fifo (act (listOffsetMap 256) fun _ => 0) 1000
      (initialResources (listOffsetMap 256) giantGroups ⟨32, 0, 32⟩) [.load none]).map
        (·.2.errors) = some none := by
    decide +kernel
  obtain ⟨⟨trace, s⟩, hrun, herrors⟩ := Option.map_eq_some_iff.mp hfifo
  exact ⟨trace, s, ⟨_, if_neg (List.cons_ne_nil _ _), TaskSystem.fifo_run hrun⟩, herrors⟩

/-- Any byte of a section that is merged alone and whole, past the first. -/
theorem ScheduleComplete.findString_alone {trace : List Merged} {s : SplitResources M} {data : Bytes}
    (h : ScheduleComplete hashBytes groups trace s) (hM : M.Lawful)
    (hplaced : PlacedFrom 0 [⟨data, 0, false⟩]) (hsplit : BlockSplit [⟨data, 0, false⟩] groups)
    {merged : MergedStringsSection M} (hmerged : addInputSections s = .ok merged) {offset : Nat}
    (hpos : 0 < offset) (hoffset : offset < data.length) :
    ∃ recorded, merged.stringOffset 0 = some recorded
      ∧ merged.findString 0 offset = .ok ⟨(recorded.val + offset) % 2 ^ 32⟩
      ∧ BucketOffset.new 0 (bucketOf hashBytes data) = .ok recorded := by
  have hp : ((0, data) : Piece) ∈ sectionPieces ⟨data, 0, false⟩ := List.mem_singleton_self _
  obtain ⟨bucket, hbucket⟩ := h.exists_bucketAfter (bucketOf hashBytes data).isLt
    (Nat.le_refl groups.length)
  obtain ⟨hfiled, hmem⟩ := h.bucket_strings hM hplaced hsplit hbucket
  have hlt : 0 < 0 + offset := by omega
  have hend : 0 + offset < 0 + data.length := by omega
  obtain ⟨recorded, before, after, hrecorded, hfind, hstrings, hnew⟩ :=
    h.findString_inside hM hplaced hsplit hmerged (List.mem_singleton_self _) hp hlt hend hbucket
  -- There is no other string that could come before.
  have hbefore : before = [] := by
    refine List.eq_nil_iff_forall_not_mem.mpr fun string hstring => ?_
    have hall : string ∈ bucketStrings hashBytes [⟨data, 0, false⟩] (bucketOf hashBytes data) := by
      rw [← hmem]
      simp [hstrings, hstring]
    have honly : string = data := by
      simp only [bucketStrings, allPieces, sectionPieces, List.flatMap_cons, List.flatMap_nil,
        Bool.false_eq_true, if_false, List.append_nil, List.map_cons, List.map_nil,
        Finset.mem_filter, List.mem_toFinset, List.mem_singleton] at hall
      exact hall.1
    have hnodup := hfiled.nodup
    rw [hstrings, List.nodup_append] at hnodup
    exact hnodup.2.2 string hstring data List.mem_cons_self honly
  subst hbefore
  exact ⟨recorded, hrecorded, by simpa using hfind, hnew⟩

theorem ScheduleComplete.alone_not_sound {trace : List Merged} {s : SplitResources M} {data : Bytes}
    (h : ScheduleComplete hashBytes groups trace s) (hM : M.Lawful)
    (hplaced : PlacedFrom 0 [⟨data, 0, false⟩]) (hsplit : BlockSplit [⟨data, 0, false⟩] groups)
    {merged : MergedStringsSection M} (hmerged : addInputSections s = .ok merged)
    (hlarge : 2 ^ 28 < data.length) : ¬merged.Sound hashBytes groups [⟨data, 0, false⟩] := by
  intro hsound
  obtain ⟨recorded, hrecorded, hfind, -⟩ :=
    h.findString_alone hM hplaced hsplit hmerged (Nat.two_pow_pos 28) hlarge
  obtain ⟨recorded', hrecorded', -, hinside⟩ := hsound.inside ⟨data, 0, false⟩
    (List.mem_singleton_self _) (0, data) (List.mem_singleton_self _) (2 ^ 28) (by simp)
    (by simpa using hlarge) _ hfind
  have hbound := BucketOffset.offsetInBucket_lt ⟨(recorded.val + 2 ^ 28) % 2 ^ 32⟩
  simp only [Nat.zero_add, Nat.sub_zero] at hinside
  omega

/-- The byte at the limit is in the middle of what the section's only entry stands for. A reference
to it ends up at the start of the next bucket. -/
theorem giant_not_sound : ∃ trace s merged,
    CompleteRun (listOffsetMap 256) (fun _ => 0) giantGroups ⟨32, 0, 32⟩ trace s
      ∧ addInputSections s = .ok merged ∧ merged.stringOffset 0 = some ⟨0⟩
      ∧ merged.findString 0 (2 ^ 28) = .ok ⟨2 ^ 28⟩
      ∧ ¬merged.Sound (fun _ => 0) giantGroups (groupMergeStringSections giant) := by
  obtain ⟨trace, s, hrun⟩ := giant_run
  obtain ⟨h, -⟩ := hrun.complete giantGroups_blockSplit.indexed greetings_pool
  obtain ⟨merged, hmerged, -⟩ := addInputSections_ok hrun.errors
  have hM := listOffsetMap_lawful 256
  have hplaced := groupMergeStringSections_placed giant
  have hsplit := giantGroups_blockSplit
  rw [giant_sections] at hplaced hsplit ⊢
  have hlarge : 2 ^ 28 < giantData.length := by
    rw [giantData_length]
    exact Nat.lt_succ_self _
  obtain ⟨recorded, hrecorded, hfind, hnew⟩ :=
    h.findString_alone hM hplaced hsplit hmerged (Nat.two_pow_pos 28) hlarge
  obtain rfl : recorded = ⟨0⟩ := (Except.ok.inj hnew).symm
  exact ⟨trace, s, merged, hrun, hmerged, hrecorded, hfind,
    h.alone_not_sound hM hplaced hsplit hmerged hlarge⟩

end JdxLinker
