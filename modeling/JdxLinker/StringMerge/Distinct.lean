import JdxLinker.StringMerge.References

/-!
# The distinct strings of a bucket

However large a bucket gets, it keeps one copy of each of its strings, in the order in which they
first came. What it counts and hands out are the sizes of the strings so far, modulo `2 ^ 32`.
-/

namespace JdxLinker

variable {M : OffsetMap} {hashBytes : Bytes → Nat} {sections : List StringMergeInputSection}
  {groups : List SectionGroup}

namespace MergeStringsSectionBucket

/-- A bucket's count and its hash map, as functions of the strings that it keeps. -/
structure Filed (bucket : MergeStringsSectionBucket) : Prop where
  next : bucket.nextOffset = bucket.bytes.length % 2 ^ 32
  nodup : bucket.strings.Nodup
  offsets : ∀ string offset, bucket.stringOffsets.lookup string = some offset
    ↔ ∃ before after, bucket.strings = before ++ string :: after
      ∧ offset = before.flatten.length % 2 ^ 32

theorem new_filed (i : Nat) : (MergeStringsSectionBucket.new i).Filed where
  next := rfl
  nodup := List.nodup_nil
  offsets string offset := by simp [MergeStringsSectionBucket.new]

theorem Filed.lookup_none {bucket : MergeStringsSectionBucket} (h : bucket.Filed) {string : Bytes}
    (hlookup : bucket.stringOffsets.lookup string = none) : string ∉ bucket.strings := by
  intro hmem
  obtain ⟨before, after, hstrings⟩ := List.append_of_mem hmem
  have hsome := (h.offsets string _).mpr ⟨before, after, hstrings, rfl⟩
  rw [hlookup] at hsome
  cases hsome

/-- A string splits a list without duplicates in one way. -/
theorem append_cons_inj {strings before before' after after' : List Bytes} {string : Bytes}
    (hnodup : strings.Nodup) (h : strings = before ++ string :: after)
    (h' : strings = before' ++ string :: after') : before = before' := by
  have hnot : string ∉ before := by
    rw [h, List.nodup_append] at hnodup
    exact fun hmem => hnodup.2.2 string hmem string List.mem_cons_self rfl
  have hnot' : string ∉ after := by
    rw [h, List.nodup_append, List.nodup_cons] at hnodup
    exact hnodup.2.1.1
  exact ((List.append_cons_inj_of_notMem hnot hnot').mp (h.symm.trans h')).1

/-- The string is among the strings afterwards, and the offset is the size of those before it. -/
theorem Filed.insertString {bucket : MergeStringsSectionBucket} (h : bucket.Filed) (string : Bytes) :
    (bucket.insertString string).2.Filed
      ∧ (bucket.insertString string).2.stringOffsets.lookup string
          = some (bucket.insertString string).1
      ∧ bucket.strings <+: (bucket.insertString string).2.strings
      ∧ ∀ s, s ∈ (bucket.insertString string).2.strings ↔ s ∈ bucket.strings ∨ s = string := by
  unfold MergeStringsSectionBucket.insertString
  cases hlookup : bucket.stringOffsets.lookup string with
  | some offset =>
      obtain ⟨before, after, hstrings, -⟩ := (h.offsets string offset).mp hlookup
      have hmem : string ∈ bucket.strings := by simp [hstrings]
      refine ⟨h, hlookup, List.prefix_refl _, fun s => ?_⟩
      constructor
      · exact Or.inl
      · rintro (hs | rfl)
        · exact hs
        · exact hmem
  | none =>
      have hnew := h.lookup_none hlookup
      have hbytes : (bucket.strings ++ [string]).flatten = bucket.bytes ++ string := by simp [bytes]
      refine ⟨⟨?_, ?_, fun s offset => ?_⟩, by simp, List.prefix_append _ _, by simp⟩
      · simp only [bytes, hbytes, List.length_append, h.next]
        omega
      · rw [List.nodup_append]
        exact ⟨h.nodup, List.nodup_singleton _, fun s hs t ht heq =>
          hnew (by rwa [← List.mem_singleton.mp ht, ← heq])⟩
      · rw [List.lookup_cons]
        by_cases hs : s = string
        · subst hs
          simp only [beq_self_eq_true, Option.some.injEq]
          constructor
          · intro heq
            exact ⟨bucket.strings, [], rfl, heq ▸ h.next⟩
          · rintro ⟨before, after, hsplit, rfl⟩
            have hnodup : (bucket.strings ++ [s]).Nodup := by
              rw [List.nodup_append]
              exact ⟨h.nodup, List.nodup_singleton _, fun t ht u hu heq =>
                hnew (by rwa [← List.mem_singleton.mp hu, ← heq])⟩
            rw [← append_cons_inj hnodup rfl hsplit]
            exact h.next
        · have hne : (s == string) = false := by simpa using hs
          simp only [hne]
          rw [h.offsets]
          constructor
          · rintro ⟨before, after, hsplit, rfl⟩
            exact ⟨before, after ++ [string], by simp [hsplit], rfl⟩
          · rintro ⟨before, after, hsplit, rfl⟩
            rcases List.eq_nil_or_concat after with rfl | ⟨after, last, rfl⟩
            · exact absurd (List.append_inj_right' hsplit rfl) (by simp [Ne.symm hs])
            · refine ⟨before, after, ?_, rfl⟩
              rw [List.concat_eq_append, ← List.cons_append, ← List.append_assoc] at hsplit
              exact List.append_inj_left' hsplit rfl

/-- The store of a string hands out where the bucket has the string. -/
def Kept (b : Nat) (strings : List Bytes) (string : StringToMerge) (store : OffsetStore) : Prop :=
  store.out = string.offsetOut ∧ ∃ before after, strings = before ++ string.string :: after
    ∧ BucketOffset.new (before.flatten.length % 2 ^ 32) b = .ok store.output

theorem Kept.mono {b : Nat} {strings strings' : List Bytes} {string : StringToMerge}
    {store : OffsetStore} (h : Kept b strings string store) (hle : strings <+: strings') :
    Kept b strings' string store := by
  obtain ⟨hout, before, after, rfl, hnew⟩ := h
  obtain ⟨more, rfl⟩ := hle
  exact ⟨hout, before, after ++ more, by simp, hnew⟩

theorem Filed.addString {bucket bucket' : MergeStringsSectionBucket} (h : bucket.Filed)
    {string : Bytes} {b : Nat} {o : BucketOffset} (hadd : bucket.addString string b = .ok (o, bucket')) :
    bucket'.Filed ∧ bucket.strings <+: bucket'.strings
      ∧ (∀ s, s ∈ bucket'.strings ↔ s ∈ bucket.strings ∨ s = string)
      ∧ ∃ before after, bucket'.strings = before ++ string :: after
        ∧ BucketOffset.new (before.flatten.length % 2 ^ 32) b = .ok o := by
  have hcounted : (bucket.countString string).Filed := ⟨h.next, h.nodup, h.offsets⟩
  obtain ⟨hfiled, hlookup, hleading, hmem⟩ := hcounted.insertString string
  simp only [MergeStringsSectionBucket.addString, bind, Except.bind] at hadd
  split at hadd
  · cases hadd
  · rename_i hnew
    cases hadd
    obtain ⟨before, after, hstrings, hoffset⟩ := (hfiled.offsets string _).mp hlookup
    exact ⟨hfiled, hleading, hmem, before, after, hstrings, hoffset ▸ hnew⟩

theorem Filed.processSplitOutput {strings : List StringToMerge}
    {bucket bucket' : MergeStringsSectionBucket} {stores : List OffsetStore} (h : bucket.Filed)
    (hprocess : bucket.processSplitOutput strings = .ok (bucket', stores)) :
    bucket'.Filed ∧ bucket.strings <+: bucket'.strings
      ∧ (∀ s, s ∈ bucket'.strings ↔ s ∈ bucket.strings ∨ s ∈ strings.map (·.string))
      ∧ List.Forall₂ (Kept bucket.index bucket'.strings) strings stores := by
  induction strings generalizing bucket bucket' stores with
  | nil =>
      cases hprocess
      exact ⟨h, List.prefix_refl _, by simp, .nil⟩
  | cons string strings ih =>
      simp only [MergeStringsSectionBucket.processSplitOutput, bind, Except.bind] at hprocess
      split at hprocess
      · cases hprocess
      · rename_i result hadd
        split at hprocess
        · cases hprocess
        · rename_i result' hrest
          cases hprocess
          obtain ⟨hfiled, hleading, hmem, before, after, hstrings, hnew⟩ := h.addString hadd
          obtain ⟨hfiled', hleading', hmem', hkept⟩ := ih hfiled hrest
          rw [(addString_extends hadd).index] at hkept
          refine ⟨hfiled', hleading.trans hleading', fun s => ?_, .cons ?_ hkept⟩
          · rw [hmem', hmem, List.map_cons, List.mem_cons, or_assoc]
          · exact Kept.mono ⟨rfl, before, after, hstrings, hnew⟩ hleading'

end MergeStringsSectionBucket

/-! ### Buckets after some groups -/

open MergeStringsSectionBucket in
theorem bucketAfter_filed {b k : Nat} {bucket : MergeStringsSectionBucket}
    (h : bucketAfter M hashBytes groups b k = .ok bucket) :
    bucket.Filed ∧ bucket.index = b ∧ ∀ s, s ∈ bucket.strings
      ↔ ∃ g < k, s ∈ (groupStrings M hashBytes groups g b).map (·.string) := by
  induction k generalizing bucket with
  | zero =>
      cases h
      exact ⟨new_filed b, rfl, by simp [MergeStringsSectionBucket.new]⟩
  | succ k ih =>
      obtain ⟨before, after, stores, hbefore, hprocess, rfl, -⟩ := bucketAfter_succ h
      obtain ⟨hfiled, hindex, hmem⟩ := ih hbefore
      obtain ⟨hfiled', -, hmem', -⟩ := hfiled.processSplitOutput hprocess
      refine ⟨⟨hfiled'.next, hfiled'.nodup, hfiled'.offsets⟩,
        (processSplitOutput_extends hprocess).index.trans hindex, fun s => ?_⟩
      show s ∈ after.strings ↔ _
      rw [hmem', hmem]
      constructor
      · rintro (⟨g, hg, hs⟩ | hs)
        · exact ⟨g, Nat.lt_succ_of_lt hg, hs⟩
        · exact ⟨k, Nat.lt_succ_self k, hs⟩
      · rintro ⟨g, hg, hs⟩
        rcases Nat.lt_succ_iff_lt_or_eq.mp hg with hlt | rfl
        · exact Or.inl ⟨g, hlt, hs⟩
        · exact Or.inr hs

theorem bucketAfter_prefix {b k n : Nat} {bucket bucket' : MergeStringsSectionBucket} (hle : k ≤ n)
    (h : bucketAfter M hashBytes groups b k = .ok bucket)
    (h' : bucketAfter M hashBytes groups b n = .ok bucket') :
    bucket.strings <+: bucket'.strings := by
  induction n generalizing bucket' with
  | zero =>
      obtain rfl : k = 0 := by omega
      obtain rfl := Except.ok.inj (h.symm.trans h')
      exact List.prefix_refl _
  | succ n ih =>
      rcases Nat.lt_or_ge k (n + 1) with hlt | hge
      · obtain ⟨before, after, stores, hbefore, hprocess, rfl, -⟩ := bucketAfter_succ h'
        have hfiled := (bucketAfter_filed hbefore).1
        exact (ih (by omega) hbefore).trans (hfiled.processSplitOutput hprocess).2.1
      · obtain rfl : k = n + 1 := by omega
        obtain rfl := Except.ok.inj (h.symm.trans h')
        exact List.prefix_refl _

/-! ### Complete runs -/

/-- The distinct strings that go into a bucket. -/
def bucketStrings (hashBytes : Bytes → Nat) (sections : List StringMergeInputSection) (b : Nat) :
    Finset Bytes :=
  ((allPieces sections).map (·.2)).toFinset.filter fun string => (bucketOf hashBytes string : Nat) = b

section Complete

variable {trace : List Merged} {s : SplitResources M}

theorem mem_groupStrings (hM : M.Lawful) (hplaced : PlacedFrom 0 sections)
    (hsplit : BlockSplit sections groups) {g b : Nat} {group : SectionGroup} {st : SplitState M}
    (hgroup : groups[g]? = some group) (hst : groupSplit M hashBytes groups g = some st)
    (string : Bytes) : string ∈ (groupStrings M hashBytes groups g b).map (·.string)
      ↔ ∃ p ∈ allPieces sections, group.inRange p = true
        ∧ (bucketOf hashBytes p.2 : Nat) = b ∧ p.2 = string := by
  rw [groupStrings_eq hM hplaced hsplit hgroup hst, List.map_map]
  simp [bucketPieces, and_assoc, and_comm, and_left_comm]

/-- A bucket ends up with each of its strings once. -/
theorem ScheduleComplete.bucket_strings (h : ScheduleComplete hashBytes groups trace s)
    (hM : M.Lawful) (hplaced : PlacedFrom 0 sections) (hsplit : BlockSplit sections groups) {b : Nat}
    {bucket : MergeStringsSectionBucket}
    (hbucket : bucketAfter M hashBytes groups b groups.length = .ok bucket) :
    bucket.Filed ∧ bucket.strings.toFinset = bucketStrings hashBytes sections b := by
  obtain ⟨hfiled, -, hmem⟩ := bucketAfter_filed hbucket
  refine ⟨hfiled, Finset.ext fun string => ?_⟩
  rw [List.mem_toFinset, hmem, bucketStrings, Finset.mem_filter, List.mem_toFinset, List.mem_map]
  constructor
  · rintro ⟨g, hg, hstring⟩
    obtain ⟨st, hst, -⟩ := h.shards g hg
    rw [mem_groupStrings hM hplaced hsplit (List.getElem?_eq_getElem hg) hst] at hstring
    obtain ⟨p, hp, -, hb, rfl⟩ := hstring
    exact ⟨⟨p, hp, rfl⟩, hb⟩
  · rintro ⟨⟨p, hp, rfl⟩, hb⟩
    obtain ⟨g, group, hgroup, hin⟩ := hsplit.ranges.exists_group (Nat.zero_le _)
      (allPieces_lt_total hplaced hp)
    have hg := (List.getElem?_eq_some_iff.mp hgroup).1
    obtain ⟨st, hst, -⟩ := h.shards g hg
    exact ⟨g, hg, (mem_groupStrings hM hplaced hsplit hgroup hst _).mpr ⟨p, hp, hin, hb, rfl⟩⟩

/-- What is stored for a piece says where its bucket has the string of the piece. -/
theorem ScheduleComplete.piece_kept (h : ScheduleComplete hashBytes groups trace s)
    (hM : M.Lawful) (hplaced : PlacedFrom 0 sections) (hsplit : BlockSplit sections groups)
    {bucket : MergeStringsSectionBucket} {p : Piece} (hp : p ∈ allPieces sections)
    (hbucket : bucketAfter M hashBytes groups (bucketOf hashBytes p.2) groups.length = .ok bucket) :
    ∃ store ∈ s.offsetStores, store.out.input = p.1
      ∧ ∃ before after, bucket.strings = before ++ p.2 :: after
        ∧ BucketOffset.new (before.flatten.length % 2 ^ 32) (bucketOf hashBytes p.2)
            = .ok store.output := by
  obtain ⟨g, group, st, -, hgroup, hin, hst, -, -⟩ := h.piece_store hM hplaced hsplit hp
  have hg := (List.getElem?_eq_some_iff.mp hgroup).1
  have hb := (bucketOf hashBytes p.2).isLt
  obtain ⟨reached, hreached⟩ := h.exists_bucketAfter (k := g + 1) hb hg
  obtain ⟨before, after, stores, hbefore, hprocess, rfl, hstores⟩ := bucketAfter_succ hreached
  obtain ⟨hfiled, hindex, -⟩ := bucketAfter_filed hbefore
  obtain ⟨-, -, -, hkept⟩ := hfiled.processSplitOutput hprocess
  have hstring : (⟨p.2, placeOf M st.shard p.1⟩ : StringToMerge)
      ∈ groupStrings M hashBytes groups g (bucketOf hashBytes p.2) := by
    rw [groupStrings_eq hM hplaced hsplit hgroup hst]
    refine List.mem_map.mpr ⟨p, ?_, rfl⟩
    simp [bucketPieces, List.mem_filter, hp, hin]
  obtain ⟨store, hstore, hstored⟩ := exists_of_forall₂ hkept hstring
  have hleading : after.advance.strings <+: bucket.strings :=
    bucketAfter_prefix hg hreached hbucket
  obtain ⟨hout, found⟩ := hstored.mono hleading
  refine ⟨store, (h.stores store).mpr ⟨_, hb, g, hg, hstores.symm ▸ hstore⟩, ?_, hindex ▸ found⟩
  rw [hout, placeOf_input]

end Complete

end JdxLinker
