import JdxLinker.StringMerge.Merge

/-!
# References into merged sections

An offset into an input section points into one piece. The search finds where that piece starts, the
bucket of the piece has a copy of it, and the reference goes as far into the copy as it went into
the piece.
-/

namespace JdxLinker

variable {M : OffsetMap} {hashBytes : Bytes → Nat} {sections : List StringMergeInputSection}
  {groups : List SectionGroup}

/-- The bytes up to and including the next null terminator. -/
def throughNul (data : Bytes) : Bytes :=
  data.take ((data.findIdx? (· == 0)).elim data.length (· + 1))

theorem throughNul_append {data : Bytes} (rest : Bytes) (h : 0 ∈ data) :
    throughNul (data ++ rest) = throughNul data := by
  obtain ⟨body, tail, rfl, hbody⟩ := List.eq_append_cons_of_mem h
  rw [throughNul, throughNul, List.append_assoc, List.cons_append,
    findIdx?_zero_append _ hbody, findIdx?_zero_append _ hbody]
  simp only [Option.elim_some]
  rw [List.take_append, List.take_append]
  simp

/-! ### The piece under an offset -/

/-- Every offset into terminated data is in a string that goes on to a terminator. -/
theorem stringPieces_cover {data : Bytes} (start : Nat) {offset : Nat}
    (hterminated : Terminated data) (hoffset : offset < data.length) :
    ∃ p ∈ stringPieces data start, p.1 ≤ start + offset ∧ start + offset < p.1 + p.2.length
      ∧ 0 ∈ p.2.drop (start + offset - p.1)
      ∧ ∃ rest, data.drop offset = p.2.drop (start + offset - p.1) ++ rest := by
  induction data using string_induction generalizing start offset with
  | none data hnone =>
      exact absurd (hterminated.mem (List.ne_nil_of_length_pos (by omega))) hnone
  | string body rest hbody ih =>
      rw [stringPieces_append rest hbody]
      have hsplit : body ++ 0 :: rest = (body ++ [0]) ++ rest := by simp
      have hlen : (body ++ [0]).length = body.length + 1 := by simp
      by_cases hfirst : offset ≤ body.length
      · have hsub : start + offset - start = offset := by omega
        refine ⟨(start, body ++ [0]), List.mem_cons_self, ?_, ?_, ?_, rest, ?_⟩
        · exact Nat.le_add_right _ _
        · simp only [hlen]
          omega
        · rw [hsub, List.drop_append_of_le_length hfirst]
          simp
        · rw [hsub, hsplit, List.drop_append_of_le_length (by omega)]
      · have hrest : offset - (body.length + 1) < rest.length := by
          simp only [List.length_append, List.length_cons] at hoffset
          omega
        obtain ⟨p, hp, hle, hlt, hzero, tail, htail⟩ :=
          ih (start + (body.length + 1)) hterminated.of_append hrest
        have hsame : start + (body.length + 1) + (offset - (body.length + 1)) = start + offset := by
          omega
        rw [hsame] at hle hlt hzero htail
        refine ⟨p, List.mem_cons_of_mem _ hp, hle, hlt, hzero, tail, ?_⟩
        rw [← htail, hsplit, List.drop_append, List.drop_eq_nil_of_le (by omega), List.nil_append,
          hlen]

theorem sectionPieces_cover {sec : StringMergeInputSection} {offset : Nat}
    (hterminated : Terminated sec.sectionData) (hoffset : offset < sec.sectionData.length) :
    ∃ p ∈ sectionPieces sec, p.1 ≤ sec.startInputOffset + offset
      ∧ sec.startInputOffset + offset < p.1 + p.2.length
      ∧ 0 ∈ p.2.drop (sec.startInputOffset + offset - p.1)
      ∧ ∃ rest, sec.sectionData.drop offset
          = p.2.drop (sec.startInputOffset + offset - p.1) ++ rest := by
  unfold sectionPieces
  split
  · exact stringPieces_cover _ hterminated hoffset
  · have hsub : sec.startInputOffset + offset - sec.startInputOffset = offset := by omega
    refine ⟨_, List.mem_singleton_self _, Nat.le_add_right _ _, by simpa using hoffset, ?_, [], ?_⟩
    · rw [hsub]
      refine (hterminated.drop offset).mem (List.ne_nil_of_length_pos ?_)
      rw [List.length_drop]
      omega
    · rw [hsub, List.append_nil]

/-- No other piece starts inside a piece. -/
theorem allPieces_apart {start : Nat} (hplaced : PlacedFrom start sections) {p q : Piece}
    (hp : p ∈ allPieces sections) (hq : q ∈ allPieces sections) (hlt : p.1 < q.1) :
    p.1 + p.2.length ≤ q.1 := by
  have hpairwise := List.pairwise_iff_getElem.mp (allPieces_disjoint hplaced)
  obtain ⟨i, hi, rfl⟩ := List.mem_iff_getElem.mp hp
  obtain ⟨j, hj, rfl⟩ := List.mem_iff_getElem.mp hq
  rcases Nat.lt_trichotomy i j with hij | rfl | hji
  · exact hpairwise i j hi hj hij
  · omega
  · have hle := hpairwise j i hj hi hji
    omega

/-! ### The search -/

theorem findSome?_range {α : Type} {f : Nat → Option α} {n j : Nat} {x : α} (hj : j < n)
    (hfound : f j = some x) (hbefore : ∀ i < j, f i = none) :
    (List.range n).findSome? f = some x := by
  have hsplit : List.range n = List.range j ++ j :: (List.range (n - (j + 1))).map (j + 1 + ·) := by
    conv_lhs => rw [show n = j + 1 + (n - (j + 1)) by omega]
    rw [List.range_add, List.range_succ, List.append_assoc]
    rfl
  have hnone : (List.range j).findSome? f = none := by
    rw [List.findSome?_eq_none_iff]
    exact fun i hi => hbefore i (List.mem_range.mp hi)
  rw [hsplit, List.findSome?_append, hnone, List.findSome?_cons, hfound]
  rfl

/-- Searching backwards from inside a piece adds the distance to what is recorded for its start. -/
theorem findString_mod {merged : MergedStringsSection M} {start offset k : Nat} {o : BucketOffset}
    (hstart : start ≤ k) (hk : k < start + offset) (hfound : merged.stringOffset k = some o)
    (hbetween : ∀ k', k < k' → k' ≤ start + offset → merged.stringOffset k' = none) :
    merged.findString start offset = .ok ⟨(o.val + (start + offset - k)) % 2 ^ 32⟩ := by
  unfold MergedStringsSection.findString
  have hsearch := findSome?_range (n := offset) (j := start + offset - k - 1)
    (f := fun j => (merged.stringOffset (start + (offset - (j + 1)))).map fun stringOffset =>
      (⟨(stringOffset.val + (j + 1)) % 2 ^ 32⟩ : BucketOffset))
    (x := ⟨(o.val + (start + offset - k)) % 2 ^ 32⟩) (by omega)
    (by
      have hdistance : start + offset - k - 1 + 1 = start + offset - k := by omega
      have hkey : start + (offset - (start + offset - k)) = k := by omega
      simp only [hdistance, hkey, hfound, Option.map_some])
    (by
      intro i hi
      rw [hbetween _ (by omega) (by omega)]
      rfl)
  simp only [hbetween _ hk (Nat.le_refl _), hsearch]

/-- Searching backwards from inside a piece finds the start of the piece. -/
theorem findString_eq {merged : MergedStringsSection M} {start offset k : Nat} {o : BucketOffset}
    (hstart : start ≤ k) (hk : k ≤ start + offset) (hfound : merged.stringOffset k = some o)
    (hbetween : ∀ k', k < k' → k' ≤ start + offset → merged.stringOffset k' = none)
    (hval : o.val + (start + offset - k) < 2 ^ 32) :
    merged.findString start offset = .ok ⟨o.val + (start + offset - k)⟩ := by
  rcases Nat.eq_or_lt_of_le hk with rfl | hlt
  · unfold MergedStringsSection.findString
    simp [hfound]
  · rw [findString_mod hstart hlt hfound hbetween, Nat.mod_eq_of_lt hval]

/-! ### The bytes of a bucket in the section -/

theorem bucketOffset_eq {buckets : List MergeStringsSectionBucket}
    (hlaid : ∀ bucket ∈ buckets, bucket.nextOffset = bucket.bytes.length) {i : Nat}
    (hi : i ≤ buckets.length) :
    bucketOffset buckets i = ((buckets.take i).flatMap (·.bytes)).length := by
  induction i with
  | zero => rfl
  | succ i ih =>
      have hget := List.getElem?_eq_getElem (Nat.lt_of_succ_le hi)
      rw [bucketOffset, ih (Nat.le_of_succ_le hi), List.take_succ_eq_append_getElem hi,
        List.flatMap_append, List.length_append, hget]
      simp [hlaid _ (List.getElem_mem (Nat.lt_of_succ_le hi))]

/-- The bytes of a bucket start at its offset. -/
theorem drop_writeMergedStrings {merged : MergedStringsSection M} {i : Nat}
    {bucket : MergeStringsSectionBucket}
    (hlaid : ∀ bucket ∈ merged.buckets, bucket.nextOffset = bucket.bytes.length)
    (hbucket : merged.buckets[i]? = some bucket) :
    ∃ rest, merged.writeMergedStrings.drop (bucketOffset merged.buckets i) = bucket.bytes ++ rest := by
  obtain ⟨hi, rfl⟩ := List.getElem?_eq_some_iff.mp hbucket
  have hsplit : merged.buckets = merged.buckets.take i ++ merged.buckets[i]
      :: merged.buckets.drop (i + 1) := by
    rw [List.getElem_cons_drop, List.take_append_drop]
  have hwrite : merged.writeMergedStrings = (merged.buckets.take i).flatMap (·.bytes)
      ++ (merged.buckets[i].bytes ++ (merged.buckets.drop (i + 1)).flatMap (·.bytes)) := by
    rw [← List.flatMap_cons, ← List.flatMap_append, ← hsplit]
    rfl
  rw [hwrite, bucketOffset_eq hlaid hi.le, List.drop_left]
  exact ⟨_, rfl⟩

/-! ### The copy of a piece -/

theorem bucketAfter_extends {b k n : Nat} {bucket bucket' : MergeStringsSectionBucket} (hle : k ≤ n)
    (h : bucketAfter M hashBytes groups b k = .ok bucket)
    (h' : bucketAfter M hashBytes groups b n = .ok bucket') :
    ∃ more, bucket'.bytes = bucket.bytes ++ more := by
  induction n generalizing bucket' with
  | zero =>
      obtain rfl : k = 0 := by omega
      obtain rfl := Except.ok.inj (h.symm.trans h')
      exact ⟨[], by simp⟩
  | succ n ih =>
      rcases Nat.lt_or_ge k (n + 1) with hlt | hge
      · obtain ⟨before, after, stores, hbefore, hprocess, rfl, -⟩ := bucketAfter_succ h'
        obtain ⟨more, hmore⟩ := ih (by omega) hbefore
        obtain ⟨more', hmore'⟩ :=
          (MergeStringsSectionBucket.processSplitOutput_extends hprocess).bytes
        refine ⟨more ++ more', ?_⟩
        rw [← List.append_assoc, ← hmore, ← hmore']
        rfl
      · obtain rfl : k = n + 1 := by omega
        obtain rfl := Except.ok.inj (h.symm.trans h')
        exact ⟨[], by simp⟩

theorem exists_of_forall₂ {α β : Type} {R : α → β → Prop} {l : List α} {l' : List β}
    (h : List.Forall₂ R l l') {a : α} (ha : a ∈ l) : ∃ b ∈ l', R a b := by
  induction h with
  | nil => simp at ha
  | cons hr _ ih =>
      rcases List.mem_cons.mp ha with rfl | ha
      · exact ⟨_, List.mem_cons_self, hr⟩
      · obtain ⟨b, hb, hr⟩ := ih ha
        exact ⟨b, List.mem_cons_of_mem _ hb, hr⟩

/-- Every piece has a copy in its bucket, at the offset that was stored for it. -/
theorem ScheduleComplete.piece_copy {trace : List Merged} {s : SplitResources M}
    (h : ScheduleComplete hashBytes groups trace s) (hM : M.Lawful)
    (hplaced : PlacedFrom 0 sections) (hsplit : BlockSplit sections groups)
    (hterminated : ∀ sec ∈ sections, Terminated sec.sectionData)
    (hsize : totalInputSize sections < 2 ^ 28) {p : Piece} (hp : p ∈ allPieces sections) :
    ∃ store ∈ s.offsetStores, ∃ bucket offset, store.out.input = p.1
      ∧ bucketAfter M hashBytes groups (bucketOf hashBytes p.2) groups.length = .ok bucket
      ∧ BucketOffset.new offset (bucketOf hashBytes p.2) = .ok store.output
      ∧ At bucket.bytes p.2 offset := by
  obtain ⟨g, group, st, -, hgroup, hin, hst, -, -⟩ := h.piece_store hM hplaced hsplit hp
  have hg := (List.getElem?_eq_some_iff.mp hgroup).1
  have hb := (bucketOf hashBytes p.2).isLt
  obtain ⟨before, hbefore, hok, hindex, hbytes⟩ := bucketAfter_terminated hashBytes
    hM hplaced hsplit hterminated hsize (bucketOf hashBytes p.2) hg.le
  have hfit := groupStrings_fit hashBytes hM hplaced hsplit hterminated
    (bucketOf hashBytes p.2) hg
  have hsmall : pieceBytes (piecesBefore sections groups (g + 1)) < 2 ^ 28 :=
    pieceBytes_filter_lt hplaced hsize _
  obtain ⟨after, stores, hprocess, -, -, hstored⟩ := hok.processSplitOutput
    (groupStrings M hashBytes groups g (bucketOf hashBytes p.2)) (by omega)
  have hstring : (⟨p.2, placeOf M st.shard p.1⟩ : StringToMerge)
      ∈ groupStrings M hashBytes groups g (bucketOf hashBytes p.2) := by
    rw [groupStrings_eq hM hplaced hsplit hgroup hst]
    refine List.mem_map.mpr ⟨p, ?_, rfl⟩
    simp [bucketPieces, List.mem_filter, hp, hin]
  obtain ⟨store, hstore, hout, offset, hnew, hat⟩ := exists_of_forall₂ hstored hstring
  have hstores : groupStores M hashBytes groups (bucketOf hashBytes p.2) g = stores := by
    simp only [groupStores, hbefore, hprocess]
  have hsucc : bucketAfter M hashBytes groups (bucketOf hashBytes p.2) (g + 1)
      = .ok after.advance := by
    simp only [bucketAfter, hbefore, bind, Except.bind, hprocess]
    rfl
  obtain ⟨bucket, hbucket⟩ := h.exists_bucketAfter (k := groups.length) hb (Nat.le_refl _)
  obtain ⟨more, hmore⟩ := bucketAfter_extends hg hsucc hbucket
  refine ⟨store, (h.stores store).mpr ⟨_, hb, g, hg, hstores.symm ▸ hstore⟩, bucket, offset, ?_,
    hbucket, hindex ▸ hnew, ?_⟩
  · rw [hout, placeOf_input]
  · rw [hmore]
    exact hat.append more

/-- Nothing is recorded for an offset inside a piece. -/
theorem ScheduleComplete.stringOffset_inside {trace : List Merged} {s : SplitResources M}
    (h : ScheduleComplete hashBytes groups trace s) (hM : M.Lawful)
    (hplaced : PlacedFrom 0 sections) (hsplit : BlockSplit sections groups)
    {merged : MergedStringsSection M} (hmerged : addInputSections s = .ok merged) {p : Piece}
    (hp : p ∈ allPieces sections) {k : Nat} (hlt : p.1 < k) (hk : k < p.1 + p.2.length) :
    merged.stringOffset k = none := by
  refine h.stringOffset_none hM hplaced hsplit hmerged fun store hstore hinput => ?_
  obtain ⟨q, hq, _, _, _, -, -, -, hplace, -⟩ := h.store_piece hM hplaced hsplit hstore
  rw [hplace, placeOf_input] at hinput
  have hapart := allPieces_apart hplaced hp hq (hinput ▸ hlt)
  omega

/-- The buckets of terminated input are laid out within the range of packed offsets. -/
theorem ScheduleComplete.bucket_laid {trace : List Merged} {s : SplitResources M}
    (h : ScheduleComplete hashBytes groups trace s) (hM : M.Lawful)
    (hplaced : PlacedFrom 0 sections) (hsplit : BlockSplit sections groups)
    (hterminated : ∀ sec ∈ sections, Terminated sec.sectionData)
    (hsize : totalInputSize sections < 2 ^ 28) {bucket : MergeStringsSectionBucket}
    (hbucket : bucket ∈ s.finishedBuckets) :
    bucket.nextOffset = bucket.bytes.length ∧ bucket.nextOffset < 2 ^ 28 := by
  obtain ⟨bucket', hbucket', hok, -, hbytes⟩ := bucketAfter_terminated hashBytes
    hM hplaced hsplit hterminated hsize bucket.index (Nat.le_refl groups.length)
  obtain rfl := Except.ok.inj ((h.content bucket hbucket).symm.trans hbucket')
  have hsmall : pieceBytes (piecesBefore sections groups groups.length) < 2 ^ 28 :=
    pieceBytes_filter_lt hplaced hsize _
  have hle := hok.le
  exact ⟨hok.laid.nextOffset, by omega⟩

/-- References keep what they point at. Terminated input is merged without an error in any order,
and for every offset into every section the position that the search returns is in the bytes of its
bucket and has the same bytes up to the next terminator. -/
theorem string_merge_preserves_references {splitParallelism : Nat}
    {candidates : List StringMergeSectionExtra} {pool s₀} {trace : List Merged}
    {s : SplitResources M} (hM : M.Lawful)
    (hterminated : ∀ sec ∈ candidates, sec.sectionData ≠ [] → sec.sectionData.getLast? = some 0)
    (hsize : totalInputSize (groupMergeStringSections candidates) < 2 ^ 28)
    (hsplit : BlockSplit (groupMergeStringSections candidates) groups)
    (hpool : pool.Shared splitParallelism) (hcreate : createSplitResources M groups pool = some s₀)
    (hrun : ScheduleRun M hashBytes s₀ trace ⟨s, 0⟩) :
    ∃ merged, addInputSections s = .ok merged
      ∧ ∀ sec ∈ groupMergeStringSections candidates, ∀ offset < sec.sectionData.length,
        ∃ found bucket base, merged.findString sec.startInputOffset offset = .ok found
          ∧ merged.buckets[found.bucket]? = some bucket
          ∧ merged.bucketOffsets[found.bucket]? = some base
          ∧ found.offsetInBucket < bucket.len
          ∧ (merged.writeMergedStrings.drop base).take bucket.len = bucket.strings.flatten
          ∧ throughNul (merged.writeMergedStrings.drop (base + found.offsetInBucket))
              = throughNul (sec.sectionData.drop offset) := by
  have hplaced := groupMergeStringSections_placed candidates
  have hdata : ∀ sec ∈ groupMergeStringSections candidates, Terminated sec.sectionData := by
    intro sec hsec
    obtain ⟨extra, hextra, hsame⟩ := groupMergeStringSections_data hsec
    rw [hsame]
    exact or_iff_not_imp_left.mpr (hterminated extra hextra)
  obtain ⟨hgroups, rfl⟩ := createSplitResources_some hcreate
  have herrors := no_errors hM hplaced hsplit hdata hsize hgroups hpool.idle hrun
  have hcompleteRun : CompleteRun M hashBytes groups pool trace s :=
    ⟨⟨_, hcreate, hrun⟩, herrors⟩
  obtain ⟨hcomplete, -⟩ := hcompleteRun.complete hsplit.indexed hpool
  obtain ⟨merged, hmerged, hbuckets, hoffsets⟩ := addInputSections_ok herrors
  have hlaid : ∀ bucket ∈ merged.buckets,
      bucket.nextOffset = bucket.bytes.length ∧ bucket.nextOffset < 2 ^ 28 := by
    intro bucket hbucket
    rw [hbuckets, (List.mergeSort_perm _ _).mem_iff] at hbucket
    exact hcomplete.bucket_laid hM hplaced hsplit hdata hsize hbucket
  refine ⟨merged, hmerged, fun sec hsec offset hoffset => ?_⟩
  obtain ⟨p, hpsec, hle, hlt, hzero, rest, hrest⟩ := sectionPieces_cover (hdata sec hsec) hoffset
  have hp : p ∈ allPieces (groupMergeStringSections candidates) :=
    List.mem_flatMap.mpr ⟨sec, hsec, hpsec⟩
  have hstart := (sectionPieces_bounds (hplaced.nonempty sec hsec) hpsec).1
  obtain ⟨store, hstore, bucket, place, hinput, hbucket, hnew, hat⟩ :=
    hcomplete.piece_copy hM hplaced hsplit hdata hsize hp
  have hb := (bucketOf hashBytes p.2).isLt
  have hget : merged.buckets[(bucketOf hashBytes p.2 : Nat)]? = some bucket :=
    hbuckets ▸ hcomplete.sorted_getElem? hbucket hb
  obtain ⟨hbytes, hsmall⟩ := hlaid bucket (List.mem_of_getElem? hget)
  have hend := hat.le_length
  obtain ⟨-, hval⟩ := BucketOffset.new_val hnew hb
  -- The reference goes `inside` bytes into the piece, and into its copy.
  obtain ⟨inside, hinside⟩ : ∃ inside, inside = sec.startInputOffset + offset - p.1 := ⟨_, rfl⟩
  have hin : place + inside < 2 ^ 28 := by omega
  have hval' : store.output.val + inside
      = (bucketOf hashBytes p.2 : Nat) * 2 ^ 28 + (place + inside) := by omega
  have hfind : merged.findString sec.startInputOffset offset = .ok ⟨store.output.val + inside⟩ := by
    rw [hinside]
    refine findString_eq hstart hle ?_ (fun k hk hk' => ?_) ?_
    · rw [← hinput]
      exact hcomplete.stringOffset_store hM hplaced hsplit hmerged hstore
    · exact hcomplete.stringOffset_inside hM hplaced hsplit hmerged hp hk (by omega)
    · have hb' : (bucketOf hashBytes p.2 : Nat) < 16 := hb
      omega
  have hfoundBucket : (⟨store.output.val + inside⟩ : BucketOffset).bucket = bucketOf hashBytes p.2 :=
    BucketOffset.bucket_eq hin hval'
  have hfoundOffset : (⟨store.output.val + inside⟩ : BucketOffset).offsetInBucket = place + inside :=
    BucketOffset.offsetInBucket_eq hin hval'
  obtain ⟨more, hwrite⟩ := drop_writeMergedStrings (fun b hb => (hlaid b hb).1) hget
  refine ⟨⟨store.output.val + inside⟩, bucket, bucketOffset merged.buckets (bucketOf hashBytes p.2),
    hfind, ?_, ?_, ?_, ?_, ?_⟩
  · rw [hfoundBucket, hget]
  · rw [hfoundBucket, hoffsets, List.getElem?_map, List.getElem?_range hb]
    rfl
  · rw [hfoundOffset, MergeStringsSectionBucket.len]
    omega
  · rw [hwrite, MergeStringsSectionBucket.len, hbytes, List.take_left]
    rfl
  · obtain ⟨after, hafter⟩ := hat.drop inside (by omega)
    rw [hfoundOffset, ← List.drop_drop, hwrite, List.drop_append_of_le_length (by omega), hafter,
      List.append_assoc, hrest, ← hinside]
    rw [← hinside] at hzero
    rw [throughNul_append _ hzero, throughNul_append _ hzero]

theorem string_merge_preserves_references_greetings : ∃ trace s merged,
    CompleteRun (listOffsetMap 256) List.length greetingGroups ⟨32, 0, 32⟩ trace s
      ∧ addInputSections s = .ok merged
      ∧ ∃ found base, merged.findString 256 1 = .ok found
        ∧ merged.bucketOffsets[found.bucket]? = some base
        ∧ throughNul (merged.writeMergedStrings.drop (base + found.offsetInBucket)) = [105, 0] := by
  obtain ⟨trace, s, hrun⟩ := greetings_run
  obtain ⟨s₀, hcreate, hschedule⟩ := hrun.run
  obtain ⟨merged, hmerged, hfind⟩ := string_merge_preserves_references (listOffsetMap_lawful 256)
    (by decide) (by decide) greetingGroups_blockSplit greetings_pool hcreate hschedule
  obtain ⟨found, bucket, base, hfound, -, hbase, -, -, hbytes⟩ :=
    hfind ⟨[104, 105, 0], 256, true⟩ (by decide) 1 (by decide)
  exact ⟨trace, s, merged, hrun, hmerged, found, base, hfound, hbase, hbytes.trans (by decide)⟩

end JdxLinker
