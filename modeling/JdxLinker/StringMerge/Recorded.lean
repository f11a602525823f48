import JdxLinker.StringMerge.Completion
import JdxLinker.StringMerge.Content
import JdxLinker.StringMerge.Pieces

/-!
# The recorded offsets

A complete run stores one output offset for every piece of the input, at the place that its group
reserved, and nothing else. Since the pieces lie apart, no two stores are for the same input offset.
-/

namespace JdxLinker

variable {M : OffsetMap} {hashBytes : Bytes → Nat} {sections : List StringMergeInputSection}
  {groups : List SectionGroup}

/-! ### Ranges -/

theorem RangesFrom.pairwise {start total : Nat} (h : RangesFrom start total groups) :
    groups.Pairwise fun a b => a.rangeEnd ≤ b.rangeStart := by
  induction groups generalizing start with
  | nil => exact List.Pairwise.nil
  | cons group groups ih =>
      obtain ⟨-, -, hrest⟩ := h
      exact List.pairwise_cons.mpr ⟨hrest.le_start, ih hrest⟩

theorem RangesFrom.index_unique {start total g g' : Nat} {group group' : SectionGroup} {p : Piece}
    (h : RangesFrom start total groups) (hg : groups[g]? = some group)
    (hg' : groups[g']? = some group') (hp : group.inRange p = true)
    (hp' : group'.inRange p = true) : g = g' := by
  obtain ⟨hlt, rfl⟩ := List.getElem?_eq_some_iff.mp hg
  obtain ⟨hlt', rfl⟩ := List.getElem?_eq_some_iff.mp hg'
  have hpairwise := List.pairwise_iff_getElem.mp h.pairwise
  simp only [SectionGroup.inRange, Bool.and_eq_true, decide_eq_true_eq] at hp hp'
  rcases Nat.lt_trichotomy g g' with hless | heq | hmore
  · have hle := hpairwise g g' hlt hlt' hless
    omega
  · exact heq
  · have hle := hpairwise g' g hlt' hlt hmore
    omega

theorem RangesFrom.exists_group {start total : Nat} {p : Piece} (h : RangesFrom start total groups)
    (hstart : start ≤ p.1) (hend : p.1 < total) :
    ∃ (g : Nat) (group : SectionGroup), groups[g]? = some group ∧ group.inRange p = true := by
  induction groups generalizing start with
  | nil =>
      have heq : start = total := h
      omega
  | cons group groups ih =>
      obtain ⟨hs, hlt, hrest⟩ := h
      by_cases hin : p.1 < group.rangeEnd
      · exact ⟨0, group, rfl, by simp [SectionGroup.inRange, hs, hstart, hin]⟩
      · obtain ⟨g, group', hg, hp⟩ := ih hrest (Nat.le_of_not_lt hin)
        exact ⟨g + 1, group', by simpa using hg, hp⟩

theorem PlacedFrom.end_le_totalInputSize {start : Nat} {sec : StringMergeInputSection}
    (h : PlacedFrom start (sec :: sections)) :
    start + sec.paddedLen ≤ totalInputSize (sec :: sections) := by
  induction sections generalizing start sec with
  | nil => simp [totalInputSize, h.1]
  | cons next rest ih =>
      have htotal : totalInputSize (sec :: next :: rest) = totalInputSize (next :: rest) := by
        simp [totalInputSize, List.getLast?_cons]
      have hnext := ih h.2.2
      omega

theorem PlacedFrom.end_le_total {start : Nat} (h : PlacedFrom start sections)
    {sec : StringMergeInputSection} (hsec : sec ∈ sections) :
    sec.startInputOffset + sec.paddedLen ≤ totalInputSize sections := by
  induction sections generalizing start with
  | nil => simp at hsec
  | cons s rest ih =>
      obtain ⟨hstart, hne, hrest⟩ := h
      rcases List.mem_cons.mp hsec with rfl | hsec
      · have hend : PlacedFrom start (sec :: rest) := ⟨hstart, hne, hrest⟩
        exact hstart ▸ hend.end_le_totalInputSize
      · cases rest with
        | nil => simp at hsec
        | cons next rest =>
            have htotal : totalInputSize (s :: next :: rest) = totalInputSize (next :: rest) := by
              simp [totalInputSize, List.getLast?_cons]
            rw [htotal]
            exact ih hrest hsec

theorem allPieces_lt_total {start : Nat} (hplaced : PlacedFrom start sections) {p : Piece}
    (hp : p ∈ allPieces sections) : p.1 < totalInputSize sections := by
  obtain ⟨sec, hsec, hp⟩ := List.mem_flatMap.mp hp
  have hne := hplaced.nonempty sec hsec
  have hbounds := sectionPieces_bounds hne hp
  have hpos := List.length_pos_of_ne_nil hbounds.2.2
  have hpadded := (paddedLen_bounds sec).1
  have hend := hplaced.end_le_total hsec
  omega

/-! ### Groups that were split -/

/-- The pieces of group `group` for bucket `b`. -/
def bucketPieces (hashBytes : Bytes → Nat) (sections : List StringMergeInputSection)
    (group : SectionGroup) (b : Nat) : List Piece :=
  ((allPieces sections).filter group.inRange).filter fun p => (bucketOf hashBytes p.2 : Nat) = b

theorem groupSplit_some {g : Nat} {st : SplitState M}
    (h : groupSplit M hashBytes groups g = some st) :
    ∃ group, groups[g]? = some group ∧ splitGroup M hashBytes group = .ok st := by
  obtain ⟨group, hgroup, hsplit⟩ := Option.bind_eq_some_iff.mp h
  refine ⟨group, hgroup, ?_⟩
  cases hres : splitGroup M hashBytes group with
  | error e => simp [hres, Except.toOption] at hsplit
  | ok st' =>
      simp only [hres, Except.toOption, Option.some.injEq] at hsplit
      rw [hsplit]

theorem groupStrings_eq (hM : M.Lawful) (hplaced : PlacedFrom 0 sections)
    (hsplit : BlockSplit sections groups) {g b : Nat} {group : SectionGroup} {st : SplitState M}
    (hgroup : groups[g]? = some group) (hst : groupSplit M hashBytes groups g = some st) :
    groupStrings M hashBytes groups g b = (bucketPieces hashBytes sections group b).map
      fun p => ⟨p.2, placeOf M st.shard p.1⟩ := by
  obtain ⟨group', hgroup', hok⟩ := groupSplit_some hst
  obtain rfl : group = group' := Option.some.inj (hgroup.symm.trans hgroup')
  have hinserted := splitGroup_inserted hM
    (hsplit.group group (List.mem_of_getElem? hgroup)) hplaced hok
  rw [groupStrings, hst]
  exact hinserted.buckets b

/-- A bucket that got through `k + 1` groups got through the last of them. -/
theorem bucketAfter_succ {b k : Nat} {bucket : MergeStringsSectionBucket}
    (h : bucketAfter M hashBytes groups b (k + 1) = .ok bucket) :
    ∃ before after stores, bucketAfter M hashBytes groups b k = .ok before
      ∧ before.processSplitOutput (groupStrings M hashBytes groups k b) = .ok (after, stores)
      ∧ bucket = after.advance ∧ groupStores M hashBytes groups b k = stores := by
  simp only [bucketAfter, bind, Except.bind] at h
  split at h
  · cases h
  · rename_i before hbefore
    split at h
    · cases h
    · rename_i result hresult
      cases h
      refine ⟨before, result.1, result.2, hbefore, hresult, rfl, ?_⟩
      simp only [groupStores, hbefore, hresult]

theorem bucketAfter_le {b k n : Nat} {bucket : MergeStringsSectionBucket} (hle : k ≤ n)
    (h : bucketAfter M hashBytes groups b n = .ok bucket) :
    ∃ before, bucketAfter M hashBytes groups b k = .ok before := by
  induction n generalizing bucket with
  | zero =>
      obtain rfl : k = 0 := by omega
      exact ⟨bucket, h⟩
  | succ n ih =>
      rcases Nat.lt_or_ge k (n + 1) with hlt | hge
      · obtain ⟨before, _, _, hbefore, _⟩ := bucketAfter_succ h
        exact ih (by omega) hbefore
      · obtain rfl : k = n + 1 := by omega
        exact ⟨bucket, h⟩

/-- The stores of a group for a bucket go where its pieces for the bucket say. -/
theorem groupStores_out (hM : M.Lawful) (hplaced : PlacedFrom 0 sections)
    (hsplit : BlockSplit sections groups) {g b : Nat} {group : SectionGroup} {st : SplitState M}
    {bucket : MergeStringsSectionBucket} (hgroup : groups[g]? = some group)
    (hst : groupSplit M hashBytes groups g = some st)
    (hbucket : bucketAfter M hashBytes groups b (g + 1) = .ok bucket) :
    (groupStores M hashBytes groups b g).map (·.out)
      = (bucketPieces hashBytes sections group b).map fun p => placeOf M st.shard p.1 := by
  obtain ⟨before, after, stores, -, hprocess, -, hstores⟩ := bucketAfter_succ hbucket
  rw [hstores, MergeStringsSectionBucket.processSplitOutput_out hprocess,
    groupStrings_eq hM hplaced hsplit hgroup hst, List.map_map]
  rfl

/-! ### Complete runs -/

/-- The input offset that a store is for. -/
def OffsetOut.input : OffsetOut → Nat
  | .inShard k | .overflow k => k

theorem placeOf_input (shard : M.Shard) (k : Nat) : (placeOf M shard k).input = k := by
  unfold placeOf
  split <;> rfl

section Complete

variable {trace : List Merged} {s : SplitResources M}

theorem ScheduleComplete.exists_bucketAfter (h : ScheduleComplete hashBytes groups trace s) {b k : Nat}
    (hb : b < mergeStringBuckets) (hk : k ≤ groups.length) :
    ∃ bucket, bucketAfter M hashBytes groups b k = .ok bucket := by
  have hmem := Multiset.mem_range.mpr hb
  rw [← h.buckets] at hmem
  obtain ⟨bucket, hbucket, rfl⟩ := Multiset.mem_map.mp hmem
  exact bucketAfter_le hk (h.content bucket (Multiset.mem_coe.mp hbucket))

/-- Every store is for a piece, at the place that was reserved for it. -/
theorem ScheduleComplete.store_piece (h : ScheduleComplete hashBytes groups trace s)
    (hM : M.Lawful) (hplaced : PlacedFrom 0 sections) (hsplit : BlockSplit sections groups)
    {store : OffsetStore} (hstore : store ∈ s.offsetStores) :
    ∃ p ∈ allPieces sections, ∃ g group st, groups[g]? = some group ∧ group.inRange p = true
      ∧ groupSplit M hashBytes groups g = some st ∧ store.out = placeOf M st.shard p.1
      ∧ store ∈ groupStores M hashBytes groups (bucketOf hashBytes p.2) g := by
  obtain ⟨b, hb, g, hg, hmem⟩ := (h.stores store).mp hstore
  obtain ⟨st, hst, -⟩ := h.shards g hg
  have hgroup := List.getElem?_eq_getElem hg
  obtain ⟨bucket, hbucket⟩ := h.exists_bucketAfter (k := g + 1) hb hg
  have hout : store.out ∈ (groupStores M hashBytes groups b g).map (·.out) :=
    List.mem_map_of_mem hmem
  rw [groupStores_out hM hplaced hsplit hgroup hst hbucket] at hout
  obtain ⟨p, hp, hplace⟩ := List.mem_map.mp hout
  simp only [bucketPieces, List.mem_filter, decide_eq_true_eq] at hp
  obtain ⟨⟨hp, hin⟩, rfl⟩ := hp
  exact ⟨p, hp, g, groups[g], st, hgroup, hin, hst, hplace.symm, hmem⟩

/-- Every piece has a store. -/
theorem ScheduleComplete.piece_store (h : ScheduleComplete hashBytes groups trace s)
    (hM : M.Lawful) (hplaced : PlacedFrom 0 sections) (hsplit : BlockSplit sections groups)
    {p : Piece} (hp : p ∈ allPieces sections) :
    ∃ g group st store, groups[g]? = some group ∧ group.inRange p = true
      ∧ groupSplit M hashBytes groups g = some st ∧ store.out = placeOf M st.shard p.1
      ∧ store ∈ s.offsetStores := by
  obtain ⟨g, group, hgroup, hin⟩ := hsplit.ranges.exists_group (Nat.zero_le _)
    (allPieces_lt_total hplaced hp)
  have hg := (List.getElem?_eq_some_iff.mp hgroup).1
  obtain ⟨st, hst, -⟩ := h.shards g hg
  have hb := (bucketOf hashBytes p.2).isLt
  obtain ⟨bucket, hbucket⟩ := h.exists_bucketAfter (k := g + 1) hb hg
  have hout := groupStores_out hM hplaced hsplit hgroup hst hbucket
  have hplace : placeOf M st.shard p.1 ∈ (groupStores M hashBytes groups
      (bucketOf hashBytes p.2) g).map (·.out) := by
    rw [hout]
    refine List.mem_map.mpr ⟨p, ?_, rfl⟩
    simp [bucketPieces, List.mem_filter, hp, hin]
  obtain ⟨store, hstore, heq⟩ := List.mem_map.mp hplace
  exact ⟨g, group, st, store, hgroup, hin, hst, heq, (h.stores store).mpr ⟨_, hb, g, hg, hstore⟩⟩

theorem allPieces_inj {start : Nat} (hplaced : PlacedFrom start sections) {p q : Piece}
    (hp : p ∈ allPieces sections) (hq : q ∈ allPieces sections) (heq : p.1 = q.1) : p = q := by
  have hnodup : ((allPieces sections).map (·.1)).Nodup :=
    List.pairwise_map.mpr ((allPieces_increasing hplaced).imp Nat.ne_of_lt)
  exact List.inj_on_of_nodup_map hnodup hp hq heq

/-- No two stores are for the same input offset. -/
theorem ScheduleComplete.store_unique (h : ScheduleComplete hashBytes groups trace s)
    (hM : M.Lawful) (hplaced : PlacedFrom 0 sections) (hsplit : BlockSplit sections groups)
    {store store' : OffsetStore} (hstore : store ∈ s.offsetStores)
    (hstore' : store' ∈ s.offsetStores) (heq : store.out.input = store'.out.input) :
    store = store' := by
  obtain ⟨p, hp, g, group, st, hgroup, hin, hst, hout, hmem⟩ :=
    h.store_piece hM hplaced hsplit hstore
  obtain ⟨p', hp', g', group', st', hgroup', hin', hst', hout', hmem'⟩ :=
    h.store_piece hM hplaced hsplit hstore'
  rw [hout, hout', placeOf_input, placeOf_input] at heq
  obtain rfl := allPieces_inj hplaced hp hp' heq
  obtain rfl := hsplit.ranges.index_unique hgroup hgroup' hin hin'
  have hg := (List.getElem?_eq_some_iff.mp hgroup).1
  obtain ⟨bucket, hbucket⟩ := h.exists_bucketAfter (k := g + 1) (bucketOf hashBytes p.2).isLt hg
  have houts := groupStores_out hM hplaced hsplit hgroup hst hbucket
  have hinputs : (groupStores M hashBytes groups (bucketOf hashBytes p.2) g).map (·.out.input)
      = (bucketPieces hashBytes sections group (bucketOf hashBytes p.2)).map (·.1) := by
    have hmap := congrArg (List.map OffsetOut.input) houts
    rw [List.map_map, List.map_map] at hmap
    refine hmap.trans (List.map_congr_left fun q _ => placeOf_input st.shard q.1)
  have hnodup : ((groupStores M hashBytes groups (bucketOf hashBytes p.2) g).map
      (·.out.input)).Nodup := by
    rw [hinputs]
    exact List.pairwise_map.mpr
      (((allPieces_increasing hplaced).filter _).filter _ |>.imp Nat.ne_of_lt)
  refine List.inj_on_of_nodup_map hnodup hmem hmem' ?_
  rw [hout, hout', placeOf_input, placeOf_input]

end Complete

end JdxLinker
