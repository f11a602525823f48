import JdxLinker.StringMerge.Lookup

/-!
# Merging strings

Whatever the order of the tasks, a merge without errors gives every bucket every group's strings
once and in order, and so the same merged section. Terminated input is merged without errors, and
what a reference finds in the merged section is what it pointed at in the input.
-/

namespace JdxLinker

open TaskSystem

variable {M : OffsetMap} {hashBytes : Bytes → Nat} {sections : List StringMergeInputSection}
  {groups : List SectionGroup}

/-! ### The buckets in order -/

section Buckets

variable {trace : List Merged} {s : SplitResources M}

theorem ScheduleComplete.sorted_index (h : ScheduleComplete hashBytes groups trace s) :
    (s.finishedBuckets.mergeSort fun a b => a.index ≤ b.index).map (·.index)
      = List.range mergeStringBuckets := by
  have hperm : ((s.finishedBuckets.mergeSort fun a b => a.index ≤ b.index).map (·.index)).Perm
      (List.range mergeStringBuckets) :=
    ((List.mergeSort_perm _ _).map _).trans (Multiset.coe_eq_coe.mp h.buckets)
  have hsorted : ((s.finishedBuckets.mergeSort fun a b => a.index ≤ b.index).map
      (·.index)).Pairwise (· ≤ ·) := by
    refine List.pairwise_map.mpr (List.Pairwise.imp ?_ (List.pairwise_mergeSort ?_ ?_ _))
    · intro a b hab
      simpa using hab
    · intro a b c hab hbc
      simp only [decide_eq_true_eq] at *
      exact Nat.le_trans hab hbc
    · intro a b
      simpa using Nat.le_total a.index b.index
  exact hperm.eq_of_pairwise (fun a b _ _ hab hba => Nat.le_antisymm hab hba) hsorted
    List.pairwise_le_range

theorem ScheduleComplete.sorted_getElem? (h : ScheduleComplete hashBytes groups trace s) {i : Nat}
    {bucket : MergeStringsSectionBucket}
    (hbucket : bucketAfter M hashBytes groups i groups.length = .ok bucket)
    (hi : i < mergeStringBuckets) :
    (s.finishedBuckets.mergeSort fun a b => a.index ≤ b.index)[i]? = some bucket := by
  have hindex := congrArg (·[i]?) h.sorted_index
  simp only [List.getElem?_map, List.getElem?_range hi] at hindex
  obtain ⟨found, hfound, rfl⟩ := Option.map_eq_some_iff.mp hindex
  have hmem : found ∈ s.finishedBuckets :=
    (List.mergeSort_perm _ _).mem_iff.mp (List.mem_of_getElem? hfound)
  have hcontent := h.content found hmem
  rw [hbucket] at hcontent
  rw [hfound, Except.ok.inj hcontent]

theorem ScheduleComplete.sorted_eq {trace' : List Merged} {s' : SplitResources M}
    (h : ScheduleComplete hashBytes groups trace s) (h' : ScheduleComplete hashBytes groups trace' s') :
    (s.finishedBuckets.mergeSort fun a b => a.index ≤ b.index)
      = s'.finishedBuckets.mergeSort fun a b => a.index ≤ b.index := by
  have hlength : ∀ {t : List Merged} {s : SplitResources M}, ScheduleComplete hashBytes groups t s →
      (s.finishedBuckets.mergeSort fun a b => a.index ≤ b.index).length = mergeStringBuckets := by
    intro t s h
    have hlength := congrArg List.length h.sorted_index
    simpa using hlength
  refine List.ext_getElem? fun i => ?_
  by_cases hi : i < mergeStringBuckets
  · obtain ⟨bucket, hbucket⟩ := h.exists_bucketAfter hi (Nat.le_refl _)
    rw [h.sorted_getElem? hbucket hi, h'.sorted_getElem? hbucket hi]
  · rw [List.getElem?_eq_none, List.getElem?_eq_none]
    · rw [hlength h']
      exact Nat.le_of_not_lt hi
    · rw [hlength h]
      exact Nat.le_of_not_lt hi

end Buckets

/-! ### Complete runs -/

/-- A run that went on until no task was left, and reported no error. -/
structure CompleteRun (M : OffsetMap) (hashBytes : Bytes → Nat) (groups : List SectionGroup)
    (pool : ReusePool) (trace : List Merged) (s : SplitResources M) : Prop where
  run : ∃ s₀, createSplitResources M groups pool = some s₀
    ∧ ScheduleRun M hashBytes s₀ trace ⟨s, 0⟩
  errors : s.errors = none

theorem createSplitResources_some {pool : ReusePool} {s₀ : SplitResources M}
    (h : createSplitResources M groups pool = some s₀) :
    groups ≠ [] ∧ s₀ = initialResources M groups pool := by
  unfold createSplitResources at h
  split at h
  · cases h
  · rename_i hne
    exact ⟨hne, (Option.some.inj h).symm⟩

theorem CompleteRun.complete {splitParallelism : Nat} {pool : ReusePool} {trace : List Merged}
    {s : SplitResources M} (h : CompleteRun M hashBytes groups pool trace s)
    (hindexed : IndexedGroups groups) (hpool : pool.Shared splitParallelism) :
    ScheduleComplete hashBytes groups trace s ∧ s.reusePool.capacity = pool.capacity := by
  obtain ⟨s₀, hcreate, hrun⟩ := h.run
  obtain ⟨hgroups, rfl⟩ := createSplitResources_some hcreate
  obtain ⟨hinv, hcapacity⟩ := hrun.inv hgroups hindexed hpool.idle
  exact ⟨(hinv h.errors).complete hindexed (hcapacity ▸ hpool.le_capacity), hcapacity⟩

theorem addInputSections_ok {s : SplitResources M} (h : s.errors = none) :
    ∃ merged, addInputSections s = .ok merged
      ∧ merged.buckets = s.finishedBuckets.mergeSort (fun a b => a.index ≤ b.index)
      ∧ merged.bucketOffsets = (List.range mergeStringBuckets).map (bucketOffset merged.buckets) := by
  simp only [addInputSections, h]
  exact ⟨_, rfl, rfl, rfl⟩

/-- Scheduling loses and duplicates nothing. After any complete run every bucket has merged every
group once and in order, the pool is as it was, and the merged section is the same as after any
other complete run. -/
theorem string_merge_schedule {splitParallelism : Nat} {candidates : List StringMergeSectionExtra}
    {pool : ReusePool} {trace : List Merged} {s : SplitResources M} (hM : M.Lawful)
    (hsplit : BlockSplit (groupMergeStringSections candidates) groups)
    (hpool : pool.Shared splitParallelism)
    (hrun : CompleteRun M hashBytes groups pool trace s) :
    (∀ b < mergeStringBuckets, mergedGroups trace b = List.range groups.length)
    ∧ s.reusePool.available = pool.capacity ∧ s.reusePool.Shared splitParallelism
    ∧ s.panicked = false
    ∧ ∃ merged, addInputSections s = .ok merged
      ∧ merged.buckets.map (·.index) = List.range mergeStringBuckets
      ∧ ∀ trace' s', CompleteRun M hashBytes groups pool trace' s' →
        ∃ merged', addInputSections s' = .ok merged' ∧ merged'.buckets = merged.buckets
          ∧ merged'.bucketOffsets = merged.bucketOffsets
          ∧ ∀ k, merged'.stringOffset k = merged.stringOffset k := by
  have hplaced := groupMergeStringSections_placed candidates
  obtain ⟨hcomplete, hcapacity⟩ := hrun.complete hsplit.indexed hpool
  obtain ⟨merged, hmerged, hbuckets, hoffsets⟩ := addInputSections_ok hrun.errors
  refine ⟨hcomplete.merged, hcomplete.pool.available.trans hcapacity, ?_, hcomplete.panicked, merged,
    hmerged, hbuckets ▸ hcomplete.sorted_index, fun trace' s' hrun' => ?_⟩
  · obtain ⟨fresh, hfresh, heq⟩ := hpool.created
    exact ⟨⟨fresh, hfresh, hcapacity.trans heq⟩, hcomplete.pool⟩
  · obtain ⟨hcomplete', -⟩ := hrun'.complete hsplit.indexed hpool
    obtain ⟨merged', hmerged', hbuckets', hoffsets'⟩ := addInputSections_ok hrun'.errors
    have hsame : merged'.buckets = merged.buckets := by
      rw [hbuckets, hbuckets', hcomplete'.sorted_eq hcomplete]
    refine ⟨merged', hmerged', hsame, by rw [hoffsets, hoffsets', hsame], fun k => ?_⟩
    refine Option.ext fun o => ?_
    rw [hcomplete'.stringOffset_iff hM hplaced hsplit hmerged',
      hcomplete.stringOffset_iff hM hplaced hsplit hmerged]
    simp only [hcomplete.stores, hcomplete'.stores]

/-- Two sections that share a string. -/
def greetings : List StringMergeSectionExtra :=
  [⟨[104, 105, 0, 121, 111, 0], true⟩, ⟨[104, 105, 0], true⟩]

/-- A group for each of them. -/
def greetingGroups : List SectionGroup :=
  (splitSections 256 512 (groupMergeStringSections greetings)).getD []

theorem greetingGroups_blockSplit :
    BlockSplit (groupMergeStringSections greetings) greetingGroups := by
  obtain ⟨groups, hgroups, hsplit⟩ := splitSections_blockSplit (show 0 < 256 by decide)
    (Nat.dvd_refl _) (groupMergeStringSections_placed greetings)
  have htotal : totalInputSize (groupMergeStringSections greetings) = 512 := by decide
  rw [htotal] at hgroups
  rwa [greetingGroups, hgroups]

theorem greetings_pool : ReusePool.Shared 2 ⟨32, 0, 32⟩ :=
  ⟨⟨⟨32, 0, 32⟩, rfl, rfl⟩, rfl, Nat.zero_le _⟩

theorem greetings_run : ∃ trace s,
    CompleteRun (listOffsetMap 256) List.length greetingGroups ⟨32, 0, 32⟩ trace s := by
  have hfifo : (fifo (act (listOffsetMap 256) List.length) 1000
      (initialResources (listOffsetMap 256) greetingGroups ⟨32, 0, 32⟩) [.load none]).map
        (·.2.errors) = some none := by
    decide +kernel
  obtain ⟨⟨trace, s⟩, hrun, herrors⟩ := Option.map_eq_some_iff.mp hfifo
  exact ⟨trace, s, ⟨_, if_neg (by decide), fifo_run hrun⟩, herrors⟩

theorem string_merge_schedule_greetings : ∃ trace s,
    CompleteRun (listOffsetMap 256) List.length greetingGroups ⟨32, 0, 32⟩ trace s
      ∧ (∀ b < mergeStringBuckets, mergedGroups trace b = List.range greetingGroups.length)
      ∧ s.reusePool.available = 32 := by
  obtain ⟨trace, s, hrun⟩ := greetings_run
  have hschedule := string_merge_schedule (listOffsetMap_lawful 256) greetingGroups_blockSplit
    greetings_pool hrun
  exact ⟨trace, s, hrun, hschedule.1, hschedule.2.1⟩

/-! ### Terminated input -/

/-- The size of some pieces. -/
def pieceBytes (pieces : List Piece) : Nat := (pieces.map (·.2.length)).sum

theorem pieceBytes_append (pieces pieces' : List Piece) :
    pieceBytes (pieces ++ pieces') = pieceBytes pieces + pieceBytes pieces' := by
  simp [pieceBytes]

theorem pieceBytes_filter_le (pieces : List Piece) (f : Piece → Bool) :
    pieceBytes (pieces.filter f) ≤ pieceBytes pieces := by
  induction pieces with
  | nil => exact Nat.le_refl _
  | cons p pieces ih =>
      rw [List.filter_cons]
      simp only [pieceBytes] at ih ⊢
      split <;> simp only [List.map_cons, List.sum_cons] <;> omega

/-- Disjoint selections take no more than both together. -/
theorem pieceBytes_filter_add (pieces : List Piece) {f g k : Piece → Bool}
    (h : ∀ p, f p = true → g p = true → False) (hk : ∀ p, (f p || g p) = true → k p = true) :
    pieceBytes (pieces.filter f) + pieceBytes (pieces.filter g) ≤ pieceBytes (pieces.filter k) := by
  induction pieces with
  | nil => exact Nat.le_refl _
  | cons p pieces ih =>
      have hp := h p
      have hkp := hk p
      simp only [List.filter_cons]
      simp only [pieceBytes] at ih ⊢
      cases hf : f p <;> cases hg : g p <;> cases hkk : k p <;>
        simp_all <;> omega

theorem pieceBytes_stringPieces (data : Bytes) (offset : Nat) :
    pieceBytes (stringPieces data offset) ≤ data.length := by
  induction data using string_induction generalizing offset with
  | none data h => simp [stringPieces_none h, pieceBytes]
  | string body rest hbody ih =>
      have hrest := ih (offset + (body.length + 1))
      rw [stringPieces_append rest hbody]
      simp only [pieceBytes, List.map_cons, List.sum_cons, List.length_append, List.length_cons,
        List.length_nil] at hrest ⊢
      omega

theorem pieceBytes_allPieces {start : Nat} (hplaced : PlacedFrom start sections)
    (hne : sections ≠ []) : start + pieceBytes (allPieces sections) ≤ totalInputSize sections := by
  induction sections generalizing start with
  | nil => exact absurd rfl hne
  | cons sec rest ih =>
      have hsec : pieceBytes (sectionPieces sec) ≤ sec.paddedLen := by
        refine Nat.le_trans ?_ (paddedLen_bounds sec).1
        unfold sectionPieces
        split
        · exact pieceBytes_stringPieces _ _
        · simp [pieceBytes]
      rw [allPieces, List.flatMap_cons, pieceBytes_append]
      cases rest with
      | nil =>
          have hend := hplaced.end_le_totalInputSize
          simp only [List.flatMap_nil, pieceBytes, List.map_nil, List.sum_nil] at hsec ⊢
          omega
      | cons next rest =>
          have htotal : totalInputSize (sec :: next :: rest) = totalInputSize (next :: rest) := by
            simp [totalInputSize, List.getLast?_cons]
          have hrest := ih hplaced.2.2 (List.cons_ne_nil _ _)
          rw [htotal]
          simp only [allPieces] at hrest
          omega

/-- Where the range of group `k` starts, or where the last range ends. -/
def boundary (groups : List SectionGroup) (total k : Nat) : Nat :=
  (groups[k]?.map (·.rangeStart)).getD total

theorem RangesFrom.boundary_succ {start total k : Nat} {group : SectionGroup}
    (h : RangesFrom start total groups) (hgroup : groups[k]? = some group) :
    boundary groups total (k + 1) = group.rangeEnd := by
  induction groups generalizing start k with
  | nil => simp at hgroup
  | cons first rest ih =>
      obtain ⟨-, -, hrest⟩ := h
      cases k with
      | zero =>
          obtain rfl : first = group := by simpa using hgroup
          cases rest with
          | nil => exact hrest.symm
          | cons next rest => exact hrest.1
      | succ k => exact ih hrest (by simpa using hgroup)

theorem RangesFrom.rangeStart_lt {start total : Nat} (h : RangesFrom start total groups) :
    ∀ group ∈ groups, group.rangeStart < group.rangeEnd := by
  induction groups generalizing start with
  | nil => simp
  | cons first rest ih =>
      obtain ⟨hstart, hlt, hrest⟩ := h
      intro group hgroup
      rcases List.mem_cons.mp hgroup with rfl | hgroup
      · exact hstart.symm ▸ hlt
      · exact ih hrest group hgroup

section Terminated

variable (hashBytes) (hM : M.Lawful) (hplaced : PlacedFrom 0 sections) (hsplit : BlockSplit sections groups)
  (hterminated : ∀ sec ∈ sections, Terminated sec.sectionData)
  (hsize : totalInputSize sections < 2 ^ 28)

include hplaced hsplit hterminated in
theorem groupSplit_terminated {g : Nat} (hg : g < groups.length) :
    ∃ st, groupSplit M hashBytes groups g = some st := by
  have hgroup := List.getElem?_eq_getElem hg
  obtain ⟨st, hst⟩ := splitGroup_ok (M := M) hashBytes
    (hsplit.group _ (List.mem_of_getElem? hgroup)) hplaced hterminated
  exact ⟨st, by simp [groupSplit, hgroup, hst, Except.toOption]⟩

include hplaced hsize in
theorem pieceBytes_filter_lt (f : Piece → Bool) :
    pieceBytes ((allPieces sections).filter f) < 2 ^ 28 := by
  have hle := pieceBytes_filter_le (allPieces sections) f
  rcases eq_or_ne sections [] with rfl | hne
  · exact Nat.two_pow_pos 28
  · have hall := pieceBytes_allPieces hplaced hne
    omega

/-- The pieces that start before group `k`. -/
def piecesBefore (sections : List StringMergeInputSection) (groups : List SectionGroup) (k : Nat) :
    List Piece :=
  (allPieces sections).filter fun p => decide (p.1 < boundary groups (totalInputSize sections) k)

include hM hplaced hsplit hterminated in
/-- The pieces so far and those of the next group start before that group ends. -/
theorem groupStrings_fit (b : Nat) {k : Nat} (hk : k < groups.length) :
    pieceBytes (piecesBefore sections groups k)
        + MergeStringsSectionBucket.stringBytes (groupStrings M hashBytes groups k b)
      ≤ pieceBytes (piecesBefore sections groups (k + 1)) := by
  have hgroup := List.getElem?_eq_getElem hk
  obtain ⟨st, hst⟩ := groupSplit_terminated (M := M) hashBytes hplaced hsplit
    hterminated hk
  have hstrings : MergeStringsSectionBucket.stringBytes (groupStrings M hashBytes groups k b)
      ≤ pieceBytes ((allPieces sections).filter groups[k].inRange) := by
    rw [groupStrings_eq hM hplaced hsplit hgroup hst, MergeStringsSectionBucket.stringBytes,
      List.map_map]
    exact pieceBytes_filter_le _ _
  have hstart : boundary groups (totalInputSize sections) k = groups[k].rangeStart := by
    simp [boundary, hgroup]
  have hend := hsplit.ranges.boundary_succ hgroup
  have hlt := hsplit.ranges.rangeStart_lt _ (List.getElem_mem hk)
  refine Nat.le_trans (Nat.add_le_add_left hstrings _) (pieceBytes_filter_add _ ?_ ?_)
  · intro p
    simp only [hstart, SectionGroup.inRange, Bool.and_eq_true, decide_eq_true_eq]
    omega
  · intro p
    simp only [hstart, hend, SectionGroup.inRange, Bool.or_eq_true, Bool.and_eq_true,
      decide_eq_true_eq]
    omega

include hM hplaced hsplit hterminated hsize in
/-- No bucket gets too large. -/
theorem bucketAfter_terminated (b : Nat) {k : Nat} (hk : k ≤ groups.length) :
    ∃ bucket, bucketAfter M hashBytes groups b k = .ok bucket ∧ bucket.Ok ∧ bucket.index = b
      ∧ bucket.inputStringByteSize ≤ pieceBytes (piecesBefore sections groups k) := by
  induction k with
  | zero => exact ⟨.new b, rfl, MergeStringsSectionBucket.new_ok b, rfl, Nat.zero_le _⟩
  | succ k ih =>
      obtain ⟨bucket, hbucket, hok, hindex, hbytes⟩ := ih (Nat.le_of_succ_le hk)
      have hfit := groupStrings_fit hashBytes hM hplaced hsplit hterminated b hk
      have hsmall : pieceBytes (piecesBefore sections groups (k + 1)) < 2 ^ 28 :=
        pieceBytes_filter_lt hplaced hsize _
      obtain ⟨bucket', stores, hprocess, hok', hbytes', -⟩ := hok.processSplitOutput
        (groupStrings M hashBytes groups k b) (by omega)
      have hextends := MergeStringsSectionBucket.processSplitOutput_extends hprocess
      refine ⟨bucket'.advance, ?_, ⟨⟨hok'.laid.nextOffset, hok'.laid.offsets⟩, hok'.le⟩,
        hextends.index.trans hindex, ?_⟩
      · simp only [bucketAfter, hbucket, bind, Except.bind, hprocess]
        rfl
      · have hsame : bucket'.advance.inputStringByteSize = bucket'.inputStringByteSize := rfl
        omega

/-! ### No errors -/

variable {hashBytes}

include hM hplaced hsplit hterminated hsize in
theorem act_terminated {trace : List Merged} {t : Task M} {s : SplitResources M}
    {ts : Multiset (Task M)} (h : ScheduleInv hashBytes groups trace ⟨s, t ::ₘ ts⟩)
    (herrors : s.errors = none) : (act M hashBytes t s).shared.errors = none := by
  have htask := h.task t (Multiset.mem_cons_self _ _)
  cases t with
  | split group =>
      obtain ⟨st, hst⟩ := splitGroup_ok (M := M) hashBytes
        (hsplit.group group (List.mem_of_getElem? htask)) hplaced hterminated
      simp only [act, hst]
      exact herrors
  | process bucket strings =>
      obtain ⟨hlt, rfl⟩ := htask
      obtain ⟨after, hafter, -⟩ := bucketAfter_terminated hashBytes hM hplaced hsplit
        hterminated hsize bucket.index (k := bucket.nextInputGroupIndex + 1) hlt
      obtain ⟨before, after', stores, hbefore, hprocess, -⟩ := bucketAfter_succ hafter
      have hholder := h.holder bucket (by rw [holders_process]; simp)
      obtain rfl : bucket = before := Except.ok.inj (hholder.content.symm.trans hbefore)
      simp only [act, hprocess]
      exact herrors
  | swapSlots group bucket buckets =>
      simp only [act, fillSlot]
      split
      · split <;> exact herrors
      · exact herrors
  | work bucket =>
      simp only [act, workWithBucket]
      split
      · split <;> exact herrors
      · split <;> exact herrors
  | load caller =>
      simp only [act]
      split <;> exact herrors
  | exchange caller available =>
      simp only [act]
      split <;> exact herrors
  | popGroup =>
      simp only [act]
      split <;> exact herrors
  | takeVecs group reservation => cases reservation <;> exact herrors
  | storeShard group st =>
      simp only [act]
      split <;> exact herrors
  | unreserve reservation => exact herrors
  | returnVec bucket =>
      simp only [act]
      split <;> exact herrors
  | countVec bucket => exact herrors

include hM hplaced hsplit hterminated hsize in
/-- Merging terminated input reports no error, in any order. -/
theorem no_errors {pool : ReusePool} {trace : List Merged} {c : Config (SplitResources M) (Task M)}
    (hgroups : groups ≠ []) (hpool : pool.Idle)
    (hrun : ScheduleRun M hashBytes (initialResources M groups pool) trace c) :
    c.shared.errors = none := by
  refine (Run.invariant hrun (I := fun trace c =>
    c.shared.errors = none ∧ ScheduleInv hashBytes groups trace c) ?_ ?_).1
  · exact ⟨rfl, init_inv hgroups hsplit.indexed hpool⟩
  · intro trace s t ts ⟨herrors, hinv⟩
    have herrors' := act_terminated hM hplaced hsplit hterminated hsize hinv herrors
    exact ⟨herrors', hinv.action_inv hsplit.indexed (hinv.action herrors')⟩

end Terminated

end JdxLinker
