import JdxLinker.StringMerge.Preservation

/-!
# Complete runs of the schedule

The invariant holds when the main thread starts. Once no task is alive the strings that were not
merged would have to lie in a slot whose bucket waits for an earlier group, that group would have to
be in the queue, and with all buffers back in the pool somebody would have started it.
-/

namespace JdxLinker

open Sums TaskSystem

variable {M : OffsetMap} {hashBytes : Bytes → Nat} {groups : List SectionGroup}

/-! ### The start -/

theorem waitingSlots_succ (n k : Nat) :
    waitingSlots n (k + 1) = (waitingSlots n k).set k (.waitingForStrings (.new k)) := by
  rw [waitingSlots, List.range_succ, List.foldl_append]
  simp [waitingSlots, stringBucketOffset]

theorem waitingSlots_length (n k : Nat) :
    (waitingSlots n k).length = n * mergeStringBuckets := by
  induction k with
  | zero => simp [waitingSlots]
  | succ k ih => rw [waitingSlots_succ, List.length_set, ih]

theorem waitingSlots_getElem? {n k i : Nat} (hi : i < n * mergeStringBuckets) :
    (waitingSlots n k)[i]?
      = some (if i < k then .waitingForStrings (.new i) else .empty) := by
  induction k with
  | zero => simp [waitingSlots, hi]
  | succ k ih =>
      rw [waitingSlots_succ, List.getElem?_set, waitingSlots_length]
      by_cases hk : k = i
      · subst hk
        simp [hi]
      · have hiff : i < k + 1 ↔ i < k := by omega
        simp only [if_neg hk, ih, hiff]

theorem slotSum_waitingSlots {A : Type*} [AddCommMonoid A] (f : StringsSlot → A)
    (hempty : f .empty = 0) {n k : Nat} (hk : k ≤ n * mergeStringBuckets) :
    slotSum f (waitingSlots n k)
      = taskSum (fun i => f (.waitingForStrings (.new i))) (Multiset.range k) := by
  induction k with
  | zero => simp [waitingSlots, slotSum, hempty]
  | succ k ih =>
      have hslot := waitingSlots_getElem? (k := k) (i := k) hk
      rw [if_neg (Nat.lt_irrefl k)] at hslot
      have hsum := slotSum_set f hslot (.waitingForStrings (.new k))
      rw [hempty, add_zero] at hsum
      rw [waitingSlots_succ, hsum, ih (Nat.le_of_succ_le hk), Multiset.range_succ, taskSum_cons,
        add_comm]

theorem IndexedGroups.map_index (h : IndexedGroups groups) :
    groups.map (·.index) = List.range groups.length := by
  refine List.ext_getElem (by simp) fun i hi _ => ?_
  rw [List.length_map] at hi
  simpa using h i _ (List.getElem?_eq_getElem hi)

theorem IndexedGroups.countP (h : IndexedGroups groups) {g : Nat} (hg : g < groups.length) :
    groups.countP (·.index = g) = 1 := by
  have hcount : groups.countP (·.index = g) = (groups.map (·.index)).count g := by
    rw [List.count, List.countP_map]
    congr 1
  rw [hcount, h.map_index]
  exact List.count_eq_one_of_mem List.nodup_range (List.mem_range.mpr hg)

theorem initialResources_slots (pool : ReusePool) :
    (initialResources M groups pool).stringsByBucketAndGroup
      = waitingSlots groups.length mergeStringBuckets := by
  simp only [initialResources]

theorem taskSum_held_waiting (numbers : Multiset Nat) :
    taskSum (fun i => StringsSlot.held (.waitingForStrings (.new i))) numbers
      = numbers.map MergeStringsSectionBucket.new := by
  rw [← Multiset.sum_map_singleton (numbers.map _), Multiset.map_map]
  rfl

theorem taskSum_token_waiting (numbers : Multiset Nat) :
    taskSum (fun i => StringsSlot.token (.waitingForStrings (.new i))) numbers = 0 := by
  simp [taskSum, StringsSlot.token]

theorem taskSum_merged_new (g b : Nat) (numbers : Multiset Nat) :
    taskSum (MergeStringsSectionBucket.merged g b)
      (numbers.map MergeStringsSectionBucket.new) = 0 := by
  simp [taskSum, Multiset.map_map, MergeStringsSectionBucket.merged,
    MergeStringsSectionBucket.new, Function.comp_def]

theorem holders_initialResources (pool : ReusePool) (h : 0 < groups.length) :
    holders (⟨initialResources M groups pool, {.load none}⟩ : Config (SplitResources M) (Task M))
      = (Multiset.range mergeStringBuckets).map MergeStringsSectionBucket.new := by
  have hslots := slotSum_waitingSlots StringsSlot.held rfl
    (Nat.le_mul_of_pos_left mergeStringBuckets h)
  simp [holders, initialResources, hslots, taskSum_held_waiting, Task.held, callerHeld]

theorem initialResources_slotAt {pool : ReusePool} {g b : Nat} {slot : StringsSlot}
    (hb : b < mergeStringBuckets)
    (h : (initialResources M groups pool).slotAt g b = some slot) :
    slot = if g = 0 then .waitingForStrings (.new b) else .empty := by
  rw [SplitResources.slotAt, initialResources_slots] at h
  have hlt : stringBucketOffset g b < groups.length * mergeStringBuckets := by
    rw [← waitingSlots_length groups.length mergeStringBuckets]
    exact (List.getElem?_eq_some_iff.mp h).1
  rw [waitingSlots_getElem? hlt] at h
  rw [← Option.some.inj h]
  by_cases hg : g = 0
  · subst hg
    simp [stringBucketOffset, hb]
  · have hge : ¬stringBucketOffset g b < mergeStringBuckets := by
      simp only [stringBucketOffset, mergeStringBuckets_eq] at *
      omega
    rw [if_neg hg, if_neg hge]

/-- The invariant holds when the main thread starts. -/
theorem init_inv {pool : ReusePool} (hgroups : groups ≠ []) (hindexed : IndexedGroups groups)
    (hpool : pool.Idle) :
    ScheduleInv hashBytes groups []
      (⟨initialResources M groups pool, {.load none}⟩ : Config (SplitResources M) (Task M)) := by
  have hlength : 0 < groups.length := List.length_pos_of_ne_nil hgroups
  have hholders := holders_initialResources (M := M) pool hlength
  have htokens := slotSum_waitingSlots StringsSlot.token rfl
    (Nat.le_mul_of_pos_left mergeStringBuckets hlength)
  rw [taskSum_token_waiting] at htokens
  constructor
  case numInputGroups => rfl
  case slots_length =>
    rw [initialResources_slots]
    exact waitingSlots_length _ _
  case shards_length => simp [initialResources]
  case queue => exact ⟨0, rfl⟩
  case buckets =>
    rw [hholders, Multiset.map_map]
    exact Multiset.map_id _
  case holder =>
    rw [hholders]
    intro bucket hbucket
    obtain ⟨b, -, rfl⟩ := Multiset.mem_map.mp hbucket
    exact ⟨Nat.zero_le _, rfl, rfl⟩
  case task => simp [TaskOk]
  case waiting =>
    intro g b bucket hb hslot
    have hwaiting := initialResources_slotAt hb hslot
    split at hwaiting
    · rename_i hg
      cases hwaiting
      exact ⟨rfl, hg.symm⟩
    · cases hwaiting
  case strings =>
    intro g b strings hb hslot
    have hstrings := initialResources_slotAt hb hslot
    split at hstrings <;> cases hstrings
  case finished => simp [initialResources]
  case token =>
    intro g b hg hb
    have hslot : ((initialResources M groups pool).slotAt g b).elim 0 StringsSlot.token = 0 := by
      cases hslot : (initialResources M groups pool).slotAt g b with
      | none => rfl
      | some slot =>
          rw [initialResources_slotAt hb hslot]
          split <;> rfl
    rw [tokens, hholders, taskSum_merged_new, hslot]
    simp [initialResources, Task.token, hindexed.countP hg]
  case shardToken =>
    intro g hg
    simp [shardTokens, initialResources, Task.shardToken, hindexed.countP hg, hg]
  case shard =>
    intro g shard hshard
    simp [initialResources, List.getElem?_replicate] at hshard
  case buffers =>
    simp [JdxLinker.buffers, initialResources, htokens, Task.buffers, hpool.available]
  case vecs =>
    simpa [JdxLinker.vecs, initialResources, htokens, Task.vecs] using hpool.stringVecs
  case wake => exact fun _ => Or.inr ⟨.load none, by simp, trivial⟩
  case stores => rfl
  case events => simp
  case panicked => rfl

/-! ### Runs -/

theorem ReusePool.Shared.le_capacity {splitParallelism : Nat} {pool : ReusePool}
    (h : pool.Shared splitParallelism) : mergeStringBuckets ≤ pool.capacity := by
  obtain ⟨fresh, hfresh, hcapacity⟩ := h.created
  unfold mergeStringsPool ReusePool.new at hfresh
  split at hfresh
  · cases hfresh
  · rename_i hne
    cases hfresh
    rw [hcapacity]
    exact Nat.le_mul_of_pos_right _ (Nat.pos_of_ne_zero fun hzero => hne (by rw [hzero, Nat.mul_zero]))

theorem act_capacity (t : Task M) (s : SplitResources M) :
    (act M hashBytes t s).shared.reusePool.capacity = s.reusePool.capacity := by
  cases t <;> simp only [act, fillSlot, workWithBucket, panic, SplitResources.pushError]
  all_goals (repeat' split) <;> rfl

/-- A run without errors keeps the invariant. -/
theorem ScheduleRun.inv {pool : ReusePool} {trace : List Merged}
    {c : Config (SplitResources M) (Task M)} (hgroups : groups ≠ [])
    (hindexed : IndexedGroups groups) (hpool : pool.Idle)
    (hrun : ScheduleRun M hashBytes (initialResources M groups pool) trace c) :
    (c.shared.errors = none → ScheduleInv hashBytes groups trace c)
      ∧ c.shared.reusePool.capacity = pool.capacity := by
  refine Run.invariant hrun (I := fun trace c =>
    (c.shared.errors = none → ScheduleInv hashBytes groups trace c)
      ∧ c.shared.reusePool.capacity = pool.capacity) ?_ ?_
  · exact ⟨fun _ => init_inv hgroups hindexed hpool, rfl⟩
  · intro trace s t ts ⟨hinv, hcapacity⟩
    refine ⟨fun herrors => ?_, (act_capacity t s).trans hcapacity⟩
    have h := hinv (act_errors herrors)
    exact h.action_inv hindexed (h.action herrors)

/-! ### When no task is alive -/

theorem IndexedGroups.countP_drop_pos (h : IndexedGroups groups) {g u : Nat}
    (hg : g < groups.length) : 0 < (groups.drop u).countP (·.index = g) ↔ u ≤ g := by
  rw [List.countP_pos_iff]
  constructor
  · rintro ⟨group, hmem, hindex⟩
    obtain ⟨i, hi⟩ := List.mem_iff_getElem?.mp hmem
    rw [List.getElem?_drop] at hi
    have hi' := h _ _ hi
    simp only [decide_eq_true_eq] at hindex
    omega
  · intro hle
    have hget := List.getElem?_eq_getElem hg
    have hmem : groups[g] ∈ groups.drop u := by
      refine List.mem_iff_getElem?.mpr ⟨g - u, ?_⟩
      rw [List.getElem?_drop, Nat.add_sub_cancel' hle, hget]
    exact ⟨groups[g], hmem, by simpa using h _ _ hget⟩

namespace ScheduleInv

section Quiescent

variable {trace : List Merged} {s : SplitResources M}

/-- A bucket in a slot is in the slot of its own next group. -/
theorem parked (h : ScheduleInv hashBytes groups trace ⟨s, 0⟩)
    {bucket : MergeStringsSectionBucket}
    (hbucket : bucket ∈ slotSum StringsSlot.held s.stringsByBucketAndGroup) :
    s.slotAt bucket.nextInputGroupIndex bucket.index = some (.waitingForStrings bucket)
      ∧ bucket.nextInputGroupIndex < groups.length := by
  obtain ⟨slot, hslot, hheld⟩ := mem_slotSum hbucket
  obtain ⟨i, hi⟩ := List.mem_iff_getElem?.mp hslot
  have hlt := (List.getElem?_eq_some_iff.mp hi).1
  have hlength := h.slots_length
  cases slot with
  | empty => simp [StringsSlot.held] at hheld
  | strings strings => simp [StringsSlot.held] at hheld
  | waitingForStrings waiting =>
      obtain rfl : bucket = waiting := Multiset.mem_singleton.mp hheld
      have hi' : stringBucketOffset (i / mergeStringBuckets) (i % mergeStringBuckets) = i := by
        simp only [stringBucketOffset, mergeStringBuckets_eq]
        omega
      have hat : s.slotAt (i / mergeStringBuckets) (i % mergeStringBuckets)
          = some (.waitingForStrings bucket) := by
        rw [SplitResources.slotAt, hi', hi]
      obtain ⟨hindex, hnext⟩ := h.waiting _ _ _ (Nat.mod_lt _ (by decide)) hat
      rw [hindex, hnext]
      refine ⟨hat, ?_⟩
      simp only [mergeStringBuckets_eq] at *
      omega

/-- With no task alive, a bucket is parked or finished. -/
theorem parked_or_finished {bucket : MergeStringsSectionBucket}
    (hbucket : bucket ∈ holders ⟨s, 0⟩) :
    bucket ∈ slotSum StringsSlot.held s.stringsByBucketAndGroup ∨ bucket ∈ s.finishedBuckets := by
  simpa only [holders, taskSum_zero, zero_add, Multiset.mem_add, Multiset.mem_coe] using hbucket

theorem holder_inj {c : Config (SplitResources M) (Task M)}
    (h : ScheduleInv hashBytes groups trace c) {bucket bucket' : MergeStringsSectionBucket}
    (hbucket : bucket ∈ holders c) (hbucket' : bucket' ∈ holders c)
    (hindex : bucket.index = bucket'.index) : bucket = bucket' := by
  have hnodup : (Multiset.range mergeStringBuckets).Nodup := Multiset.nodup_range _
  rw [← h.buckets] at hnodup
  exact Multiset.inj_on_of_nodup_map hnodup _ hbucket _ hbucket' hindex

theorem exists_holder {c : Config (SplitResources M) (Task M)}
    (h : ScheduleInv hashBytes groups trace c) {b : Nat} (hb : b < mergeStringBuckets) :
    ∃ bucket ∈ holders c, bucket.index = b := by
  have hmem := Multiset.mem_range.mpr hb
  rw [← h.buckets] at hmem
  exact Multiset.mem_map.mp hmem

/-- The group that a parked bucket waits for has not been started. -/
theorem parked_unprocessed (h : ScheduleInv hashBytes groups trace ⟨s, 0⟩)
    (hindexed : IndexedGroups groups) {bucket : MergeStringsSectionBucket} {u : Nat}
    (hu : s.unprocessed = groups.drop u)
    (hparked : bucket ∈ slotSum StringsSlot.held s.stringsByBucketAndGroup) :
    u ≤ bucket.nextInputGroupIndex := by
  obtain ⟨hslot, hlt⟩ := h.parked hparked
  have hbucket : bucket ∈ holders ⟨s, 0⟩ :=
    Multiset.mem_add.mpr (Or.inl (Multiset.mem_add.mpr (Or.inr hparked)))
  have htoken := h.token bucket.nextInputGroupIndex bucket.index hlt (h.index_lt hbucket)
  have hmerged : taskSum (MergeStringsSectionBucket.merged bucket.nextInputGroupIndex bucket.index)
      (holders ⟨s, 0⟩) = 0 := by
    refine taskSum_eq_zero fun bucket' hbucket' => ?_
    rw [MergeStringsSectionBucket.merged, if_neg]
    rintro ⟨hindex, hnext⟩
    rw [h.holder_inj hbucket' hbucket hindex] at hnext
    exact Nat.lt_irrefl _ hnext
  rw [tokens, hmerged, hslot, hu] at htoken
  simp only [taskSum_zero, StringsSlot.token, Option.elim_some, Nat.add_zero] at htoken
  exact (hindexed.countP_drop_pos hlt).mp (by omega)

/-- No slot holds strings: their bucket would wait for an earlier group, and the later one would
not have been started either. -/
theorem slotAt_ne_strings (h : ScheduleInv hashBytes groups trace ⟨s, 0⟩)
    (hindexed : IndexedGroups groups) {g b : Nat} (strings : List StringToMerge)
    (hg : g < groups.length) (hb : b < mergeStringBuckets) :
    s.slotAt g b ≠ some (.strings strings) := by
  intro hslot
  have htoken := h.token g b hg hb
  rw [tokens, hslot] at htoken
  simp only [taskSum_zero, StringsSlot.token, Option.elim_some] at htoken
  obtain ⟨bucket, hbucket, rfl⟩ := h.exists_holder hb
  have hle := le_taskSum (MergeStringsSectionBucket.merged g bucket.index) hbucket
  have hnext : bucket.nextInputGroupIndex ≤ g := by
    by_contra hgt
    rw [MergeStringsSectionBucket.merged, if_pos ⟨rfl, Nat.lt_of_not_le hgt⟩] at hle
    omega
  rcases parked_or_finished hbucket with hparked | hfinished
  · obtain ⟨u, hu⟩ := h.queue
    simp only at hu
    have hpos := (hindexed.countP_drop_pos hg).mpr
      (Nat.le_trans (h.parked_unprocessed hindexed hu hparked) hnext)
    rw [hu] at htoken
    omega
  · have hend := h.finished bucket hfinished
    omega

theorem available_eq_capacity (h : ScheduleInv hashBytes groups trace ⟨s, 0⟩)
    (hindexed : IndexedGroups groups) : s.reusePool.available = s.reusePool.capacity := by
  have hbuffers := h.buffers
  have hslots : slotSum StringsSlot.token s.stringsByBucketAndGroup = 0 := by
    refine slotSum_eq_zero fun slot hslot => ?_
    obtain ⟨i, hi⟩ := List.mem_iff_getElem?.mp hslot
    have hlt := (List.getElem?_eq_some_iff.mp hi).1
    have hlength := h.slots_length
    simp only at hlength
    cases slot with
    | empty => rfl
    | waitingForStrings waiting => rfl
    | strings strings =>
        have hi' : stringBucketOffset (i / mergeStringBuckets) (i % mergeStringBuckets) = i := by
          simp only [stringBucketOffset, mergeStringBuckets_eq]
          omega
        refine absurd ?_ (h.slotAt_ne_strings hindexed (g := i / mergeStringBuckets)
          (b := i % mergeStringBuckets) strings ?_ (Nat.mod_lt _ (by decide)))
        · rw [SplitResources.slotAt, hi', hi]
        · simp only [mergeStringBuckets_eq] at *
          omega
  simpa [JdxLinker.buffers, hslots] using hbuffers

/-- Every group has been started: otherwise some task would be about to notice the full pool. -/
theorem unprocessed_eq_nil (h : ScheduleInv hashBytes groups trace ⟨s, 0⟩)
    (hindexed : IndexedGroups groups) (hcapacity : mergeStringBuckets ≤ s.reusePool.capacity) :
    s.unprocessed = [] := by
  rcases h.wake ((h.available_eq_capacity hindexed).symm ▸ hcapacity) with hnil | ⟨t, ht, -⟩
  · exact hnil
  · simp at ht

/-- No bucket is parked, so all of them are finished. -/
theorem holders_eq_finished (h : ScheduleInv hashBytes groups trace ⟨s, 0⟩)
    (hindexed : IndexedGroups groups) (hcapacity : mergeStringBuckets ≤ s.reusePool.capacity) :
    holders ⟨s, 0⟩ = s.finishedBuckets := by
  have hslots : slotSum StringsSlot.held s.stringsByBucketAndGroup = 0 := by
    refine Multiset.eq_zero_of_forall_notMem fun bucket hparked => ?_
    have hu : s.unprocessed = groups.drop groups.length := by
      rw [h.unprocessed_eq_nil hindexed hcapacity, List.drop_length]
    have hle := h.parked_unprocessed hindexed hu hparked
    have hlt := (h.parked hparked).2
    omega
  simp [holders, hslots]

end Quiescent

end ScheduleInv

/-! ### Complete runs -/

/-- The state that a complete run without errors leaves, whatever the order of its actions. -/
structure ScheduleComplete (hashBytes : Bytes → Nat) (groups : List SectionGroup)
    (trace : List Merged) (s : SplitResources M) : Prop where
  merged : ∀ b, b < mergeStringBuckets → mergedGroups trace b = List.range groups.length
  buckets : Multiset.map (·.index) (s.finishedBuckets : Multiset MergeStringsSectionBucket)
    = Multiset.range mergeStringBuckets
  content : ∀ bucket ∈ s.finishedBuckets,
    bucketAfter M hashBytes groups bucket.index groups.length = .ok bucket
  shards_length : s.finishedShards.length = groups.length
  shards : ∀ g, g < groups.length →
    ∃ st, groupSplit M hashBytes groups g = some st ∧ s.finishedShards[g]? = some (some st.shard)
  stores : ∀ store, store ∈ s.offsetStores
    ↔ ∃ b < mergeStringBuckets, ∃ g < groups.length, store ∈ groupStores M hashBytes groups b g
  pool : s.reusePool.Idle
  panicked : s.panicked = false

theorem mem_mergedGroups {trace : List Merged} {b g : Nat} :
    g ∈ mergedGroups trace b ↔ (⟨b, g⟩ : Merged) ∈ trace := by
  simp only [mergedGroups, List.mem_map, List.mem_filter, decide_eq_true_eq]
  constructor
  · rintro ⟨e, ⟨he, rfl⟩, rfl⟩
    exact he
  · exact fun h => ⟨⟨b, g⟩, ⟨h, rfl⟩, rfl⟩

theorem ScheduleInv.complete {trace : List Merged} {s : SplitResources M}
    (h : ScheduleInv hashBytes groups trace ⟨s, 0⟩) (hindexed : IndexedGroups groups)
    (hcapacity : mergeStringBuckets ≤ s.reusePool.capacity) :
    ScheduleComplete hashBytes groups trace s := by
  have hholders := h.holders_eq_finished hindexed hcapacity
  have hnext : ∀ bucket ∈ s.finishedBuckets, bucket.nextInputGroupIndex = groups.length := by
    intro bucket hbucket
    have hholder : bucket ∈ holders ⟨s, 0⟩ := hholders ▸ Multiset.mem_coe.mpr hbucket
    exact Nat.le_antisymm (h.holder bucket hholder).le (h.finished bucket hbucket)
  have hmerged : ∀ b, b < mergeStringBuckets → mergedGroups trace b = List.range groups.length := by
    intro b hb
    obtain ⟨bucket, hbucket, rfl⟩ := h.exists_holder hb
    rw [(h.holder bucket hbucket).merged, hnext bucket (by simpa [hholders] using hbucket)]
  constructor
  case merged => exact hmerged
  case buckets => rw [← hholders, h.buckets]
  case content =>
    intro bucket hbucket
    have hholder : bucket ∈ holders ⟨s, 0⟩ := hholders ▸ Multiset.mem_coe.mpr hbucket
    rw [← hnext bucket hbucket]
    exact (h.holder bucket hholder).content
  case shards_length => exact h.shards_length
  case shards =>
    intro g hg
    have htoken := h.shardToken g hg
    rw [shardTokens, h.unprocessed_eq_nil hindexed hcapacity] at htoken
    have hlt : g < s.finishedShards.length := h.shards_length ▸ hg
    rw [List.getElem?_eq_getElem hlt]
    cases hshard : s.finishedShards[g] with
    | none => simp [List.getElem?_eq_getElem hlt, hshard] at htoken
    | some shard =>
        have hget : s.finishedShards[g]? = some (some shard) := by
          rw [List.getElem?_eq_getElem hlt, hshard]
        obtain ⟨st, hst, rfl⟩ := h.shard g shard hget
        exact ⟨st, hst, rfl⟩
  case stores =>
    intro store
    rw [h.stores, List.mem_flatMap]
    constructor
    · rintro ⟨e, he, hstore⟩
      have hb := h.events e he
      refine ⟨e.bucket, hb, e.group, ?_, hstore⟩
      rw [← List.mem_range, ← hmerged e.bucket hb]
      exact mem_mergedGroups.mpr he
    · rintro ⟨b, hb, g, hg, hstore⟩
      refine ⟨⟨b, g⟩, mem_mergedGroups.mp ?_, hstore⟩
      rw [hmerged b hb]
      exact List.mem_range.mpr hg
  case pool =>
    refine ⟨h.available_eq_capacity hindexed, ?_⟩
    exact Nat.le_trans (Nat.le_trans (Nat.le_add_right _ _) (Nat.le_add_right _ _)) h.vecs
  case panicked => exact h.panicked

end JdxLinker
