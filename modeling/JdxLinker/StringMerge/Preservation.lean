import JdxLinker.StringMerge.Invariant

/-!
# Every action keeps the schedule's invariant

One lemma for each part of the invariant, over the actions that a run without errors can take.
-/

namespace JdxLinker

open Sums TaskSystem

variable {M : OffsetMap} {hashBytes : Bytes → Nat} {groups : List SectionGroup}

@[simp] theorem afterSpawning_held (caller : Option MergeStringsSectionBucket) :
    taskSum Task.held (afterSpawning (M := M) caller : Multiset (Task M)) = callerHeld caller := by
  cases caller <;> simp [afterSpawning, callerHeld, Task.held]

theorem slotSum_swap {A : Type*} [AddCommMonoid A] (f : StringsSlot → A) {s : SplitResources M}
    {g b : Nat} {x : StringsSlot} (h : s.slotAt g b = some x) (y : StringsSlot) :
    slotSum f (s.swapStringsSlot g b y).stringsByBucketAndGroup + f x
      = slotSum f s.stringsByBucketAndGroup + f y :=
  slotSum_set f h y

theorem Action.holders_eq {s : SplitResources M} {t : Task M} {e : SplitEffect M}
    (h : Action hashBytes s t e) (ts : Multiset (Task M)) (hevents : e.events = []) :
    holders ⟨e.shared, (e.tasks : Multiset (Task M)) + ts⟩ = holders ⟨s, t ::ₘ ts⟩ := by
  cases h with
  | fill group bucket buckets hb h =>
      have hsum := slotSum_swap StringsSlot.held h (.strings (buckets.at bucket))
      simp only [StringsSlot.held, add_zero] at hsum
      simp [holders, hsum, Task.held]
  | wake group bucket buckets waiting hb h =>
      have hsum := slotSum_swap StringsSlot.held h (.strings (buckets.at bucket))
      simp only [StringsSlot.held, add_zero] at hsum
      simp only [holders, ← hsum, taskSum_add, taskSum_coe_cons, taskSum_coe_nil, taskSum_cons,
        Task.held, swapStringsSlot_finishedBuckets]
      abel
  | takeStrings bucket strings hg h =>
      have hsum := slotSum_swap StringsSlot.held h .empty
      simp only [StringsSlot.held, add_zero] at hsum
      simp [holders, hsum, Task.held]
  | park bucket hg h =>
      have hsum := slotSum_swap StringsSlot.held h (.waitingForStrings bucket)
      simp only [StringsSlot.held, add_zero] at hsum
      simp only [holders, hsum, taskSum_add, taskSum_coe_nil, taskSum_cons, Task.held,
        swapStringsSlot_finishedBuckets]
      abel
  | finish bucket hg =>
      simp only [holders, ← Multiset.coe_add, taskSum_add, taskSum_coe_nil, taskSum_cons,
        Task.held, Multiset.coe_singleton]
      abel
  | process => simp at hevents
  | _ => simp [holders, Task.held, callerHeld]

/-- Merging is the only action that reports an event. -/
theorem Action.events {s : SplitResources M} {t : Task M} {e : SplitEffect M}
    (h : Action hashBytes s t e) :
    e.events = [] ∨ ∃ bucket bucket' strings stores,
      bucket.processSplitOutput strings = .ok (bucket', stores) ∧ t = .process bucket strings ∧
      e = ⟨{ s with offsetStores := s.offsetStores ++ stores }, [.returnVec bucket'],
        [⟨bucket.index, bucket.nextInputGroupIndex⟩]⟩ := by
  cases h with
  | process bucket bucket' strings stores h =>
      exact Or.inr ⟨bucket, bucket', strings, stores, h, rfl, rfl⟩
  | _ => exact Or.inl rfl

theorem holders_process (s : SplitResources M) (bucket : MergeStringsSectionBucket)
    (strings : List StringToMerge) (ts : Multiset (Task M)) :
    holders ⟨s, .process bucket strings ::ₘ ts⟩ = bucket ::ₘ holders ⟨s, ts⟩ := by
  rw [holders_cons, Task.held, Multiset.singleton_add]

theorem holders_returnVec {s : SplitResources M} {bucket : MergeStringsSectionBucket}
    {stores : List OffsetStore} {ts : Multiset (Task M)} :
    holders ⟨{ s with offsetStores := stores }, ([.returnVec bucket] : List (Task M)) + ts⟩
      = bucket.advance ::ₘ holders ⟨s, ts⟩ := by
  simp [holders, Task.held, add_assoc]

theorem mergedGroups_append_ne {trace : List Merged} {e : Merged} {b : Nat} (h : e.bucket ≠ b) :
    mergedGroups (trace ++ [e]) b = mergedGroups trace b := by
  simp [mergedGroups, h]

theorem mergedGroups_append_eq {trace : List Merged} {b g : Nat} :
    mergedGroups (trace ++ [⟨b, g⟩]) b = mergedGroups trace b ++ [g] := by
  simp [mergedGroups]

theorem slotAt_swap {s : SplitResources M} {g b g' b' : Nat} {x y : StringsSlot}
    (h : s.slotAt g b = some x) (hb : b < mergeStringBuckets) (hb' : b' < mergeStringBuckets) :
    (s.swapStringsSlot g b y).slotAt g' b' = if g = g' ∧ b = b' then some y else s.slotAt g' b' := by
  have hlt := (List.getElem?_eq_some_iff.mp h).1
  simp only [SplitResources.slotAt, SplitResources.swapStringsSlot, List.getElem?_set,
    stringBucketOffset_inj hb hb', if_pos hlt]

/-- The bucket that merged the strings of a group counts it, the others are as they were. -/
theorem HolderOk.process {trace : List Merged} {bucket bucket' : MergeStringsSectionBucket}
    {stores : List OffsetStore} (hok : HolderOk (M := M) hashBytes groups trace bucket)
    (hlt : bucket.nextInputGroupIndex < groups.length)
    (h : bucket.processSplitOutput (groupStrings M hashBytes groups bucket.nextInputGroupIndex
      bucket.index) = .ok (bucket', stores)) :
    HolderOk (M := M) hashBytes groups (trace ++ [⟨bucket.index, bucket.nextInputGroupIndex⟩])
      bucket'.advance := by
  have hextends := MergeStringsSectionBucket.processSplitOutput_extends h
  have hindex := hextends.index
  have hnext := hextends.next
  constructor
  · simp only [MergeStringsSectionBucket.advance, hnext]
    exact hlt
  · have hstep : bucketAfter M hashBytes groups bucket.index (bucket.nextInputGroupIndex + 1)
        = .ok bucket'.advance := by
      simp only [bucketAfter, hok.content, bind, Except.bind, h]
      rfl
    rw [← hstep]
    simp only [MergeStringsSectionBucket.advance, hnext, hindex]
  · simp only [MergeStringsSectionBucket.advance, hnext, hindex]
    rw [mergedGroups_append_eq, hok.merged, List.range_succ]

namespace ScheduleInv

variable {trace : List Merged} {s : SplitResources M} {t : Task M} {ts : Multiset (Task M)}
  {e : SplitEffect M}

theorem buckets_action (h : ScheduleInv hashBytes groups trace ⟨s, t ::ₘ ts⟩)
    (hact : Action hashBytes s t e) :
    (holders ⟨e.shared, (e.tasks : Multiset (Task M)) + ts⟩).map (·.index)
      = Multiset.range mergeStringBuckets := by
  rcases hact.events with hevents | ⟨bucket, bucket', strings, stores, hprocess, rfl, rfl⟩
  · rw [hact.holders_eq ts hevents, h.buckets]
  · have hbuckets := h.buckets
    rw [holders_process, Multiset.map_cons] at hbuckets
    rw [holders_returnVec, Multiset.map_cons, ← hbuckets]
    congr 1
    exact (MergeStringsSectionBucket.processSplitOutput_extends hprocess).index

theorem holder_action (h : ScheduleInv hashBytes groups trace ⟨s, t ::ₘ ts⟩)
    (hact : Action hashBytes s t e) :
    ∀ bucket ∈ holders ⟨e.shared, (e.tasks : Multiset (Task M)) + ts⟩,
      HolderOk (M := M) hashBytes groups (trace ++ e.events) bucket := by
  rcases hact.events with hevents | ⟨bucket, bucket', strings, stores, hprocess, rfl, rfl⟩
  · rw [hact.holders_eq ts hevents, hevents, List.append_nil]
    exact h.holder
  · obtain ⟨hlt, rfl⟩ := h.task _ (Multiset.mem_cons_self _ _)
    have hholders := holders_process s bucket
      (groupStrings M hashBytes groups bucket.nextInputGroupIndex bucket.index) ts
    intro other hother
    rw [holders_returnVec, Multiset.mem_cons] at hother
    rcases hother with rfl | hother
    · exact (h.holder bucket (hholders ▸ Multiset.mem_cons_self _ _)).process hlt hprocess
    · have hok := h.holder other (hholders ▸ Multiset.mem_cons_of_mem hother)
      exact ⟨hok.le, hok.content,
        (mergedGroups_append_ne (h.index_ne hholders hother).symm).trans hok.merged⟩

end ScheduleInv

theorem groupSplit_eq {group : SectionGroup} {st : SplitState M}
    (hgroup : groups[group.index]? = some group) (hsplit : splitGroup M hashBytes group = .ok st) :
    groupSplit M hashBytes groups group.index = some st := by
  rw [groupSplit, hgroup, Option.bind_some, hsplit]
  rfl

theorem TaskOk.mono {s s' : SplitResources M} (h : s.unprocessed = [] → s'.unprocessed = [])
    {t : Task M} (ht : TaskOk hashBytes groups s t) : TaskOk hashBytes groups s' t := by
  cases t with
  | unreserve reservation => exact fun hne => h (ht hne)
  | _ => exact ht

theorem Action.unprocessed_nil {s : SplitResources M} {t : Task M} {e : SplitEffect M}
    (h : Action hashBytes s t e) (hnil : s.unprocessed = []) : e.shared.unprocessed = [] := by
  cases h with
  | pop group unprocessed h => simp [hnil] at h
  | _ => exact hnil

theorem taskOk_afterSpawning (s : SplitResources M) (caller : Option MergeStringsSectionBucket) :
    ∀ t ∈ afterSpawning (M := M) caller, TaskOk hashBytes groups s t := by
  cases caller <;> simp [afterSpawning, TaskOk]

namespace ScheduleInv

variable {trace : List Merged} {s : SplitResources M} {t : Task M} {ts : Multiset (Task M)}
  {e : SplitEffect M}

theorem taskOk_new (h : ScheduleInv hashBytes groups trace ⟨s, t ::ₘ ts⟩)
    (hindexed : IndexedGroups groups) (hact : Action hashBytes s t e) :
    ∀ t' ∈ e.tasks, TaskOk hashBytes groups e.shared t' := by
  have htask := h.task t (Multiset.mem_cons_self _ _)
  cases hact with
  | full caller h => exact taskOk_afterSpawning s caller
  | lost caller available h => exact taskOk_afterSpawning s caller
  | load caller hle => simpa [TaskOk] using hle
  | reserve caller hle => simp [TaskOk]
  | popNothing hnil => simp [TaskOk, hnil]
  | pop group unprocessed hpop =>
      obtain ⟨u, hu⟩ := h.queue
      have hgroup : groups[u]? = some group := by
        have hhead := congrArg (·[0]?) (hpop.symm.trans hu)
        simpa using hhead.symm
      have hindex := hindexed u group hgroup
      simp [TaskOk, hindex, hgroup]
  | allTaken group => simpa [TaskOk] using htask.1
  | takeVec group reservation =>
      simp only [List.mem_singleton, forall_eq, TaskOk]
      exact ⟨htask.1, Nat.le_of_succ_le htask.2⟩
  | split group st hsplit =>
      simp only [List.mem_singleton, forall_eq, TaskOk]
      exact ⟨htask, hsplit⟩
  | storeShard group st hempty =>
      simp only [List.mem_singleton, forall_eq, TaskOk]
      refine ⟨(List.getElem?_eq_some_iff.mp htask.1).1, Nat.zero_le _, fun b => ?_⟩
      rw [groupStrings, groupSplit_eq htask.1 htask.2]
      rfl
  | fill group bucket buckets hb hslot =>
      simp only [List.mem_singleton, forall_eq, TaskOk]
      exact ⟨htask.1, hb, htask.2.2⟩
  | wake group bucket buckets waiting hb hslot =>
      simp only [List.mem_cons, List.not_mem_nil, or_false, forall_eq_or_imp, forall_eq, TaskOk,
        and_true]
      exact ⟨htask.1, hb, htask.2.2⟩
  | filled group bucket buckets hb => simp [TaskOk]
  | unreserve reservation => simp
  | takeStrings bucket strings hg hslot =>
      simp only [List.mem_singleton, forall_eq, TaskOk]
      have hlt : bucket.index < mergeStringBuckets :=
        h.index_lt (by rw [holders_cons, Task.held]; simp)
      exact ⟨h.numInputGroups ▸ hg, h.strings _ _ _ hlt hslot⟩
  | park bucket hg hslot => simp
  | finish bucket hg => simp
  | process bucket bucket' strings stores hprocess => simp [TaskOk]
  | returnVec bucket => simp [TaskOk]
  | countVec bucket => simp [TaskOk]

theorem task_action (h : ScheduleInv hashBytes groups trace ⟨s, t ::ₘ ts⟩)
    (hindexed : IndexedGroups groups) (hact : Action hashBytes s t e) :
    ∀ t' ∈ (e.tasks : Multiset (Task M)) + ts, TaskOk hashBytes groups e.shared t' := by
  intro t' ht'
  rcases Multiset.mem_add.mp ht' with ht' | ht'
  · exact h.taskOk_new hindexed hact t' ht'
  · exact (h.task t' (Multiset.mem_cons_of_mem ht')).mono hact.unprocessed_nil

/-- What an action leaves in the slot of a bucket: what was there, strings that the group has for
the bucket, or the bucket itself. -/
theorem slot_action (h : ScheduleInv hashBytes groups trace ⟨s, t ::ₘ ts⟩)
    (hact : Action hashBytes s t e) {g b : Nat} (hb : b < mergeStringBuckets) :
    e.shared.slotAt g b = s.slotAt g b
    ∨ e.shared.slotAt g b = some .empty
    ∨ e.shared.slotAt g b = some (.strings (groupStrings M hashBytes groups g b))
    ∨ ∃ bucket, e.shared.slotAt g b = some (.waitingForStrings bucket)
        ∧ bucket.index = b ∧ bucket.nextInputGroupIndex = g := by
  have htask := h.task t (Multiset.mem_cons_self _ _)
  have hholder : ∀ bucket, t.held = {bucket} → bucket.index < mergeStringBuckets :=
    fun bucket ht => h.index_lt (by rw [holders_cons, ht]; simp)
  cases hact with
  | fill group bucket buckets hb' hslot =>
      rw [slotAt_swap hslot hb' hb]
      split
      · rename_i heq
        rw [← heq.1, ← heq.2, htask.2.2]
        exact Or.inr (Or.inr (Or.inl rfl))
      · exact Or.inl rfl
  | wake group bucket buckets waiting hb' hslot =>
      rw [slotAt_swap hslot hb' hb]
      split
      · rename_i heq
        rw [← heq.1, ← heq.2, htask.2.2]
        exact Or.inr (Or.inr (Or.inl rfl))
      · exact Or.inl rfl
  | takeStrings bucket strings hg hslot =>
      rw [slotAt_swap hslot (hholder bucket rfl) hb]
      split
      · exact Or.inr (Or.inl rfl)
      · exact Or.inl rfl
  | park bucket hg hslot =>
      rw [slotAt_swap hslot (hholder bucket rfl) hb]
      split
      · rename_i heq
        exact Or.inr (Or.inr (Or.inr ⟨bucket, rfl, heq.2, heq.1⟩))
      · exact Or.inl rfl
  | _ => exact Or.inl rfl

theorem waiting_action (h : ScheduleInv hashBytes groups trace ⟨s, t ::ₘ ts⟩)
    (hact : Action hashBytes s t e) :
    ∀ g b bucket, b < mergeStringBuckets →
      e.shared.slotAt g b = some (.waitingForStrings bucket) →
      bucket.index = b ∧ bucket.nextInputGroupIndex = g := by
  intro g b bucket hb hslot
  rcases h.slot_action hact (g := g) hb with hsame | hempty | hstrings | ⟨bucket', hpark, hplace⟩
  · exact h.waiting g b bucket hb (hsame ▸ hslot)
  · simp [hempty] at hslot
  · simp [hstrings] at hslot
  · obtain rfl : bucket' = bucket := by simpa [hpark] using hslot
    exact hplace

theorem strings_action (h : ScheduleInv hashBytes groups trace ⟨s, t ::ₘ ts⟩)
    (hact : Action hashBytes s t e) :
    ∀ g b strings, b < mergeStringBuckets → e.shared.slotAt g b = some (.strings strings) →
      strings = groupStrings M hashBytes groups g b := by
  intro g b strings hb hslot
  rcases h.slot_action hact (g := g) hb with hsame | hempty | hstrings | ⟨bucket', hpark, -⟩
  · exact h.strings g b strings hb (hsame ▸ hslot)
  · simp [hempty] at hslot
  · rw [hstrings] at hslot
    exact (StringsSlot.strings.inj (Option.some.inj hslot)).symm
  · simp [hpark] at hslot

end ScheduleInv

/-! ### The conserved quantities -/

section AfterSpawning

variable (caller : Option MergeStringsSectionBucket)

@[simp] theorem afterSpawning_token (g b : Nat) :
    taskSum (Task.token g b) (afterSpawning (M := M) caller : Multiset (Task M)) = 0 := by
  cases caller <;> simp [afterSpawning, Task.token]

@[simp] theorem afterSpawning_shardToken (g : Nat) :
    taskSum (Task.shardToken g) (afterSpawning (M := M) caller : Multiset (Task M)) = 0 := by
  cases caller <;> simp [afterSpawning, Task.shardToken]

@[simp] theorem afterSpawning_buffers :
    taskSum Task.buffers (afterSpawning (M := M) caller : Multiset (Task M)) = 0 := by
  cases caller <;> simp [afterSpawning, Task.buffers]

@[simp] theorem afterSpawning_vecs :
    taskSum Task.vecs (afterSpawning (M := M) caller : Multiset (Task M)) = 0 := by
  cases caller <;> simp [afterSpawning, Task.vecs]

end AfterSpawning

namespace ScheduleInv

variable {trace : List Merged} {s : SplitResources M} {t : Task M} {ts : Multiset (Task M)}
  {e : SplitEffect M}

/-- The strings of the slot that a group task fills go from the task into the slot. -/
theorem token_swapSlots {group bucket g b : Nat} {x : StringsSlot} (strings : List StringToMerge)
    (hslot : s.slotAt group bucket = some x) (hx : x.token = 0) (hb : bucket < mergeStringBuckets)
    (hb' : b < mergeStringBuckets) :
    (if group = g ∧ bucket < b then 1 else 0)
        + ((s.swapStringsSlot group bucket (.strings strings)).slotAt g b).elim 0 StringsSlot.token
      = (if group = g ∧ bucket ≤ b then 1 else 0)
        + (s.slotAt g b).elim 0 StringsSlot.token := by
  rw [slotAt_swap hslot hb hb']
  by_cases heq : group = g ∧ bucket = b
  · obtain ⟨rfl, rfl⟩ := heq
    have hstrings : StringsSlot.token (.strings strings) = 1 := rfl
    simp [hslot, hx, hstrings]
  · have hiff : (group = g ∧ bucket < b) ↔ (group = g ∧ bucket ≤ b) := by omega
    simp only [hiff, if_neg heq]

theorem token_action (h : ScheduleInv hashBytes groups trace ⟨s, t ::ₘ ts⟩)
    (hact : Action hashBytes s t e) {g b : Nat} (hb : b < mergeStringBuckets) :
    tokens g b ⟨e.shared, (e.tasks : Multiset (Task M)) + ts⟩ = tokens g b ⟨s, t ::ₘ ts⟩ := by
  have hholder : ∀ bucket, t.held = {bucket} → bucket.index < mergeStringBuckets :=
    fun bucket ht => h.index_lt (by rw [holders_cons, ht]; simp)
  rcases hact.events with hevents | ⟨bucket, bucket', strings, stores, hprocess, rfl, rfl⟩
  · rw [tokens, hact.holders_eq ts hevents, tokens]
    congr 1
    cases hact with
    | pop group unprocessed hpop =>
        simp only [hpop, List.countP_cons, taskSum_add, taskSum_cons, taskSum_coe_cons,
          taskSum_coe_nil, Task.token]
        simp [SplitResources.slotAt]
        omega
    | fill group bucket buckets hb' hslot =>
        have hmove := token_swapSlots (buckets.at bucket) hslot rfl hb' (g := g) hb
        simp [Task.token]
        omega
    | wake group bucket buckets waiting hb' hslot =>
        have hmove := token_swapSlots (buckets.at bucket) hslot rfl hb' (g := g) hb
        simp [Task.token]
        omega
    | filled group bucket buckets hb' =>
        have hlt : ¬(group = g ∧ bucket ≤ b) := by omega
        simp [Task.token, hlt]
    | takeStrings bucket strings hg hslot =>
        simp only [slotAt_swap hslot (hholder bucket rfl) hb, taskSum_add, taskSum_cons,
          taskSum_coe_cons, taskSum_coe_nil, Task.token, swapStringsSlot_unprocessed]
        by_cases heq : bucket.nextInputGroupIndex = g ∧ bucket.index = b
        · obtain ⟨rfl, rfl⟩ := heq
          simp [hslot, StringsSlot.token]
          omega
        · have hiff : ¬(bucket.index = b ∧ bucket.nextInputGroupIndex = g) := by omega
          simp [heq, hiff]
    | park bucket hg hslot =>
        simp only [slotAt_swap hslot (hholder bucket rfl) hb, taskSum_add, taskSum_cons,
          taskSum_coe_nil, Task.token, swapStringsSlot_unprocessed]
        by_cases heq : bucket.nextInputGroupIndex = g ∧ bucket.index = b
        · obtain ⟨rfl, rfl⟩ := heq
          simp [hslot, StringsSlot.token]
        · simp [heq]
    | process => simp at hevents
    | _ => simp [Task.token, SplitResources.slotAt]
  · have hextends := MergeStringsSectionBucket.processSplitOutput_extends hprocess
    have hindex := hextends.index
    have hnext := hextends.next
    simp only [tokens, holders_process, holders_returnVec, taskSum_add, taskSum_cons,
      taskSum_coe_cons, taskSum_coe_nil, Task.token, MergeStringsSectionBucket.merged,
      MergeStringsSectionBucket.advance, hindex, hnext, SplitResources.slotAt]
    have hmerged : (if bucket.index = b ∧ g < bucket.nextInputGroupIndex + 1 then 1 else 0)
        = (if bucket.index = b ∧ bucket.nextInputGroupIndex = g then 1 else 0)
          + (if bucket.index = b ∧ g < bucket.nextInputGroupIndex then 1 else 0) := by
      split_ifs <;> omega
    omega

theorem shardToken_action (h : ScheduleInv hashBytes groups trace ⟨s, t ::ₘ ts⟩)
    (hact : Action hashBytes s t e) (g : Nat) :
    shardTokens g ⟨e.shared, (e.tasks : Multiset (Task M)) + ts⟩
      = shardTokens g ⟨s, t ::ₘ ts⟩ := by
  cases hact with
  | pop group unprocessed hpop =>
      simp only [shardTokens, hpop, List.countP_cons, taskSum_add, taskSum_cons, taskSum_coe_cons,
        taskSum_coe_nil, Task.shardToken]
      simp
      omega
  | storeShard group st hempty =>
      have hlt := (List.getElem?_eq_some_iff.mp hempty).1
      simp only [shardTokens, taskSum_add, taskSum_cons, taskSum_coe_cons, taskSum_coe_nil,
        Task.shardToken, List.getElem?_set, if_pos hlt]
      by_cases heq : group.index = g
      · subst heq
        simp [hempty]
        omega
      · simp [heq]
  | _ => simp [shardTokens, Task.shardToken]

theorem buffers_action (h : ScheduleInv hashBytes groups trace ⟨s, t ::ₘ ts⟩)
    (hact : Action hashBytes s t e) :
    JdxLinker.buffers ⟨e.shared, (e.tasks : Multiset (Task M)) + ts⟩
      = JdxLinker.buffers ⟨s, t ::ₘ ts⟩ := by
  cases hact with
  | fill group bucket buckets hb hslot =>
      have hsum := slotSum_swap StringsSlot.token hslot (.strings (buckets.at bucket))
      simp only [StringsSlot.token] at hsum
      simp [JdxLinker.buffers, Task.buffers]
      omega
  | wake group bucket buckets waiting hb hslot =>
      have hsum := slotSum_swap StringsSlot.token hslot (.strings (buckets.at bucket))
      simp only [StringsSlot.token] at hsum
      simp [JdxLinker.buffers, Task.buffers]
      omega
  | takeStrings bucket strings hg hslot =>
      have hsum := slotSum_swap StringsSlot.token hslot .empty
      simp only [StringsSlot.token] at hsum
      simp [JdxLinker.buffers, Task.buffers]
      omega
  | park bucket hg hslot =>
      have hsum := slotSum_swap StringsSlot.token hslot (.waitingForStrings bucket)
      simp only [StringsSlot.token] at hsum
      simp [JdxLinker.buffers, Task.buffers]
      omega
  | filled group bucket buckets hb =>
      simp [JdxLinker.buffers, Task.buffers, Nat.sub_eq_zero_of_le hb]
  | reserve caller hle =>
      simp [JdxLinker.buffers, Task.buffers]
      omega
  | _ =>
      simp [JdxLinker.buffers, Task.buffers]
      try omega

theorem capacity_action (hact : Action hashBytes s t e) :
    e.shared.reusePool.capacity = s.reusePool.capacity := by
  cases hact <;> rfl

/-- A task keeps at least as many buffers from the pool as it has vectors in hand. -/
theorem vecs_le_buffers (t : Task M) : t.vecs ≤ t.buffers := by
  cases t <;> simp [Task.vecs, Task.buffers]

theorem vecs_action (h : ScheduleInv hashBytes groups trace ⟨s, t ::ₘ ts⟩)
    (hact : Action hashBytes s t e) :
    JdxLinker.vecs ⟨e.shared, (e.tasks : Multiset (Task M)) + ts⟩ ≤ s.reusePool.capacity := by
  have hvecs := h.vecs
  have hbuffers := h.buffers
  have htask := h.task t (Multiset.mem_cons_self _ _)
  have hle := taskSum_le_taskSum (vecs_le_buffers (M := M)) ts
  cases hact with
  | takeVec group reservation =>
      have hres := htask.2
      simp [JdxLinker.vecs, JdxLinker.buffers, Task.vecs, Task.buffers] at hvecs hbuffers ⊢
      omega
  | fill group bucket buckets hb hslot =>
      have hsum := slotSum_swap StringsSlot.token hslot (.strings (buckets.at bucket))
      simp only [StringsSlot.token] at hsum
      simp [JdxLinker.vecs, Task.vecs] at hvecs ⊢
      omega
  | wake group bucket buckets waiting hb hslot =>
      have hsum := slotSum_swap StringsSlot.token hslot (.strings (buckets.at bucket))
      simp only [StringsSlot.token] at hsum
      simp [JdxLinker.vecs, Task.vecs] at hvecs ⊢
      omega
  | takeStrings bucket strings hg hslot =>
      have hsum := slotSum_swap StringsSlot.token hslot .empty
      simp only [StringsSlot.token] at hsum
      simp [JdxLinker.vecs, Task.vecs] at hvecs ⊢
      omega
  | park bucket hg hslot =>
      have hsum := slotSum_swap StringsSlot.token hslot (.waitingForStrings bucket)
      simp only [StringsSlot.token] at hsum
      simp [JdxLinker.vecs, Task.vecs] at hvecs ⊢
      omega
  | _ =>
      simp [JdxLinker.vecs, Task.vecs] at hvecs ⊢
      omega

/-- When a group could be started, some task is about to notice: whoever gives buffers back looks at
the pool afterwards, and a task that lost a race lost it to one that looks again. -/
theorem wake_action (h : ScheduleInv hashBytes groups trace ⟨s, t ::ₘ ts⟩)
    (hact : Action hashBytes s t e) (havailable : mergeStringBuckets ≤ e.shared.reusePool.available) :
    e.shared.unprocessed = []
      ∨ ∃ t' ∈ (e.tasks : Multiset (Task M)) + ts, t'.Wakes e.shared := by
  have htask := h.task t (Multiset.mem_cons_self _ _)
  -- The others still notice when the action leaves the number of available buffers alone.
  have hothers : e.shared.reusePool.available = s.reusePool.available → ¬t.Wakes s →
      e.shared.unprocessed = []
        ∨ ∃ t' ∈ (e.tasks : Multiset (Task M)) + ts, t'.Wakes e.shared := by
    intro hsame ht
    rcases h.wake (hsame ▸ havailable) with hnil | ⟨t', ht', hwakes⟩
    · exact Or.inl (hact.unprocessed_nil hnil)
    · rcases Multiset.mem_cons.mp ht' with rfl | hmem
      · exact absurd hwakes ht
      · refine Or.inr ⟨t', Multiset.mem_add.mpr (Or.inr hmem), ?_⟩
        cases t' <;> simp_all [Task.Wakes]
  cases hact with
  | full caller hlt => exact absurd havailable (Nat.not_le_of_lt hlt)
  | load caller hle => exact Or.inr ⟨.exchange caller s.reusePool.available, by simp, rfl⟩
  | reserve caller hle => exact Or.inr ⟨.load caller, by simp, trivial⟩
  | lost caller available hne => exact hothers rfl (fun heq => hne heq.symm)
  | unreserve reservation =>
      by_cases hzero : reservation = 0
      · subst hzero
        exact hothers rfl id
      · exact Or.inl (htask hzero)
  | countVec bucket => exact Or.inr ⟨.load (some bucket), by simp, trivial⟩
  | _ => exact hothers rfl id

theorem stores_action (h : ScheduleInv hashBytes groups trace ⟨s, t ::ₘ ts⟩)
    (hact : Action hashBytes s t e) :
    e.shared.offsetStores
      = (trace ++ e.events).flatMap fun m => groupStores M hashBytes groups m.bucket m.group := by
  have hstores := h.stores
  cases hact with
  | process bucket bucket' strings stores hprocess =>
      obtain ⟨hlt, rfl⟩ := h.task _ (Multiset.mem_cons_self _ _)
      have hok := h.holder bucket (by rw [holders_process]; simp)
      have hnew : groupStores M hashBytes groups bucket.index bucket.nextInputGroupIndex = stores := by
        simp only [groupStores, hok.content, hprocess]
      rw [List.flatMap_append, ← hstores]
      simp [hnew]
  | _ => simpa using hstores

theorem shard_action (h : ScheduleInv hashBytes groups trace ⟨s, t ::ₘ ts⟩)
    (hact : Action hashBytes s t e) :
    ∀ g shard, e.shared.finishedShards[g]? = some (some shard) →
      ∃ st, groupSplit M hashBytes groups g = some st ∧ st.shard = shard := by
  have htask := h.task t (Multiset.mem_cons_self _ _)
  cases hact with
  | storeShard group st hempty =>
      intro g shard hshard
      rw [List.getElem?_set] at hshard
      split at hshard
      · rename_i heq
        subst heq
        split at hshard
        · exact ⟨st, groupSplit_eq htask.1 htask.2, by simpa using hshard⟩
        · cases hshard
      · exact h.shard g shard hshard
  | _ => exact h.shard

/-- Every action of a run without errors keeps the invariant. -/
theorem action_inv (h : ScheduleInv hashBytes groups trace ⟨s, t ::ₘ ts⟩)
    (hindexed : IndexedGroups groups) (hact : Action hashBytes s t e) :
    ScheduleInv hashBytes groups (trace ++ e.events) ⟨e.shared, (e.tasks : Multiset (Task M)) + ts⟩ where
  numInputGroups := by
    have hgroups := h.numInputGroups
    cases hact <;> exact hgroups
  slots_length := by
    have hlength := h.slots_length
    cases hact <;> simpa [SplitResources.swapStringsSlot] using hlength
  shards_length := by
    have hlength := h.shards_length
    cases hact <;> simpa using hlength
  queue := by
    obtain ⟨u, hu⟩ := h.queue
    cases hact with
    | pop group unprocessed hpop =>
        refine ⟨u + 1, ?_⟩
        have htail := congrArg List.tail (hpop.symm.trans hu)
        simpa using htail
    | _ => exact ⟨u, hu⟩
  buckets := h.buckets_action hact
  holder := h.holder_action hact
  task := h.task_action hindexed hact
  waiting := h.waiting_action hact
  strings := h.strings_action hact
  finished := by
    have hfinished := h.finished
    cases hact with
    | finish bucket hg =>
        have hlast := h.numInputGroups ▸ hg
        simpa [or_imp, forall_and] using And.intro hfinished hlast
    | _ => exact hfinished
  token g b hg hb := (h.token_action hact hb).trans (h.token g b hg hb)
  shardToken g hg := (h.shardToken_action hact g).trans (h.shardToken g hg)
  shard := h.shard_action hact
  buffers := (h.buffers_action hact).trans (h.buffers.trans (capacity_action hact).symm)
  vecs := (h.vecs_action hact).trans (capacity_action hact).ge
  wake := h.wake_action hact
  stores := h.stores_action hact
  events := by
    have hevents := h.events
    cases hact with
    | process bucket bucket' strings stores hprocess =>
        have hlt := h.index_lt (show bucket ∈ holders _ by rw [holders_process]; simp)
        simpa [or_imp, forall_and] using And.intro hevents hlt
    | _ => simpa using hevents
  panicked := by
    have hpanicked := h.panicked
    cases hact <;> exact hpanicked

end ScheduleInv

end JdxLinker
