import JdxLinker.Lib.Sums
import JdxLinker.StringMerge.Content
import JdxLinker.StringMerge.Inputs
import JdxLinker.StringMerge.Schedule
import Mathlib

/-!
# What the schedule keeps

Three things are conserved while the tasks run: the buckets, the strings of each group for each
bucket, and the buffers of the pool. Each is somewhere at any time, in a slot, in a task, in the
queue or in the pool, and in one place only. From that and from where a task may be when the pool is
full follows that nothing is left behind once no task is alive.
-/

namespace JdxLinker

open Sums TaskSystem

variable {M : OffsetMap} (hashBytes : Bytes → Nat) (groups : List SectionGroup)

/-! ### The result, whatever the order -/

variable (M) in
/-- What the task of group `g` collects. -/
def groupSplit (g : Nat) : Option (SplitState M) :=
  groups[g]?.bind fun group => (splitGroup M hashBytes group).toOption

variable (M) in
/-- The strings that group `g` has for bucket `b`. -/
def groupStrings (g b : Nat) : List StringToMerge :=
  (groupSplit M hashBytes groups g).elim [] (·.buckets.at b)

variable (M) in
/-- Bucket `b` after the first `k` groups in order. -/
def bucketAfter (b : Nat) : Nat → Except String MergeStringsSectionBucket
  | 0 => .ok (.new b)
  | k + 1 => do
      let bucket ← bucketAfter b k
      let (bucket, _) ← bucket.processSplitOutput (groupStrings M hashBytes groups k b)
      return bucket.advance

variable (M) in
/-- The stores that bucket `b` makes for group `g`. -/
def groupStores (b g : Nat) : List OffsetStore :=
  match bucketAfter M hashBytes groups b g with
  | .error _ => []
  | .ok bucket =>
      match bucket.processSplitOutput (groupStrings M hashBytes groups g b) with
      | .error _ => []
      | .ok (_, stores) => stores

/-- The groups that bucket `b` has merged, in order. -/
def mergedGroups (trace : List Merged) (b : Nat) : List Nat :=
  (trace.filter (·.bucket = b)).map (·.group)

/-! ### Where things are -/

/-- The bucket that a task will carry on with after `try_spawn_input_processing`. -/
def callerHeld (caller : Option MergeStringsSectionBucket) : Multiset MergeStringsSectionBucket :=
  caller.elim 0 ({·.advance})

/-- The bucket that a task holds, as it will be when its loop comes round. While it merges strings
the bucket is still the one before them. -/
def Task.held : Task M → Multiset MergeStringsSectionBucket
  | .load caller | .exchange caller _ => callerHeld caller
  | .work bucket | .process bucket _ => {bucket}
  | .returnVec bucket | .countVec bucket => {bucket.advance}
  | _ => 0

def StringsSlot.held : StringsSlot → Multiset MergeStringsSectionBucket
  | .waitingForStrings bucket => {bucket}
  | _ => 0

/-- Every bucket, wherever it is. -/
def holders (c : Config (SplitResources M) (Task M)) : Multiset MergeStringsSectionBucket :=
  taskSum Task.held c.tasks + slotSum StringsSlot.held c.shared.stringsByBucketAndGroup
    + c.shared.finishedBuckets

/-- Whether a task has the strings of group `g` for bucket `b` in hand. -/
def Task.token (g b : Nat) : Task M → Nat
  | .takeVecs group _ | .split group | .storeShard group _ => if group.index = g then 1 else 0
  | .swapSlots group bucket _ => if group = g ∧ bucket ≤ b then 1 else 0
  | .process bucket _ => if bucket.index = b ∧ bucket.nextInputGroupIndex = g then 1 else 0
  | _ => 0

def StringsSlot.token : StringsSlot → Nat
  | .strings _ => 1
  | _ => 0

/-- Whether a bucket has merged group `g` as bucket `b`. -/
def MergeStringsSectionBucket.merged (g b : Nat) (bucket : MergeStringsSectionBucket) : Nat :=
  if bucket.index = b ∧ g < bucket.nextInputGroupIndex then 1 else 0

def SplitResources.slotAt (s : SplitResources M) (g b : Nat) : Option StringsSlot :=
  s.stringsByBucketAndGroup[stringBucketOffset g b]?

/-- The places where the strings of group `g` for bucket `b` are, or the bucket they went into. -/
def tokens (g b : Nat) (c : Config (SplitResources M) (Task M)) : Nat :=
  c.shared.unprocessed.countP (·.index = g) + taskSum (Task.token g b) c.tasks
    + (c.shared.slotAt g b).elim 0 StringsSlot.token
    + taskSum (MergeStringsSectionBucket.merged g b) (holders c)

/-- Whether a task has yet to store the shard of group `g`. -/
def Task.shardToken (g : Nat) : Task M → Nat
  | .takeVecs group _ | .split group | .storeShard group _ => if group.index = g then 1 else 0
  | _ => 0

def shardTokens (g : Nat) (c : Config (SplitResources M) (Task M)) : Nat :=
  c.shared.unprocessed.countP (·.index = g) + taskSum (Task.shardToken g) c.tasks
    + (c.shared.finishedShards[g]?.join).elim 0 fun _ => 1

/-- The buffers that a task keeps from the pool. -/
def Task.buffers : Task M → Nat
  | .popGroup | .takeVecs _ _ | .split _ | .storeShard _ _ => mergeStringBuckets
  | .swapSlots _ bucket _ => mergeStringBuckets - bucket
  | .unreserve reservation => reservation
  | .process _ _ | .returnVec _ | .countVec _ => 1
  | _ => 0

/-- The vectors that a task has in hand. -/
def Task.vecs : Task M → Nat
  | .takeVecs _ reservation => mergeStringBuckets - reservation
  | .split _ | .storeShard _ _ => mergeStringBuckets
  | .swapSlots _ bucket _ => mergeStringBuckets - bucket
  | .process _ _ | .returnVec _ => 1
  | _ => 0

def buffers (c : Config (SplitResources M) (Task M)) : Nat :=
  c.shared.reusePool.available + taskSum Task.buffers c.tasks
    + slotSum StringsSlot.token c.shared.stringsByBucketAndGroup

def vecs (c : Config (SplitResources M) (Task M)) : Nat :=
  c.shared.reusePool.stringVecs + taskSum Task.vecs c.tasks
    + slotSum StringsSlot.token c.shared.stringsByBucketAndGroup

/-! ### The invariant -/

/-- A bucket is what it should be after the groups that it counts as merged. -/
structure HolderOk (trace : List Merged) (bucket : MergeStringsSectionBucket) : Prop where
  le : bucket.nextInputGroupIndex ≤ groups.length
  content : bucketAfter M hashBytes groups bucket.index bucket.nextInputGroupIndex = .ok bucket
  merged : mergedGroups trace bucket.index = List.range bucket.nextInputGroupIndex

/-- What a task carries is what it should be. -/
def TaskOk (s : SplitResources M) : Task M → Prop
  | .exchange _ available => mergeStringBuckets ≤ available
  | .takeVecs group reservation =>
      groups[group.index]? = some group ∧ reservation ≤ mergeStringBuckets
  | .split group => groups[group.index]? = some group
  | .storeShard group st =>
      groups[group.index]? = some group ∧ splitGroup M hashBytes group = .ok st
  | .swapSlots group bucket buckets => group < groups.length ∧ bucket ≤ mergeStringBuckets ∧
      ∀ b, groupStrings M hashBytes groups group b = buckets.at b
  | .unreserve reservation => reservation ≠ 0 → s.unprocessed = []
  | .process bucket strings => bucket.nextInputGroupIndex < groups.length ∧
      strings = groupStrings M hashBytes groups bucket.nextInputGroupIndex bucket.index
  | _ => True

/-- A task that will see that the pool has enough buffers for a group. -/
def Task.Wakes (s : SplitResources M) : Task M → Prop
  | .load _ => True
  | .exchange _ available => available = s.reusePool.available
  | _ => False

/-- The state of a run without errors. -/
structure ScheduleInv (trace : List Merged) (c : Config (SplitResources M) (Task M)) : Prop where
  numInputGroups : c.shared.numInputGroups = groups.length
  slots_length :
    c.shared.stringsByBucketAndGroup.length = groups.length * mergeStringBuckets
  shards_length : c.shared.finishedShards.length = groups.length
  queue : ∃ u, c.shared.unprocessed = groups.drop u
  buckets : (holders c).map (·.index) = Multiset.range mergeStringBuckets
  holder : ∀ bucket ∈ holders c, HolderOk (M := M) hashBytes groups trace bucket
  task : ∀ t ∈ c.tasks, TaskOk hashBytes groups c.shared t
  waiting : ∀ g b bucket, b < mergeStringBuckets →
    c.shared.slotAt g b = some (.waitingForStrings bucket) →
    bucket.index = b ∧ bucket.nextInputGroupIndex = g
  strings : ∀ g b strings, b < mergeStringBuckets → c.shared.slotAt g b = some (.strings strings) →
    strings = groupStrings M hashBytes groups g b
  finished : ∀ bucket ∈ c.shared.finishedBuckets, groups.length ≤ bucket.nextInputGroupIndex
  token : ∀ g b, g < groups.length → b < mergeStringBuckets → tokens g b c = 1
  shardToken : ∀ g, g < groups.length → shardTokens g c = 1
  shard : ∀ g shard, c.shared.finishedShards[g]? = some (some shard) →
    ∃ st, groupSplit M hashBytes groups g = some st ∧ st.shard = shard
  buffers : buffers c = c.shared.reusePool.capacity
  vecs : vecs c ≤ c.shared.reusePool.capacity
  wake : mergeStringBuckets ≤ c.shared.reusePool.available →
    c.shared.unprocessed = [] ∨ ∃ t ∈ c.tasks, t.Wakes c.shared
  stores : c.shared.offsetStores
    = trace.flatMap fun e => groupStores M hashBytes groups e.bucket e.group
  events : ∀ e ∈ trace, e.bucket < mergeStringBuckets
  panicked : c.shared.panicked = false

/-! ### What an action can do -/

/-- The actions of a run without errors, with what each of them found. -/
inductive Action (s : SplitResources M) : Task M → SplitEffect M → Prop
  | full (caller : Option MergeStringsSectionBucket)
      (h : s.reusePool.available < mergeStringBuckets) :
      Action s (.load caller) ⟨s, afterSpawning caller, []⟩
  | load (caller : Option MergeStringsSectionBucket)
      (h : mergeStringBuckets ≤ s.reusePool.available) :
      Action s (.load caller) ⟨s, [.exchange caller s.reusePool.available], []⟩
  | reserve (caller : Option MergeStringsSectionBucket)
      (h : mergeStringBuckets ≤ s.reusePool.available) :
      Action s (.exchange caller s.reusePool.available)
        ⟨{ s with reusePool.available := s.reusePool.available - mergeStringBuckets },
          [.popGroup, .load caller], []⟩
  | lost (caller : Option MergeStringsSectionBucket) (available : Nat)
      (h : s.reusePool.available ≠ available) :
      Action s (.exchange caller available) ⟨s, afterSpawning caller, []⟩
  | popNothing (h : s.unprocessed = []) :
      Action s .popGroup ⟨s, [.unreserve mergeStringBuckets], []⟩
  | pop (group : SectionGroup) (unprocessed : List SectionGroup)
      (h : s.unprocessed = group :: unprocessed) :
      Action s .popGroup ⟨{ s with unprocessed }, [.takeVecs group mergeStringBuckets], []⟩
  | allTaken (group : SectionGroup) : Action s (.takeVecs group 0) ⟨s, [.split group], []⟩
  | takeVec (group : SectionGroup) (reservation : Nat) :
      Action s (.takeVecs group (reservation + 1))
        ⟨{ s with reusePool.stringVecs := s.reusePool.stringVecs - 1 },
          [.takeVecs group reservation], []⟩
  | split (group : SectionGroup) (st : SplitState M) (h : splitGroup M hashBytes group = .ok st) :
      Action s (.split group) ⟨s, [.storeShard group st], []⟩
  | storeShard (group : SectionGroup) (st : SplitState M)
      (h : s.finishedShards[group.index]? = some none) :
      Action s (.storeShard group st)
        ⟨{ s with finishedShards := s.finishedShards.set group.index (some st.shard) },
          [.swapSlots group.index 0 st.buckets], []⟩
  | fill (group bucket : Nat) (buckets : StringBuckets) (hb : bucket < mergeStringBuckets)
      (h : s.slotAt group bucket = some .empty) :
      Action s (.swapSlots group bucket buckets)
        ⟨s.swapStringsSlot group bucket (.strings (buckets.at bucket)),
          [.swapSlots group (bucket + 1) buckets], []⟩
  | wake (group bucket : Nat) (buckets : StringBuckets) (waiting : MergeStringsSectionBucket)
      (hb : bucket < mergeStringBuckets)
      (h : s.slotAt group bucket = some (.waitingForStrings waiting)) :
      Action s (.swapSlots group bucket buckets)
        ⟨s.swapStringsSlot group bucket (.strings (buckets.at bucket)),
          [.swapSlots group (bucket + 1) buckets, .work waiting], []⟩
  | filled (group bucket : Nat) (buckets : StringBuckets) (hb : mergeStringBuckets ≤ bucket) :
      Action s (.swapSlots group bucket buckets) ⟨s, [.unreserve 0], []⟩
  | unreserve (reservation : Nat) :
      Action s (.unreserve reservation)
        ⟨{ s with reusePool.available := s.reusePool.available + reservation }, [], []⟩
  | takeStrings (bucket : MergeStringsSectionBucket) (strings : List StringToMerge)
      (hg : bucket.nextInputGroupIndex < s.numInputGroups)
      (h : s.slotAt bucket.nextInputGroupIndex bucket.index = some (.strings strings)) :
      Action s (.work bucket)
        ⟨s.swapStringsSlot bucket.nextInputGroupIndex bucket.index .empty,
          [.process bucket strings], []⟩
  | park (bucket : MergeStringsSectionBucket) (hg : bucket.nextInputGroupIndex < s.numInputGroups)
      (h : s.slotAt bucket.nextInputGroupIndex bucket.index = some .empty) :
      Action s (.work bucket)
        ⟨s.swapStringsSlot bucket.nextInputGroupIndex bucket.index (.waitingForStrings bucket),
          [], []⟩
  | finish (bucket : MergeStringsSectionBucket)
      (hg : s.numInputGroups ≤ bucket.nextInputGroupIndex) :
      Action s (.work bucket) ⟨{ s with finishedBuckets := s.finishedBuckets ++ [bucket] }, [], []⟩
  | process (bucket bucket' : MergeStringsSectionBucket) (strings : List StringToMerge)
      (stores : List OffsetStore)
      (h : bucket.processSplitOutput strings = .ok (bucket', stores)) :
      Action s (.process bucket strings)
        ⟨{ s with offsetStores := s.offsetStores ++ stores }, [.returnVec bucket'],
          [⟨bucket.index, bucket.nextInputGroupIndex⟩]⟩
  | returnVec (bucket : MergeStringsSectionBucket) :
      Action s (.returnVec bucket)
        ⟨{ s with reusePool.stringVecs := s.reusePool.stringVecs + 1 }, [.countVec bucket], []⟩
  | countVec (bucket : MergeStringsSectionBucket) :
      Action s (.countVec bucket)
        ⟨{ s with reusePool.available := s.reusePool.available + 1 },
          [.load (some bucket)], []⟩

variable {hashBytes groups}

theorem pushError_errors (s : SplitResources M) (error : String) :
    (s.pushError error).errors ≠ none := by
  simp [SplitResources.pushError]

/-- An error is never taken back. -/
theorem act_errors {t : Task M} {s : SplitResources M}
    (h : (act M hashBytes t s).shared.errors = none) : s.errors = none := by
  cases t <;> simp only [act, fillSlot, workWithBucket, panic, SplitResources.swapStringsSlot] at h
  all_goals (repeat' split at h) <;> first | exact h | exact absurd h (pushError_errors _ _)

/-! ### Consequences of the invariant -/

theorem mergeStringBuckets_eq : mergeStringBuckets = 16 := rfl

theorem stringBucketOffset_lt {g b n : Nat} (hg : g < n) (hb : b < mergeStringBuckets) :
    stringBucketOffset g b < n * mergeStringBuckets := by
  simp only [stringBucketOffset, mergeStringBuckets_eq] at *
  omega

theorem stringBucketOffset_inj {g g' b b' : Nat} (hb : b < mergeStringBuckets)
    (hb' : b' < mergeStringBuckets) :
    stringBucketOffset g b = stringBucketOffset g' b' ↔ g = g' ∧ b = b' := by
  simp only [stringBucketOffset, mergeStringBuckets_eq] at *
  omega

theorem holders_cons (s : SplitResources M) (t : Task M) (ts : Multiset (Task M)) :
    holders ⟨s, t ::ₘ ts⟩ = t.held + holders ⟨s, ts⟩ := by
  simp [holders, add_assoc]

namespace ScheduleInv

variable {trace : List Merged} {c : Config (SplitResources M) (Task M)}

theorem slotAt_eq_some (h : ScheduleInv hashBytes groups trace c) {g b : Nat}
    (hg : g < groups.length) (hb : b < mergeStringBuckets) :
    ∃ slot, c.shared.slotAt g b = some slot := by
  refine ⟨_, List.getElem?_eq_getElem (h := ?_)⟩
  rw [h.slots_length]
  exact stringBucketOffset_lt hg hb

theorem index_lt (h : ScheduleInv hashBytes groups trace c) {bucket : MergeStringsSectionBucket}
    (hbucket : bucket ∈ holders c) : bucket.index < mergeStringBuckets := by
  have hmem := Multiset.mem_map_of_mem (·.index) hbucket
  rwa [h.buckets, Multiset.mem_range] at hmem

/-- No two buckets have the same index. -/
theorem index_ne (h : ScheduleInv hashBytes groups trace c)
    {bucket other : MergeStringsSectionBucket} {rest : Multiset MergeStringsSectionBucket}
    (hholders : holders c = bucket ::ₘ rest) (hother : other ∈ rest) :
    other.index ≠ bucket.index := by
  have hnodup : (Multiset.range mergeStringBuckets).Nodup := Multiset.nodup_range _
  rw [← h.buckets, hholders, Multiset.map_cons, Multiset.nodup_cons] at hnodup
  intro heq
  exact hnodup.1 (heq ▸ Multiset.mem_map_of_mem _ hother)

theorem mem_holders_of_slotAt {s : SplitResources M} {ts : Multiset (Task M)} {g b : Nat}
    {bucket : MergeStringsSectionBucket}
    (h : s.slotAt g b = some (.waitingForStrings bucket)) : bucket ∈ holders ⟨s, ts⟩ := by
  have hle := le_slotSum StringsSlot.held h
  have hmem := Multiset.mem_of_le hle (Multiset.mem_singleton_self bucket)
  exact Multiset.mem_add.mpr (Or.inl (Multiset.mem_add.mpr (Or.inr hmem)))

variable {s : SplitResources M} {t : Task M} {ts : Multiset (Task M)}

/-- The slot of a bucket that is at work holds no bucket. -/
theorem slotAt_work (h : ScheduleInv hashBytes groups trace ⟨s, t ::ₘ ts⟩)
    {bucket waiting : MergeStringsSectionBucket} (ht : t.held = {bucket}) :
    s.slotAt bucket.nextInputGroupIndex bucket.index ≠ some (.waitingForStrings waiting) := by
  intro hslot
  have hholders : holders ⟨s, t ::ₘ ts⟩ = bucket ::ₘ holders ⟨s, ts⟩ := by
    rw [holders_cons, ht, Multiset.singleton_add]
  have hlt : bucket.index < mergeStringBuckets :=
    h.index_lt (hholders ▸ Multiset.mem_cons_self _ _)
  exact h.index_ne hholders (mem_holders_of_slotAt hslot) (h.waiting _ _ _ hlt hslot).1

theorem token_le (h : ScheduleInv hashBytes groups trace ⟨s, t ::ₘ ts⟩) {g b : Nat}
    (hg : g < groups.length) (hb : b < mergeStringBuckets) :
    t.token g b + (s.slotAt g b).elim 0 StringsSlot.token ≤ 1 := by
  have htoken := h.token g b hg hb
  simp only [tokens, taskSum_cons] at htoken
  omega

theorem shardToken_le (h : ScheduleInv hashBytes groups trace ⟨s, t ::ₘ ts⟩) {g : Nat}
    (hg : g < groups.length) :
    t.shardToken g + (s.finishedShards[g]?.join).elim 0 (fun _ => 1) ≤ 1 := by
  have htoken := h.shardToken g hg
  simp only [shardTokens, taskSum_cons] at htoken
  omega

theorem finished_lt (h : ScheduleInv hashBytes groups trace ⟨s, t ::ₘ ts⟩)
    {bucket : MergeStringsSectionBucket} (ht : t.held = {bucket}) :
    s.finishedBuckets.length < mergeStringBuckets := by
  have hcard := congrArg Multiset.card h.buckets
  rw [holders_cons, ht] at hcard
  simp only [Multiset.card_map, holders, Multiset.card_add, Multiset.card_singleton,
    Multiset.coe_card, Multiset.card_range] at hcard
  omega

end ScheduleInv

/-- In a run without errors nothing panics, no slot is overwritten and the finished buckets fit in
their queue. -/
theorem ScheduleInv.action {trace : List Merged} {s : SplitResources M} {t : Task M}
    {ts : Multiset (Task M)} (h : ScheduleInv hashBytes groups trace ⟨s, t ::ₘ ts⟩)
    (herrors : (act M hashBytes t s).shared.errors = none) :
    Action hashBytes s t (act M hashBytes t s) := by
  have htask := h.task t (Multiset.mem_cons_self _ _)
  cases t with
  | load caller =>
      simp only [act]
      split
      · exact .full caller ‹_›
      · exact .load caller (Nat.le_of_not_lt ‹_›)
  | exchange caller available =>
      simp only [act]
      split
      · rename_i heq
        subst heq
        exact .reserve caller htask
      · exact .lost caller available ‹_›
  | popGroup =>
      simp only [act]
      split
      · exact .popNothing ‹_›
      · exact .pop _ _ ‹_›
  | takeVecs group reservation =>
      cases reservation with
      | zero => exact .allTaken group
      | succ reservation => exact .takeVec group reservation
  | split group =>
      simp only [act] at herrors ⊢
      split at herrors
      · exact absurd herrors (pushError_errors _ _)
      · exact .split group _ ‹_›
  | storeShard group st =>
      have hg : group.index < groups.length := (List.getElem?_eq_some_iff.mp htask.1).1
      have hlt : group.index < s.finishedShards.length := h.shards_length ▸ hg
      have hempty : s.finishedShards[group.index]? = some none := by
        have hle := h.shardToken_le hg
        rw [List.getElem?_eq_getElem hlt] at hle ⊢
        cases hshard : s.finishedShards[group.index] with
        | none => rfl
        | some shard => simp [Task.shardToken, hshard] at hle
      simp only [act, if_pos hlt]
      exact .storeShard group st hempty
  | swapSlots group bucket buckets =>
      obtain ⟨hg, -, -⟩ := htask
      simp only [act, fillSlot]
      split
      · rename_i hb
        obtain ⟨slot, hslot⟩ := h.slotAt_eq_some hg hb
        have hslot' : s.stringsByBucketAndGroup[stringBucketOffset group bucket]? = some slot :=
          hslot
        have hat : buckets ⟨bucket, hb⟩ = buckets.at bucket := by
          rw [StringBuckets.at, dif_pos hb]
        rw [hslot', hat]
        cases slot with
        | empty => exact .fill group bucket buckets hb hslot
        | waitingForStrings waiting => exact .wake group bucket buckets waiting hb hslot
        | strings strings =>
            have hle := h.token_le hg hb
            simp only at hslot
            simp [hslot, Task.token, StringsSlot.token] at hle
      · exact .filled group bucket buckets (Nat.le_of_not_lt ‹_›)
  | unreserve reservation => exact .unreserve reservation
  | work bucket =>
      have hheld : (Task.work bucket : Task M).held = {bucket} := rfl
      simp only [act, workWithBucket]
      split
      · rename_i hg
        have hlt : bucket.index < mergeStringBuckets :=
          h.index_lt (by rw [holders_cons, hheld]; simp)
        obtain ⟨slot, hslot⟩ := h.slotAt_eq_some (h.numInputGroups ▸ hg) hlt
        have hslot' : s.stringsByBucketAndGroup[stringBucketOffset bucket.nextInputGroupIndex
            bucket.index]? = some slot := hslot
        rw [hslot']
        cases slot with
        | empty => exact .park bucket hg hslot
        | waitingForStrings waiting => exact absurd hslot (h.slotAt_work hheld)
        | strings strings => exact .takeStrings bucket strings hg hslot
      · rw [if_pos (h.finished_lt hheld)]
        exact .finish bucket (Nat.le_of_not_lt ‹_›)
  | process bucket strings =>
      simp only [act] at herrors ⊢
      split at herrors
      · exact absurd herrors (pushError_errors _ _)
      · exact .process bucket _ strings _ ‹_›
  | returnVec bucket =>
      have hlt : s.reusePool.stringVecs < s.reusePool.capacity := by
        have hvecs := h.vecs
        simp only [JdxLinker.vecs, taskSum_cons, Task.vecs] at hvecs
        omega
      simp only [act, if_pos hlt]
      exact .returnVec bucket
  | countVec bucket => exact .countVec bucket

end JdxLinker
