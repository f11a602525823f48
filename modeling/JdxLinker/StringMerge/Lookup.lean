import JdxLinker.StringMerge.Recorded
import JdxLinker.StringMerge.Schedule

/-!
# Looking up recorded offsets

After a complete run the offset map and the overflow map together return, for every input offset,
exactly what was stored for it. So the merged section does not depend on the order of the run.
-/

namespace JdxLinker

variable {M : OffsetMap} {hashBytes : Bytes → Nat} {sections : List StringMergeInputSection}
  {groups : List SectionGroup}

/-! ### Stores -/

theorem storeInShard_base_len (hM : M.Lawful) (stores : List OffsetStore) (shard : M.Shard) :
    M.base (stores.foldl storeInShard shard) = M.base shard
      ∧ M.len (stores.foldl storeInShard shard) = M.len shard := by
  induction stores generalizing shard with
  | nil => exact ⟨rfl, rfl⟩
  | cons store stores ih =>
      have hone : M.base (storeInShard shard store) = M.base shard
          ∧ M.len (storeInShard shard store) = M.len shard := by
        unfold storeInShard
        split
        · split
          · exact ⟨hM.base_store _ _ _, hM.len_store _ _ _⟩
          · exact ⟨rfl, rfl⟩
        · exact ⟨rfl, rfl⟩
      rw [List.foldl_cons, (ih _).1, (ih _).2]
      exact hone

theorem covers_foldl (hM : M.Lawful) (stores : List OffsetStore) (shard : M.Shard) (k : Nat) :
    M.covers (stores.foldl storeInShard shard) k = M.covers shard k := by
  rw [OffsetMap.covers, (storeInShard_base_len hM stores shard).1,
    (storeInShard_base_len hM stores shard).2]
  rfl

/-- Stores go to entries that an insert made. -/
def StoresInserted (shard : M.Shard) (stores : List OffsetStore) : Prop :=
  ∀ store ∈ stores, ∀ k, store.out = .inShard k → M.covers shard k = true →
    M.get shard k ≠ none

theorem get_storeInShard (hM : M.Lawful) {shard : M.Shard} {store : OffsetStore}
    (hinserted : StoresInserted shard [store]) (k : Nat) :
    M.get (storeInShard shard store) k
      = if store.out = .inShard k ∧ M.covers shard k = true then some store.output
        else M.get shard k := by
  unfold storeInShard
  cases hout : store.out with
  | overflow k' => simp
  | inShard k' =>
      simp only [OffsetOut.inShard.injEq]
      split
      · rename_i hcovers
        rw [hM.get_store _ _ _ (hinserted store (by simp) k' hout hcovers)]
        by_cases heq : k = k'
        · subst heq
          simp [hcovers]
        · have hne : ¬k' = k := fun h => heq h.symm
          simp [heq, hne]
      · rename_i hcovers
        by_cases heq : k' = k
        · subst heq
          simp [hcovers]
        · simp [heq]

/-- An entry that is stored to at most one value ends up with it. -/
theorem get_foldl (hM : M.Lawful) {stores : List OffsetStore} {shard : M.Shard}
    (hinserted : StoresInserted shard stores) {k : Nat} (hcovers : M.covers shard k = true)
    {o : BucketOffset} (hunique : ∀ store ∈ stores, store.out = .inShard k → store.output = o) :
    M.get (stores.foldl storeInShard shard) k
      = if ∃ store ∈ stores, store.out = .inShard k then some o else M.get shard k := by
  induction stores generalizing shard with
  | nil => simp
  | cons store stores ih =>
      have hone : StoresInserted shard [store] := by
        intro store' hstore'
        obtain rfl := List.mem_singleton.mp hstore'
        exact hinserted store' List.mem_cons_self
      have hget := get_storeInShard hM hone
      have hcovers' : ∀ k', M.covers (storeInShard shard store) k' = M.covers shard k' :=
        covers_foldl hM [store] shard
      have hrest : StoresInserted (storeInShard shard store) stores := by
        intro store' hstore' k' hout hk'
        rw [hcovers'] at hk'
        rw [hget]
        split
        · simp
        · exact hinserted store' (List.mem_cons_of_mem _ hstore') k' hout hk'
      rw [List.foldl_cons, ih hrest ((hcovers' k).trans hcovers)
        fun store' hstore' => hunique store' (List.mem_cons_of_mem _ hstore'), hget]
      by_cases hthis : store.out = .inShard k
      · have ho := hunique store List.mem_cons_self hthis
        simp [hthis, hcovers, ho]
      · simp [hthis]

theorem lookup_foldl {stores : List OffsetStore} (map : List (Nat × BucketOffset)) {k : Nat}
    {o : BucketOffset} (hunique : ∀ store ∈ stores, store.out = .overflow k → store.output = o) :
    (stores.foldl insertOverflow map).lookup k
      = if ∃ store ∈ stores, store.out = .overflow k then some o else map.lookup k := by
  induction stores generalizing map with
  | nil => simp
  | cons store stores ih =>
      rw [List.foldl_cons, ih _ fun store' hstore' => hunique store' (List.mem_cons_of_mem _ hstore')]
      cases hout : store.out with
      | inShard k' => simp [insertOverflow, hout]
      | overflow k' =>
          by_cases heq : k' = k
          · subst heq
            have ho := hunique store List.mem_cons_self hout
            simp [insertOverflow, hout, ho]
          · have hne : (k == k') = false := by simpa using fun h => heq h.symm
            simp [insertOverflow, hout, heq, List.lookup_cons, hne]

/-! ### The maps of a complete run -/

section Complete

variable {trace : List Merged} {s : SplitResources M}

theorem covers_eq_inRange (hM : M.Lawful) (hplaced : PlacedFrom 0 sections)
    (hsplit : BlockSplit sections groups) {g : Nat} {group : SectionGroup} {st : SplitState M}
    (hgroup : groups[g]? = some group) (hst : groupSplit M hashBytes groups g = some st) (p : Piece) :
    M.covers st.shard p.1 = group.inRange p := by
  obtain ⟨group', hgroup', hok⟩ := groupSplit_some hst
  obtain rfl : group = group' := Option.some.inj (hgroup.symm.trans hgroup')
  have hblock := hsplit.group group (List.mem_of_getElem? hgroup)
  have hinserted := splitGroup_inserted hM hblock hplaced hok
  rw [OffsetMap.covers, SectionGroup.inRange, hinserted.base, hinserted.len, hblock.shardBase_eq,
    hblock.shardLen_eq, Bool.eq_iff_iff]
  simp only [Bool.and_eq_true, decide_eq_true_eq]
  omega

theorem ScheduleComplete.mem_shards (h : ScheduleComplete hashBytes groups trace s)
    {shard : M.Shard} : shard ∈ s.finishedShards.filterMap id ↔ ∃ (g : Nat) (st : SplitState M),
      g < groups.length ∧ groupSplit M hashBytes groups g = some st ∧ st.shard = shard := by
  simp only [List.mem_filterMap, id_eq, exists_eq_right]
  constructor
  · intro hmem
    obtain ⟨g, hg⟩ := List.mem_iff_getElem?.mp hmem
    have hlt : g < groups.length := h.shards_length ▸ (List.getElem?_eq_some_iff.mp hg).1
    obtain ⟨st, hst, hshard⟩ := h.shards g hlt
    rw [hg] at hshard
    exact ⟨g, st, hlt, hst, by simpa using hshard.symm⟩
  · rintro ⟨g, st, hlt, hst, rfl⟩
    obtain ⟨st', hst', hshard⟩ := h.shards g hlt
    obtain rfl : st = st' := Option.some.inj (hst.symm.trans hst')
    exact List.mem_of_getElem? hshard

theorem ScheduleComplete.storesInserted (h : ScheduleComplete hashBytes groups trace s)
    (hM : M.Lawful) (hplaced : PlacedFrom 0 sections) (hsplit : BlockSplit sections groups)
    {g : Nat} {st : SplitState M} (hg : g < groups.length)
    (hst : groupSplit M hashBytes groups g = some st) :
    StoresInserted st.shard s.offsetStores := by
  intro store hstore k hout hcovers
  obtain ⟨p, hp, g', group', st', hgroup', hin', hst', hplace, -⟩ :=
    h.store_piece hM hplaced hsplit hstore
  have hk : k = p.1 := by
    have hinput := placeOf_input st'.shard p.1
    rwa [← hplace, hout] at hinput
  subst hk
  have hgroup := List.getElem?_eq_getElem hg
  rw [covers_eq_inRange hM hplaced hsplit hgroup hst p] at hcovers
  obtain rfl := hsplit.ranges.index_unique hgroup hgroup' hcovers hin'
  obtain rfl : st = st' := Option.some.inj (hst.symm.trans hst')
  rw [hout, placeOf] at hplace
  split at hplace
  · rename_i hsome
    exact Option.isSome_iff_ne_none.mp hsome
  · cases hplace

/-- The shard that the offset map finds for a piece. -/
theorem ScheduleComplete.find?_shard (h : ScheduleComplete hashBytes groups trace s)
    (hM : M.Lawful) (hplaced : PlacedFrom 0 sections) (hsplit : BlockSplit sections groups)
    {g : Nat} {group : SectionGroup} {st : SplitState M} {p : Piece}
    (hgroup : groups[g]? = some group) (hin : group.inRange p = true)
    (hst : groupSplit M hashBytes groups g = some st) :
    (((s.finishedShards.filterMap id).map fun shard => s.offsetStores.foldl storeInShard shard).find?
      (M.covers · p.1)) = some (s.offsetStores.foldl storeInShard st.shard) := by
  have hg := (List.getElem?_eq_some_iff.mp hgroup).1
  have hmem : st.shard ∈ s.finishedShards.filterMap id := h.mem_shards.mpr ⟨g, st, hg, hst, rfl⟩
  cases hfind : (((s.finishedShards.filterMap id).map fun shard =>
      s.offsetStores.foldl storeInShard shard).find? (M.covers · p.1)) with
  | none =>
      have hnot := List.find?_eq_none.mp hfind _ (List.mem_map_of_mem hmem)
      rw [covers_foldl hM, covers_eq_inRange hM hplaced hsplit hgroup hst p, hin] at hnot
      exact absurd rfl hnot
  | some found =>
      have hcovers := List.find?_some hfind
      obtain ⟨shard, hshard, rfl⟩ := List.mem_map.mp (List.mem_of_find?_eq_some hfind)
      obtain ⟨g', st', hg', hst', rfl⟩ := h.mem_shards.mp hshard
      have hgroup' := List.getElem?_eq_getElem hg'
      rw [covers_foldl hM, covers_eq_inRange hM hplaced hsplit hgroup' hst' p] at hcovers
      obtain rfl := hsplit.ranges.index_unique hgroup hgroup' hin hcovers
      obtain rfl : st = st' := Option.some.inj (hst.symm.trans hst')
      rfl

/-- What was stored for an input offset is returned for it. -/
theorem ScheduleComplete.stringOffset_store (h : ScheduleComplete hashBytes groups trace s)
    (hM : M.Lawful) (hplaced : PlacedFrom 0 sections) (hsplit : BlockSplit sections groups)
    {section_ : MergedStringsSection M} (hsection : addInputSections s = .ok section_)
    {store : OffsetStore} (hstore : store ∈ s.offsetStores) :
    section_.stringOffset store.out.input = some store.output := by
  obtain ⟨p, hp, g, group, st, hgroup, hin, hst, hplace, -⟩ :=
    h.store_piece hM hplaced hsplit hstore
  have hinput : store.out.input = p.1 := by rw [hplace, placeOf_input]
  have hunique : ∀ store' ∈ s.offsetStores, store'.out.input = p.1 → store' = store :=
    fun store' hstore' heq =>
      h.store_unique hM hplaced hsplit hstore' hstore (heq.trans hinput.symm)
  have hg := (List.getElem?_eq_some_iff.mp hgroup).1
  have hcovers : M.covers st.shard p.1 = true :=
    (covers_eq_inRange hM hplaced hsplit hgroup hst p).trans hin
  have hget := get_foldl hM (h.storesInserted hM hplaced hsplit hg hst) hcovers (o := store.output)
    fun store' hstore' hout => by rw [hunique store' hstore' (by rw [hout]; rfl)]
  have hlookup := lookup_foldl [] (k := p.1) (o := store.output)
    fun store' (hstore' : store' ∈ s.offsetStores) hout => by
      rw [hunique store' hstore' (by rw [hout]; rfl)]
  unfold addInputSections at hsection
  split at hsection
  · cases hsection
  · cases hsection
    rw [MergedStringsSection.stringOffset, hinput,
      h.find?_shard hM hplaced hsplit hgroup hin hst, Option.bind_some, hget, hlookup]
    cases hout : store.out with
    | inShard k =>
        obtain rfl : k = p.1 := by rw [← hinput, hout]; rfl
        rw [if_pos ⟨store, hstore, hout⟩]
        rfl
    | overflow k =>
        obtain rfl : k = p.1 := by rw [← hinput, hout]; rfl
        have hnone : M.get st.shard p.1 = none := by
          rw [hout, placeOf] at hplace
          split at hplace
          · cases hplace
          · rename_i hsome
            simpa using hsome
        have hnot : ¬∃ store' ∈ s.offsetStores, store'.out = .inShard p.1 := by
          rintro ⟨store', hstore', hout'⟩
          rw [hunique store' hstore' (by rw [hout']; rfl), hout] at hout'
          cases hout'
        rw [if_neg hnot, if_pos ⟨store, hstore, hout⟩, hnone]
        rfl

/-- Nothing is returned for an input offset that nothing was stored for. -/
theorem ScheduleComplete.stringOffset_none (h : ScheduleComplete hashBytes groups trace s)
    (hM : M.Lawful) (hplaced : PlacedFrom 0 sections) (hsplit : BlockSplit sections groups)
    {section_ : MergedStringsSection M} (hsection : addInputSections s = .ok section_) {k : Nat}
    (hnone : ∀ store ∈ s.offsetStores, store.out.input ≠ k) :
    section_.stringOffset k = none := by
  have hlookup := lookup_foldl [] (k := k) (o := ⟨0⟩)
    fun store (hstore : store ∈ s.offsetStores) hout =>
      absurd (by rw [hout]; rfl) (hnone store hstore)
  have hnot : ¬∃ store ∈ s.offsetStores, store.out = .overflow k := by
    rintro ⟨store, hstore, hout⟩
    exact hnone store hstore (by rw [hout]; rfl)
  unfold addInputSections at hsection
  split at hsection
  · cases hsection
  · cases hsection
    rw [MergedStringsSection.stringOffset, hlookup, if_neg hnot]
    cases hfind : (((s.finishedShards.filterMap id).map fun shard =>
        s.offsetStores.foldl storeInShard shard).find? (M.covers · k)) with
    | none => simp
    | some found =>
        have hcovers := List.find?_some hfind
        obtain ⟨shard, hshard, rfl⟩ := List.mem_map.mp (List.mem_of_find?_eq_some hfind)
        obtain ⟨g, st, hg, hst, rfl⟩ := h.mem_shards.mp hshard
        rw [covers_foldl hM] at hcovers
        have hget := get_foldl hM (h.storesInserted hM hplaced hsplit hg hst) hcovers (o := ⟨0⟩)
          fun store hstore hout => absurd (by rw [hout]; rfl) (hnone store hstore)
        have hnot' : ¬∃ store ∈ s.offsetStores, store.out = .inShard k := by
          rintro ⟨store, hstore, hout⟩
          exact hnone store hstore (by rw [hout]; rfl)
        have hempty : M.get st.shard k = none := by
          by_contra hne
          obtain ⟨group, hgroup, hok⟩ := groupSplit_some hst
          have hinserted := splitGroup_inserted hM
            (hsplit.group group (List.mem_of_getElem? hgroup)) hplaced hok
          obtain ⟨p, hp, rfl⟩ := hinserted.keys k hne
          obtain ⟨_, _, _, store, -, -, -, hplace, hstore⟩ :=
            h.piece_store hM hplaced hsplit (List.mem_filter.mp hp).1
          exact hnone store hstore (by rw [hplace, placeOf_input])
        simp [hget, hnot', hempty]

/-- The recorded offsets are the stored ones, no more and no less. -/
theorem ScheduleComplete.stringOffset_iff (h : ScheduleComplete hashBytes groups trace s)
    (hM : M.Lawful) (hplaced : PlacedFrom 0 sections) (hsplit : BlockSplit sections groups)
    {section_ : MergedStringsSection M} (hsection : addInputSections s = .ok section_) (k : Nat)
    (o : BucketOffset) : section_.stringOffset k = some o
      ↔ ∃ store ∈ s.offsetStores, store.out.input = k ∧ store.output = o := by
  constructor
  · intro hsome
    by_contra hnot
    push Not at hnot
    by_cases hexists : ∃ store ∈ s.offsetStores, store.out.input = k
    · obtain ⟨store, hstore, rfl⟩ := hexists
      rw [h.stringOffset_store hM hplaced hsplit hsection hstore] at hsome
      exact hnot store hstore rfl (Option.some.inj hsome)
    · push Not at hexists
      rw [h.stringOffset_none hM hplaced hsplit hsection hexists] at hsome
      cases hsome
  · rintro ⟨store, hstore, rfl, rfl⟩
    exact h.stringOffset_store hM hplaced hsplit hsection hstore

end Complete

end JdxLinker
