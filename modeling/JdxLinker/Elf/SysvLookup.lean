import JdxLinker.Elf.GnuHash
import JdxLinker.Lib.Lists

/-!
# Lookups in the System V hash table

The table holds, for every bucket, the symbols of the bucket in their order: the bucket names the
first, the chain value of each names the next, and that of the last is zero.
-/

namespace JdxLinker.Elf

section Sysv

variable {sysvHash : List UInt8 → UInt32} {layout : SysvHashLayout} {start : UInt32}

def sysvBucketOf (sysvHash : List UInt8 → UInt32) (layout : SysvHashLayout)
    (definition : DynamicSymbolDefinition) : Nat :=
  (sysvHash definition.name % layout.bucketCount).toNat

/-- The symbol indices of a bucket, in their order. -/
def bucketMembers (sysvHash : List UInt8 → UInt32) (layout : SysvHashLayout) (start : UInt32)
    (definitions : List DynamicSymbolDefinition) (bucket : Nat) : List Nat :=
  (definitions.zipIdx.filter fun entry => sysvBucketOf sysvHash layout entry.1 == bucket).map
    fun entry => start.toNat + entry.2

theorem bucketMembers_append (definitions : List DynamicSymbolDefinition)
    (definition : DynamicSymbolDefinition) (bucket : Nat) :
    bucketMembers sysvHash layout start (definitions ++ [definition]) bucket
      = bucketMembers sysvHash layout start definitions bucket
        ++ if sysvBucketOf sysvHash layout definition = bucket then
            [start.toNat + definitions.length]
          else
            [] := by
  unfold bucketMembers
  rw [List.zipIdx_append, List.filter_append, List.map_append]
  congr 1
  by_cases h : sysvBucketOf sysvHash layout definition = bucket <;> simp [h]

theorem mem_bucketMembers {definitions : List DynamicSymbolDefinition} {bucket index : Nat} :
    index ∈ bucketMembers sysvHash layout start definitions bucket ↔
      ∃ i definition, definitions[i]? = some definition ∧
        sysvBucketOf sysvHash layout definition = bucket ∧ index = start.toNat + i := by
  unfold bucketMembers
  simp only [List.mem_map, List.mem_filter, beq_iff_eq, Prod.exists]
  constructor
  · rintro ⟨definition, i, ⟨hmem, hbucket⟩, rfl⟩
    exact ⟨i, definition, List.mem_zipIdx_iff_getElem?.mp hmem, hbucket, rfl⟩
  · rintro ⟨i, definition, hget, hbucket, rfl⟩
    exact ⟨definition, i, ⟨List.mem_zipIdx_iff_getElem?.mpr hget, hbucket⟩, rfl⟩

/-- The links of a table are those of the members of its buckets. -/
structure Chained (sysvHash : List UInt8 → UInt32) (layout : SysvHashLayout) (start : UInt32)
    (definitions : List DynamicSymbolDefinition) (state : SysvState) : Prop where
  buckets_length : state.buckets.length = layout.bucketCount.toNat
  chains_length : state.chains.length = layout.chainCount.toNat
  bucket : ∀ b, b < layout.bucketCount.toNat → state.buckets[b]? = some (UInt32.ofNat
    ((bucketMembers sysvHash layout start definitions b).head?.getD 0))
  last : ∀ b, b < layout.bucketCount.toNat → state.lastInBucket[b]?
    = some (bucketMembers sysvHash layout start definitions b).getLast?
  chain : ∀ b before index after, bucketMembers sysvHash layout start definitions b
      = before ++ index :: after →
    state.chains[index]? = some (UInt32.ofNat (after.head?.getD 0))
  fresh : ∀ index, start.toNat + definitions.length ≤ index → index < layout.chainCount.toNat →
    state.chains[index]? = some 0

theorem bucketMembers_bounds {definitions : List DynamicSymbolDefinition} {bucket index : Nat}
    (h : index ∈ bucketMembers sysvHash layout start definitions bucket) :
    start.toNat ≤ index ∧ index < start.toNat + definitions.length := by
  obtain ⟨i, definition, hget, -, rfl⟩ := mem_bucketMembers.mp h
  have := (List.getElem?_eq_some_iff.mp hget).1
  omega

/-- A symbol is in one bucket. -/
theorem bucketMembers_unique {definitions : List DynamicSymbolDefinition} {b b' index : Nat}
    (h : index ∈ bucketMembers sysvHash layout start definitions b)
    (h' : index ∈ bucketMembers sysvHash layout start definitions b') : b = b' := by
  obtain ⟨i, definition, hget, hbucket, rfl⟩ := mem_bucketMembers.mp h
  obtain ⟨i', definition', hget', hbucket', heq⟩ := mem_bucketMembers.mp h'
  obtain rfl : i = i' := by omega
  obtain rfl : definition = definition' := Option.some.inj (hget.symm.trans hget')
  rw [← hbucket, ← hbucket']

theorem bucketMembers_nodup (definitions : List DynamicSymbolDefinition) (bucket : Nat) :
    (bucketMembers sysvHash layout start definitions bucket).Nodup := by
  induction definitions using List.reverseRecOn with
  | nil => exact List.nodup_nil
  | append_singleton definitions definition ih =>
      rw [bucketMembers_append]
      split
      · refine List.nodup_append.mpr ⟨ih, List.nodup_singleton _, ?_⟩
        intro a ha b hb
        have := (bucketMembers_bounds ha).2
        have : b = start.toNat + definitions.length := by simpa using hb
        omega
      · simpa using ih

/-- A table without symbols. -/
theorem chained_nil : Chained sysvHash layout start [] {
    buckets := List.replicate layout.bucketCount.toNat 0
    chains := List.replicate layout.chainCount.toNat 0
    lastInBucket := List.replicate layout.bucketCount.toNat none } where
  buckets_length := List.length_replicate
  chains_length := List.length_replicate
  bucket b hb := by
    rw [List.getElem?_replicate, if_pos hb]
    rfl
  last b hb := by
    rw [List.getElem?_replicate, if_pos hb]
    rfl
  chain b before index after h := by
    have hnil : bucketMembers sysvHash layout start [] b = [] := rfl
    rw [hnil] at h
    simp at h
  fresh index _ hindex := by rw [List.getElem?_replicate, if_pos hindex]

/-- A symbol that was added at the end of its bucket. -/
theorem Chained.extend {definitions : List DynamicSymbolDefinition} {state state' : SysvState}
    (h : Chained sysvHash layout start definitions state) {definition : DynamicSymbolDefinition}
    (hfits : start.toNat + definitions.length < layout.chainCount.toNat)
    (hbucketsLength : state'.buckets.length = state.buckets.length)
    (hchainsLength : state'.chains.length = state.chains.length)
    (hbuckets : ∀ b, b < layout.bucketCount.toNat → state'.buckets[b]?
      = if sysvBucketOf sysvHash layout definition = b ∧
            bucketMembers sysvHash layout start definitions b = [] then
          some (UInt32.ofNat (start.toNat + definitions.length))
        else
          state.buckets[b]?)
    (hlast : state'.lastInBucket = state.lastInBucket.set (sysvBucketOf sysvHash layout definition)
      (some (start.toNat + definitions.length)))
    (hchains : ∀ index : Nat, state'.chains[index]?
      = if (bucketMembers sysvHash layout start definitions
            (sysvBucketOf sysvHash layout definition)).getLast? = some index then
          some (UInt32.ofNat (start.toNat + definitions.length))
        else
          state.chains[index]?) :
    Chained sysvHash layout start (definitions ++ [definition]) state' where
  buckets_length := by rw [hbucketsLength, h.buckets_length]
  chains_length := by rw [hchainsLength, h.chains_length]
  bucket b hb := by
    rw [hbuckets b hb, bucketMembers_append]
    by_cases hown : sysvBucketOf sysvHash layout definition = b
    · rw [if_pos hown]
      cases hmembers : bucketMembers sysvHash layout start definitions b with
      | nil => rw [if_pos ⟨hown, rfl⟩]; rfl
      | cons first rest =>
          rw [if_neg (by simp), h.bucket b hb, hmembers]
          rfl
    · rw [if_neg (fun hboth => hown hboth.1), if_neg hown, List.append_nil, h.bucket b hb]
  last b hb := by
    have hlt := (List.getElem?_eq_some_iff.mp (h.last b hb)).1
    rw [hlast, bucketMembers_append]
    by_cases hown : sysvBucketOf sysvHash layout definition = b
    · rw [if_pos hown, List.getLast?_concat, hown, List.getElem?_set_self hlt]
    · rw [if_neg hown, List.append_nil, List.getElem?_set_ne hown, h.last b hb]
  chain b before index after hsplit := by
    rw [bucketMembers_append] at hsplit
    rw [hchains]
    by_cases hown : sysvBucketOf sysvHash layout definition = b
    · rw [if_pos hown] at hsplit
      rw [hown]
      rcases Lists.append_singleton_eq hsplit with ⟨rfl, rfl, -⟩ | ⟨after', rfl, hinit⟩
      · rw [if_neg, h.fresh _ le_rfl hfits]
        · rfl
        · intro hmember
          have := (bucketMembers_bounds (List.mem_of_getLast? hmember)).2
          omega
      · have hnodup : (bucketMembers sysvHash layout start definitions b).Nodup :=
          bucketMembers_nodup definitions b
        cases after' with
        | nil => rw [if_pos (by rw [hinit]; simp)]; rfl
        | cons next after' =>
            rw [hinit] at hnodup
            rw [hinit, if_neg (Lists.getLast?_ne_of_nodup hnodup),
              h.chain b before index (next :: after') hinit]
            rfl
    · rw [if_neg hown, List.append_nil] at hsplit
      rw [if_neg, h.chain b before index after hsplit]
      intro hmember
      have hmem : index ∈ bucketMembers sysvHash layout start definitions b := by simp [hsplit]
      exact hown (bucketMembers_unique (List.mem_of_getLast? hmember) hmem)
  fresh index hindex hlt := by
    rw [List.length_append, List.length_singleton] at hindex
    rw [hchains, if_neg, h.fresh index (by omega) hlt]
    intro hmember
    have := (bucketMembers_bounds (List.mem_of_getLast? hmember)).2
    omega

theorem insertSysv_eq_ok {definitions : List DynamicSymbolDefinition} {state : SysvState}
    (h : Chained sysvHash layout start definitions state) (hcount : 0 < layout.bucketCount)
    (hstart : 0 < start.toNat)
    (hfits : start.toNat + definitions.length < layout.chainCount.toNat)
    (definition : DynamicSymbolDefinition) :
    ∃ state', insertSysv sysvHash layout start state definitions.length definition = .ok state' ∧
      Chained sysvHash layout start (definitions ++ [definition]) state' := by
  have hsize := layout.chainCount.toNat_lt
  have hb : sysvBucketOf sysvHash layout definition < layout.bucketCount.toNat :=
    UInt32.lt_iff_toNat_lt.mp (UInt32.mod_lt _ hcount)
  have hb' : sysvBucketOf sysvHash layout definition < state.buckets.length := by
    rw [h.buckets_length]
    exact hb
  have hindex : (UInt32.ofNat (start.toNat + definitions.length)).toNat
      = start.toNat + definitions.length := by
    rw [UInt32.toNat_ofNat']
    omega
  have hvalue : start + UInt32.ofNat definitions.length
      = UInt32.ofNat (start.toNat + definitions.length) := by
    apply UInt32.toNat_inj.mp
    rw [hindex, UInt32.toNat_add, UInt32.toNat_ofNat']
    omega
  have hfirst := h.bucket _ hb
  have hlast := h.last _ hb
  unfold insertSysv
  rw [Fallible.ensure_pos _ (by unfold UInt32.size; omega), Fallible.bind_ok,
    Fallible.ensure_pos _ (by unfold UInt32.size; omega), Fallible.bind_ok]
  unfold sysvBucketOf at hfirst hlast
  simp only [hfirst, hlast, Fallible.unwrap, Fallible.bind_ok, hvalue, hindex]
  obtain hnil | ⟨init, last, hmembers⟩ := List.eq_nil_or_concat
    (bucketMembers sysvHash layout start definitions (sysvBucketOf sysvHash layout definition))
  · -- the first symbol of its bucket
    have hnil' := hnil
    unfold sysvBucketOf at hnil'
    rw [hnil', if_pos (show UInt32.ofNat (([] : List Nat).head?.getD 0) = 0 from rfl)]
    refine ⟨_, rfl, h.extend hfits (List.length_set ..) rfl ?_ rfl ?_⟩
    · intro b _
      by_cases hown : sysvBucketOf sysvHash layout definition = b
      · subst hown
        rw [if_pos ⟨rfl, hnil⟩]
        exact List.getElem?_set_self hb'
      · rw [if_neg (fun hboth => hown hboth.1)]
        exact List.getElem?_set_ne hown
    · intro index
      rw [hnil, if_neg (by simp)]
  · -- after the last symbol of its bucket
    rw [List.concat_eq_append] at hmembers
    have hmembers' := hmembers
    unfold sysvBucketOf at hmembers'
    have hmem : last ∈ bucketMembers sysvHash layout start definitions
        (sysvBucketOf sysvHash layout definition) := by simp [hmembers]
    have hbounds := bucketMembers_bounds hmem
    have hchainsLength := h.chains_length
    rw [hmembers', List.getLast?_concat, if_neg]
    · simp only [Fallible.context, Fallible.bind_ok]
      rw [Fallible.assert, if_pos (by omega), Fallible.bind_ok]
      refine ⟨_, rfl, h.extend hfits rfl (List.length_set ..) ?_ rfl ?_⟩
      · intro b _
        rw [if_neg]
        rintro ⟨rfl, hnil⟩
        rw [hnil] at hmem
        cases hmem
      · intro index
        rw [hmembers, List.getLast?_concat]
        by_cases hlastIndex : last = index
        · subst hlastIndex
          rw [if_pos rfl]
          exact List.getElem?_set_self (by omega)
        · rw [if_neg (by simpa using hlastIndex)]
          exact List.getElem?_set_ne hlastIndex
    · -- the first symbol of the bucket has an index above zero
      intro hzero
      obtain ⟨first, hhead⟩ : ∃ first, (init ++ [last]).head? = some first := by
        cases init <;> simp
      have hmemFirst : first ∈ bucketMembers sysvHash layout start definitions
          (sysvBucketOf sysvHash layout definition) := by
        rw [hmembers]
        exact List.mem_of_head? hhead
      have hboundsFirst := bucketMembers_bounds hmemFirst
      rw [hhead] at hzero
      have := congrArg UInt32.toNat hzero
      rw [Option.getD_some, UInt32.toNat_ofNat', UInt32.toNat_zero] at this
      omega

theorem insertAllSysv_eq_ok (sysvHash : List UInt8 → UInt32) (hcount : 0 < layout.bucketCount) (hstart : 0 < start.toNat)
    (done rest : List DynamicSymbolDefinition) {state : SysvState}
    (hfits : start.toNat + (done ++ rest).length ≤ layout.chainCount.toNat)
    (h : Chained sysvHash layout start done state) :
    ∃ state', insertAllSysv sysvHash layout start state done.length rest = .ok state' ∧
      Chained sysvHash layout start (done ++ rest) state' := by
  induction rest generalizing done state with
  | nil => exact ⟨state, rfl, by simpa using h⟩
  | cons definition rest ih =>
      rw [List.length_append, List.length_cons] at hfits
      obtain ⟨next, hstep, hnext⟩ := insertSysv_eq_ok h hcount hstart (by omega) definition
      obtain ⟨state', hok, hstate'⟩ := ih (done ++ [definition])
        (by simp only [List.length_append, List.length_singleton]; omega) hnext
      refine ⟨state', ?_, by simpa using hstate'⟩
      rw [insertAllSysv, hstep, Fallible.bind_ok]
      simpa using hok

/-! ### The walk -/

/-- The walk looks for the name among the members of the bucket, in their order. -/
theorem sysvChainLookup_eq {table : SysvHashTable} {names : List (List UInt8)}
    {name : List UInt8} {members : List Nat}
    (hchain : ∀ before index after, members = before ++ index :: after →
      table.chains[index]? = some (UInt32.ofNat (after.head?.getD 0)))
    (hnamed : ∀ index ∈ members, 0 < index ∧ index < 2 ^ 32 ∧ index < names.length)
    (before : List Nat) {after : List Nat} (hsplit : members = before ++ after) {steps : Nat}
    (hsteps : after.length < steps) :
    sysvChainLookup table names name steps (UInt32.ofNat (after.head?.getD 0))
      = match after.find? fun index => names[index]? == some name with
        | some index => .found index
        | none => .absent := by
  induction after generalizing before steps with
  | nil =>
      obtain ⟨steps, rfl⟩ : ∃ n, steps = n + 1 := ⟨steps - 1, by omega⟩
      rfl
  | cons index after ih =>
      obtain ⟨steps, rfl⟩ : ∃ n, steps = n + 1 := ⟨steps - 1, by omega⟩
      obtain ⟨hpos, hsize, hlt⟩ := hnamed index (by simp [hsplit])
      have htoNat : (UInt32.ofNat index).toNat = index := by
        rw [UInt32.toNat_ofNat']
        omega
      have hne : UInt32.ofNat index ≠ 0 := by
        intro hzero
        have := congrArg UInt32.toNat hzero
        rw [htoNat, UInt32.toNat_zero] at this
        omega
      have hname : names[index]? = some names[index] := List.getElem?_eq_getElem hlt
      rw [List.head?_cons, Option.getD_some, sysvChainLookup, if_neg hne, htoNat, hname,
        hchain before index after hsplit, List.find?_cons]
      by_cases hsame : names[index] = name
      · simp [hsame, hname]
      · have hrest := ih (before ++ [index]) (by simp [hsplit]) (Nat.lt_of_succ_lt_succ hsteps)
        simp only [hname, hsame, if_false, hrest]
        simp [beq_false_of_ne hsame]

/-- The table for definitions with distinct names is written into its reservation, every name is
found in it, and no lookup reads beyond it. -/
theorem sysvLookup_table (sysvHash : List UInt8 → UInt32)
    {definitions : List DynamicSymbolDefinition} {names : List (List UInt8)}
    (hcount : 0 < layout.bucketCount) (hstart : 0 < start.toNat) (hne : definitions ≠ [])
    (hchains : layout.chainCount.toNat = start.toNat + definitions.length)
    (hdistinct : (definitions.map DynamicSymbolDefinition.name).Nodup)
    (hnames : ∀ (j : Nat) (definition : DynamicSymbolDefinition),
      definitions[j]? = some definition → names[start.toNat + j]? = some definition.name) :
    ∃ table,
      writeSysvHashTable sysvHash layout start definitions layout.byteSize = .ok (some table) ∧
      (∀ (i : Nat) (definition : DynamicSymbolDefinition), definitions[i]? = some definition →
        sysvLookup table names (sysvHash definition.name) definition.name
          = .found (start.toNat + i)) ∧
      ∀ hash name, sysvLookup table names hash name ≠ .outside := by
  have hsize := layout.chainCount.toNat_lt
  have hlength := List.length_pos_iff.mpr hne
  have hcount' : layout.bucketCount ≠ 0 := fun hzero => UInt32.lt_irrefl 0 (hzero ▸ hcount)
  have hchains' : layout.chainCount ≠ 0 := by
    intro hzero
    rw [hzero, UInt32.toNat_zero] at hchains
    omega
  obtain ⟨state, hok, h⟩ := insertAllSysv_eq_ok sysvHash hcount hstart []
    definitions (by rw [List.nil_append]; omega) chained_nil
  rw [List.nil_append] at h
  have hlookup : ∀ (hash : UInt32) (name : List UInt8),
      sysvLookup ⟨layout.bucketCount, layout.chainCount, state.buckets, state.chains⟩ names hash
          name
        = match (bucketMembers sysvHash layout start definitions
              (hash % layout.bucketCount).toNat).find? fun index => names[index]? == some name with
          | some index => .found index
          | none => .absent := by
    intro hash name
    have hb : (hash % layout.bucketCount).toNat < layout.bucketCount.toNat :=
      UInt32.lt_iff_toNat_lt.mp (UInt32.mod_lt _ hcount)
    unfold sysvLookup
    simp only [h.bucket _ hb]
    refine sysvChainLookup_eq (h.chain _) ?_ [] rfl ?_
    · intro index hindex
      obtain ⟨i, definition, hget, -, rfl⟩ := mem_bucketMembers.mp hindex
      have hi := (List.getElem?_eq_some_iff.mp hget).1
      have hnamed := (List.getElem?_eq_some_iff.mp (hnames i definition hget)).1
      omega
    · rw [h.chains_length, hchains]
      have hle : (bucketMembers sysvHash layout start definitions
          (hash % layout.bucketCount).toNat).length ≤ definitions.length := by
        rw [bucketMembers, List.length_map]
        exact (List.length_filter_le ..).trans_eq List.length_zipIdx
      omega
  refine ⟨⟨layout.bucketCount, layout.chainCount, state.buckets, state.chains⟩, ?_, ?_, ?_⟩
  · unfold writeSysvHashTable
    rw [if_neg (by simp [hcount', hchains']), Fallible.ensure_pos _ le_rfl, Fallible.bind_ok]
    rw [List.length_nil] at hok
    rw [hok]
    rfl
  · intro i definition hget
    rw [hlookup]
    have hmem : start.toNat + i ∈ bucketMembers sysvHash layout start definitions
        (sysvHash definition.name % layout.bucketCount).toNat :=
      mem_bucketMembers.mpr ⟨i, definition, hget, rfl, rfl⟩
    cases hfind : (bucketMembers sysvHash layout start definitions
        (sysvHash definition.name % layout.bucketCount).toNat).find?
          fun index => names[index]? == some definition.name with
    | none =>
        have := List.find?_eq_none.mp hfind _ hmem
        rw [hnames i definition hget] at this
        simp at this
    | some index =>
        obtain ⟨j, other, hother, -, rfl⟩ := mem_bucketMembers.mp (List.mem_of_find?_eq_some hfind)
        have hsame := List.find?_some hfind
        rw [hnames j other hother, beq_iff_eq, Option.some.injEq] at hsame
        obtain rfl := Lists.index_eq_of_nodup_map hdistinct hother hget hsame
        rfl
  · intro hash name
    rw [hlookup]
    split <;> simp

end Sysv

end JdxLinker.Elf
