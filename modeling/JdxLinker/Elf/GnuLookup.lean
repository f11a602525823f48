import JdxLinker.Elf.GnuHash
import JdxLinker.Lib.Lists

/-!
# Lookups in the GNU hash table

The definitions are sorted by bucket, so the symbols of a bucket are a run of the chain values: the
bucket names the first of them, and the low bit of the last ends the walk.
-/

namespace JdxLinker.Elf

/-! ### The order of the definitions -/

section Order

variable (layout : GnuHashLayout)

theorem GnuHashLayout.keyLe_iff (a b : DynamicSymbolDefinition) :
    layout.keyLe a b = true ↔ layout.bucketForHash a.hash < layout.bucketForHash b.hash ∨
      (layout.bucketForHash a.hash = layout.bucketForHash b.hash ∧ a.name ≤ b.name) := by
  simp [GnuHashLayout.keyLe]

theorem GnuHashLayout.keyLe_trans (a b c : DynamicSymbolDefinition) (hab : layout.keyLe a b = true)
    (hbc : layout.keyLe b c = true) : layout.keyLe a c = true := by
  rw [keyLe_iff] at *
  rcases hab with hab | ⟨hab, hname⟩
  · rcases hbc with hbc | ⟨hbc, -⟩
    · exact .inl (UInt32.lt_trans hab hbc)
    · exact .inl (hbc ▸ hab)
  · rcases hbc with hbc | ⟨hbc, hname'⟩
    · exact .inl (hab ▸ hbc)
    · exact .inr ⟨hab.trans hbc, List.le_trans hname hname'⟩

theorem GnuHashLayout.keyLe_total (a b : DynamicSymbolDefinition) :
    (layout.keyLe a b || layout.keyLe b a) = true := by
  rw [Bool.or_eq_true, keyLe_iff, keyLe_iff]
  by_cases heq : layout.bucketForHash a.hash = layout.bucketForHash b.hash
  · rcases List.le_total a.name b.name with hle | hle
    · exact .inl (.inr ⟨heq, hle⟩)
    · exact .inr (.inr ⟨heq.symm, hle⟩)
  · rcases UInt32.lt_or_lt_of_ne heq with hlt | hlt
    · exact .inl (.inl hlt)
    · exact .inr (.inl hlt)

/-- The definitions in order of their buckets. -/
def ByBucket (definitions : List DynamicSymbolDefinition) : Prop :=
  definitions.Pairwise fun a b =>
    (layout.bucketForHash a.hash).toNat ≤ (layout.bucketForHash b.hash).toNat

theorem byBucket_mergeSort (definitions : List DynamicSymbolDefinition) :
    ByBucket layout (definitions.mergeSort layout.keyLe) := by
  refine (List.pairwise_mergeSort (layout.keyLe_trans) (layout.keyLe_total) definitions).imp ?_
  intro a b hab
  rcases (layout.keyLe_iff a b).mp hab with hlt | ⟨heq, -⟩
  · exact (UInt32.lt_iff_toNat_lt.mp hlt).le
  · rw [heq]

end Order

/-! ### Bits of words -/

theorem or_and_distrib (a b c : UInt32) : (a ||| b) &&& c = (a &&& c) ||| (b &&& c) := by
  apply UInt32.eq_of_toBitVec_eq
  simp only [UInt32.toBitVec_and, UInt32.toBitVec_or, BitVec.and_or_distrib_right]

/-- The low bit of a chain value leaves the hash. -/
theorem chain_high (hash : UInt32) (last : Bool) :
    ((hash &&& ~~~1) ||| (if last then 1 else 0)) &&& ~~~1 = hash &&& ~~~1 := by
  have hbit : (if last then 1 else 0 : UInt32) &&& ~~~1 = 0 := by cases last <;> rfl
  rw [or_and_distrib, UInt32.and_assoc, UInt32.and_self, hbit, UInt32.or_zero]

theorem chain_low (hash : UInt32) (last : Bool) :
    ((hash &&& ~~~1) ||| (if last then 1 else 0)) &&& 1 = if last then 1 else 0 := by
  have hbit : (if last then 1 else 0 : UInt32) &&& 1 = if last then 1 else 0 := by
    cases last <;> rfl
  have hnone : (~~~1 : UInt32) &&& 1 = 0 := rfl
  rw [or_and_distrib, UInt32.and_assoc, hnone, UInt32.and_zero, hbit, UInt32.zero_or]

theorem or_and_self (word bits : UInt64) : (word ||| bits) &&& bits = bits := by
  apply UInt64.eq_of_toBitVec_eq
  ext i hi
  simp
  tauto

/-- Bits that are set stay set. -/
theorem or_and_of_and {word bits : UInt64} (h : word &&& bits = bits) (more : UInt64) :
    (word ||| more) &&& bits = bits := by
  have h := congrArg UInt64.toBitVec h
  apply UInt64.eq_of_toBitVec_eq
  ext i hi
  have hi := congrArg (·[i]) h
  simp at *
  tauto

/-! ### What the loop writes -/

section Write

variable {C : ElfClass} {layout : GnuHashLayout}

/-- Whether a definition is the last of its bucket, given those after it. -/
def lastInChain (layout : GnuHashLayout) (hash : UInt32) : List DynamicSymbolDefinition → Bool
  | [] => true
  | next :: _ => layout.bucketForHash next.hash != layout.bucketForHash hash

def chainValue (layout : GnuHashLayout) (hash : UInt32)
    (definitions : List DynamicSymbolDefinition) : UInt32 :=
  (hash &&& ~~~1) ||| (if lastInChain layout hash definitions then 1 else 0)

/-- One step of the loop. -/
theorem writeGnuChains_cons {i : Nat} {start : Bool} {definition : DynamicSymbolDefinition}
    {definitions : List DynamicSymbolDefinition} {bloom : List UInt64} {buckets : List UInt32}
    {word : UInt64} (hword : bloom[bloomIndex C layout.bloomCount definition.hash]? = some word)
    (hbucket : (layout.bucketForHash definition.hash).toNat < buckets.length) :
    writeGnuChains C layout i start (definition :: definitions) bloom buckets = (do
      let (bloom, buckets, chains) ← writeGnuChains C layout (i + 1)
        (lastInChain layout definition.hash definitions) definitions
        (bloom.set (bloomIndex C layout.bloomCount definition.hash)
          (word ||| bloomBits C layout.bloomShift definition.hash))
        (if start then
          buckets.set (layout.bucketForHash definition.hash).toNat
            (UInt32.ofNat i + layout.symbolBase)
        else
          buckets)
      pure (bloom, buckets, chainValue layout definition.hash definitions :: chains)) := by
  rw [writeGnuChains, hword]
  cases start with
  | false => cases definitions <;> rfl
  | true =>
      simp only [Fallible.unwrap, Fallible.bind_ok, startChain, Fallible.assert, if_pos hbucket]
      cases definitions <;> rfl

/-- The bucket of a definition. -/
def bucketOf (layout : GnuHashLayout) (definition : DynamicSymbolDefinition) : Nat :=
  (layout.bucketForHash definition.hash).toNat

/-- The first definition goes on with a bucket that was started before. -/
def Continues (layout : GnuHashLayout) (start : Bool) (bucket : Nat) :
    List DynamicSymbolDefinition → Prop
  | [] => False
  | definition :: _ => start = false ∧ bucketOf layout definition = bucket

/-- What the loop writes over the definitions from a position on. -/
structure GnuWritten (C : ElfClass) (layout : GnuHashLayout) (i : Nat) (start : Bool)
    (definitions : List DynamicSymbolDefinition) (bloom bloom' : List UInt64)
    (buckets buckets' chains : List UInt32) : Prop where
  bloom_length : bloom'.length = bloom.length
  buckets_length : buckets'.length = buckets.length
  chains_length : chains.length = definitions.length
  bloom_kept : ∀ (i : Nat) (word bits : UInt64), bloom[i]? = some word → word &&& bits = bits →
    ∃ word', bloom'[i]? = some word' ∧ word' &&& bits = bits
  bloom_set : ∀ definition ∈ definitions, ∃ word,
    bloom'[bloomIndex C layout.bloomCount definition.hash]? = some word ∧
    word &&& bloomBits C layout.bloomShift definition.hash
      = bloomBits C layout.bloomShift definition.hash
  chain : ∀ (j : Nat) (definition : DynamicSymbolDefinition), definitions[j]? = some definition →
    chains[j]? = some (chainValue layout definition.hash (definitions.drop (j + 1)))
  continued : ByBucket layout definitions → ∀ b, Continues layout start b definitions →
    buckets'[b]? = buckets[b]?
  started : ByBucket layout definitions → ∀ b, b < buckets.length →
    ¬Continues layout start b definitions → ∀ j, definitions.findIdx? (bucketOf layout · == b) = some j →
      buckets'[b]? = some (UInt32.ofNat (i + j) + layout.symbolBase)
  empty : ∀ b, definitions.findIdx? (bucketOf layout · == b) = none → buckets'[b]? = buckets[b]?

/-- After a definition was written, the loop leaves its bucket as it is. -/
theorem GnuWritten.own_bucket {i : Nat} {definition : DynamicSymbolDefinition}
    {definitions : List DynamicSymbolDefinition} {bloom bloom' : List UInt64}
    {buckets buckets' chains : List UInt32}
    (h : GnuWritten C layout i (lastInChain layout definition.hash definitions) definitions bloom
      bloom' buckets buckets' chains) (hsorted : ByBucket layout (definition :: definitions)) :
    buckets'[bucketOf layout definition]? = buckets[bucketOf layout definition]? := by
  have hrest := (List.pairwise_cons.mp hsorted)
  cases definitions with
  | nil => exact h.empty _ rfl
  | cons next definitions =>
      by_cases hsame : bucketOf layout next = bucketOf layout definition
      · refine h.continued hrest.2 _ ⟨?_, hsame⟩
        have heq : layout.bucketForHash next.hash = layout.bucketForHash definition.hash :=
          UInt32.toNat_inj.mp hsame
        simp [lastInChain, heq]
      · refine h.empty _ ?_
        rw [List.findIdx?_eq_none_iff]
        intro other hother
        have hnext := hrest.1 next List.mem_cons_self
        have hle : bucketOf layout next ≤ bucketOf layout other := by
          cases hother with
          | head => exact le_rfl
          | tail _ hother => exact (List.pairwise_cons.mp hrest.2).1 other hother
        have hlt : bucketOf layout definition < bucketOf layout next :=
          lt_of_le_of_ne hnext (Ne.symm hsame)
        simp
        omega

theorem writeGnuChains_eq_ok (hbloom : 0 < layout.bloomCount) (hcount : 0 < layout.bucketCount)
    (definitions : List DynamicSymbolDefinition) (i : Nat) (start : Bool) {bloom : List UInt64}
    {buckets : List UInt32} (hbloomLength : bloom.length = layout.bloomCount.toNat)
    (hbucketsLength : buckets.length = layout.bucketCount.toNat) :
    ∃ bloom' buckets' chains, writeGnuChains C layout i start definitions bloom buckets
        = .ok (bloom', buckets', chains) ∧
      GnuWritten C layout i start definitions bloom bloom' buckets buckets' chains := by
  induction definitions generalizing i start bloom buckets with
  | nil =>
      refine ⟨bloom, buckets, [], rfl, rfl, rfl, rfl, ?_, by simp, by simp, ?_, ?_, ?_⟩
      · exact fun i word bits hword hbits => ⟨word, hword, hbits⟩
      · exact fun _ b hb => hb.elim
      · simp
      · exact fun _ _ => rfl
  | cons definition definitions ih =>
      have hindex : bloomIndex C layout.bloomCount definition.hash < bloom.length := by
        rw [hbloomLength]
        exact UInt32.lt_iff_toNat_lt.mp (UInt32.mod_lt _ hbloom)
      have hbucket : (layout.bucketForHash definition.hash).toNat < buckets.length := by
        rw [hbucketsLength]
        exact UInt32.lt_iff_toNat_lt.mp (UInt32.mod_lt _ hcount)
      obtain ⟨word, hword⟩ : ∃ word, bloom[bloomIndex C layout.bloomCount definition.hash]?
          = some word := ⟨_, List.getElem?_eq_getElem hindex⟩
      have hbloomLength' : (bloom.set (bloomIndex C layout.bloomCount definition.hash)
          (word ||| bloomBits C layout.bloomShift definition.hash)).length
          = layout.bloomCount.toNat := by
        rw [List.length_set, hbloomLength]
      have hbucketsLength' : (if start then buckets.set (layout.bucketForHash definition.hash).toNat
          (UInt32.ofNat i + layout.symbolBase) else buckets).length = layout.bucketCount.toNat := by
        split <;> simpa using hbucketsLength
      obtain ⟨bloom', buckets', chains, hok, h⟩ := ih (i + 1)
        (lastInChain layout definition.hash definitions) hbloomLength' hbucketsLength'
      refine ⟨bloom', buckets', chainValue layout definition.hash definitions :: chains, ?_, ?_⟩
      · rw [writeGnuChains_cons hword hbucket, hok]
        rfl
      · refine ⟨?_, ?_, ?_, ?_, ?_, ?_, ?_, ?_, ?_⟩
        · rw [h.bloom_length, List.length_set]
        · rw [h.buckets_length]
          split <;> simp
        · rw [List.length_cons, List.length_cons, h.chains_length]
        · intro k old bits hold hbits
          by_cases hk : bloomIndex C layout.bloomCount definition.hash = k
          · subst hk
            obtain rfl : word = old := Option.some.inj (hword.symm.trans hold)
            exact h.bloom_kept _ _ bits (List.getElem?_set_self hindex) (or_and_of_and hbits _)
          · exact h.bloom_kept k old bits (by rw [List.getElem?_set_ne hk, hold]) hbits
        · intro other hother
          cases hother with
          | head => exact h.bloom_kept _ _ _ (List.getElem?_set_self hindex) (or_and_self _ _)
          | tail _ hother => exact h.bloom_set other hother
        · intro j other hother
          cases j with
          | zero =>
              obtain rfl : definition = other := by simpa using hother
              rfl
          | succ j => exact h.chain j other (by simpa using hother)
        · rintro hsorted b ⟨rfl, rfl⟩
          rw [h.own_bucket hsorted]
          rfl
        · intro hsorted b hb hcontinues j hj
          rw [List.findIdx?_cons] at hj
          by_cases hown : bucketOf layout definition = b
          · subst hown
            obtain rfl : start = true := by
              by_contra hstart
              exact hcontinues ⟨by simpa using hstart, rfl⟩
            obtain rfl : 0 = j := by simpa using hj
            rw [h.own_bucket hsorted, if_pos rfl]
            exact List.getElem?_set_self hbucket
          · rw [if_neg (by simpa using hown)] at hj
            obtain ⟨k, hk, rfl⟩ := Option.map_eq_some_iff.mp hj
            have hnot : ¬Continues layout (lastInChain layout definition.hash definitions) b
                definitions := by
              intro hcontinues
              cases definitions with
              | nil => exact hcontinues
              | cons next definitions =>
                  obtain ⟨hlast, hnext⟩ := hcontinues
                  have heq : layout.bucketForHash next.hash
                      = layout.bucketForHash definition.hash := by
                    simpa [lastInChain] using hlast
                  exact hown (by rw [← hnext, bucketOf, bucketOf, heq])
            rw [h.started (List.pairwise_cons.mp hsorted).2 b
              (by rw [hbucketsLength', ← hbucketsLength]; exact hb) hnot k hk]
            congr 3
            omega
        · intro b hb
          rw [List.findIdx?_cons] at hb
          split at hb
          · cases hb
          · rename_i hown
            rw [h.empty b (Option.map_eq_none_iff.mp hb)]
            split
            · exact List.getElem?_set_ne (by simpa [bucketOf] using hown)
            · rfl

end Write

/-! ### The walk -/

section Walk

variable {C : ElfClass} {layout : GnuHashLayout} {definitions : List DynamicSymbolDefinition}

/-- The hashes of chain values, and where walks end. -/
theorem chainValue_stop (hash : UInt32) (rest : List DynamicSymbolDefinition) :
    chainValue layout hash rest &&& 1 = 1 ↔ lastInChain layout hash rest = true := by
  unfold chainValue
  rw [chain_low]
  cases lastInChain layout hash rest <;> simp

/-- A walk that starts in the bucket of a definition, at it or before it, finds the definition. -/
theorem gnuChainLookup_found {chains : List UInt32} {names : List (List UInt8)} {base i : Nat}
    {definition : DynamicSymbolDefinition}
    (hchain : ∀ (j : Nat) (other : DynamicSymbolDefinition), definitions[j]? = some other →
      chains[j]? = some (chainValue layout other.hash (definitions.drop (j + 1))))
    (hnames : ∀ (j : Nat) (other : DynamicSymbolDefinition), definitions[j]? = some other →
      names[base + j]? = some other.name)
    (hdistinct : (definitions.map DynamicSymbolDefinition.name).Nodup)
    (hdefinition : definitions[i]? = some definition) (n j : Nat) (hj : j + n = i)
    (hbucket : ∀ k other, j ≤ k → k ≤ i → definitions[k]? = some other →
      bucketOf layout other = bucketOf layout definition) :
    gnuChainLookup names definition.hash definition.name (base + j) (chains.drop j)
      = .found (base + i) := by
  have hlt := (List.getElem?_eq_some_iff.mp hdefinition).1
  induction n generalizing j with
  | zero =>
      obtain rfl : j = i := by omega
      have hvalue := hchain j definition hdefinition
      obtain ⟨hlt', hget⟩ := List.getElem?_eq_some_iff.mp hvalue
      rw [List.drop_eq_getElem_cons hlt', gnuChainLookup, hget, if_pos]
      exact ⟨chain_high _ _, hnames j definition hdefinition⟩
  | succ n ih =>
      have hother : definitions[j]? = some definitions[j] := List.getElem?_eq_getElem (by omega)
      have hvalue := hchain j definitions[j] hother
      obtain ⟨hlt', hget⟩ := List.getElem?_eq_some_iff.mp hvalue
      rw [List.drop_eq_getElem_cons hlt', gnuChainLookup, hget, if_neg, if_neg]
      · exact ih (j + 1) (by omega) fun k other hle => hbucket k other (by omega)
      · -- the next definition is in the same bucket
        have hnext : definitions[j + 1]? = some definitions[j + 1] :=
          List.getElem?_eq_getElem (by omega)
        rw [chainValue_stop, List.drop_eq_getElem_cons (by omega), lastInChain]
        have hsame : bucketOf layout definitions[j + 1] = bucketOf layout definitions[j] := by
          rw [hbucket (j + 1) _ (by omega) (by omega) hnext,
            hbucket j _ le_rfl (by omega) hother]
        have heq : layout.bucketForHash definitions[j + 1].hash
            = layout.bucketForHash definitions[j].hash := UInt32.toNat_inj.mp hsame
        simp [heq]
      · rintro ⟨-, hname⟩
        rw [hnames j _ hother, Option.some.injEq] at hname
        have := Lists.index_eq_of_nodup_map hdistinct hother hdefinition hname
        omega

/-- No walk that starts in the table leaves it. -/
theorem gnuChainLookup_ne_outside {chains : List UInt32} {names : List (List UInt8)}
    (hchain : ∀ (j : Nat) (other : DynamicSymbolDefinition), definitions[j]? = some other →
      chains[j]? = some (chainValue layout other.hash (definitions.drop (j + 1))))
    (hash : UInt32) (name : List UInt8) (index n j : Nat) (hj : j + n + 1 = definitions.length) :
    gnuChainLookup names hash name index (chains.drop j) ≠ .outside := by
  induction n generalizing j index with
  | zero =>
      have hother : definitions[j]? = some definitions[j] := List.getElem?_eq_getElem (by omega)
      obtain ⟨hlt', hget⟩ := List.getElem?_eq_some_iff.mp (hchain j _ hother)
      have hstop : chains[j] &&& 1 = 1 := by
        rw [hget, chainValue_stop, List.drop_of_length_le (by omega)]
        rfl
      rw [List.drop_eq_getElem_cons hlt', gnuChainLookup]
      rw [if_pos hstop]
      split <;> simp
  | succ n ih =>
      have hother : definitions[j]? = some definitions[j] := List.getElem?_eq_getElem (by omega)
      obtain ⟨hlt', -⟩ := List.getElem?_eq_some_iff.mp (hchain j _ hother)
      rw [List.drop_eq_getElem_cons hlt', gnuChainLookup]
      split
      · simp
      · split
        · simp
        · exact ih (index + 1) (j + 1) (by omega)

end Walk

/-! ### The whole table -/

section Table

variable {C : ElfClass} {layout : GnuHashLayout} {definitions : List DynamicSymbolDefinition}

/-- The first definition of a bucket, and all between it and another one of the bucket. -/
theorem ByBucket.run (h : ByBucket layout definitions) {i : Nat}
    {definition : DynamicSymbolDefinition} (hdefinition : definitions[i]? = some definition) :
    ∃ first, definitions.findIdx? (bucketOf layout · == bucketOf layout definition) = some first ∧
      first ≤ i ∧ ∀ k other, first ≤ k → k ≤ i → definitions[k]? = some other →
        bucketOf layout other = bucketOf layout definition := by
  obtain ⟨hi, hget⟩ := List.getElem?_eq_some_iff.mp hdefinition
  cases hfirst : definitions.findIdx? (bucketOf layout · == bucketOf layout definition) with
  | none =>
      have := List.findIdx?_eq_none_iff.mp hfirst definition (List.mem_of_getElem? hdefinition)
      simp at this
  | some first =>
      obtain ⟨hlt, hown, hbefore⟩ := List.findIdx?_eq_some_iff_getElem.mp hfirst
      have hle : first ≤ i := by
        by_contra hgt
        have := hbefore i (by omega)
        simp [hget] at this
      refine ⟨first, rfl, hle, fun k other hk hki hother => ?_⟩
      obtain ⟨hk', hget'⟩ := List.getElem?_eq_some_iff.mp hother
      have hpair := List.pairwise_iff_getElem.mp h
      have hlow : bucketOf layout definition ≤ bucketOf layout other := by
        rcases Nat.lt_or_eq_of_le hk with hlt' | rfl
        · have := hpair first k hlt hk' hlt'
          rw [← hget', ← eq_of_beq hown]
          exact this
        · rw [← hget', eq_of_beq hown]
      have hhigh : bucketOf layout other ≤ bucketOf layout definition := by
        rcases Nat.lt_or_eq_of_le hki with hlt' | rfl
        · have := hpair k i hk' hi hlt'
          rw [← hget', ← hget]
          exact this
        · rw [← hget', ← hget]
      omega

/-- An index of the dynamic symbol table does not wrap. -/
theorem symbolIndex_toNat {base : UInt32} {j n : Nat} (hj : j < n) (h : base.toNat + n ≤ 2 ^ 32) :
    (UInt32.ofNat j + base).toNat = base.toNat + j := by
  rw [UInt32.toNat_add, UInt32.toNat_ofNat']
  omega

/-- The table for sorted definitions with distinct names is written into its reservation, every name
is found in it, and no lookup reads beyond it. -/
theorem gnuLookup_table (hbloom : 0 < layout.bloomCount) (hcount : 0 < layout.bucketCount)
    (hnum : layout.numDefs.toNat = definitions.length) (hsorted : ByBucket layout definitions)
    (hdistinct : (definitions.map DynamicSymbolDefinition.name).Nodup)
    (hbase : definitions ≠ [] → 0 < layout.symbolBase.toNat)
    (hfits : layout.symbolBase.toNat + definitions.length ≤ 2 ^ 32) {names : List (List UInt8)}
    (hnames : ∀ (j : Nat) (definition : DynamicSymbolDefinition),
      definitions[j]? = some definition →
        names[layout.symbolBase.toNat + j]? = some definition.name) :
    ∃ table, writeGnuHashTables C layout definitions (layout.byteSize C) = .ok table ∧
      (∀ (i : Nat) (definition : DynamicSymbolDefinition), definitions[i]? = some definition →
        gnuLookup C table names definition.hash definition.name
          = .found (layout.symbolBase.toNat + i)) ∧
      ∀ hash name, gnuLookup C table names hash name ≠ .outside := by
  have hzeros : (List.replicate layout.bloomCount.toNat (0 : UInt64)).length
      = layout.bloomCount.toNat := List.length_replicate
  have hzeros' : (List.replicate layout.bucketCount.toNat (0 : UInt32)).length
      = layout.bucketCount.toNat := List.length_replicate
  obtain ⟨bloom, buckets, chains, hok, h⟩ :=
    writeGnuChains_eq_ok (C := C) hbloom hcount definitions 0 true hzeros hzeros'
  have hstart : ∀ b, ¬Continues layout true b definitions := by
    intro b hb
    cases definitions with
    | nil => exact hb
    | cons _ _ => cases hb.1
  have hbucketsLength : buckets.length = layout.bucketCount.toNat := by
    rw [h.buckets_length, List.length_replicate]
  have hbucket : ∀ b, b < layout.bucketCount.toNat →
      (∃ first, definitions.findIdx? (bucketOf layout · == b) = some first ∧
        first < definitions.length ∧ ∃ index : UInt32, buckets[b]? = some index ∧
          index.toNat = layout.symbolBase.toNat + first) ∨
      (definitions.findIdx? (bucketOf layout · == b) = none ∧ buckets[b]? = some 0) := by
    intro b hb
    cases hfirst : definitions.findIdx? (bucketOf layout · == b) with
    | none =>
        refine .inr ⟨rfl, ?_⟩
        rw [h.empty b hfirst, List.getElem?_replicate, if_pos hb]
    | some first =>
        obtain ⟨hlt, -, -⟩ := List.findIdx?_eq_some_iff_getElem.mp hfirst
        refine .inl ⟨first, rfl, hlt, _, h.started hsorted b (by simpa using hb) (hstart b) first
          hfirst, ?_⟩
        rw [Nat.zero_add, symbolIndex_toNat hlt hfits]
  refine ⟨⟨layout.bucketCount, layout.bloomShift, layout.bloomCount, layout.symbolBase, bloom,
    buckets, chains⟩, ?_, ?_, ?_⟩
  · unfold writeGnuHashTables GnuHashLayout.byteSize
    rw [Nat.mul_comm (gnuHashBloomSize C)]
    dsimp only
    rw [Fallible.ensure_pos _ (by omega), Fallible.bind_ok, Fallible.ensure_pos _ (by omega),
      Fallible.bind_ok, Fallible.ensure_pos _ (by omega), Fallible.bind_ok,
      Fallible.ensure_pos _ (by omega), Fallible.bind_ok, Fallible.assert, if_pos (by omega),
      Fallible.bind_ok, hok]
    rfl
  · intro i definition hdefinition
    obtain ⟨first, hfirst, hle, hrun⟩ := hsorted.run hdefinition
    obtain ⟨word, hword, hbits⟩ := h.bloom_set definition (List.mem_of_getElem? hdefinition)
    have hb : bucketOf layout definition < layout.bucketCount.toNat :=
      UInt32.lt_iff_toNat_lt.mp (UInt32.mod_lt _ hcount)
    have hpos := hbase (List.ne_nil_of_mem (List.mem_of_getElem? hdefinition))
    rcases hbucket _ hb with ⟨first', hfirst', -, index, hindex, htoNat⟩ | ⟨hnone, -⟩
    · obtain rfl : first' = first := Option.some.inj (hfirst'.symm.trans hfirst)
      have hzero : index ≠ 0 := by
        rintro rfl
        rw [UInt32.toNat_zero] at htoNat
        omega
      have hlow : ¬index < layout.symbolBase := by
        rw [UInt32.lt_iff_toNat_lt]
        omega
      have hindex' : buckets[(definition.hash % layout.bucketCount).toNat]? = some index := hindex
      unfold gnuLookup
      simp only [hword, hindex']
      rw [if_neg (by simpa using hbits), if_neg hzero, if_neg hlow, htoNat, Nat.add_sub_cancel_left]
      exact gnuChainLookup_found h.chain hnames hdistinct hdefinition (i - first') first' (by omega)
        hrun
    · rw [hfirst] at hnone
      cases hnone
  · intro hash name
    have hb : (hash % layout.bucketCount).toNat < layout.bucketCount.toNat :=
      UInt32.lt_iff_toNat_lt.mp (UInt32.mod_lt _ hcount)
    have hi : bloomIndex C layout.bloomCount hash < bloom.length := by
      rw [h.bloom_length, List.length_replicate]
      exact UInt32.lt_iff_toNat_lt.mp (UInt32.mod_lt _ hbloom)
    unfold gnuLookup
    simp only [List.getElem?_eq_getElem hi]
    rcases hbucket _ hb with ⟨first, -, hlt, index, hindex, htoNat⟩ | ⟨-, hzero⟩
    · have hlow : ¬index < layout.symbolBase := by
        rw [UInt32.lt_iff_toNat_lt]
        omega
      simp only [hindex]
      split
      · simp
      · split
        · simp
        · rw [htoNat, Nat.add_sub_cancel_left]
          exact gnuChainLookup_ne_outside h.chain hash name _ (definitions.length - first - 1) first
            (by omega)
    · simp only [hzero]
      split <;> simp

end Table

end JdxLinker.Elf
