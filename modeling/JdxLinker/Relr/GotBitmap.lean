import JdxLinker.Elf.Class
import JdxLinker.Relr.Decoder

/-!
# The RELR entries of the GOT

The GOT slots that hold link-time addresses form one block, so their relocations are counted from the
number of slots and written as one address entry followed by bitmaps of ones.
-/

namespace JdxLinker

open U64 Bits

variable (C : ElfClass)

/-- The number of RELR entries that a block of `n` slots takes. -/
def gotRelrBitmapRelrCount (n : Nat) : Nat :=
  if n = 0 then 0 else 1 + (n - 1 + (C.relrBitmapSlots - 1)) / C.relrBitmapSlots

/-- The bitmap entries for the `remaining` slots after the first. -/
def writeGotRelrBitmaps (relrWriter : Table Nat) (remaining : Nat) :
    Except String (Table Nat) :=
  if remaining = 0 then
    .ok relrWriter
  else do
    let slots := min remaining C.relrBitmapSlots
    let bitmap := ((1 <<< slots) - 1) <<< 1 ||| 1
    let relrWriter ← relrWriter.take ".relr.dyn" bitmap
    writeGotRelrBitmaps relrWriter (remaining - C.relrBitmapSlots)
termination_by remaining
decreasing_by have := C.relrBitmapSlots_pos; omega

/-- Writes the entries for the whole block of `n` slots at `base`. There is no table when RELR is
disabled or nothing was reserved in it. -/
def writeGotRelrBitmap (relrDyn : Option (Table Nat)) (n base : Nat) :
    Except String (Option (Table Nat)) :=
  if base = 0 ∨ n = 0 then
    .ok relrDyn
  else
    match relrDyn with
    | none => .ok none
    | some relrWriter => do
        let relrWriter ← relrWriter.take ".relr.dyn" base
        let relrWriter ← writeGotRelrBitmaps C relrWriter (n - 1)
        return some relrWriter

variable {C}

/-- A bitmap of ones relocates the words right after the loader's position. -/
theorem relrBitmapWords_ones {position slots : Nat} (h : slots ≤ C.relrBitmapSlots) :
    relrBitmapWords C position (((1 <<< slots) - 1) <<< 1 ||| 1)
      = (List.range slots).map fun i => wrap (position + i * C.relrEntrySize) := by
  have hones : (((1 <<< slots) - 1) <<< 1 ||| 1) >>> 1 = 2 ^ slots - 1 := by
    refine Nat.eq_of_testBit_eq fun i => ?_
    rw [Nat.testBit_shiftRight, Nat.testBit_or, Nat.shiftLeft_eq 1 slots, Nat.one_mul,
      Nat.testBit_shiftLeft, Nat.add_sub_cancel_left,
      Nat.testBit_lt_two_pow (Nat.one_lt_two_pow (by omega : 1 + i ≠ 0))]
    simp
  rw [relrBitmapWords, hones, setBits_ones h]

theorem ones_odd (slots : Nat) : (((1 <<< slots) - 1) <<< 1 ||| 1) % 2 = 1 := by
  have hbit : (((1 <<< slots) - 1) <<< 1 ||| 1).testBit 0 = true := by
    simp
  rwa [Nat.testBit_zero, decide_eq_true_eq] at hbit

/-- `count` words starting at `base`. -/
def consecutiveWords (C : ElfClass) (base count : Nat) : List Nat :=
  (List.range count).map fun i => wrap (base + i * C.relrEntrySize)

theorem consecutiveWords_add (base a b : Nat) :
    consecutiveWords C base (a + b)
      = consecutiveWords C base a ++ consecutiveWords C (base + a * C.relrEntrySize) b := by
  simp only [consecutiveWords, List.range_add, List.map_append, List.map_map]
  congr 2
  funext i
  simp only [Function.comp_apply, Nat.add_mul, Nat.add_assoc]

theorem consecutiveWords_wrap (base count : Nat) :
    consecutiveWords C (wrap base) count = consecutiveWords C base count := by
  simp only [consecutiveWords, wrap_wrap_add]

/-- What the bitmap loop leaves: one entry per started window, relocating the remaining words. -/
theorem writeGotRelrBitmaps_spec (relrWriter : Table Nat) (remaining : Nat)
    (hfree : (remaining + (C.relrBitmapSlots - 1)) / C.relrBitmapSlots ≤ relrWriter.free) :
    ∃ entries, writeGotRelrBitmaps C relrWriter remaining
        = .ok ⟨relrWriter.entries ++ entries, relrWriter.free - entries.length⟩
      ∧ entries.length = (remaining + (C.relrBitmapSlots - 1)) / C.relrBitmapSlots
      ∧ ∀ position, relrDecode C position entries = consecutiveWords C position remaining := by
  have hpos := C.relrBitmapSlots_pos
  induction remaining using Nat.strong_induction_on generalizing relrWriter with
  | _ remaining ih =>
      rw [writeGotRelrBitmaps]
      by_cases hzero : remaining = 0
      · subst hzero
        refine ⟨[], by simp, ?_, fun position => rfl⟩
        rw [List.length_nil, Nat.div_eq_of_lt (by omega)]
      · rw [if_neg hzero]
        have hdiv : (remaining + (C.relrBitmapSlots - 1)) / C.relrBitmapSlots
            = (remaining - C.relrBitmapSlots + (C.relrBitmapSlots - 1)) / C.relrBitmapSlots + 1 := by
          rcases Nat.lt_or_ge remaining C.relrBitmapSlots with hlt | hge
          · rw [Nat.sub_eq_zero_of_le hlt.le, Nat.zero_add,
              Nat.div_eq_of_lt (by omega : C.relrBitmapSlots - 1 < C.relrBitmapSlots)]
            exact Nat.div_eq_of_lt_le (by omega) (by omega)
          · rw [show remaining + (C.relrBitmapSlots - 1)
                = remaining - C.relrBitmapSlots + (C.relrBitmapSlots - 1) + C.relrBitmapSlots by
              omega, Nat.add_div_right _ hpos]
        rw [hdiv] at hfree
        have htake := relrWriter.take_eq_ok ".relr.dyn"
          (((1 <<< min remaining C.relrBitmapSlots) - 1) <<< 1 ||| 1)
          (Nat.lt_of_lt_of_le (Nat.succ_pos _) hfree)
        simp only [htake]
        obtain ⟨entries, hwrite, hlength, hdecode⟩ := ih (remaining - C.relrBitmapSlots) (by omega)
          ⟨relrWriter.entries ++ [((1 <<< min remaining C.relrBitmapSlots) - 1) <<< 1 ||| 1],
            relrWriter.free - 1⟩ (Nat.le_sub_one_of_lt hfree)
        refine ⟨(((1 <<< min remaining C.relrBitmapSlots) - 1) <<< 1 ||| 1) :: entries, ?_, ?_, ?_⟩
        · refine hwrite.trans ?_
          simp only [List.append_assoc, List.cons_append, List.nil_append, List.length_cons]
          congr 2
          omega
        · rw [List.length_cons, hlength, hdiv]
        · intro position
          rw [relrDecode, relrDecodeEntry_odd (ones_odd _), relrNextPosition_odd (ones_odd _),
            relrBitmapWords_ones (Nat.min_le_right _ _), hdecode, consecutiveWords_wrap]
          have hsplit : remaining = min remaining C.relrBitmapSlots
              + (remaining - C.relrBitmapSlots) := by omega
          conv_rhs => rw [hsplit, consecutiveWords_add]
          rcases Nat.lt_or_ge remaining C.relrBitmapSlots with hlt | hge
          · rw [Nat.sub_eq_zero_of_le hlt.le]
            simp [consecutiveWords]
          · rw [Nat.min_eq_right hge]
            rfl

/-- The block at a non-zero even address is relocated exactly, with the entries counted for it. -/
theorem writeGotRelrBitmap_spec (relrWriter : Table Nat) (n : Nat) {base : Nat} (hbase : base ≠ 0)
    (heven : base % 2 = 0) (hbound : base < size)
    (hfree : gotRelrBitmapRelrCount C n ≤ relrWriter.free) :
    ∃ entries, writeGotRelrBitmap C (some relrWriter) n base
        = .ok (some ⟨relrWriter.entries ++ entries, relrWriter.free - entries.length⟩)
      ∧ entries.length = gotRelrBitmapRelrCount C n
      ∧ ∀ position, relrDecode C position entries = consecutiveWords C base n := by
  rw [writeGotRelrBitmap]
  rcases Nat.eq_zero_or_pos n with rfl | hn
  · exact ⟨[], by simp, rfl, fun position => rfl⟩
  · rw [gotRelrBitmapRelrCount, if_neg (by omega)] at hfree
    rw [if_neg (by omega)]
    have htake := relrWriter.take_eq_ok ".relr.dyn" base
      (Nat.lt_of_lt_of_le (Nat.lt_of_lt_of_le Nat.one_pos (Nat.le_add_right 1 _)) hfree)
    simp only [htake]
    obtain ⟨entries, hwrite, hlength, hdecode⟩ := writeGotRelrBitmaps_spec (C := C)
      ⟨relrWriter.entries ++ [base], relrWriter.free - 1⟩ (n - 1) (Nat.le_sub_of_add_le' hfree)
    refine ⟨base :: entries, ?_, ?_, fun position => ?_⟩
    · change (do
        let relrWriter ← writeGotRelrBitmaps C ⟨relrWriter.entries ++ [base], relrWriter.free - 1⟩
          (n - 1)
        pure (some relrWriter) : Except String (Option (Table Nat))) = _
      rw [hwrite]
      change Except.ok _ = Except.ok _
      simp only [List.append_assoc, List.cons_append, List.nil_append, List.length_cons]
      congr 3
      omega
    · rw [List.length_cons, hlength, gotRelrBitmapRelrCount, if_neg (by omega), Nat.add_comm]
    · rw [relrDecode, relrDecodeEntry_even heven, relrNextPosition_even heven, hdecode,
        consecutiveWords_wrap]
      have hsplit : n = 1 + (n - 1) := by omega
      conv_rhs => rw [hsplit, consecutiveWords_add]
      simp [consecutiveWords, hbound]

/-- The RELR encoding is exact: a run decodes to its addresses, the GOT block at a non-zero even
address to its words in the number of entries counted for it, and any sequence of runs to the runs
one after the other, wherever the loader was before. -/
theorem relr_encoding_exact (C : ElfClass) :
    (∀ addresses position, RelrRunInput addresses →
      relrDecode C position (relrRun C addresses) = addresses)
    ∧ (∀ (relrWriter : Table Nat) (n base : Nat), base ≠ 0 → base % 2 = 0 → base < size →
        gotRelrBitmapRelrCount C n ≤ relrWriter.free →
        ∃ entries, writeGotRelrBitmap C (some relrWriter) n base
            = .ok (some ⟨relrWriter.entries ++ entries, relrWriter.free - entries.length⟩)
          ∧ entries.length = gotRelrBitmapRelrCount C n
          ∧ ∀ position, relrDecode C position entries = consecutiveWords C base n)
    ∧ (∀ (runs : List (List Nat)) position, (∀ run ∈ runs, RelrRunInput run) →
      relrDecode C position (runs.flatMap (relrRun C)) = runs.flatten) :=
  ⟨fun _ position h => relrDecode_relrRun position h,
    fun relrWriter n _ hbase heven hbound hfree =>
      writeGotRelrBitmap_spec relrWriter n hbase heven hbound hfree,
    fun _ position h => relrDecode_flatMap_relrRun position h⟩

theorem relr_encoding_exact_small :
    relrDecode Class64 0 (relrRun Class64 [16, 24, 40, 4096]) = [16, 24, 40, 4096]
    ∧ (∃ entries, writeGotRelrBitmap Class64 (some (Table.reserve 2)) 3 4096
          = .ok (some ⟨[] ++ entries, 2 - entries.length⟩)
        ∧ entries.length = gotRelrBitmapRelrCount Class64 3
        ∧ ∀ position, relrDecode Class64 position entries = consecutiveWords Class64 4096 3)
    ∧ relrDecode Class64 0 ([[16, 24], [8]].flatMap (relrRun Class64)) = [[16, 24], [8]].flatten :=
  ⟨(relr_encoding_exact Class64).1 _ _ ⟨by decide, by decide, by decide⟩,
    (relr_encoding_exact Class64).2.1 (Table.reserve 2) 3 4096 (by decide) (by decide) (by decide)
      (by decide),
    (relr_encoding_exact Class64).2.2 _ _ (by
      intro run hrun
      simp only [List.mem_cons, List.not_mem_nil, or_false] at hrun
      rcases hrun with rfl | rfl
      · exact ⟨by decide, by decide, by decide⟩
      · exact ⟨by decide, by decide, by decide⟩)⟩

/-- At base zero nothing is written although an entry is counted for every block, and at an odd base
the address entry is read as a bitmap. -/
theorem got_relr_bitmap_base_counterexample :
    ¬ (∃ entries, writeGotRelrBitmap Class64 (some (Table.reserve 1)) 1 0
          = .ok (some ⟨[] ++ entries, 1 - entries.length⟩)
        ∧ entries.length = gotRelrBitmapRelrCount Class64 1
        ∧ ∀ position, relrDecode Class64 position entries = consecutiveWords Class64 0 1)
    ∧ ¬ (∃ entries, writeGotRelrBitmap Class64 (some (Table.reserve 1)) 1 1
          = .ok (some ⟨[] ++ entries, 1 - entries.length⟩)
        ∧ entries.length = gotRelrBitmapRelrCount Class64 1
        ∧ ∀ position, relrDecode Class64 position entries = consecutiveWords Class64 1 1) := by
  constructor
  · rintro ⟨entries, hwrite, hlength, -⟩
    have hempty : entries = [] := by
      have hok := Except.ok.inj hwrite
      exact (congrArg Table.entries (Option.some.inj hok)).symm
    rw [hempty] at hlength
    exact absurd hlength (by decide)
  · rintro ⟨entries, hwrite, -, hdecode⟩
    have hentries : entries = [1] := by
      have hone : writeGotRelrBitmap Class64 (some (Table.reserve 1)) 1 1
          = .ok (some ⟨[1], 0⟩) := by
        simp [writeGotRelrBitmap, Table.reserve, Table.take, writeGotRelrBitmaps]
        rfl
      have hok := Except.ok.inj (hone.symm.trans hwrite)
      exact (congrArg Table.entries (Option.some.inj hok)).symm
    have hzero := hdecode 0
    rw [hentries] at hzero
    exact absurd hzero (by decide)

end JdxLinker
