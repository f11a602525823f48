import JdxLinker.Relocation.Application
import JdxLinker.Lib.Uleb
import JdxLinker.Relocation.Stores

/-!
# The relocations of LoongArch64 data

The relocations of sections that have no instructions, such as those of debug information.
-/

namespace JdxLinker.Relocation

inductive LoongArch64DataType where
  | abs32
  | abs64
  | add6
  | add8
  | add16
  | add24
  | add32
  | add64
  | sub6
  | sub8
  | sub16
  | sub24
  | sub32
  | sub64
  | addUleb128
  | subUleb128
  | tlsDtprel32
  | tlsDtprel64
  deriving DecidableEq, Repr

namespace LoongArch64DataType

/-- The kind, the size and the range of a type. -/
def row : LoongArch64DataType → RelocationKind LoongArch64DataType × Nat × AllowedRange
  -- A word of four bytes can represent a signed or an unsigned value.
  | abs32 => (.absolute, 4, ⟨-2 ^ 31, 2 ^ 32⟩)
  | abs64 => (.absolute, 8, .noCheck)
  | add6 => (.absoluteAdditionWord6, 1, .noCheck)
  | add8 => (.absoluteAddition, 1, .noCheck)
  | add16 => (.absoluteAddition, 2, .noCheck)
  | add24 => (.absoluteAddition, 3, .noCheck)
  | add32 => (.absoluteAddition, 4, .noCheck)
  | add64 => (.absoluteAddition, 8, .noCheck)
  | sub6 => (.absoluteSubtractionWord6, 1, .noCheck)
  | sub8 => (.absoluteSubtraction, 1, .noCheck)
  | sub16 => (.absoluteSubtraction, 2, .noCheck)
  | sub24 => (.absoluteSubtraction, 3, .noCheck)
  | sub32 => (.absoluteSubtraction, 4, .noCheck)
  | sub64 => (.absoluteSubtraction, 8, .noCheck)
  -- The subtraction is done for the second relocation of the pair, and nothing for the first.
  | addUleb128 => (.relative, 0, .noCheck)
  | subUleb128 => (.pairSubtractionUleb128 addUleb128, 8, .noCheck)
  | tlsDtprel32 => (.dtpOff, 4, .noCheck)
  | tlsDtprel64 => (.dtpOff, 8, .noCheck)

def relocationTypeFromRaw (rType : LoongArch64DataType) : RelocationKindInfo LoongArch64DataType :=
  { kind := rType.row.1, size := .byteSize rType.row.2.1, mask := none, range := rType.row.2.2,
    alignment := 1, bias := 0, thunkable := false }

end LoongArch64DataType

def loongArchData (relTypeToString : LoongArch64DataType → String) : Arch LoongArch64DataType where
  relocationTypeFromRaw rType := some rType.relocationTypeFromRaw
  relTypeToString := relTypeToString
  isDisallowedInSharedObject _ := false
  isDisallowedForInterposableSymbols rType := rType == .abs32
  thunkable rType info h hthunkable := by
    cases h
    exact absurd hthunkable Bool.false_ne_true
  dtpOff rType info mask h hkind hsize := by
    cases h
    cases hsize

end JdxLinker.Relocation

/-!
## Debug sections and other sections

A debug section and another section that is not loaded get the same bytes for a relocation, but for
two kinds.
-/

namespace JdxLinker.Relocation

open Fallible Bytes ByteMasks

open Riscv (Resolution)

variable {T : Type} {M : OffsetMap} (lebUnsigned : BitVec 64 → List UInt8)

/-! ### Values that are stored as the same bytes -/

/-- The bits that an instruction gets for a value. -/
def BitMask.bits (mask : BitMask) (value : UInt64) : BitVec 64 :=
  mask.instruction.stored (extractBitRange value.toBitVec mask.start mask.stop)
    (decide (value.toBitVec.toInt < 0))

/-- Two values that leave the same bytes over `content`. -/
def SameStored (size : RelocationSize) (v w : UInt64) (content : List UInt8) : Prop :=
  match size with
  | .byteSize n => ∀ i < 8 * n, v.toBitVec.getLsbD i = w.toBitVec.getLsbD i
  | .bitMasking mask =>
      ∀ i, (mask.bits v).getLsbD i = (mask.bits w).getLsbD i ∨
        (bitAt content i = true ∧ mask.instruction.cleared.getLsbD i = false)

theorem toLeBytes_eq_iff (len : Nat) (v w : BitVec 64) :
    toLeBytes len v = toLeBytes len w ↔ ∀ i < 8 * len, v.getLsbD i = w.getLsbD i := by
  constructor
  · intro h i hi
    have hbit := congrArg (bitAt · i) h
    simp only [bitAt_toLeBytes, decide_eq_true hi, Bool.true_and] at hbit
    exact hbit
  · intro h
    apply eq_of_bitAt_eq
    · rw [toLeBytes_length, toLeBytes_length]
    · intro i
      rw [bitAt_toLeBytes, bitAt_toLeBytes]
      by_cases hi : i < 8 * len
      · rw [h i hi]
      · rw [decide_eq_false hi, Bool.false_and, Bool.false_and]

theorem splice_zero_inj {buffer bytes bytes' : List UInt8} (hlen : bytes.length = bytes'.length) :
    splice buffer 0 bytes = splice buffer 0 bytes' ↔ bytes = bytes' := by
  rw [splice, splice, hlen]
  constructor
  · intro h
    rw [List.append_assoc, List.append_assoc] at h
    exact (List.append_inj (List.append_cancel_left h) hlen).1
  · intro h
    rw [h]

variable {lebUnsigned} {info : RelocationKindInfo T} {out a b : List UInt8} {offset : Nat}
  {v w : UInt64}

theorem storeAt_byteSize_eq_ok (hkind : ∀ expected, info.kind ≠ .pairSubtractionUleb128 expected)
    {n : Nat} (hsize : info.size = .byteSize n)
    (h : info.storeAt lebUnsigned v out offset = .ok a) :
    n ≤ 8 ∧ a = out.take offset ++ splice (out.drop offset) 0 (toLeBytes n v.toBitVec) := by
  rw [RelocationKindInfo.storeAt] at h
  obtain ⟨u, -, h⟩ := bind_eq_ok.mp h
  obtain ⟨tail, htail, h⟩ := bind_eq_ok.mp h
  rw [RelocationKindInfo.writeToBuffer] at htail
  obtain ⟨u, -, htail⟩ := bind_eq_ok.mp htail
  cases hk : info.kind <;> rw [hk] at htail <;> try exact absurd hk (hkind _)
  all_goals
    simp only [hsize] at htail
    obtain ⟨u, -, htail⟩ := bind_eq_ok.mp htail
    obtain ⟨u, hle, htail⟩ := bind_eq_ok.mp htail
    rw [RelocationKindInfo.copyFromSlice] at htail
    obtain ⟨u, -, htail⟩ := bind_eq_ok.mp htail
    cases htail
    cases h
    exact ⟨assert_eq_ok.mp hle, rfl⟩

theorem storeAt_bitMasking_eq_ok
    (hkind : ∀ expected, info.kind ≠ .pairSubtractionUleb128 expected) {mask : BitMask}
    (hsize : info.size = .bitMasking mask) (h : info.storeAt lebUnsigned v out offset = .ok a) :
    ∃ tail, mask.instruction.writeToValue (extractBitRange v.toBitVec mask.start mask.stop)
        (decide (v.toBitVec.toInt < 0)) (out.drop offset) = .ok tail ∧
      a = out.take offset ++ tail := by
  rw [RelocationKindInfo.storeAt] at h
  obtain ⟨u, -, h⟩ := bind_eq_ok.mp h
  obtain ⟨tail, htail, h⟩ := bind_eq_ok.mp h
  cases h
  refine ⟨tail, ?_, rfl⟩
  rw [RelocationKindInfo.writeToBuffer] at htail
  obtain ⟨u, -, htail⟩ := bind_eq_ok.mp htail
  cases hk : info.kind <;> rw [hk] at htail <;> try exact absurd hk (hkind _)
  all_goals
    simp only [hsize] at htail
    exact htail

/-- An instruction that holds an offset of a thread-local is written into four bytes. -/
theorem dtpOffInstruction_length {insn : RelocationInstruction} (hinsn : insn ∈ dtpOffInstructions)
    {e : BitVec 64} {negative : Bool} {dest tail : List UInt8}
    (h : insn.writeToValue e negative dest = .ok tail) : insn.size ≤ dest.length := by
  have hor : ∀ mask : BitVec 32, orFromSlice dest (toLeBytes 4 mask) = .ok tail →
      4 ≤ dest.length := by
    intro mask hor
    obtain ⟨u, hlen, -⟩ := bind_eq_ok.mp hor
    rwa [assert_eq_ok, toLeBytes_length] at hlen
  simp only [dtpOffInstructions, List.mem_cons, List.not_mem_nil, or_false] at hinsn
  rcases hinsn with rfl | rfl | rfl | rfl
  · obtain ⟨masked, hmasked, -⟩ := bind_eq_ok.mp h
    obtain ⟨u, hlen, -⟩ := bind_eq_ok.mp hmasked
    rwa [assert_eq_ok, toLeBytes_length] at hlen
  · exact hor _ h
  · exact hor _ h
  · exact hor _ h

/-- Two stores at one place leave the same bytes just where the values have the same bits there. -/
theorem storeAt_same_iff (hkind : ∀ expected, info.kind ≠ .pairSubtractionUleb128 expected)
    (hsize : ∀ mask, info.size = .bitMasking mask → mask.instruction ∈ dtpOffInstructions)
    (ha : info.storeAt lebUnsigned v out offset = .ok a)
    (hb : info.storeAt lebUnsigned w out offset = .ok b) :
    a = b ↔ SameStored info.size v w (out.drop offset) := by
  cases hk : info.size with
  | byteSize n =>
      obtain ⟨-, rfl⟩ := storeAt_byteSize_eq_ok hkind hk ha
      obtain ⟨-, rfl⟩ := storeAt_byteSize_eq_ok hkind hk hb
      rw [List.append_cancel_left_eq, splice_zero_inj (by rw [toLeBytes_length, toLeBytes_length]),
        toLeBytes_eq_iff]
      rfl
  | bitMasking mask =>
      have hinsn := hsize mask hk
      obtain ⟨tail, htail, rfl⟩ := storeAt_bitMasking_eq_ok hkind hk ha
      obtain ⟨tail', htail', rfl⟩ := storeAt_bitMasking_eq_ok hkind hk hb
      have hlen := dtpOffInstruction_length hinsn htail
      have hmach : mask.instruction ≠ .aarch64 .machOLow12 := by
        intro h
        rw [h] at hinsn
        exact absurd hinsn (by decide)
      obtain ⟨written, hwritten, hstored⟩ := RelocationInstruction.writeToValue_stored
        mask.instruction hmach _ _ hlen
      obtain ⟨written', hwritten', hstored'⟩ := RelocationInstruction.writeToValue_stored
        mask.instruction hmach _ _ hlen
      obtain rfl := Except.ok.inj (htail.symm.trans hwritten)
      obtain rfl := Except.ok.inj (htail'.symm.trans hwritten')
      rw [List.append_cancel_left_eq]
      have hbits : tail = tail' ↔ ∀ i, bitAt tail i = bitAt tail' i :=
        ⟨fun h i => by rw [h], eq_of_bitAt_eq (hstored.length.trans hstored'.length.symm)⟩
      rw [hbits]
      apply forall_congr'
      intro i
      rw [hstored.bit, hstored'.bit, BitMask.bits, BitMask.bits]
      grind

/-! ### Low bits -/

/-- Two numbers have the same low bits where their difference has none. -/
theorem low_bits_eq_iff {n : Nat} (h : n ≤ 64) (v w : BitVec 64) :
    (∀ i < n, v.getLsbD i = w.getLsbD i) ↔ (w - v).toNat % 2 ^ n = 0 := by
  have hbits : (∀ i < n, v.getLsbD i = w.getLsbD i) ↔ v.setWidth n = w.setWidth n := by
    constructor
    · intro hall
      apply BitVec.eq_of_getLsbD_eq
      intro i hi
      rw [BitVec.getLsbD_setWidth, BitVec.getLsbD_setWidth, hall i hi]
    · intro heq i hi
      have hbit := congrArg (·.getLsbD i) heq
      simpa [hi] using hbit
  have hsub : (w - v).setWidth n = w.setWidth n - v.setWidth n := by
    have hsum := BitVec.setWidth_add (w - v) v h
    rw [BitVec.sub_add_cancel] at hsum
    rw [hsum, BitVec.add_sub_cancel]
  have hzero : (0 : Nat) = (0#n).toNat := by rw [BitVec.toNat_zero]
  rw [hbits, ← BitVec.toNat_setWidth, hsub, hzero, BitVec.toNat_inj]
  constructor
  · intro heq
    rw [heq, BitVec.sub_self]
  · intro hsum
    rw [BitVec.sub_eq_iff_eq_add, BitVec.zero_add] at hsum
    exact hsum.symm

theorem getLsbD_low6Mask (i : Nat) : RelocationKindInfo.low6Mask.getLsbD i = decide (i < 6) := by
  have hones : RelocationKindInfo.low6Mask = (1#64 <<< 6) - 1 := by decide
  rw [hones, getLsbD_ones, Bool.and_eq_right_iff_imp]
  intro hi
  rw [decide_eq_true_eq] at hi ⊢
  omega

/-- A sum of six bits, with the other bits of what was there, is the value just where there is
nothing to add and the other bits are those of the value. -/
theorem word6_sum_eq_iff (current value : BitVec 64) (n : Nat) :
    (∀ i < n, value.getLsbD i =
        (((current &&& RelocationKindInfo.low6Mask) + (value &&& RelocationKindInfo.low6Mask)) &&&
          RelocationKindInfo.low6Mask ||| (current &&& ~~~RelocationKindInfo.low6Mask)).getLsbD i) ↔
      ∀ i < n, current.getLsbD i = (decide (6 ≤ i) && value.getLsbD i) := by
  have hmasked : ∀ (x : BitVec 64) (i : Nat), i < min n 6 →
      (x &&& RelocationKindInfo.low6Mask).getLsbD i = x.getLsbD i := by
    intro x i hi
    rw [BitVec.getLsbD_and, getLsbD_low6Mask, decide_eq_true (by omega), Bool.and_true]
  have hsum := low_bits_eq_iff (by omega : min n 6 ≤ 64) (value &&& RelocationKindInfo.low6Mask)
    ((current &&& RelocationKindInfo.low6Mask) + (value &&& RelocationKindInfo.low6Mask))
  have hnothing := low_bits_eq_iff (by omega : min n 6 ≤ 64) 0#64
    (current &&& RelocationKindInfo.low6Mask)
  rw [BitVec.add_sub_cancel, ← BitVec.sub_zero (current &&& RelocationKindInfo.low6Mask),
    ← hnothing, BitVec.sub_zero] at hsum
  constructor
  · intro h i hi
    by_cases hlow : i < 6
    · have hzero := hsum.mp (fun j hj => by
        have hbit := h j (by omega)
        rw [BitVec.getLsbD_or, BitVec.getLsbD_and, BitVec.getLsbD_and, BitVec.getLsbD_not,
          getLsbD_low6Mask, decide_eq_true (by omega)] at hbit
        rw [hmasked value j hj]
        simpa using hbit) i (by omega)
      rw [hmasked current i (by omega), BitVec.getLsbD_zero] at hzero
      simp [← hzero, show ¬ 6 ≤ i by omega]
    · have hbit := h i hi
      rw [BitVec.getLsbD_or, BitVec.getLsbD_and, BitVec.getLsbD_and, BitVec.getLsbD_not,
        getLsbD_low6Mask, decide_eq_false hlow] at hbit
      by_cases h64 : i < 64
      · simpa [h64, show 6 ≤ i by omega] using hbit.symm
      · rw [BitVec.getLsbD_of_ge current i (by omega), BitVec.getLsbD_of_ge value i (by omega),
          Bool.and_false]
  · intro h i hi
    rw [BitVec.getLsbD_or, BitVec.getLsbD_and, BitVec.getLsbD_and, BitVec.getLsbD_not,
      getLsbD_low6Mask]
    by_cases hlow : i < 6
    · have hbits := hsum.mpr (fun j hj => by
        rw [hmasked current j hj, BitVec.getLsbD_zero, h j (by omega),
          decide_eq_false (by omega), Bool.false_and]) i (by omega)
      rw [hmasked value i (by omega)] at hbits
      rw [hbits]
      simp [hlow]
    · have hbit := h i hi
      rw [decide_eq_true (by omega), Bool.true_and] at hbit
      rw [← hbit, decide_eq_false hlow, Bool.and_false, Bool.false_or, Bool.not_false, Bool.and_true]
      by_cases h64 : i < 64
      · rw [decide_eq_true h64, Bool.and_true]
      · rw [BitVec.getLsbD_of_ge current i (by omega), Bool.false_and]

/-! ### Where the bytes are the same -/

namespace Link

variable (link : Link M) {arch : Arch T} {others : OtherRelocations T}
  {sectionInfo : SectionInfo} {previous : Option (Riscv.Relocation T)} {rel : Riscv.Relocation T}
  {resolution : Resolution} {symbolIndex : Nat} {offsetInSection tombstone : UInt64}

/-- From where an offset of a thread-local counts in a section that is not a debug section. -/
def dtpOffBase : UInt64 := if link.isSharedObject then link.tlsStartAddress else link.tlsEndAddress

/-- The relocations that store the same bytes in a debug section as elsewhere. -/
def SameBytes (info : RelocationKindInfo T) (rel : Riscv.Relocation T) (resolution : Resolution)
    (symbolIndex : Nat) (content : List UInt8) : Prop :=
  match info.kind, info.size with
  | .absoluteAdditionWord6, .byteSize n =>
      ∀ value, link.valueWithAddend resolution symbolIndex rel.addend = .ok value →
        ∀ i < 8 * n, bitAt content i = (decide (6 ≤ i) && value.toBitVec.getLsbD i)
  | .dtpOff, .byteSize n =>
      (UInt64.ofBitVec info.bias + link.tlsEndAddress - link.dtpOffBase).toNat % 2 ^ (8 * n) = 0
  | .dtpOff, .bitMasking mask =>
      SameStored (.bitMasking mask) (resolution.rawValue + rel.addend.toUInt64 - link.tlsEndAddress)
        (resolution.rawValue + rel.addend.toUInt64 + UInt64.ofBitVec info.bias - link.dtpOffBase)
        content
  | _, _ => True

theorem findResolution_of_getResolution
    (h : Riscv.getResolution link.object rel = .ok (resolution, symbolIndex)) :
    ∃ sym, link.object.symbols[symbolIndex]? = some sym ∧
      link.findResolution symbolIndex sym = .ok (some resolution) := by
  have hsymbol := link.getResolution_symbol h
  rw [Riscv.getResolution, hsymbol] at h
  obtain ⟨index, hindex, h⟩ := bind_eq_ok.mp h
  obtain rfl := Option.some.inj (context_eq_ok.mp hindex)
  obtain ⟨sym, hsym, h⟩ := bind_eq_ok.mp h
  refine ⟨sym, context_eq_ok.mp hsym, ?_⟩
  rw [findResolution]
  cases hmerged : link.object.mergedSymbolResolution symbolIndex with
  | some merged =>
      simp only [hmerged] at h
      cases h
      rfl
  | none =>
      simp only [hmerged] at h
      cases hsection : sym.sectionIndex with
      | none =>
          simp only [hsection] at h
          obtain ⟨address, haddress, h⟩ := bind_eq_ok.mp h
          obtain ⟨rawValue, hraw, h⟩ := bind_eq_ok.mp h
          cases haddress
          cases context_eq_ok.mp hraw
      | some sectionIndex =>
          simp only [hsection] at h ⊢
          obtain ⟨address, haddress, h⟩ := bind_eq_ok.mp h
          obtain ⟨rawValue, hraw, h⟩ := bind_eq_ok.mp h
          obtain rfl := context_eq_ok.mp hraw
          cases h
          rw [haddress]
          rfl

/-- A sum of six bits against the value alone. -/
theorem word6_same_iff (hkind : info.kind = .absoluteAdditionWord6) {value stored : UInt64}
    (hstored : info.adjustedValue true value out offset = .ok stored)
    (ha : info.storeAt lebUnsigned value out offset = .ok a)
    (hb : info.storeAt lebUnsigned stored out offset = .ok b) :
    ∃ n, info.size = .byteSize n ∧ (a = b ↔
      ∀ i < 8 * n, bitAt (out.drop offset) i = (decide (6 ≤ i) && value.toBitVec.getLsbD i)) := by
  obtain ⟨word, hword, hstored⟩ := bind_eq_ok.mp hstored
  rw [RelocationKindInfo.adjustValueBasedOnContent] at hword
  cases hsize : info.size with
  | bitMasking mask =>
      simp only [hsize] at hword
      cases hword
  | byteSize n =>
      simp only [hsize] at hword
      obtain ⟨u, hassert, hword⟩ := bind_eq_ok.mp hword
      have hn := (assert_eq_ok.mp hassert).1
      simp only [hkind] at hword
      have hpair : ∀ expected, info.kind ≠ .pairSubtractionUleb128 expected := by
        rw [hkind]
        simp
      have hmask : ∀ mask, info.size = .bitMasking mask →
          mask.instruction ∈ dtpOffInstructions := by
        rw [hsize]
        simp
      refine ⟨n, rfl, ?_⟩
      rw [storeAt_same_iff hpair hmask ha hb, hsize, SameStored]
      cases hword
      cases hstored
      have hcurrent : ∀ i < 8 * n,
          (BitVec.ofNat 64 (readLe (slice out offset n))).getLsbD i = bitAt (out.drop offset) i :=
        fun i hi => getLsbD_ofNat_take (out.drop offset) 64 n (by omega) hi
      rw [show ∀ x : BitVec 64, (UInt64.ofBitVec x).toBitVec = x from fun _ => rfl,
        word6_sum_eq_iff]
      constructor
      · intro h i hi
        rw [← hcurrent i hi, h i hi]
      · intro h i hi
        rw [hcurrent i hi, h i hi]

/-- An offset of a thread-local counts from another place, which may not show in few bytes. -/
theorem dtpOff_same_iff (hinfo : arch.relocationTypeFromRaw rel.rawType = some info)
    (hkind : info.kind = .dtpOff)
    (ha : info.storeAt lebUnsigned
      (resolution.rawValue - link.tlsEndAddress + rel.addend.toUInt64) out offset = .ok a)
    (hb : info.storeAt lebUnsigned (resolution.rawValue + rel.addend.toUInt64
      + UInt64.ofBitVec info.bias - link.dtpOffBase) out offset = .ok b) :
    a = b ↔ link.SameBytes info rel resolution symbolIndex (out.drop offset) := by
  have hpair : ∀ expected, info.kind ≠ .pairSubtractionUleb128 expected := by
    rw [hkind]
    nofun
  have hcomm : resolution.rawValue - link.tlsEndAddress + rel.addend.toUInt64 =
      resolution.rawValue + rel.addend.toUInt64 - link.tlsEndAddress := by
    grind
  rw [storeAt_same_iff hpair (fun mask hmask => arch.dtpOff _ _ mask hinfo hkind hmask) ha hb,
    SameBytes, hkind]
  cases hsize : info.size with
  | bitMasking mask =>
      rw [hcomm]
  | byteSize n =>
      have hn := (storeAt_byteSize_eq_ok hpair hsize ha).1
      have hdiff : resolution.rawValue + rel.addend.toUInt64 + UInt64.ofBitVec info.bias
          - link.dtpOffBase - (resolution.rawValue - link.tlsEndAddress + rel.addend.toUInt64) =
            UInt64.ofBitVec info.bias + link.tlsEndAddress - link.dtpOffBase := by
        grind
      rw [SameStored, low_bits_eq_iff (by omega), ← UInt64.toBitVec_sub, hdiff]
      rfl

section Runs

variable [DecidableEq T]

theorem applyDebugRelocation_eq_ok
    (hinfo : arch.relocationTypeFromRaw rel.rawType = some info)
    (hresolution : Riscv.getResolution link.object rel = .ok (resolution, symbolIndex))
    (h : link.applyDebugRelocation lebUnsigned arch tombstone previous rel offsetInSection out =
      .ok a) :
    ∃ value, link.debugValue arch info previous rel resolution symbolIndex offsetInSection out =
        .ok value ∧
      info.storeAt lebUnsigned value out offsetInSection.toNat = .ok a := by
  obtain ⟨sym, hsym, hfound⟩ := link.findResolution_of_getResolution hresolution
  rw [applyDebugRelocation, link.getResolution_symbol hresolution, context, bind_ok, hsym, context,
    bind_ok, Arch.relocationFromRaw, hinfo, context, bind_ok, hfound, bind_ok] at h
  exact bind_eq_ok.mp h

theorem applyRelocation_eq_ok (hinfo : arch.relocationTypeFromRaw rel.rawType = some info)
    (hresolution : Riscv.getResolution link.object rel = .ok (resolution, symbolIndex))
    (hnone : info.kind ≠ .none) (halignment : info.kind ≠ .alignment)
    (hplt : info.kind ≠ .pltRelative)
    (h : link.applyRelocation lebUnsigned arch others sectionInfo previous rel offsetInSection out =
      .ok b) :
    ∃ value stored, link.relocationValue arch others info sectionInfo previous rel
        (sectionInfo.sectionAddress + offsetInSection) resolution symbolIndex = .ok value ∧
      info.adjustedValue (adjusted info.kind) value out offsetInSection.toNat = .ok stored ∧
      info.storeAt lebUnsigned stored out offsetInSection.toNat = .ok b := by
  have hsymbol := link.getResolution_symbol hresolution
  have hthunk : info.thunkable = false := by
    cases hthunkable : info.thunkable with
    | false => rfl
    | true => exact absurd (arch.thunkable _ _ hinfo hthunkable) hplt
  rw [applyRelocation, Arch.relocationFromRaw, hinfo, context, bind_ok] at h
  simp only [hnone, halignment, hsymbol, if_false, reduceCtorEq, and_false] at h
  obtain ⟨u, -, h⟩ := bind_eq_ok.mp h
  rw [hresolution, bind_ok] at h
  obtain ⟨u, -, h⟩ := bind_eq_ok.mp h
  obtain ⟨value, hvalue, h⟩ := bind_eq_ok.mp h
  obtain ⟨stored, hstored, h⟩ := bind_eq_ok.mp h
  simp only [hthunk, Bool.false_and, Bool.false_eq_true, if_false, bind_ok] at h
  exact ⟨value, stored, hvalue, hstored, h⟩

/-- A debug section gets the bytes that another section gets, but for a sum of six bits over bits
that are not clear, and for an offset of a thread-local that counts from the end of the storage of a
shared object. -/
theorem debug_bytes_eq_iff (hinfo : arch.relocationTypeFromRaw rel.rawType = some info)
    (hresolution : Riscv.getResolution link.object rel = .ok (resolution, symbolIndex))
    (halloc : sectionInfo.isAlloc = false)
    (hdebug : link.applyDebugRelocation lebUnsigned arch tombstone previous rel offsetInSection
      out = .ok a)
    (happly : link.applyRelocation lebUnsigned arch others sectionInfo previous rel offsetInSection
      out = .ok b) :
    a = b ↔ link.SameBytes info rel resolution symbolIndex (out.drop offsetInSection.toNat) := by
  obtain ⟨value, hvalue, ha⟩ := link.applyDebugRelocation_eq_ok hinfo hresolution hdebug
  -- The kinds of which both functions treat the value alike.
  have hsame : info.kind ≠ .none → info.kind ≠ .alignment → info.kind ≠ .pltRelative →
      link.relocationValue arch others info sectionInfo previous rel
          (sectionInfo.sectionAddress + offsetInSection) resolution symbolIndex =
        link.valueWithAddend resolution symbolIndex rel.addend →
      link.debugValue arch info previous rel resolution symbolIndex offsetInSection out =
        (link.valueWithAddend resolution symbolIndex rel.addend >>= fun value =>
          info.adjustedValue (adjusted info.kind) value out offsetInSection.toNat) → a = b := by
    intro hnone halignment hplt hrelocation hdebugValue
    obtain ⟨v, stored, hv, hstored, hb⟩ :=
      link.applyRelocation_eq_ok hinfo hresolution hnone halignment hplt happly
    rw [hdebugValue, ← hrelocation, hv, bind_ok, hstored] at hvalue
    obtain rfl := Except.ok.inj hvalue
    exact Except.ok.inj (ha.symm.trans hb)
  cases hkind : info.kind with
  | absolute =>
      rw [SameBytes, hkind, iff_true]
      rw [hkind] at hsame
      apply hsame nofun nofun nofun
      · rw [relocationValue, hkind]
        simp [halloc]
      · rw [debugValue, hkind]
        rfl
  | absoluteSet | absoluteSetWord6 | absoluteAddition | absoluteSubtraction
  | absoluteSubtractionWord6 =>
      rw [SameBytes, hkind, iff_true]
      rw [hkind] at hsame
      apply hsame nofun nofun nofun
      · rw [relocationValue, hkind]
      · rw [debugValue, hkind]
        rfl
  | absoluteAdditionWord6 =>
      obtain ⟨v, stored, hv, hstored, hb⟩ := link.applyRelocation_eq_ok hinfo hresolution
        (by rw [hkind]; nofun) (by rw [hkind]; nofun) (by rw [hkind]; nofun) happly
      rw [relocationValue, hkind] at hv
      rw [hkind] at hstored
      rw [debugValue, hkind] at hvalue
      obtain ⟨v', hv', hvalue⟩ := bind_eq_ok.mp hvalue
      obtain rfl := Except.ok.inj (hv.symm.trans hv')
      cases hvalue
      obtain ⟨n, hsize, hiff⟩ := word6_same_iff hkind hstored ha hb
      rw [hiff, SameBytes, hkind, hsize]
      constructor
      · intro h value hvalue
        obtain rfl := Except.ok.inj (hv.symm.trans hvalue)
        exact h
      · intro h
        exact h _ hv
  | pairSubtractionUleb128 expected =>
      rw [SameBytes, hkind, iff_true]
      obtain ⟨v, stored, hv, hstored, hb⟩ := link.applyRelocation_eq_ok hinfo hresolution
        (by rw [hkind]; nofun) (by rw [hkind]; nofun) (by rw [hkind]; nofun) happly
      rw [relocationValue, hkind] at hv
      rw [hkind] at hstored
      rw [debugValue, hkind] at hvalue
      obtain rfl := Except.ok.inj (hv.symm.trans hvalue)
      cases hstored
      exact Except.ok.inj (ha.symm.trans hb)
  | relative =>
      rw [SameBytes, hkind, iff_true]
      obtain ⟨v, stored, -, -, hb⟩ := link.applyRelocation_eq_ok hinfo hresolution
        (by rw [hkind]; nofun) (by rw [hkind]; nofun) (by rw [hkind]; nofun) happly
      have hsize : info.size = .byteSize 0 := by
        rw [debugValue, hkind] at hvalue
        by_contra hne
        simp only [if_neg hne] at hvalue
        cases hvalue
      have hpair : ∀ expected, info.kind ≠ .pairSubtractionUleb128 expected := by
        rw [hkind]
        nofun
      obtain ⟨-, rfl⟩ := storeAt_byteSize_eq_ok hpair hsize ha
      obtain ⟨-, rfl⟩ := storeAt_byteSize_eq_ok hpair hsize hb
      rfl
  | dtpOff =>
      obtain ⟨v, stored, hv, hstored, hb⟩ := link.applyRelocation_eq_ok hinfo hresolution
        (by rw [hkind]; nofun) (by rw [hkind]; nofun) (by rw [hkind]; nofun) happly
      have hv' : v = resolution.rawValue + rel.addend.toUInt64 + UInt64.ofBitVec info.bias
          - link.dtpOffBase := by
        rw [relocationValue, hkind] at hv
        rw [dtpOffBase]
        cases hshared : link.isSharedObject <;> simp only [hshared] at hv <;> cases hv <;> rfl
      rw [hkind] at hstored
      cases hstored
      rw [debugValue, hkind] at hvalue
      cases hvalue
      rw [hv'] at hb
      exact link.dtpOff_same_iff hinfo hkind ha hb
  | _ =>
      rw [debugValue, hkind] at hvalue
      cases hvalue

end Runs

end Link

/-! ### Relocations of LoongArch64 -/

namespace DebugLine

def label : Riscv.SymtabEntry := ⟨true, none, 0⟩

/-- A symbol with some value, in a link whose thread-local storage has 64 bytes. -/
def link (rawValue : UInt64) (isSharedObject : Bool) : Link (listOffsetMap 1) where
  layout := ⟨[], id, false, none⟩
  strings := ⟨fun _ => ⟨[], [], [], []⟩, fun _ => []⟩
  object :=
    { symbols := [label]
      sections := []
      sectionResolutions := []
      sectionIdRange := ⟨0, 0⟩
      sectionRelaxDeltas := fun _ => none
      mergedSymbolResolution := fun _ => some { rawValue } }
  isSharedObject := isSharedObject
  tlsStartAddress := 0x1000
  tlsEndAddress := 0x1040
  flagsForSymbol := fun _ => .empty
  unloaded := fun _ => false

def arch : Arch LoongArch64DataType := loongArchData fun _ => ""

def others : OtherRelocations LoongArch64DataType :=
  ⟨fun _ out => .ok out, fun _ _ => .ok 0, fun _ _ => .ok 0, fun _ _ => .ok 0, fun _ => 0⟩

def rel (rType : LoongArch64DataType) : Riscv.Relocation LoongArch64DataType :=
  ⟨0, rType, some 0, 0⟩

def encode (value : BitVec 64) : List UInt8 := Uleb.encode value.toNat

def debug (link : Link (listOffsetMap 1)) (rType : LoongArch64DataType) (out : List UInt8) :
    Fallible (List UInt8) :=
  link.applyDebugRelocation encode arch 0 none (rel rType) 0 out

def apply (link : Link (listOffsetMap 1)) (rType : LoongArch64DataType) (out : List UInt8) :
    Fallible (List UInt8) :=
  link.applyRelocation encode arch others ⟨0x5000, false⟩ none (rel rType) 0 out

end DebugLine

open DebugLine in
/-- A sum over six bits that are clear. -/
theorem Link.debug_bytes_eq_iff_clear :
    ([3] : List UInt8) = [3] ↔ (link 3 false).SameBytes LoongArch64DataType.add6.relocationTypeFromRaw
      (rel .add6) { rawValue := 3 } 0 [0] := by
  have hdebug : debug (link 3 false) .add6 [0] = .ok [3] := by rfl
  have happly : apply (link 3 false) .add6 [0] = .ok [3] := by rfl
  have hresolution : Riscv.getResolution (link 3 false).object (rel .add6) =
      .ok ({ rawValue := 3 }, 0) := rfl
  have hinfo : arch.relocationTypeFromRaw (rel .add6).rawType =
      some LoongArch64DataType.add6.relocationTypeFromRaw := rfl
  exact Link.debug_bytes_eq_iff (link 3 false) hinfo hresolution rfl hdebug happly

open DebugLine in
/-- A sum over six bits that are not clear is not added, and an offset of a thread-local of a shared
object counts from the end of its storage. -/
theorem Link.debug_bytes_not_eq :
    (debug (link 3 false) .add6 [5] = .ok [3] ∧ apply (link 3 false) .add6 [5] = .ok [8]) ∧
      debug (link 0x1010 true) .tlsDtprel32 [0, 0, 0, 0] = .ok [0xd0, 0xff, 0xff, 0xff] ∧
      apply (link 0x1010 true) .tlsDtprel32 [0, 0, 0, 0] = .ok [0x10, 0, 0, 0] := by
  refine ⟨⟨?_, ?_⟩, ?_, ?_⟩ <;> rfl

end JdxLinker.Relocation
