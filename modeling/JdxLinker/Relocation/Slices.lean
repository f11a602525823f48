import JdxLinker.Lib.BitFields
import JdxLinker.Lib.ByteMasks
import JdxLinker.Lib.Failure

/-!
# Bit ranges and byte slices

The parts of a value that relocations take, and the masks that they put over the first bytes of a
slice. What a write does is told bit by bit: some bits of the slice are cleared, some are set, and
the others stay.
-/

namespace JdxLinker.Relocation

open Fallible Bytes ByteMasks

/-! ### Parts of a value -/

def extractBitRange (value : BitVec 64) (start stop : Nat) : BitVec 64 :=
  if start = 0 ∧ stop = 64 then value
  else (value >>> start) &&& ((1#64 <<< (stop - start)) - 1)

def extractBit (value : BitVec 64) (position : Nat) : BitVec 64 :=
  extractBitRange value position (position + 1)

def lowBits (value : BitVec 64) (numBits : Nat) : BitVec 64 :=
  value &&& ((1#64 <<< numBits) - 1)

/-- Sign extends from the given bit. -/
def signExtendFrom (value : BitVec 64) (signBit : Nat) : BitVec 64 :=
  if value &&& (1#64 <<< signBit) ≠ 0 then value ||| ~~~((2#64 <<< signBit) - 1) else value

def lowBitsSigned (value : BitVec 64) (numBits : Nat) : BitVec 64 :=
  signExtendFrom (lowBits value numBits) (numBits - 1)

/-- The value of an `i32` of which the low bits were shifted to the top and back. -/
def sext32 (imm : BitVec 32) (shift : Nat) : BitVec 32 := (imm <<< shift).sshiftRight shift

/-- A sign extended immediate as the value that is returned, with its sign. -/
def signedImmediate (imm : BitVec 32) (shift : Nat) : BitVec 64 × Bool :=
  ((sext32 imm shift).signExtend 64, (sext32 imm shift).slt 0#32)

theorem getLsbD_ones (n i : Nat) :
    ((1#64 <<< n) - 1).getLsbD i = (decide (i < 64) && decide (i < n)) := by
  have hones : (1#64 <<< n) - 1 = BitVec.ofNat 64 (2 ^ n - 1) := by
    apply BitVec.eq_of_toNat_eq
    have hpos : 0 < 2 ^ n := Nat.two_pow_pos n
    have hone : (1 : BitVec 64).toNat = 1 := rfl
    have hone' : 1 % 2 ^ 64 * 2 ^ n = 2 ^ n := by rw [Nat.mod_eq_of_lt (by decide), one_mul]
    rw [BitVec.toNat_sub, BitVec.toNat_shiftLeft, BitVec.toNat_ofNat, BitVec.toNat_ofNat,
      Nat.shiftLeft_eq, hone, hone']
    omega
  rw [hones, BitVec.getLsbD_ofNat, Nat.testBit_two_pow_sub_one]

theorem getLsbD_extractBitRange (value : BitVec 64) {start stop i : Nat} (hstop : stop ≤ 64) :
    (extractBitRange value start stop).getLsbD i =
      (decide (i < stop - start) && value.getLsbD (start + i)) := by
  rw [extractBitRange]
  by_cases hall : start = 0 ∧ stop = 64
  · obtain ⟨rfl, rfl⟩ := hall
    rw [if_pos ⟨rfl, rfl⟩, Nat.zero_add]
    by_cases hi : i < 64
    · simp [hi]
    · rw [BitVec.getLsbD_of_ge value i (by omega), Bool.and_false]
  · rw [if_neg hall, BitVec.getLsbD_and, BitVec.getLsbD_ushiftRight, getLsbD_ones]
    by_cases hi : i < stop - start
    · simp [hi, show i < 64 by omega]
    · simp [hi]

theorem extractBitRange_eq_bits (value : BitVec 64) (start stop : Nat) (hstop : stop ≤ 64) :
    extractBitRange value start stop = BitFields.bits value start (stop - start) := by
  apply BitVec.eq_of_getLsbD_eq
  intro i _
  rw [getLsbD_extractBitRange value hstop, BitFields.getLsbD_bits]

theorem getLsbD_lowBits (value : BitVec 64) (numBits i : Nat) :
    (lowBits value numBits).getLsbD i = (decide (i < numBits) && value.getLsbD i) := by
  rw [lowBits, BitVec.getLsbD_and, getLsbD_ones]
  by_cases hi : i < 64
  · rw [decide_eq_true hi, Bool.true_and, Bool.and_comm]
  · rw [BitVec.getLsbD_of_ge value i (by omega), Bool.false_and, Bool.and_false]

/-- The bits up to the sign bit are not changed by a sign extension. -/
theorem getLsbD_signExtendFrom (value : BitVec 64) {signBit i : Nat} (hi : i ≤ signBit) :
    (signExtendFrom value signBit).getLsbD i = value.getLsbD i := by
  rw [signExtendFrom]
  split
  · have hones : 2#64 <<< signBit = 1#64 <<< (signBit + 1) := by
      rw [Nat.add_comm, BitVec.shiftLeft_add]
      rfl
    rw [BitVec.getLsbD_or, BitVec.getLsbD_not, hones, getLsbD_ones]
    by_cases h64 : i < 64
    · simp [h64, Nat.lt_succ_of_le hi]
    · simp [h64]
  · rfl

theorem getLsbD_lowBitsSigned (value : BitVec 64) {numBits i : Nat} (hi : i < numBits) :
    (lowBitsSigned value numBits).getLsbD i = value.getLsbD i := by
  rw [lowBitsSigned, getLsbD_signExtendFrom _ (by omega), getLsbD_lowBits, decide_eq_true hi,
    Bool.true_and]

theorem getLsbD_sext32 (imm : BitVec 32) {shift i : Nat} (hshift : shift < 32) (hi : i < 32) :
    (sext32 imm shift).getLsbD i = imm.getLsbD (min i (31 - shift)) := by
  rw [sext32, BitVec.getLsbD_sshiftRight, decide_eq_false (by omega : ¬ 32 ≤ i), Bool.not_false,
    Bool.true_and, BitVec.getLsbD_shiftLeft, BitVec.msb_eq_getLsbD_last, BitVec.getLsbD_shiftLeft]
  by_cases hin : shift + i < 32
  · rw [if_pos hin, Nat.min_eq_left (by omega), decide_eq_true hin,
      decide_eq_false (by omega : ¬ shift + i < shift), Nat.add_sub_cancel_left]
    rfl
  · rw [if_neg hin, Nat.min_eq_right (by omega), decide_eq_false (by omega : ¬ 32 - 1 < shift)]
    rfl

theorem getLsbD_signedImmediate (imm : BitVec 32) {shift i : Nat} (hi : i < 32 - shift) :
    (signedImmediate imm shift).1.getLsbD i = imm.getLsbD i := by
  rw [signedImmediate, BitVec.getLsbD_signExtend, decide_eq_true (by omega : i < 64), Bool.true_and,
    if_pos (by omega), getLsbD_sext32 imm (by omega) (by omega), Nat.min_eq_left (by omega)]

/-- The sign is the highest bit of the immediate. -/
theorem signedImmediate_sign (imm : BitVec 32) {shift : Nat} (hshift : shift < 32) :
    (signedImmediate imm shift).2 = imm.getLsbD (31 - shift) := by
  rw [signedImmediate, BitVec.slt_zero_eq_msb, BitVec.msb_eq_getLsbD_last,
    getLsbD_sext32 imm hshift (by omega), Nat.min_eq_right (by omega)]

/-! ### Slices -/

def andFromSlice (dest maskBytes : List UInt8) : Fallible (List UInt8) := do
  assert (maskBytes.length ≤ dest.length)
  .ok (combine (· &&& ·) dest maskBytes)

def orFromSlice (dest maskBytes : List UInt8) : Fallible (List UInt8) := do
  assert (maskBytes.length ≤ dest.length)
  .ok (combine (· ||| ·) dest maskBytes)

/-- The first `len` bytes of a value, the lowest first. -/
def toLeBytes {n : Nat} (len : Nat) (value : BitVec n) : List UInt8 := leBytes len value.toNat

def u16FromSlice (data : List UInt8) : Fallible (BitVec 16) := do
  assert (2 ≤ data.length)
  .ok (BitVec.ofNat 16 (readLe (data.take 2)))

def u32FromSlice (data : List UInt8) : Fallible (BitVec 32) := do
  assert (4 ≤ data.length)
  .ok (BitVec.ofNat 32 (readLe (data.take 4)))

def u64FromSlice (data : List UInt8) : Fallible (BitVec 64) := do
  assert (8 ≤ data.length)
  .ok (BitVec.ofNat 64 (readLe (data.take 8)))

/-- What a write does to a slice: bits that it clears, bits that it sets, and nothing else. -/
structure Stored (dest out : List UInt8) (clear set : BitVec 64) : Prop where
  length : out.length = dest.length
  bit : ∀ i, bitAt out i = (bitAt dest i && !clear.getLsbD i || set.getLsbD i)

/-- The first eight bytes of a slice as a number. -/
def wordOf (data : List UInt8) : BitVec 64 := BitVec.ofNat 64 (readLe data)

@[simp] theorem getLsbD_wordOf (data : List UInt8) {i : Nat} (hi : i < 64) :
    (wordOf data).getLsbD i = bitAt data i := by
  rw [wordOf, BitVec.getLsbD_ofNat, decide_eq_true hi, Bool.true_and, bitAt]

theorem getLsbD_ofNat_take (data : List UInt8) (n len : Nat) {i : Nat} (hn : i < n)
    (hlen : i < 8 * len) : (BitVec.ofNat n (readLe (data.take len))).getLsbD i = bitAt data i := by
  have htake := bitAt_take data len i
  rw [decide_eq_true hlen, Bool.true_and] at htake
  rw [BitVec.getLsbD_ofNat, decide_eq_true hn, Bool.true_and, ← htake, bitAt]

theorem bitAt_toLeBytes {n : Nat} (len : Nat) (value : BitVec n) (i : Nat) :
    bitAt (toLeBytes len value) i = (decide (i < 8 * len) && value.getLsbD i) := by
  rw [toLeBytes, bitAt_leBytes, BitVec.testBit_toNat]

theorem toLeBytes_length {n : Nat} (len : Nat) (value : BitVec n) :
    (toLeBytes len value).length = len := leBytes_length len _

section Writes

variable {n len : Nat} {dest : List UInt8}

theorem andFromSlice_toLeBytes (keep : BitVec n) (h : len ≤ dest.length) :
    andFromSlice dest (toLeBytes len keep) = .ok (combine (· &&& ·) dest (toLeBytes len keep)) := by
  rw [andFromSlice, assert, if_pos (by rwa [toLeBytes_length])]
  rfl

theorem orFromSlice_toLeBytes (mask : BitVec n) (h : len ≤ dest.length) :
    orFromSlice dest (toLeBytes len mask) = .ok (combine (· ||| ·) dest (toLeBytes len mask)) := by
  rw [orFromSlice, assert, if_pos (by rwa [toLeBytes_length])]
  rfl

/-- A mask that is put into a slice. -/
theorem stored_or (mask : BitVec n) (h : len ≤ dest.length) (hlen : len ≤ 8) :
    Stored dest (combine (· ||| ·) dest (toLeBytes len mask)) 0
      ((mask.setWidth (8 * len)).setWidth 64) where
  length := combine_length _ (by rwa [toLeBytes_length])
  bit i := by
    rw [bitAt_combine_or (by rwa [toLeBytes_length]), bitAt_toLeBytes, BitVec.getLsbD_setWidth,
      BitVec.getLsbD_setWidth]
    by_cases hi : i < 8 * len
    · simp [hi, show i < 64 by omega]
    · simp [hi]

/-- A mask that is put into a slice of which some bits are cleared first. -/
theorem stored_and_or {m : Nat} (keep : BitVec n) (mask : BitVec m) (h : len ≤ dest.length)
    (hn : n = 8 * len) (hlen : len ≤ 8) :
    ∃ out, (andFromSlice dest (toLeBytes len keep) >>= fun dest =>
        orFromSlice dest (toLeBytes len mask)) = .ok out ∧
      Stored dest out ((~~~keep).setWidth 64) ((mask.setWidth (8 * len)).setWidth 64) := by
  have hkeep : (toLeBytes len keep).length ≤ dest.length := by rwa [toLeBytes_length]
  have hand : (combine (· &&& ·) dest (toLeBytes len keep)).length = dest.length :=
    combine_length _ hkeep
  have hor := stored_or mask (hand.symm ▸ h) hlen
  refine ⟨_, ?_, hor.length.trans hand, fun i => ?_⟩
  · rw [andFromSlice_toLeBytes keep h, bind_ok, orFromSlice_toLeBytes mask (by rwa [hand])]
  · have hnot : ((~~~keep).setWidth 64).getLsbD i =
        (decide (i < 64) && (decide (i < n) && !keep.getLsbD i)) := by
      rw [BitVec.getLsbD_setWidth, BitVec.getLsbD_not]
    rw [hor.bit i, bitAt_combine_and hkeep, bitAt_toLeBytes, toLeBytes_length, hnot]
    by_cases hi : i < 8 * len
    · have hle : ¬ 8 * len ≤ i := by omega
      simp [hi, hle, hn, show i < 64 by omega]
    · have hle : 8 * len ≤ i := by omega
      simp [hle, hn, hi]

end Writes

end JdxLinker.Relocation
