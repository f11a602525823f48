import JdxLinker.Relocation.Kinds
import JdxLinker.Relocation.Written

/-!
# High and low parts

An upper and a lower instruction that together compute a value. The processor extends the sign of
both immediates, so that the values of a pair are a window of 4 GiB that starts 2 KiB below that of
a signed number of 32 bits.
-/

namespace JdxLinker.Relocation

open Fallible BitFields Bytes ByteMasks

/-! ### What the processor computes -/

/-- The two formats of an instruction that takes the lower part. -/
inductive LowFormat where
  | iType
  | sType
  deriving DecidableEq, Repr

/-- The instruction that a relocation of the format writes to. -/
def LowFormat.insn : LowFormat → RiscVInstruction
  | iType => .iType
  | sType => .sType

def upperImmediate (insn : BitVec 32) : BitVec 20 := insn.extractLsb' 12 20

def LowFormat.immediate (insn : BitVec 32) : LowFormat → BitVec 12
  | iType => insn.extractLsb' 20 12
  | sType => insn.extractLsb' 25 7 ++ insn.extractLsb' 7 5

/-- The sum of the upper immediate at its place and of the lower one, as RV64 computes it. -/
def pairValue (upper : BitVec 20) (lower : BitVec 12) : BitVec 64 :=
  upper.signExtend 64 <<< 12 + lower.signExtend 64

/-- A value that some pair computes. -/
def Expressible (value : BitVec 64) : Prop := ∃ upper lower, pairValue upper lower = value

theorem upper_toInt (upper : BitVec 20) : (upper.signExtend 64 <<< 12).toInt = upper.toInt * 4096 := by
  have hupper := upper.le_toInt
  have hupper' := upper.toInt_lt
  rw [BitVec.shiftLeft_eq_mul_twoPow, BitVec.toInt_mul, BitVec.toInt_signExtend_of_le (by decide)]
  apply Int.bmod_eq_of_le
  · change -(2 ^ 64 / 2 : Int) ≤ upper.toInt * 4096
    omega
  · change upper.toInt * 4096 < (2 ^ 64 + 1) / 2
    omega

theorem pairValue_toInt (upper : BitVec 20) (lower : BitVec 12) :
    (pairValue upper lower).toInt = upper.toInt * 4096 + lower.toInt := by
  have hupper := upper.le_toInt
  have hupper' := upper.toInt_lt
  have hlower := lower.le_toInt
  have hlower' := lower.toInt_lt
  rw [pairValue, BitVec.toInt_add, upper_toInt, BitVec.toInt_signExtend_of_le (by decide)]
  apply Int.bmod_eq_of_le
  · omega
  · omega

/-- The parts that the linker takes of a value are those of which the value is put together. -/
theorem pairValue_parts {value : BitVec 64} (hmin : -2 ^ 31 - 0x800 ≤ value.toInt)
    (hmax : value.toInt < 2 ^ 31 - 0x800) :
    pairValue ((value + 0x800).extractLsb' 12 20) (value.extractLsb' 0 12) = value := by
  have hvalue := value.isLt
  have hupper : ((value + 0x800).extractLsb' 12 20).toNat =
      (value.toNat + 2048) % 2 ^ 64 / 2 ^ 12 % 2 ^ 20 := by
    rw [BitVec.extractLsb'_toNat, Nat.shiftRight_eq_div_pow, BitVec.toNat_add]
    rfl
  have hlower : (value.extractLsb' 0 12).toNat = value.toNat % 2 ^ 12 := by
    rw [BitVec.extractLsb'_toNat, Nat.shiftRight_zero]
  apply BitVec.eq_of_toInt_eq
  rw [pairValue_toInt]
  rw [BitVec.toInt_eq_toNat_cond] at hmin hmax
  rw [BitVec.toInt_eq_toNat_cond, BitVec.toInt_eq_toNat_cond, BitVec.toInt_eq_toNat_cond, hupper,
    hlower]
  omega

theorem expressible_iff (value : BitVec 64) :
    Expressible value ↔ -2 ^ 31 - 0x800 ≤ value.toInt ∧ value.toInt < 2 ^ 31 - 0x800 := by
  constructor
  · intro h
    obtain ⟨upper, lower, rfl⟩ := h
    have hupper := upper.le_toInt
    have hupper' := upper.toInt_lt
    have hlower := lower.le_toInt
    have hlower' := lower.toInt_lt
    rw [pairValue_toInt]
    omega
  · intro h
    exact ⟨_, _, pairValue_parts h.1 h.2⟩

/-! ### What the linker writes -/

/-- Relocations of one value, for an upper instruction and a lower one. -/
inductive HighLowPair where
  | call
  | callPlt
  | hi20 (low : LowFormat)
  | pcrelHi20 (low : LowFormat)
  deriving DecidableEq, Repr

namespace HighLowPair

open RiscVRelocationType RelocationKindInfo

/-- The relocation of the upper instruction, and that of the lower one if it has its own. -/
def relocations : HighLowPair → RiscVRelocationType × Option RiscVRelocationType
  | call => (.call, Option.none)
  | callPlt => (.callPlt, Option.none)
  | hi20 .iType => (.hi20, some .lo12I)
  | hi20 .sType => (.hi20, some .lo12S)
  | pcrelHi20 .iType => (.pcrelHi20, some .pcrelLo12I)
  | pcrelHi20 .sType => (.pcrelHi20, some .pcrelLo12S)

def lowFormat : HighLowPair → LowFormat
  | call | callPlt => .iType
  | hi20 low | pcrelHi20 low => low

/-- A value that is in the range of each relocation of the pair. -/
def Accepts (pair : HighLowPair) (value : BitVec 64) : Prop :=
  ∀ rType, rType = pair.relocations.1 ∨ pair.relocations.2 = some rType →
    ∃ info, rType.relocationTypeFromRaw = some info ∧ info.verify value = .ok ()

/-- The instruction that a buffer starts with, after a relocation of a type was applied there. -/
def relocate (lebUnsigned : BitVec 64 → List UInt8) (rType : RiscVRelocationType)
    (value : BitVec 64) (output : List UInt8) : Fallible (List UInt8) := do
  let info ← unwrap rType.relocationTypeFromRaw
  info.writeToBuffer lebUnsigned value output

/-- The upper and the lower instruction with a value in them. -/
def write (lebUnsigned : BitVec 64 → List UInt8) (pair : HighLowPair) (value : BitVec 64)
    (upper lower : BitVec 32) : Fallible (BitVec 32 × BitVec 32) :=
  match pair.relocations with
  | (rType, Option.none) => do
      let output ← relocate lebUnsigned rType value (toLeBytes 4 upper ++ toLeBytes 4 lower)
      let upper ← u32FromSlice output
      let lower ← u32FromSlice (output.drop 4)
      .ok (upper, lower)
  | (rType, some lowType) => do
      let output ← relocate lebUnsigned rType value (toLeBytes 4 upper)
      let lowOutput ← relocate lebUnsigned lowType value (toLeBytes 4 lower)
      let upper ← u32FromSlice output
      let lower ← u32FromSlice lowOutput
      .ok (upper, lower)

/-- What a processor computes from the two instructions. -/
def computed (pair : HighLowPair) (upper lower : BitVec 32) : BitVec 64 :=
  pairValue (upperImmediate upper) (pair.lowFormat.immediate lower)

/-- An accepted value is what the instructions compute, and a value that they cannot compute is an
error. -/
structure Computes (lebUnsigned : BitVec 64 → List UInt8) (pair : HighLowPair)
    (value : BitVec 64) (upper lower : BitVec 32) : Prop where
  computed : pair.Accepts value → ∃ insns, pair.write lebUnsigned value upper lower = .ok insns ∧
    pair.computed insns.1 insns.2 = value
  rejected : ¬ Expressible value → ∃ e, pair.write lebUnsigned value upper lower = .error e

end HighLowPair

/-! ### The immediates of written instructions -/

section Immediates

variable {x : BitVec 64} {out : List UInt8}

/-- The instruction that a slice starts with. -/
def insnOf (data : List UInt8) : BitVec 32 := BitVec.ofNat 32 (readLe (data.take 4))

theorem u32FromSlice_eq (h : 4 ≤ out.length) : u32FromSlice out = .ok (insnOf out) := by
  rw [u32FromSlice, assert, if_pos h]
  rfl

/-- A field of one run, as the bits of the value from where the run starts. -/
theorem extractLsb'_of_holds {source length dest : Nat} (hdest : dest + length ≤ 32)
    (h : Holds [⟨source, length, dest⟩] x (wordOf out)) :
    (insnOf out).extractLsb' dest length = x.extractLsb' source length := by
  apply BitVec.eq_of_getLsbD_eq
  intro i hi
  have hbit := h _ (List.mem_singleton_self _) i hi
  change (wordOf out).getLsbD (dest + i) = x.getLsbD (source + i) at hbit
  rw [getLsbD_wordOf out (by omega)] at hbit
  rw [BitVec.getLsbD_extractLsb', BitVec.getLsbD_extractLsb', insnOf,
    getLsbD_ofNat_take out 32 4 (by omega) (by omega), hbit]

theorem immediate_of_holds (low : LowFormat)
    (h : Holds (RelocationInstruction.riscV low.insn).field x (wordOf out)) :
    low.immediate (insnOf out) = x.extractLsb' 0 12 := by
  cases low with
  | iType => exact extractLsb'_of_holds (by decide) h
  | sType =>
      have hlow : Holds [⟨0, 5, 7⟩] x (wordOf out) := by
        intro p hp
        obtain rfl := List.mem_singleton.mp hp
        exact h _ List.mem_cons_self
      have hhigh : Holds [⟨5, 7, 25⟩] x (wordOf out) := by
        intro p hp
        exact h p (List.mem_cons_of_mem _ hp)
      rw [LowFormat.immediate, extractLsb'_of_holds (by decide) hlow,
        extractLsb'_of_holds (by decide) hhigh]
      apply BitVec.eq_of_getLsbD_eq
      intro i hi
      rw [BitVec.getLsbD_append]
      simp only [BitVec.getLsbD_extractLsb']
      by_cases hi5 : i < 5
      · simp [hi5, hi]
      · simp [hi5, hi, show i - 5 < 7 by omega, show 5 + (i - 5) = i by omega]

/-- Only the low half of a value is used of what a relocation of 32 bits takes. -/
theorem parts_of_low_half (value : BitVec 64) :
    (extractBitRange value 0 32 + 0x800).extractLsb' 12 20 = (value + 0x800).extractLsb' 12 20 ∧
      (extractBitRange value 0 32).extractLsb' 0 12 = value.extractLsb' 0 12 := by
  have hlow : (extractBitRange value 0 32).toNat = value.toNat % 2 ^ 32 := by
    rw [extractBitRange_eq_bits value 0 32 (by decide), bits, BitVec.ushiftRight_zero,
      BitVec.toNat_and]
    exact Nat.and_two_pow_sub_one_eq_mod value.toNat 32
  constructor
  · apply BitVec.eq_of_toNat_eq
    rw [BitVec.extractLsb'_toNat, BitVec.extractLsb'_toNat, BitVec.toNat_add, BitVec.toNat_add,
      hlow, Nat.shiftRight_eq_div_pow, Nat.shiftRight_eq_div_pow]
    omega
  · apply BitVec.eq_of_toNat_eq
    rw [BitVec.extractLsb'_toNat, BitVec.extractLsb'_toNat, hlow]
    omega

end Immediates

namespace HighLowPair

open RiscVRelocationType RelocationKindInfo

variable (lebUnsigned : BitVec 64 → List UInt8) {rType : RiscVRelocationType} {value : BitVec 64}

/-- A type of which the value is checked as one of 32 bits and put into an instruction. -/
structure InInsn (rType : RiscVRelocationType) (stop : Nat) (insn : RiscVInstruction) : Prop where
  row : ∃ kind, rType.row = some (kind, .bitMaskRiscv 0 stop insn, signedOrUnsigned32, 1) ∧
    ∀ expected, kind ≠ .pairSubtractionUleb128 expected

theorem verify_of_range {info : RelocationKindInfo RiscVRelocationType} (halign : info.alignment = 1)
    (hrange : info.range = signedOrUnsigned32) :
    info.verify value = .ok () ↔ -2 ^ 31 ≤ value.toInt ∧ value.toInt < 2 ^ 32 := by
  rw [verify, halign, Nat.mod_one, ensure_pos _ rfl, bind_ok, ensure_eq_ok, hrange,
    AllowedRange.contains, Bool.and_eq_true, decide_eq_true_eq, decide_eq_true_eq]
  rfl

theorem InInsn.accepts {stop : Nat} {insn : RiscVInstruction} (h : InInsn rType stop insn) :
    (∃ info, rType.relocationTypeFromRaw = some info ∧ info.verify value = .ok ()) ↔
      -2 ^ 31 ≤ value.toInt ∧ value.toInt < 2 ^ 32 := by
  obtain ⟨kind, hrow, -⟩ := h.row
  rw [relocationTypeFromRaw, hrow, Option.map_some]
  constructor
  · intro haccepts
    obtain ⟨info, hinfo, hverify⟩ := haccepts
    cases hinfo
    exact (verify_of_range rfl rfl).mp hverify
  · intro hrange
    exact ⟨_, rfl, (verify_of_range rfl rfl).mpr hrange⟩

theorem InInsn.relocate_eq {stop : Nat} {insn : RiscVInstruction} (h : InInsn rType stop insn)
    (hrange : -2 ^ 31 ≤ value.toInt ∧ value.toInt < 2 ^ 32) (output : List UInt8) :
    relocate lebUnsigned rType value output =
      insn.writeToValue (extractBitRange value 0 stop) output := by
  obtain ⟨kind, hrow, hkind⟩ := h.row
  rw [relocate, relocationTypeFromRaw, hrow, Option.map_some, unwrap, bind_ok, writeToBuffer,
    (verify_of_range rfl rfl).mpr hrange, bind_ok]
  cases kind <;> first | rfl | exact absurd rfl (hkind _)

theorem InInsn.relocate_error {stop : Nat} {insn : RiscVInstruction} (h : InInsn rType stop insn)
    (hrange : ¬ (-2 ^ 31 ≤ value.toInt ∧ value.toInt < 2 ^ 32)) (output : List UInt8) :
    ∃ e, relocate lebUnsigned rType value output = .error e := by
  obtain ⟨kind, hrow, -⟩ := h.row
  cases hout : relocate lebUnsigned rType value output with
  | error e => exact ⟨e, rfl⟩
  | ok out =>
      rw [relocate, relocationTypeFromRaw, hrow, Option.map_some, unwrap, bind_ok, writeToBuffer]
        at hout
      obtain ⟨u, hverify, -⟩ := bind_eq_ok.mp hout
      exact absurd ((verify_of_range rfl rfl).mp hverify) hrange

/-- A relocation for the pair, or one for each of its instructions. -/
theorem inInsn (pair : HighLowPair) :
    (pair.relocations.2 = Option.none ∧ pair.lowFormat = .iType ∧
        InInsn pair.relocations.1 64 .uiType) ∨
      ∃ lowType, pair.relocations.2 = some lowType ∧ InInsn pair.relocations.1 32 .uType ∧
        InInsn lowType 32 pair.lowFormat.insn := by
  cases pair with
  | call | callPlt => exact .inl ⟨rfl, rfl, ⟨_, rfl, nofun⟩⟩
  | hi20 low | pcrelHi20 low =>
      cases low <;> exact .inr ⟨_, rfl, ⟨_, rfl, nofun⟩, ⟨_, rfl, nofun⟩⟩

theorem accepts_iff (pair : HighLowPair) (value : BitVec 64) :
    pair.Accepts value ↔ -2 ^ 31 ≤ value.toInt ∧ value.toInt < 2 ^ 32 := by
  rcases pair.inInsn with ⟨hnone, -, hhigh⟩ | ⟨lowType, hlowType, hhigh, hlow⟩
  · constructor
    · intro haccepts
      exact hhigh.accepts.mp (haccepts _ (.inl rfl))
    · intro hrange rType hrType
      rcases hrType with rfl | hrType
      · exact hhigh.accepts.mpr hrange
      · cases hnone.symm.trans hrType
  · constructor
    · intro haccepts
      exact hhigh.accepts.mp (haccepts _ (.inl rfl))
    · intro hrange rType hrType
      rcases hrType with rfl | hrType
      · exact hhigh.accepts.mpr hrange
      · obtain rfl := Option.some.inj (hlowType.symm.trans hrType)
        exact hlow.accepts.mpr hrange

/-- The immediates that are written for a value in the range. -/
theorem write_of_range (pair : HighLowPair) (upper lower : BitVec 32)
    (hrange : -2 ^ 31 ≤ value.toInt ∧ value.toInt < 2 ^ 32) :
    ∃ insns, pair.write lebUnsigned value upper lower = .ok insns ∧
      upperImmediate insns.1 = (value + 0x800).extractLsb' 12 20 ∧
      pair.lowFormat.immediate insns.2 = value.extractLsb' 0 12 := by
  have hupperLen : (toLeBytes 4 upper).length = 4 := toLeBytes_length 4 upper
  have hlowerLen : (toLeBytes 4 lower).length = 4 := toLeBytes_length 4 lower
  rcases pair.inInsn with ⟨hnone, hformat, hhigh⟩ | ⟨lowType, hlowType, hhigh, hlow⟩
  · have hlen : (toLeBytes 4 upper ++ toLeBytes 4 lower).length = 8 := by
      rw [List.length_append, hupperLen, hlowerLen]
    obtain ⟨out, hout, houtLen, hup, hlo⟩ :=
      RelocationInstruction.uiType_written (extractBitRange value 0 64) hlen.ge
    rw [hlen] at houtLen
    have hlo' : Holds [⟨0, 12, 20⟩] (extractBitRange value 0 64) (wordOf (out.drop 4)) := by
      intro p hp i hi
      obtain rfl := List.mem_singleton.mp hp
      change i < 12 at hi
      have hbit := hlo _ (List.mem_singleton_self _) i hi
      rw [getLsbD_wordOf out (by simp; omega)] at hbit
      rw [getLsbD_wordOf _ (by simp; omega), bitAt_drop]
      change bitAt out (8 * 4 + (20 + i)) = _
      rw [show 8 * 4 + (20 + i) = 52 + i by omega]
      exact hbit
    have hwrite : pair.write lebUnsigned value upper lower =
        .ok (insnOf out, insnOf (out.drop 4)) := by
      have hrelocations : pair.relocations = (pair.relocations.1, Option.none) := by
        rw [← hnone]
      rw [write, hrelocations]
      simp only [hhigh.relocate_eq lebUnsigned hrange, hout, bind_ok,
        u32FromSlice_eq (show 4 ≤ out.length by omega),
        u32FromSlice_eq (show 4 ≤ (out.drop 4).length by rw [List.length_drop]; omega)]
    refine ⟨_, hwrite, extractLsb'_of_holds (by decide) hup, ?_⟩
    rw [hformat]
    exact extractLsb'_of_holds (by decide) hlo'
  · obtain ⟨out, hout, houtLen, hup⟩ := RelocationInstruction.riscV_written .uType (by decide)
      (extractBitRange value 0 32) hupperLen.ge
    have hsize : (RelocationInstruction.riscV pair.lowFormat.insn).size = 4 := by
      cases pair.lowFormat <;> rfl
    obtain ⟨lowOut, hlowOut, hlowLen, hlo⟩ := RelocationInstruction.riscV_written
      pair.lowFormat.insn (by cases pair.lowFormat <;> decide) (extractBitRange value 0 32)
      (hsize.trans hlowerLen.symm).le
    have hwrite : pair.write lebUnsigned value upper lower = .ok (insnOf out, insnOf lowOut) := by
      have hrelocations : pair.relocations = (pair.relocations.1, some lowType) := by
        rw [← hlowType]
      rw [write, hrelocations]
      simp only [hhigh.relocate_eq lebUnsigned hrange, hlow.relocate_eq lebUnsigned hrange, hout,
        hlowOut, bind_ok, u32FromSlice_eq (show 4 ≤ out.length by omega),
        u32FromSlice_eq (show 4 ≤ lowOut.length by omega)]
    obtain ⟨hhighPart, hlowPart⟩ := parts_of_low_half value
    refine ⟨_, hwrite, (extractLsb'_of_holds (by decide) hup).trans hhighPart, ?_⟩
    have hrounded : (RelocationInstruction.riscV pair.lowFormat.insn).rounded
        (extractBitRange value 0 32) = extractBitRange value 0 32 := by
      cases pair.lowFormat <;> rfl
    rw [hrounded] at hlo
    exact (immediate_of_holds pair.lowFormat hlo).trans hlowPart

theorem write_error (pair : HighLowPair) (upper lower : BitVec 32)
    (hrange : ¬ (-2 ^ 31 ≤ value.toInt ∧ value.toInt < 2 ^ 32)) :
    ∃ e, pair.write lebUnsigned value upper lower = .error e := by
  rcases pair.inInsn with ⟨hnone, -, hhigh⟩ | ⟨lowType, hlowType, hhigh, -⟩
  · obtain ⟨e, herror⟩ := hhigh.relocate_error lebUnsigned hrange
      (toLeBytes 4 upper ++ toLeBytes 4 lower)
    have hrelocations : pair.relocations = (pair.relocations.1, Option.none) := by rw [← hnone]
    refine ⟨e, ?_⟩
    rw [write, hrelocations]
    simp only [herror]
    rfl
  · obtain ⟨e, herror⟩ := hhigh.relocate_error lebUnsigned hrange (toLeBytes 4 upper)
    have hrelocations : pair.relocations = (pair.relocations.1, some lowType) := by
      rw [← hlowType]
    refine ⟨e, ?_⟩
    rw [write, hrelocations]
    simp only [herror]
    rfl

/-- A pair computes every value that it accepts, up to the last 2 KiB below 2 GiB. From there on a
value of which the upper part is negative is accepted too. -/
theorem computes_iff (pair : HighLowPair) (value : BitVec 64) (upper lower : BitVec 32) :
    pair.Computes lebUnsigned value upper lower ↔
      ¬ (2 ^ 31 - 0x800 ≤ value.toInt ∧ value.toInt < 2 ^ 32) := by
  constructor
  · intro h hinterval
    obtain ⟨insns, -, hcomputed⟩ := h.computed ((pair.accepts_iff value).mpr (by omega))
    have hexpressible : Expressible value := ⟨_, _, hcomputed⟩
    rw [expressible_iff] at hexpressible
    omega
  · intro hout
    refine ⟨fun haccepts => ?_, fun hinexpressible => ?_⟩
    · rw [accepts_iff] at haccepts
      obtain ⟨insns, hwrite, hupper, hlower⟩ :=
        write_of_range lebUnsigned pair upper lower haccepts
      refine ⟨insns, hwrite, ?_⟩
      rw [computed, hupper, hlower]
      exact pairValue_parts (by omega) (by omega)
    · rw [expressible_iff] at hinexpressible
      exact write_error lebUnsigned pair upper lower (by omega)

/-- An offset of a call just below 2 GiB is accepted, and the pair goes to an offset just above
-2 GiB. -/
theorem call_below_two_gib_not_computed :
    HighLowPair.call.Accepts 0x7fffffff#64 ∧
      HighLowPair.call.write (fun _ => []) 0x7fffffff#64 0x97#32 0x80e7#32 =
        .ok (0x80000097#32, 0xfff080e7#32) ∧
      HighLowPair.call.computed 0x80000097#32 0xfff080e7#32 = 0xffffffff7fffffff#64 ∧
      ¬ HighLowPair.call.Computes (fun _ => []) 0x7fffffff#64 0x97#32 0x80e7#32 := by
  have haccepts : HighLowPair.call.Accepts 0x7fffffff#64 := (accepts_iff _ _).mpr (by decide)
  refine ⟨haccepts, by decide +kernel, by decide +kernel, ?_⟩
  intro h
  obtain ⟨insns, -, hcomputed⟩ := h.computed haccepts
  have hexpressible : Expressible 0x7fffffff#64 := ⟨_, _, hcomputed⟩
  exact absurd ((expressible_iff _).mp hexpressible) (by decide)

end HighLowPair

end JdxLinker.Relocation
