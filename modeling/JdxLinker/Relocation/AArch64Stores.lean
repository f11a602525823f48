import JdxLinker.Relocation.AArch64Operands

/-!
# What the relocations of AArch64 store

For each type of the table, the values and the bytes before a write for which the processor, or a
reader of the data, finds the value after it. Two rows have each other's sizes, one leaves a scale
out, and one is for the field of another instruction.
-/

namespace JdxLinker.Relocation

open Bytes ByteMasks Fallible

/-- When the operand of a type is its value after a write. -/
def StoredWhen (rType : AArch64RelocationType) (value : BitVec 64) (dest : List UInt8) : Prop :=
  match rType with
  -- The sizes of these two are exchanged.
  | .gotrel64 | .gotrel32 => slice dest 4 4 = leBytes 4 (value.toNat / 2 ^ 32)
  -- The value is stored without its scale.
  | .tlsldLdPrel19 => value.toNat % 4 = 0 ∧
      (instructionWord dest).extractLsb' 5 19 ||| value.extractLsb' 0 19 = value.extractLsb' 2 19
  -- The value is stored at the field of another instruction.
  | .gotLdPrel19 => (instructionWord dest).extractLsb' 5 19 ||| (value.extractLsb' 2 14 ++ 0#5) =
      value.extractLsb' 2 19
  | rType => (abi rType).Ready value (instructionWord dest)

/-! ### The types that store something else -/

/-- No type of the table is for a difference of two symbols in ULEB128. -/
theorem AArch64RelocationType.kind_ne {rType : AArch64RelocationType}
    {info : RelocationKindInfo AArch64RelocationType}
    (hrow : rType.relocationTypeFromRaw = some info) (expected : AArch64RelocationType) :
    info.kind ≠ .pairSubtractionUleb128 expected := by
  obtain ⟨r, hr, rfl⟩ := Option.map_eq_some_iff.mp hrow
  cases rType <;> cases hr <;> exact fun h => nomatch h

section Misfits

variable {value : BitVec 64} {dest out : List UInt8}

/-- Four of the eight bytes of `GOTREL64` are written. -/
theorem gotrel64_stores_iff (hwrite : Written (.byteSize 4) value dest out) :
    StoresMeaning .gotrel64 value dest out ↔
      slice dest 4 4 = leBytes 4 (value.toNat / 2 ^ 32) := by
  obtain ⟨hlen, -, hout⟩ := hwrite
  have hhalf : (leBytes 4 value.toNat).length = 4 := leBytes_length _ _
  rw [splice_zero, ← slice_append_drop dest 4 4, ← List.append_assoc] at hout
  have hwhole : leBytes 8 value.toNat = leBytes 4 value.toNat ++ leBytes 4 (value.toNat / 2 ^ 32) :=
    leBytes_add 4 4 value.toNat
  have hvalue : readLe (leBytes 8 value.toNat) = value.toNat := readLe_leBytes_of_lt value.isLt
  constructor
  · intro h
    have hfits : 8 ≤ out.length := h.fits
    have hlength := h.length
    have hslice : (slice dest 4 4).length = 4 := by
      rw [slice, List.length_take, List.length_drop]
      omega
    have htake : out.take 8 = leBytes 4 value.toNat ++ slice dest 4 4 := by
      rw [hout]
      apply List.take_left'
      rw [List.length_append, hhalf, hslice]
    have hread : readLe (out.take 8) = value.toNat := by
      have hmeans : ((readLe (out.take 8) : Nat) : Int) = value.toNat := h.means
      exact_mod_cast hmeans
    have hbytes := leBytes_readLe (out.take 8)
    rw [hread, htake, List.length_append, hhalf, hslice, hwhole] at hbytes
    exact (List.append_cancel_left hbytes).symm
  · intro h
    rw [h, ← hwhole] at hout
    have hlength : (slice dest 4 4).length = 4 := by rw [h, leBytes_length]
    rw [slice, List.length_take, List.length_drop] at hlength
    have heq : out.length = dest.length := by
      rw [hout, List.length_append, leBytes_length, List.length_drop]
      omega
    have hmeans : readLe (out.take 8) = value.toNat := by
      rw [hout, List.take_left' (leBytes_length _ _), hvalue]
    refine ⟨heq, ?_, congrArg Nat.cast hmeans, ?_⟩
    · show 8 ≤ out.length
      omega
    · show out.drop 8 = dest.drop 8
      rw [hout, List.drop_left' (leBytes_length _ _)]

/-- Eight bytes are written for the four of `GOTREL32`. -/
theorem gotrel32_stores_iff (hwrite : Written (.byteSize 8) value dest out)
    (hrange : (AllowedRange.fromBitSize 32 .signed).contains value.toInt = true) :
    StoresMeaning .gotrel32 value dest out ↔
      slice dest 4 4 = leBytes 4 (value.toNat / 2 ^ 32) := by
  obtain ⟨hlen, -, hout⟩ := hwrite
  have hwhole : leBytes 8 value.toNat = leBytes 4 value.toNat ++ leBytes 4 (value.toNat / 2 ^ 32) :=
    leBytes_add 4 4 value.toNat
  rw [splice_zero, hwhole, List.append_assoc] at hout
  have hlength : out.length = dest.length := by
    rw [hout]
    simp only [List.length_append, leBytes_length, List.length_drop]
    omega
  have hdrop : out.drop 4 = leBytes 4 (value.toNat / 2 ^ 32) ++ dest.drop 8 := by
    rw [hout]
    exact List.drop_left' (leBytes_length _ _)
  have hagrees : (abi .gotrel32).Agrees (.byteSize 4) (.fromBitSize 32 .signed) 1 := by decide
  have hmeans : (abi .gotrel32).Means ((abi .gotrel32).field.operand out) value := by
    rw [hout]
    exact data_means hagrees hrange
  have hkept : out.drop 4 = dest.drop 4 ↔ slice dest 4 4 = leBytes 4 (value.toNat / 2 ^ 32) := by
    rw [hdrop, ← slice_append_drop dest 4 4, List.append_left_inj]
    exact eq_comm
  rw [← hkept]
  constructor
  · intro h
    exact h.kept
  · intro h
    refine ⟨hlength, ?_, hmeans, h⟩
    rw [hlength]
    show 4 ≤ dest.length
    omega

/-- The distance of a literal is its value in words. -/
theorem literal_means_iff (hrange : (AllowedRange.fromBitSize 21 .signed).contains value.toInt = true)
    (imm : BitVec 19) :
    4 * imm.toInt = value.toInt ↔ value.toNat % 4 = 0 ∧ imm = value.extractLsb' 2 19 := by
  have hagrees : (⟨.displacement 5 19, 2, 21, .whole⟩ : AbiRow).AgreesInstruction .ldr 2 21
      (.fromBitSize 21 .signed) 4 := by decide
  by_cases haligned : value.toNat % 4 = 0
  · have hmeans := AbiRow.means_iff hagrees haligned hrange imm
    rw [and_iff_right haligned]
    exact hmeans
  · have hne : 4 * imm.toInt ≠ value.toInt := by
      rw [BitVec.toInt_eq_toNat_cond (x := value)]
      split <;> omega
    simp only [hne, haligned, false_and]

/-- A literal instruction to which a writer added bits. -/
theorem literal_stores_iff {rType : AArch64RelocationType} {insn : AArch64Instruction}
    {e : BitVec 64} {negative : Bool} {imm : BitVec 19}
    (habi : abi rType = ⟨.displacement 5 19, 2, 21, .whole⟩) (hinsn : insn ≠ .machOLow12)
    (hcleared : (RelocationInstruction.aarch64 insn).cleared = 0)
    (himm : (((RelocationInstruction.aarch64 insn).stored e negative).setWidth 32).extractLsb' 5 19 =
      imm)
    (hrange : (AllowedRange.fromBitSize 21 .signed).contains value.toInt = true)
    (hwrite : insn.writeToValue e negative dest = .ok out) :
    StoresMeaning rType value dest out ↔ value.toNat % 4 = 0 ∧
      (instructionWord dest).extractLsb' 5 19 ||| imm = value.extractLsb' 2 19 := by
  have hstored := stored_of_writeToValue hinsn hwrite
  have hword : (instructionWord out).extractLsb' 5 19 =
      (instructionWord dest).extractLsb' 5 19 ||| imm := by
    rw [hstored.instructionWord_eq, BitVec.extractLsb'_or, himm, hcleared]
    congr 2
    exact BitVec.and_allOnes
  rw [← literal_means_iff hrange, ← hword]
  unfold StoresMeaning
  rw [habi]
  constructor
  · intro h
    exact h.means
  · intro h
    refine ⟨hstored.length, ?_, h, drop_of_stored hstored⟩
    rw [hstored.length]
    exact length_of_writeToValue hinsn hwrite

/-- The bits of a value without the lowest two, five places above those of a literal. -/
theorem extractLsb'_ldSt (value : BitVec 64) :
    ((((extractBitRange value 2 21).setWidth 32 <<< 10).setWidth 64).setWidth 32).extractLsb' 5 19 =
      value.extractLsb' 2 14 ++ 0#5 := by
  apply BitVec.eq_of_getLsbD_eq
  intro i hi
  rw [setWidth_wide, BitVec.getLsbD_extractLsb', BitVec.getLsbD_shiftLeft, BitVec.getLsbD_setWidth,
    getLsbD_extractBitRange value (by decide), BitVec.getLsbD_append, BitVec.getLsbD_extractLsb']
  by_cases hlow : i < 5
  · simp [hlow, show 5 + i < 10 by omega]
  · have hplace : 5 + i - 10 = i - 5 := by omega
    rw [if_neg hlow, hplace]
    simp [hi, show 5 + i < 32 by omega, show ¬ 5 + i < 10 by omega, show i - 5 < 32 by omega,
      show i - 5 < 19 by omega, show i - 5 < 14 by omega]

theorem gotLdPrel19_stores_iff (haligned : value.toNat % 4 = 0)
    (hrange : (AllowedRange.fromBitSize 21 .signed).contains value.toInt = true)
    (hwrite : AArch64Instruction.ldSt.writeToValue (extractBitRange value 2 21)
      (decide (value.toInt < 0)) dest = .ok out) :
    StoresMeaning .gotLdPrel19 value dest out ↔ StoredWhen .gotLdPrel19 value dest := by
  have hinsn : AArch64Instruction.ldSt ≠ .machOLow12 := by decide
  rw [literal_stores_iff rfl hinsn rfl (extractLsb'_ldSt value) hrange hwrite,
    and_iff_right haligned]
  rfl

theorem tlsldLdPrel19_stores_iff
    (hrange : (AllowedRange.fromBitSize 21 .signed).contains value.toInt = true)
    (hwrite : AArch64Instruction.ldr.writeToValue (extractBitRange value 0 21)
      (decide (value.toInt < 0)) dest = .ok out) :
    StoresMeaning .tlsldLdPrel19 value dest out ↔ StoredWhen .tlsldLdPrel19 value dest := by
  have hinsn : AArch64Instruction.ldr ≠ .machOLow12 := by decide
  have hbits : (extractBitRange value 0 21).setWidth 19 = value.extractLsb' 0 19 := by
    apply BitVec.eq_of_getLsbD_eq
    intro i hi
    rw [BitVec.getLsbD_setWidth, getLsbD_extractBitRange value (by decide),
      BitVec.getLsbD_extractLsb']
    simp [hi, show i < 21 by omega]
  have himm := extractLsb'_shifted (extractBitRange value 0 21) (show 5 + 19 ≤ 32 by decide)
  rw [hbits] at himm
  rw [literal_stores_iff rfl hinsn rfl himm hrange hwrite]
  rfl

end Misfits

/-- The bytes that a type stores stand for the value exactly where nothing was left in the field of
an instruction, a value without a range is in that of its operand, and for four types as said. -/
theorem aarch64_stores_iff (lebUnsigned : BitVec 64 → List UInt8) {rType : AArch64RelocationType}
    {info : RelocationKindInfo AArch64RelocationType} {value : BitVec 64} {dest out : List UInt8}
    (hrow : rType.relocationTypeFromRaw = some info)
    (hwrite : info.writeToBuffer lebUnsigned value dest = .ok out) :
    StoresMeaning rType value dest out ↔ StoredWhen rType value dest := by
  obtain ⟨haligned, hrange, hwritten⟩ :=
    RelocationKindInfo.writeToBuffer_ok (AArch64RelocationType.kind_ne hrow) hwrite
  obtain ⟨r, hr, rfl⟩ := Option.map_eq_some_iff.mp hrow
  by_cases hmisfit : rType ∈ misfits
  · simp only [misfits, List.mem_cons, List.not_mem_nil, or_false] at hmisfit
    rcases hmisfit with rfl | rfl | rfl | rfl <;> cases hr
    · exact gotrel64_stores_iff hwritten
    · exact gotrel32_stores_iff hwritten hrange
    · exact gotLdPrel19_stores_iff haligned hrange hwritten
    · exact tlsldLdPrel19_stores_iff hrange hwritten
  · have hagrees := abi_agrees rType hmisfit r hr
    have hready : StoredWhen rType value dest = (abi rType).Ready value (instructionWord dest) := by
      unfold StoredWhen
      split
      · exact absurd (by decide) hmisfit
      · exact absurd (by decide) hmisfit
      · exact absurd (by decide) hmisfit
      · exact absurd (by decide) hmisfit
      · rfl
    rw [hready]
    exact AbiRow.stores_iff hagrees haligned hrange hwritten

theorem aarch64_stores_condbr19 :
    StoresMeaning .condbr19 8 [0, 0, 0, 0x54] [0x40, 0, 0, 0x54] := by
  have hrow : AArch64RelocationType.condbr19.relocationTypeFromRaw = some
      { kind := .relative, size := .bitMaskAArch64 2 21 .bcond, mask := none,
        range := .fromBitSize 21 .signed, alignment := 4, bias := 0, thunkable := false } := rfl
  exact (aarch64_stores_iff (fun _ => []) hrow rfl).mpr rfl

/-- The high half of an eight byte value is not stored. -/
theorem gotrel64_loses : ∃ info ∈ AArch64RelocationType.gotrel64.relocationTypeFromRaw, ∃ out,
    info.writeToBuffer (fun _ => []) 0x100000000 (List.replicate 8 0) = .ok out ∧
      ¬ StoresMeaning .gotrel64 0x100000000 (List.replicate 8 0) out := by
  refine ⟨_, rfl, List.replicate 8 0, rfl, ?_⟩
  intro h
  have hmeans : (0 : Int) = 0x100000000 := h.means
  exact absurd hmeans (by decide)

end JdxLinker.Relocation
