import JdxLinker.Relocation.AArch64Abi
import JdxLinker.Relocation.Stores

/-!
# What the processor reads

The operand that an AArch64 instruction has after a relocation was applied, for the rows of the table
that agree with it. It stands for the value, unless the value is too large for a type whose range the
table leaves open, or the instruction had other bits in its field.
-/

namespace JdxLinker.Relocation

open Bytes ByteMasks Fallible

/-! ### Bits of a value as a number -/

/-- The bits of a value from `lo` on, as a signed number. -/
theorem toInt_extractLsb'_eq_bmod (value : BitVec 64) {lo len : Nat} (h : lo + len ≤ 64) :
    (value.extractLsb' lo len).toInt = (value.toInt / 2 ^ lo).bmod (2 ^ len) := by
  rw [BitVec.toInt_extractLsb', Nat.shiftRight_eq_div_pow]
  have hpow : (2 : Int) ^ 64 = 2 ^ (64 - lo - len) * 2 ^ len * 2 ^ lo := by
    rw [← pow_add, ← pow_add]
    congr 1
    omega
  have hlo : (2 : Int) ^ lo ≠ 0 := by positivity
  have hcast : ((value.toNat / 2 ^ lo : Nat) : Int) = (value.toNat : Int) / 2 ^ lo := by
    push_cast
    rfl
  rw [hcast]
  by_cases hneg : 2 * value.toNat < 2 ^ 64
  · rw [BitVec.toInt_eq_toNat_cond, if_pos hneg]
  · have hvalue : value.toInt = (value.toNat : Int) - 2 ^ (64 - lo - len) * 2 ^ len * 2 ^ lo := by
      rw [BitVec.toInt_eq_toNat_cond, if_neg hneg, ← hpow]
      norm_num
    rw [hvalue, Int.sub_mul_ediv_right _ _ hlo]
    have hcast' : (2 : Int) ^ (64 - lo - len) * 2 ^ len =
        ((2 ^ len : Nat) : Int) * 2 ^ (64 - lo - len) := by
      push_cast
      ring
    rw [hcast', Int.sub_mul_bmod_self_left]

/-- The bits of a value from `lo` on, as an unsigned number. -/
theorem toNat_extractLsb'_eq_emod (value : BitVec 64) {lo len : Nat} (h : lo + len ≤ 64) :
    ((value.extractLsb' lo len).toNat : Int) = value.toInt / 2 ^ lo % 2 ^ len := by
  have hsigned := toInt_extractLsb'_eq_bmod value h
  rw [BitVec.toInt_eq_toNat_bmod] at hsigned
  have hmod := congrArg (· % ((2 ^ len : Nat) : Int)) hsigned
  simp only [Int.bmod_emod] at hmod
  rw [Int.emod_eq_of_lt (Int.natCast_nonneg _) (by exact_mod_cast BitVec.isLt _)] at hmod
  rw [hmod]
  push_cast
  rfl

/-- The bits of a value within bounds are all of it from `lo` on. -/
theorem bmod_eq_of_bounds {q : Int} {len : Nat} (hlen : 0 < len) (hmin : -2 ^ (len - 1) ≤ q)
    (hmax : q < 2 ^ (len - 1)) : q.bmod (2 ^ len) = q := by
  have hpow : (2 : Int) ^ len = 2 * 2 ^ (len - 1) := by
    rw [← pow_succ', Nat.sub_add_cancel hlen]
  apply Int.bmod_eq_of_le
  · push_cast
    omega
  · push_cast
    omega

theorem toNat_of_toInt_nonneg {value : BitVec 64} (h : 0 ≤ value.toInt) :
    (value.toNat : Int) = value.toInt := by
  rw [BitVec.toInt_eq_toNat_cond] at h ⊢
  split
  · rfl
  · rename_i hneg
    rw [if_neg hneg] at h
    have hlt := value.isLt
    omega

/-! ### Bytes and words -/

theorem setWidth_wide (mask : BitVec 32) : (mask.setWidth 64).setWidth 32 = mask := by
  rw [BitVec.setWidth_setWidth_of_le _ (by decide), BitVec.setWidth_eq]

theorem getLsbD_instructionWord (bytes : List UInt8) {i : Nat} (hi : i < 32) :
    (instructionWord bytes).getLsbD i = bitAt bytes i :=
  getLsbD_ofNat_take bytes 32 4 hi (by omega)

/-- The word after a write has the bits that were set, and those of the old word that were not
cleared. -/
theorem Stored.instructionWord_eq {dest out : List UInt8} {clear set : BitVec 64}
    (h : Stored dest out clear set) : instructionWord out =
      (instructionWord dest &&& ~~~clear.setWidth 32) ||| set.setWidth 32 := by
  apply BitVec.eq_of_getLsbD_eq
  intro i hi
  rw [getLsbD_instructionWord out hi, h.bit, BitVec.getLsbD_or, BitVec.getLsbD_and,
    BitVec.getLsbD_not, getLsbD_instructionWord dest hi, BitVec.getLsbD_setWidth,
    BitVec.getLsbD_setWidth]
  simp [hi]

/-- A write of four bytes leaves the others as they are. -/
theorem Stored.drop_eq {dest out : List UInt8} {clear set : BitVec 32}
    (h : Stored dest out (clear.setWidth 64) (set.setWidth 64)) : out.drop 4 = dest.drop 4 := by
  apply eq_of_bitAt_eq
  · rw [List.length_drop, List.length_drop, h.length]
  · intro i
    rw [bitAt_drop, bitAt_drop, h.bit, BitVec.getLsbD_setWidth, BitVec.getLsbD_setWidth,
      BitVec.getLsbD_of_ge clear _ (by omega), BitVec.getLsbD_of_ge set _ (by omega)]
    simp

/-- What a write does after its checks. -/
def Written (size : RelocationSize) (value : BitVec 64) (dest out : List UInt8) : Prop :=
  match size with
  | .byteSize len => len ≤ dest.length ∧ len ≤ 8 ∧ out = splice dest 0 (toLeBytes len value)
  | .bitMasking mask => mask.instruction.writeToValue
      (extractBitRange value mask.start mask.stop) (decide (value.toInt < 0)) dest = .ok out

/-- What a successful write has checked and done. -/
theorem RelocationKindInfo.writeToBuffer_ok {T : Type} {lebUnsigned : BitVec 64 → List UInt8}
    {info : RelocationKindInfo T} {value : BitVec 64} {dest out : List UInt8}
    (hkind : ∀ expected, info.kind ≠ .pairSubtractionUleb128 expected)
    (h : info.writeToBuffer lebUnsigned value dest = .ok out) :
    value.toNat % info.alignment = 0 ∧ info.range.contains value.toInt = true ∧
      Written info.size value dest out := by
  unfold writeToBuffer at h
  obtain ⟨u, hverify, h⟩ := bind_eq_ok.mp h
  unfold verify at hverify
  obtain ⟨v, haligned, hrange⟩ := bind_eq_ok.mp hverify
  refine ⟨ensure_eq_ok.mp haligned, ensure_eq_ok.mp hrange, ?_⟩
  split at h
  · rename_i expected hexpected
    exact absurd hexpected (hkind expected)
  · unfold Written
    cases hsize : info.size with
    | byteSize len =>
        rw [hsize] at h
        obtain ⟨_, hlen, h⟩ := bind_eq_ok.mp h
        obtain ⟨_, hbytes, h⟩ := bind_eq_ok.mp h
        obtain ⟨_, -, h⟩ := bind_eq_ok.mp h
        exact ⟨ensure_eq_ok.mp hlen, assert_eq_ok.mp hbytes, (Except.ok.inj h).symm⟩
    | bitMasking mask =>
        rw [hsize] at h
        exact h

/-! ### Immediates that are added to a word -/

section Immediates

variable {insn : AArch64Instruction} {e : BitVec 64} {negative : Bool} {dest out : List UInt8}

theorem length_of_orFromSlice {bytes : List UInt8} (h : orFromSlice dest bytes = .ok out) :
    bytes.length ≤ dest.length := by
  obtain ⟨_, hlen, -⟩ := bind_eq_ok.mp h
  exact assert_eq_ok.mp hlen

/-- A write that succeeds has its four bytes. -/
theorem length_of_writeToValue (hinsn : insn ≠ .machOLow12)
    (h : insn.writeToValue e negative dest = .ok out) : 4 ≤ dest.length := by
  have hor : ∀ {mask : BitVec 32}, orFromSlice dest (toLeBytes 4 mask) = .ok out →
      4 ≤ dest.length := by
    intro mask hout
    have hlen := length_of_orFromSlice hout
    rwa [toLeBytes_length] at hlen
  cases insn with
  | machOLow12 => exact absurd rfl hinsn
  | movnz =>
      obtain ⟨cleared, hand, -⟩ := bind_eq_ok.mp h
      obtain ⟨_, hlen, -⟩ := bind_eq_ok.mp hand
      have hle := assert_eq_ok.mp hlen
      rwa [toLeBytes_length] at hle
  | _ => exact hor h

theorem stored_of_writeToValue (hinsn : insn ≠ .machOLow12)
    (h : insn.writeToValue e negative dest = .ok out) : Stored dest out
      (RelocationInstruction.aarch64 insn).cleared
      ((RelocationInstruction.aarch64 insn).stored e negative) := by
  obtain ⟨out', hout', hstored⟩ := RelocationInstruction.aarch64_stored insn hinsn e negative
    (length_of_writeToValue hinsn h)
  rw [h] at hout'
  rwa [Except.ok.inj hout']

/-- Only the first four bytes are written. -/
theorem drop_of_stored (hstored : Stored dest out (RelocationInstruction.aarch64 insn).cleared
    ((RelocationInstruction.aarch64 insn).stored e negative)) : out.drop 4 = dest.drop 4 := by
  have hnarrow : ∃ clear set : BitVec 32,
      (RelocationInstruction.aarch64 insn).cleared = clear.setWidth 64 ∧
        (RelocationInstruction.aarch64 insn).stored e negative = set.setWidth 64 := by
    cases insn with
    | machOLow12 => exact ⟨0xfff#32 <<< 10, 0#32, rfl, rfl⟩
    | movnz => exact ⟨_, _, rfl, rfl⟩
    | _ => exact ⟨0#32, _, rfl, rfl⟩
  obtain ⟨clear, set, hclear, hset⟩ := hnarrow
  rw [hclear, hset] at hstored
  exact hstored.drop_eq

theorem extractLsb'_shifted (e : BitVec 64) {pos len : Nat} (h : pos + len ≤ 32) :
    (((e.setWidth 32 <<< pos).setWidth 64).setWidth 32).extractLsb' pos len = e.setWidth len := by
  apply BitVec.eq_of_getLsbD_eq
  intro i hi
  rw [BitVec.getLsbD_extractLsb', BitVec.getLsbD_setWidth, BitVec.getLsbD_setWidth,
    BitVec.getLsbD_shiftLeft, Nat.add_sub_cancel_left, BitVec.getLsbD_setWidth,
    BitVec.getLsbD_setWidth]
  simp [hi, show pos + i < 32 by omega, show pos + i < 64 by omega, show i < 32 by omega]

namespace AbiField

variable {field : AbiField}

theorem imm_or (field : AbiField) (a b : BitVec 32) :
    field.imm (a ||| b) = field.imm a ||| field.imm b := by
  cases field with
  | nothing | data _ => exact (BitVec.or_self (x := 0#0)).symm
  | displacement pos len => exact BitVec.extractLsb'_or
  | adr | adrp =>
      show (a ||| b).extractLsb' 5 19 ++ (a ||| b).extractLsb' 29 2 = _
      rw [BitVec.extractLsb'_or, BitVec.extractLsb'_or]
      exact BitVec.or_append.symm
  | offset _ | movk | mov => exact BitVec.extractLsb'_or

/-- The bits of `ADR`: two low bits and the others. -/
theorem adrMask_imm (he : ∀ i, 21 ≤ i → e.getLsbD i = false) :
    ((AArch64Instruction.adrMask e).extractLsb' 5 19 ++
      (AArch64Instruction.adrMask e).extractLsb' 29 2) = e.setWidth 21 := by
  have hbit : ∀ i < 32, (AArch64Instruction.adrMask e).getLsbD i =
      ((decide (29 ≤ i) && decide (i < 31) && e.getLsbD (i - 29)) ||
        (decide (5 ≤ i) && e.getLsbD (i - 3))) := by
    intro i hi
    rw [AArch64Instruction.adrMask, BitVec.getLsbD_or, BitVec.getLsbD_shiftLeft,
      BitVec.getLsbD_shiftLeft, BitVec.getLsbD_setWidth, BitVec.getLsbD_setWidth,
      getLsbD_extractBitRange e (by decide), getLsbD_extractBitRange e (by decide)]
    by_cases hlow : i < 5
    · simp [hlow, show ¬ 5 ≤ i by omega, show ¬ 29 ≤ i by omega, show i < 29 by omega]
    · by_cases hhigh : 29 ≤ i
      · simp [hi, hlow, hhigh, show 5 ≤ i by omega, show ¬ i < 29 by omega,
          show i - 29 < 32 by omega, show i - 29 < 2 ↔ i < 31 by omega, he (i - 3) (by omega),
          show i - 5 < 32 by omega, he (2 + (i - 5)) (by omega)]
      · simp [hi, hlow, hhigh, show 5 ≤ i by omega, show i < 29 by omega, show i - 5 < 32 by omega,
          show i - 5 < 30 by omega, show 2 + (i - 5) = i - 3 by omega]
  apply BitVec.eq_of_getLsbD_eq
  intro i hi
  rw [BitVec.getLsbD_append, BitVec.getLsbD_setWidth, BitVec.getLsbD_extractLsb',
    BitVec.getLsbD_extractLsb']
  by_cases hlow : i < 2
  · rw [if_pos hlow, hbit (29 + i) (by omega)]
    simp [hlow, hi, show 29 + i < 31 by omega, he (29 + i - 3) (by omega)]
  · rw [if_neg hlow, hbit (5 + (i - 2)) (by omega)]
    simp [hi, show i - 2 < 19 by omega, show ¬ 29 ≤ 5 + (i - 2) by omega,
      show 5 + (i - 2) - 3 = i by omega]

/-- The writer of a field puts the bits of a value there, and clears nothing. -/
theorem imm_stored (h : insn ∈ field.writers) (hmov : field ≠ .mov)
    (he : ∀ i, field.length ≤ i → e.getLsbD i = false) (negative : Bool) :
    field.imm (((RelocationInstruction.aarch64 insn).stored e negative).setWidth 32) =
        e.setWidth field.length ∧ (RelocationInstruction.aarch64 insn).cleared = 0 := by
  unfold writers at h
  split at h
  all_goals simp only [List.mem_cons, List.not_mem_nil, or_false] at h
  case h_1 =>
    rcases h with rfl | rfl <;> exact ⟨extractLsb'_shifted e (by decide), rfl⟩
  case h_2 =>
    subst h
    exact ⟨extractLsb'_shifted e (by decide), rfl⟩
  case h_3 =>
    subst h
    refine ⟨?_, rfl⟩
    have hshifted : (((e.setWidth 32 <<< 0).setWidth 64).setWidth 32).extractLsb' 0 26 =
        e.setWidth 26 := extractLsb'_shifted e (by decide)
    rwa [BitVec.shiftLeft_zero] at hshifted
  case h_4 | h_5 =>
    subst h
    refine ⟨?_, rfl⟩
    show (((AArch64Instruction.adrMask e).setWidth 64).setWidth 32).extractLsb' 5 19 ++
      (((AArch64Instruction.adrMask e).setWidth 64).setWidth 32).extractLsb' 29 2 = e.setWidth 21
    rw [setWidth_wide, adrMask_imm he]
  case h_6 =>
    rcases h with rfl | rfl | rfl <;> exact ⟨extractLsb'_shifted e (by decide), rfl⟩
  case h_7 =>
    subst h
    exact ⟨extractLsb'_shifted e (by decide), rfl⟩
  case h_8 => exact absurd rfl hmov

end AbiField

/-- The bits that the writer is given are those of the row. -/
theorem AbiRow.imm_eq (row : AbiRow) (value : BitVec 64) (hhi : row.hi ≤ 64) :
    (extractBitRange value row.lo row.hi).setWidth row.field.length = row.imm value := by
  apply BitVec.eq_of_getLsbD_eq
  intro i hi
  rw [AbiRow.imm, BitVec.getLsbD_setWidth, BitVec.getLsbD_setWidth,
    getLsbD_extractBitRange value hhi, BitVec.getLsbD_extractLsb']

theorem AbiField.value_inj {field : AbiField} (hunit : 0 < field.unit)
    {imm imm' : BitVec field.length} : field.value imm = field.value imm' ↔ imm = imm' := by
  have hne : (field.unit : Int) ≠ 0 := by omega
  unfold value
  rw [Int.mul_eq_mul_left_iff hne]
  split
  · exact BitVec.toInt_inj
  · rw [Int.natCast_inj]
    exact BitVec.toNat_inj

namespace AbiRow

variable {row : AbiRow} {value : BitVec 64}

/-- The number that the bits of a value stand for. -/
theorem value_imm (hhi : row.hi ≤ 64) (hlo : row.lo < row.hi)
    (hlen : row.hi - row.lo ≤ row.field.length)
    (hsigned : row.field.signed → row.hi - row.lo = row.field.length) :
    row.field.value (row.imm value) = row.field.unit *
      if row.field.signed then (value.toInt / 2 ^ row.lo).bmod (2 ^ (row.hi - row.lo))
      else (value.toNat / 2 ^ row.lo % 2 ^ (row.hi - row.lo) : Nat) := by
  unfold AbiField.value
  congr 1
  by_cases hsign : row.field.signed = true
  · rw [if_pos hsign, if_pos hsign, ← toInt_extractLsb'_eq_bmod value (by omega), AbiRow.imm,
      BitVec.toInt_setWidth, ← hsigned hsign, BitVec.toInt_eq_toNat_bmod]
  · rw [if_neg hsign, if_neg hsign, AbiRow.imm, BitVec.toNat_setWidth, BitVec.extractLsb'_toNat,
      Nat.shiftRight_eq_div_pow]
    have hlt : value.toNat / 2 ^ row.lo % 2 ^ (row.hi - row.lo) < 2 ^ row.field.length :=
      lt_of_lt_of_le (Nat.mod_lt _ (by positivity)) (Nat.pow_le_pow_right (by decide) hlen)
    rw [Nat.mod_eq_of_lt hlt]

/-- A value in the range of its bits has no others from `lo` on. -/
theorem quotient_eq_of_range (hlo : row.lo < row.hi) (hrange : row.range.contains value.toInt = true) :
    (if row.field.signed then (value.toInt / 2 ^ row.lo).bmod (2 ^ (row.hi - row.lo))
      else (value.toNat / 2 ^ row.lo % 2 ^ (row.hi - row.lo) : Nat)) = value.toInt / 2 ^ row.lo := by
  have hpos : (0 : Int) < 2 ^ row.lo := by positivity
  unfold AbiRow.range at hrange
  by_cases hsign : row.field.signed = true
  · rw [if_pos hsign] at hrange ⊢
    simp only [AllowedRange.contains, Bool.and_eq_true, decide_eq_true_eq] at hrange
    have hpow : (2 : Int) ^ (row.hi - 1) = 2 ^ (row.hi - row.lo - 1) * 2 ^ row.lo := by
      rw [← pow_add]
      congr 1
      omega
    apply bmod_eq_of_bounds (by omega)
    · rw [Int.le_ediv_iff_mul_le hpos, Int.neg_mul, ← hpow]
      exact hrange.1
    · rw [Int.ediv_lt_iff_lt_mul hpos, ← hpow]
      exact hrange.2
  · rw [if_neg hsign] at hrange ⊢
    simp only [AllowedRange.contains, Bool.and_eq_true, decide_eq_true_eq] at hrange
    have hnat := toNat_of_toInt_nonneg hrange.1
    have hpow : 2 ^ row.hi = 2 ^ row.lo * 2 ^ (row.hi - row.lo) := by
      rw [← pow_add]
      congr 1
      omega
    have hlt : value.toNat < 2 ^ row.lo * 2 ^ (row.hi - row.lo) := by
      have hmax := hrange.2
      rw [← hnat] at hmax
      rw [← hpow]
      exact_mod_cast hmax
    rw [Nat.mod_eq_of_lt (Nat.div_lt_of_lt_mul hlt), ← hnat]
    push_cast
    rfl

theorem toInt_div_mul (hlo : row.lo ≤ 64) (haligned : value.toNat % 2 ^ row.lo = 0) :
    2 ^ row.lo * (value.toInt / 2 ^ row.lo) = value.toInt := by
  apply Int.mul_ediv_cancel'
  have hnat : ((2 : Int) ^ row.lo) ∣ (value.toNat : Int) := by
    have hdvd := Nat.dvd_of_mod_eq_zero haligned
    exact_mod_cast Int.natCast_dvd_natCast.mpr hdvd
  rw [BitVec.toInt_eq_toNat_cond]
  split
  · exact hnat
  · have hpow : ((2 : Int) ^ row.lo) ∣ ((2 ^ 64 : Nat) : Int) := by
      push_cast
      exact pow_dvd_pow 2 hlo
    exact Int.dvd_sub hnat hpow

/-- An operand stands for a value exactly where it has the bits of the value. -/
theorem means_iff {start stop : Nat} {range : AllowedRange} {alignment : Nat}
    (hagrees : row.AgreesInstruction insn start stop range alignment)
    (haligned : value.toNat % alignment = 0) (hrange : range.contains value.toInt = true)
    (imm : BitVec row.field.length) :
    row.Means (row.field.value imm) value ↔ imm = row.imm value := by
  obtain ⟨-, -, -, hlo, hhi, hlen, hunit, hsigned, hmeaning⟩ := hagrees
  rw [← AbiField.value_inj hunit, row.value_imm hhi hlo hlen hsigned]
  unfold Means
  rcases hmeaning with hlow | ⟨habove, rfl⟩ | ⟨hwhole, rfl, hpow, rfl⟩
  · rw [hlow]
  · rw [habove, row.quotient_eq_of_range hlo hrange]
  · have hcast : (row.field.unit : Int) = 2 ^ row.lo := by exact_mod_cast hpow
    rw [hwhole, row.quotient_eq_of_range hlo hrange, hcast,
      row.toInt_div_mul (by omega) haligned]

end AbiRow

end Immediates

/-! ### Where a row stores what it means -/

/-- The operand gets nothing but the bits of the value. The type of `MOVZ` and `MOVN` clears its
field, and the others do not. -/
def AbiRow.Ready (row : AbiRow) (value : BitVec 64) (word : BitVec 32) : Prop :=
  match row.field with
  | .nothing | .data _ => True
  | .mov => -2 ^ (row.lo + 16) ≤ value.toInt ∧ value.toInt < 2 ^ (row.lo + 16)
  | _ => row.field.imm word ||| row.imm value = row.imm value

section Rows

variable {row : AbiRow} {value : BitVec 64} {dest out : List UInt8}

/-- An instruction to whose field the bits of a value were added. -/
theorem imm_written {insn : AArch64Instruction} {start stop : Nat} {range : AllowedRange}
    {alignment : Nat} (hmov : row.field ≠ .mov)
    (hagrees : row.AgreesInstruction insn start stop range alignment)
    (hwrite : insn.writeToValue (extractBitRange value start stop) (decide (value.toInt < 0)) dest =
      .ok out) :
    row.field.imm (instructionWord out) =
        row.field.imm (instructionWord dest) ||| row.imm value ∧
      out.length = dest.length ∧ 4 ≤ dest.length ∧ out.drop 4 = dest.drop 4 := by
  obtain ⟨hwriter, rfl, rfl, hlo, hhi, hlen, -⟩ := hagrees
  have hinsn : insn ≠ .machOLow12 := by
    rintro rfl
    unfold AbiField.writers at hwriter
    split at hwriter <;> simp at hwriter
  have he : ∀ i, row.field.length ≤ i →
      (extractBitRange value row.lo row.hi).getLsbD i = false := by
    intro i hi
    rw [getLsbD_extractBitRange value hhi, decide_eq_false (by omega), Bool.false_and]
  obtain ⟨himm, hcleared⟩ := AbiField.imm_stored hwriter hmov he (decide (value.toInt < 0))
  have hstored := stored_of_writeToValue hinsn hwrite
  refine ⟨?_, hstored.length, length_of_writeToValue hinsn hwrite, ?_⟩
  · rw [hstored.instructionWord_eq, AbiField.imm_or, himm, row.imm_eq value hhi, hcleared]
    congr 2
    exact BitVec.and_allOnes
  · exact drop_of_stored hstored

/-! ### `MOVZ` and `MOVN` -/

/-- The halfword of the value is inverted for `MOVN`. -/
theorem movnz_imm (word : BitVec 32) (e : BitVec 64) (negative : Bool) :
    ((word &&& 0x0060001f#32) ||| AArch64Instruction.movnzMask e negative).extractLsb' 5 16 =
        (if negative then ~~~e.setWidth 16 else e.setWidth 16) ∧
      ((word &&& 0x0060001f#32) ||| AArch64Instruction.movnzMask e negative).getLsbD 30 =
        !negative := by
  have hvalue : ∀ x : BitVec 64,
      ((extractBitRange x 0 16).setWidth 32 <<< 5).extractLsb' 5 16 = x.setWidth 16 := by
    intro x
    apply BitVec.eq_of_getLsbD_eq
    intro i hi
    rw [BitVec.getLsbD_extractLsb', BitVec.getLsbD_shiftLeft, Nat.add_sub_cancel_left,
      BitVec.getLsbD_setWidth, getLsbD_extractBitRange x (by decide), BitVec.getLsbD_setWidth]
    simp [hi, show 5 + i < 32 by omega, show i < 32 by omega]
  have hopcode : ∀ x : BitVec 64,
      ((extractBitRange x 0 16).setWidth 32 <<< 5).getLsbD 30 = false := by
    intro x
    rw [BitVec.getLsbD_shiftLeft, BitVec.getLsbD_setWidth, getLsbD_extractBitRange x (by decide)]
    simp
  have hkept : (word &&& 0x0060001f#32).extractLsb' 5 16 = 0#16 := by
    rw [BitVec.extractLsb'_and, show (0x0060001f#32).extractLsb' 5 16 = 0#16 from rfl,
      BitVec.and_zero]
  have hbit : (word &&& 0x0060001f#32).getLsbD 30 = false := by
    rw [BitVec.getLsbD_and, show (0x0060001f#32).getLsbD 30 = false from rfl, Bool.and_false]
  rw [BitVec.extractLsb'_or, BitVec.getLsbD_or, hkept, hbit, BitVec.zero_or, Bool.false_or]
  unfold AArch64Instruction.movnzMask
  cases negative with
  | true =>
      simp only [if_true]
      rw [BitVec.extractLsb'_or, BitVec.getLsbD_or, hvalue, hopcode,
        show (0x92800000#32).extractLsb' 5 16 = 0#16 from rfl, BitVec.zero_or]
      exact ⟨BitVec.setWidth_not (by decide), rfl⟩
  | false =>
      simp only [Bool.false_eq_true, if_false]
      rw [BitVec.extractLsb'_or, BitVec.getLsbD_or, hvalue, hopcode,
        show (0xd2800000#32).extractLsb' 5 16 = 0#16 from rfl, BitVec.zero_or]
      exact ⟨rfl, rfl⟩

/-- The operand of `MOVZ` or `MOVN` is the value from its halfword on, where that fits. -/
theorem mov_means_iff {lo hi stop : Nat} (hhi : hi = lo + 16) (hstop : hi ≤ stop)
    (hstop' : stop ≤ 64)
    (hwrite : AArch64Instruction.movnz.writeToValue (extractBitRange value lo stop)
      (decide (value.toInt < 0)) dest = .ok out) :
    (⟨.mov, lo, hi, .above⟩ : AbiRow).Means (AbiField.mov.operand out) value ↔
      -2 ^ (lo + 16) ≤ value.toInt ∧ value.toInt < 2 ^ (lo + 16) := by
  have hstored := stored_of_writeToValue (by decide) hwrite
  have hword : instructionWord out = (instructionWord dest &&& 0x0060001f#32) |||
      AArch64Instruction.movnzMask (extractBitRange value lo stop) (decide (value.toInt < 0)) := by
    rw [hstored.instructionWord_eq]
    congr 1
    exact setWidth_wide _
  have hbits : (extractBitRange value lo stop).setWidth 16 = value.extractLsb' lo 16 := by
    apply BitVec.eq_of_getLsbD_eq
    intro i hi
    rw [BitVec.getLsbD_setWidth, getLsbD_extractBitRange value hstop',
      BitVec.getLsbD_extractLsb']
    simp [hi, show i < stop - lo by omega]
  have hhalf : ((value.extractLsb' lo 16).toNat : Int) = value.toInt / 2 ^ lo % 2 ^ 16 :=
    toNat_extractLsb'_eq_emod value (by omega)
  obtain ⟨himm, hopcode⟩ := movnz_imm (instructionWord dest) (extractBitRange value lo stop)
    (decide (value.toInt < 0))
  rw [← hword, hbits] at himm
  rw [← hword] at hopcode
  have hpos : (0 : Int) < 2 ^ lo := by positivity
  have hpow : (2 : Int) ^ (lo + 16) = 65536 * 2 ^ lo := by
    rw [pow_add]
    ring
  have hmin : -2 ^ (lo + 16) ≤ value.toInt ↔ -65536 ≤ value.toInt / 2 ^ lo := by
    rw [Int.le_ediv_iff_mul_le hpos, hpow, Int.neg_mul]
  have hmax : value.toInt < 2 ^ (lo + 16) ↔ value.toInt / 2 ^ lo < 65536 := by
    rw [Int.ediv_lt_iff_lt_mul hpos, hpow]
  have hsign : value.toInt < 0 ↔ value.toInt / 2 ^ lo < 0 := by
    rw [Int.ediv_lt_iff_lt_mul hpos, Int.zero_mul]
  rw [hmin, hmax]
  unfold AbiRow.Means AbiField.operand
  simp only [himm, hopcode, AbiField.unit]
  by_cases hneg : value.toInt < 0
  · have hle : (value.extractLsb' lo 16).toNat < 65536 := (value.extractLsb' lo 16).isLt
    simp only [hneg, decide_true, if_true, Bool.not_true, Bool.false_eq_true, if_false,
      BitVec.toNat_not]
    have hq := hsign.mp hneg
    omega
  · simp only [hneg, decide_false, Bool.not_false, if_true, Bool.false_eq_true, if_false]
    have hq := mt hsign.mpr hneg
    omega

/-! ### Data -/

theorem splice_zero (dest : List UInt8) (len : Nat) (value : BitVec 64) :
    splice dest 0 (toLeBytes len value) = leBytes len value.toNat ++ dest.drop len := by
  rw [splice, toLeBytes_length, toLeBytes, List.take_zero, List.nil_append, Nat.zero_add]

/-- The bytes of a value stand for it. -/
theorem data_means {lo hi bytes : Nat} {meaning : AbiMeaning} {range : AllowedRange}
    {alignment : Nat}
    (hagrees : (⟨.data bytes, lo, hi, meaning⟩ : AbiRow).Agrees (.byteSize bytes) range alignment)
    (hrange : range.contains value.toInt = true) :
    (⟨.data bytes, lo, hi, meaning⟩ : AbiRow).Means
      ((AbiField.data bytes).operand (leBytes bytes value.toNat ++ dest)) value := by
  obtain ⟨-, hpos, hle, hhi, hmeaning⟩ := hagrees
  simp only at hhi hmeaning
  have hlt := value.isLt
  have hread : (AbiField.data bytes).operand (leBytes bytes value.toNat ++ dest) =
      (value.toInt / 2 ^ 0) % 2 ^ hi := by
    rw [← toNat_extractLsb'_eq_emod value (by omega), BitVec.extractLsb'_toNat, Nat.shiftRight_zero]
    show ((readLe ((leBytes bytes value.toNat ++ dest).take bytes) : Nat) : Int) = _
    have htake : (leBytes bytes value.toNat ++ dest).take bytes = leBytes bytes value.toNat :=
      List.take_left' (leBytes_length _ _)
    have hbase : 256 ^ bytes = 2 ^ hi := by rw [hhi, pow_mul]; rfl
    rw [htake, readLe_leBytes, hbase]
  rw [pow_zero, Int.ediv_one] at hread
  have hpow : (2 : Int) ^ hi = 2 * 2 ^ (hi - 1) := by
    rw [← pow_succ', Nat.sub_add_cancel (by omega)]
  have hhalf : (0 : Int) < 2 ^ (hi - 1) := by positivity
  unfold AbiRow.Means
  rw [hread]
  rcases hmeaning with ⟨rfl, rfl⟩ | ⟨rfl, rfl⟩ | ⟨rfl, rfl⟩
  · simp only
    rw [hhi, BitVec.toInt_eq_toNat_cond]
    split <;> omega
  · simp only [AllowedRange.contains, Bool.and_eq_true, decide_eq_true_eq] at hrange ⊢
    have hcast : (2 : Int) ^ hi = ((2 ^ hi : Nat) : Int) := by push_cast; rfl
    rw [hcast, Int.emod_bmod, bmod_eq_of_bounds (by omega) hrange.1 hrange.2]
  · simp only [AllowedRange.contains, Bool.and_eq_true, decide_eq_true_eq] at hrange ⊢
    by_cases hneg : value.toInt < 0
    · right
      have hshift : value.toInt % 2 ^ hi = value.toInt + 2 ^ hi := by
        rw [← Int.add_emod_right, Int.emod_eq_of_lt (by omega) (by omega)]
      rw [hshift]
      omega
    · left
      exact Int.emod_eq_of_lt (by omega) (by omega)

end Rows

/-! ### Every type -/

section Types

variable {row : AbiRow} {value : BitVec 64} {dest out : List UInt8}

/-- An instruction to which bits were added has the operand where its field had no others. -/
theorem AbiRow.stores_iff_of_instruction {insn : AArch64Instruction} {start stop : Nat}
    {range : AllowedRange} {alignment : Nat} (hmov : row.field ≠ .mov)
    (hwidth : row.field.width = 4)
    (hoperand : row.field.operand out = row.field.value (row.field.imm (instructionWord out)))
    (hagrees : row.AgreesInstruction insn start stop range alignment)
    (haligned : value.toNat % alignment = 0) (hrange : range.contains value.toInt = true)
    (hwrite : insn.writeToValue (extractBitRange value start stop) (decide (value.toInt < 0)) dest =
      .ok out) :
    row.Stores value dest out ↔
      row.field.imm (instructionWord dest) ||| row.imm value = row.imm value := by
  obtain ⟨himm, hlength, hfits, hkept⟩ := imm_written hmov hagrees hwrite
  have hmeans := row.means_iff hagrees haligned hrange (row.field.imm (instructionWord out))
  rw [← hoperand, himm] at hmeans
  rw [← hmeans]
  constructor
  · intro h
    exact h.means
  · intro h
    refine ⟨hlength, ?_, h, ?_⟩
    · rw [hwidth, hlength]
      exact hfits
    · rw [hwidth]
      exact hkept

theorem AbiRow.stores_iff {size : RelocationSize} {range : AllowedRange} {alignment : Nat}
    (hagrees : row.Agrees size range alignment) (haligned : value.toNat % alignment = 0)
    (hrange : range.contains value.toInt = true) (hwrite : Written size value dest out) :
    row.Stores value dest out ↔ row.Ready value (instructionWord dest) := by
  obtain ⟨field, lo, hi, meaning⟩ := row
  cases size with
  | byteSize len =>
      obtain ⟨hlen, -, rfl⟩ := hwrite
      have hlength : (splice dest 0 (toLeBytes len value)).length = dest.length := by
        apply splice_length
        rw [toLeBytes_length, Nat.zero_add]
        exact hlen
      have hready : (⟨field, lo, hi, meaning⟩ : AbiRow).Ready value (instructionWord dest) := by
        cases field <;> trivial
      rw [iff_true_right hready]
      cases field with
      | nothing =>
          obtain ⟨rfl, rfl⟩ := hagrees
          refine ⟨hlength, Nat.zero_le _, trivial, ?_⟩
          rw [splice_zero]
          rfl
      | data bytes =>
          have hbytes := hagrees.1
          subst hbytes
          refine ⟨hlength, ?_, ?_, ?_⟩
          · rw [hlength]
            exact hlen
          · rw [splice_zero]
            exact data_means hagrees hrange
          · rw [splice_zero]
            exact List.drop_left' (leBytes_length _ _)
      | _ => exact hagrees.elim
  | bitMasking mask =>
      obtain ⟨insn, start, stop⟩ := mask
      cases insn with
      | aarch64 insn =>
          cases field with
          | nothing | data _ => exact hagrees.elim
          | mov =>
              obtain ⟨rfl, rfl, hhi, hstop, hstop', hmeaning⟩ := hagrees
              simp only at hhi hstop hmeaning
              subst hmeaning
              have hinsn : AArch64Instruction.movnz ≠ .machOLow12 := by decide
              have hmovnz : AArch64Instruction.movnz.writeToValue
                  (extractBitRange value start stop) (decide (value.toInt < 0)) dest = .ok out :=
                hwrite
              have hmeans := mov_means_iff hhi hstop hstop' hmovnz
              have hstored := stored_of_writeToValue hinsn hmovnz
              show _ ↔ -2 ^ (start + 16) ≤ value.toInt ∧ value.toInt < 2 ^ (start + 16)
              rw [← hmeans]
              constructor
              · intro h
                exact h.means
              · intro h
                refine ⟨hstored.length, ?_, h, drop_of_stored hstored⟩
                rw [hstored.length]
                exact length_of_writeToValue hinsn hmovnz
          | _ =>
              have hinsn : insn.writeToValue (extractBitRange value start stop)
                  (decide (value.toInt < 0)) dest = .ok out := hwrite
              have hagrees : AbiRow.AgreesInstruction _ insn start stop range alignment := hagrees
              apply AbiRow.stores_iff_of_instruction ?_ rfl rfl hagrees haligned hrange hinsn
              exact fun h => nomatch h
      | _ => cases field <;> exact hagrees.elim

end Types

end JdxLinker.Relocation
