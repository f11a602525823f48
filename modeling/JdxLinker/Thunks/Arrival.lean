import JdxLinker.Thunks.Relocation

/-!
# Where a branch through a thunk arrives

The rewritten branch goes to the thunk, which goes to its symbol, whatever the addend of the branch.
-/

namespace JdxLinker.Thunks

open A64 (Address State run step decode page)

/-! ### Fields of instruction words -/

section Fields

theorem getElem_extractBitRange (value : BitVec 64) {start stop i : Nat}
    (hi : i < 64) :
    (extractBitRange value start stop)[i]
      = (decide (i < stop - start) && value.getLsbD (start + i)) := by
  rw [← BitVec.getLsbD_eq_getElem]
  unfold extractBitRange
  rw [BitVec.getLsbD_and, BitVec.getLsbD_ushiftRight, BitVec.getLsbD_ofNat,
    Nat.testBit_two_pow_sub_one]
  by_cases hlt : i < stop - start
  · have hbit : i < 64 := by omega
    simp [hlt, hbit]
  · simp [hlt]

theorem getElem_of_lt {value : BitVec 64} {n : Nat} (h : value.toNat < 2 ^ n) {i : Nat}
    (hi : i < 64) (hle : n ≤ i) : value[i] = false := by
  rw [← BitVec.getLsbD_eq_getElem, BitVec.getLsbD]
  exact Nat.testBit_lt_two_pow (h.trans_le (Nat.pow_le_pow_right (by decide) hle))

/-- The immediate of a branch, as far as it was written to an instruction. -/
theorem extractLsb'_branch (instruction : BitVec 32) (value : BitVec 64) :
    (instruction ||| (extractBitRange value 2 28).setWidth 32).extractLsb' 0 26
      = instruction.extractLsb' 0 26 ||| value.extractLsb' 2 26 := by
  rw [BitVec.extractLsb'_or]
  congr 1
  apply BitVec.eq_of_getLsbD_eq
  intro i hi
  have hbit : i < 64 := by omega
  have hbit' : i < 32 := by omega
  simp [getElem_extractBitRange, hi, hbit, hbit']

theorem extractLsb'_opcode (instruction : BitVec 32) (value : BitVec 64) :
    (instruction ||| (extractBitRange value 2 28).setWidth 32).extractLsb' 26 5
      = instruction.extractLsb' 26 5 := by
  rw [BitVec.extractLsb'_or]
  have hzero : ((extractBitRange value 2 28).setWidth 32).extractLsb' 26 5 = 0#5 := by
    apply BitVec.eq_of_getLsbD_eq
    intro i hi
    interval_cases i <;> simp [getElem_extractBitRange]
  rw [hzero, BitVec.or_zero]

theorem decode_adrp {pages : BitVec 64} (h : pages.toNat < 2 ^ 21) :
    decode (0x90000010#32 ||| adrMask pages) = some (.adrp 16 (pages.setWidth 21)) := by
  have hbits : ∀ i (hi : i < 64), 21 ≤ i → pages[i] = false := fun i hi => getElem_of_lt h hi
  have hbranch : (0x90000010#32 ||| adrMask pages).extractLsb' 26 5 ≠ 0b00101#5 := by
    intro heq
    have hbit := congrArg (fun field : BitVec 5 => field.getLsbD 0) heq
    simp [adrMask, getElem_extractBitRange, hbits] at hbit
  have hopcode : (0x90000010#32 ||| adrMask pages).extractLsb' 24 5 = 0b10000#5 := by
    apply BitVec.eq_of_getLsbD_eq
    intro i hi
    interval_cases i <;> simp [adrMask, getElem_extractBitRange, hbits]
  have hlast : (0x90000010#32 ||| adrMask pages).getLsbD 31 = true := by
    simp [adrMask]
  have hregister : (0x90000010#32 ||| adrMask pages).extractLsb' 0 5 = 16#5 := by
    apply BitVec.eq_of_getLsbD_eq
    intro i hi
    interval_cases i <;> simp [adrMask]
  have himmediate : (0x90000010#32 ||| adrMask pages).extractLsb' 5 19
      ++ (0x90000010#32 ||| adrMask pages).extractLsb' 29 2 = pages.setWidth 21 := by
    apply BitVec.eq_of_getLsbD_eq
    intro i hi
    rw [BitVec.getLsbD_append]
    interval_cases i <;> simp [adrMask, getElem_extractBitRange, hbits]
  unfold decode
  rw [if_neg hbranch, if_pos ⟨hopcode, hlast⟩, hregister, himmediate]
  rfl

theorem decode_addImmediate {value : BitVec 64} (h : value.toNat < 2 ^ 12) :
    decode (0x91000210#32 ||| (value.setWidth 32 <<< (10 : Nat)))
      = some (.addImmediate 16 16 (value.setWidth 12)) := by
  have hbits : ∀ i (hi : i < 64), 12 ≤ i → value[i] = false := fun i hi => getElem_of_lt h hi
  have hbranch : (0x91000210#32 ||| (value.setWidth 32 <<< (10 : Nat))).extractLsb' 26 5
      ≠ 0b00101#5 := by
    intro heq
    have hbit := congrArg (fun field : BitVec 5 => field.getLsbD 0) heq
    simp [hbits] at hbit
  have hadrp : ¬ ((0x91000210#32 ||| (value.setWidth 32 <<< (10 : Nat))).extractLsb' 24 5
      = 0b10000#5 ∧ (0x91000210#32 ||| (value.setWidth 32 <<< (10 : Nat))).getLsbD 31 = true) := by
    rintro ⟨heq, -⟩
    have hbit := congrArg (fun field : BitVec 5 => field.getLsbD 0) heq
    simp [hbits] at hbit
  have hopcode : (0x91000210#32 ||| (value.setWidth 32 <<< (10 : Nat))).extractLsb' 22 10
      = 0b1001000100#10 := by
    apply BitVec.eq_of_getLsbD_eq
    intro i hi
    interval_cases i <;> simp [hbits]
  have hrd : (0x91000210#32 ||| (value.setWidth 32 <<< (10 : Nat))).extractLsb' 0 5 = 16#5 := by
    apply BitVec.eq_of_getLsbD_eq
    intro i hi
    interval_cases i <;> simp
  have hrn : (0x91000210#32 ||| (value.setWidth 32 <<< (10 : Nat))).extractLsb' 5 5 = 16#5 := by
    apply BitVec.eq_of_getLsbD_eq
    intro i hi
    interval_cases i <;> simp
  have himmediate : (0x91000210#32 ||| (value.setWidth 32 <<< (10 : Nat))).extractLsb' 10 12
      = value.setWidth 12 := by
    apply BitVec.eq_of_getLsbD_eq
    intro i hi
    interval_cases i <;> simp
  unfold decode
  rw [if_neg hbranch, if_neg hadrp, if_pos hopcode, hrd, hrn, himmediate]
  rfl

theorem decode_branchRegister : decode 0xd61f0200#32 = some (.branchRegister 16) := by decide

end Fields

/-! ### The thunk -/

/-- How far from its symbol a thunk arrives: nothing where the page of the symbol is less than 4 GiB
away, else a multiple of 8 GiB. -/
def pageError (thunkAddress targetAddress : Address) : Int :=
  (page targetAddress - page thunkAddress).toInt
    - (page targetAddress - page thunkAddress).toInt.bmod (2 ^ 33)

theorem pageError_eq_zero {thunkAddress targetAddress : Address}
    (hmin : -2 ^ 32 ≤ (page targetAddress - page thunkAddress).toInt)
    (hmax : (page targetAddress - page thunkAddress).toInt < 2 ^ 32) :
    pageError thunkAddress targetAddress = 0 := by
  unfold pageError
  rw [Int.bmod_eq_of_le (by simpa using hmin) (by simpa using hmax), sub_self]

/-- The words of a list are in memory, one after the other. -/
def HoldsWords (memory : Address → Option (BitVec 32)) : Address → List (BitVec 32) → Prop
  | _, [] => True
  | address, word :: words => memory address = some word ∧ HoldsWords memory (address + 4) words

section Thunk

variable {memory : Address → Option (BitVec 32)} {thunkAddress targetAddress : Address}

/-- The pages that `ADRP` adds are those between the thunk and its symbol. -/
theorem signExtend_pageCount (thunkAddress targetAddress : Address) :
    ((((page targetAddress - page thunkAddress).sdiv 0x1000#64 &&& 0x1fffff#64).setWidth 21
      ++ 0#12).signExtend 64)
      = BitVec.ofInt 64 ((page targetAddress - page thunkAddress).toInt.bmod (2 ^ 33)) := by
  have hlow : ((page targetAddress - page thunkAddress).sdiv 0x1000#64 &&& 0x1fffff#64).setWidth 21
      = ((page targetAddress - page thunkAddress).sdiv 0x1000#64).setWidth 21 := by
    rw [BitVec.setWidth_and, show (0x1fffff#64).setWidth 21 = BitVec.allOnes 21 from rfl,
      BitVec.and_allOnes]
  have hpages : ((page targetAddress - page thunkAddress).sdiv 0x1000#64).toInt * 4096
      = (page targetAddress - page thunkAddress).toInt := by
    have hmod := A64.page_sub_toInt targetAddress thunkAddress
    have hmin := BitVec.le_toInt (page targetAddress - page thunkAddress)
    have hmax := BitVec.toInt_lt (x := page targetAddress - page thunkAddress)
    have hdiv : (page targetAddress - page thunkAddress).toInt.tdiv 4096 * 4096
        = (page targetAddress - page thunkAddress).toInt :=
      Int.tdiv_mul_cancel (Int.dvd_of_emod_eq_zero hmod)
    rw [BitVec.toInt_sdiv, show (0x1000#64).toInt = 4096 from rfl,
      Int.bmod_eq_of_le (by omega) (by omega), hdiv]
  apply BitVec.eq_of_toInt_eq
  have hmin := Int.le_bmod (x := (page targetAddress - page thunkAddress).toInt) (m := 2 ^ 33)
    (by decide)
  have hmax := Int.bmod_lt (x := (page targetAddress - page thunkAddress).toInt) (m := 2 ^ 33)
    (by decide)
  rw [hlow, A64.toInt_signExtend_page, hpages, BitVec.toInt_ofInt,
    Int.bmod_eq_of_le (n := _) (m := 2 ^ 64) (by omega) (by omega)]

/-- What the instructions of a thunk add up to. -/
theorem page_add_pageCount (thunkAddress targetAddress : Address) :
    page thunkAddress
        + ((((page targetAddress - page thunkAddress).sdiv 0x1000#64 &&& 0x1fffff#64).setWidth 21
          ++ 0#12).signExtend 64)
        + ((targetAddress &&& 0xfff#64).setWidth 12).setWidth 64
      = targetAddress - BitVec.ofInt 64 (pageError thunkAddress targetAddress) := by
  have hlow : (targetAddress &&& 0xfff#64).toNat < 2 ^ 12 := by
    rw [BitVec.toNat_and]
    exact Nat.and_lt_two_pow _ (by decide)
  have hplace : ((targetAddress &&& 0xfff#64).setWidth 12).setWidth 64 = targetAddress &&& 0xfff#64 := by
    apply BitVec.eq_of_toNat_eq
    rw [BitVec.toNat_setWidth, BitVec.toNat_setWidth, Nat.mod_eq_of_lt hlow,
      Nat.mod_eq_of_lt (BitVec.isLt _)]
  have hdiff : BitVec.ofInt 64 (page targetAddress - page thunkAddress).toInt
      = page targetAddress - page thunkAddress := BitVec.ofInt_toInt
  rw [signExtend_pageCount, hplace]
  calc page thunkAddress + BitVec.ofInt 64
          ((page targetAddress - page thunkAddress).toInt.bmod (2 ^ 33))
          + (targetAddress &&& 0xfff#64)
      = page targetAddress + (targetAddress &&& 0xfff#64)
          - BitVec.ofInt 64 (pageError thunkAddress targetAddress) := by
        unfold pageError
        rw [A64.ofInt_sub, hdiff]
        ring
    _ = targetAddress - BitVec.ofInt 64 (pageError thunkAddress targetAddress) := by
        rw [A64.page_add]

/-- The instructions of a thunk. -/
theorem decode_writeThunk (thunkAddress targetAddress : Address) :
    decode (0x90000010#32 ||| adrMask
        ((page targetAddress - page thunkAddress).sdiv 0x1000#64 &&& 0x1fffff#64))
      = some (.adrp 16 (((page targetAddress - page thunkAddress).sdiv 0x1000#64
          &&& 0x1fffff#64).setWidth 21)) ∧
    decode (0x91000210#32 ||| ((targetAddress &&& 0xfff#64).setWidth 32 <<< (10 : Nat)))
      = some (.addImmediate 16 16 ((targetAddress &&& 0xfff#64).setWidth 12)) := by
  constructor
  · apply decode_adrp
    rw [BitVec.toNat_and]
    exact Nat.and_lt_two_pow _ (by decide)
  · apply decode_addImmediate
    rw [BitVec.toNat_and]
    exact Nat.and_lt_two_pow _ (by decide)

theorem run_thunk (h : HoldsWords memory thunkAddress (writeThunk thunkAddress targetAddress))
    (x : A64.Register → Address) :
    ∃ s, run memory 3 ⟨thunkAddress, x⟩ = some s ∧
      s.pc = targetAddress - BitVec.ofInt 64 (pageError thunkAddress targetAddress) := by
  obtain ⟨hadrp, hadd, hbr, -⟩ := h
  obtain ⟨hdecodeAdrp, hdecodeAdd⟩ := decode_writeThunk thunkAddress targetAddress
  rw [← page_add_pageCount]
  exact A64.run_adrp_add_br hadrp hadd hbr hdecodeAdrp hdecodeAdd decode_branchRegister

end Thunk

end JdxLinker.Thunks
