import JdxLinker.Plt.Entries
import JdxLinker.Relocation.HighLow
import JdxLinker.Thunks.Arrival

/-!
# Where entries and thunks arrive

What an entry loads and where a thunk goes, for any addresses. Some architectures report distances
that their instructions cannot express, and others write an entry that goes elsewhere.
-/

namespace JdxLinker.Plt

open A64 (Address page)
open Isa.Memory (ofWords)
open Bytes ByteMasks Fallible Relocation

/-! ### Words that are filled in -/

section Words

variable {word word' mask : BitVec 32}

theorem onRange_ofWords (words' words : List (BitVec 32)) {i : Nat}
    {write : List UInt8 → Fallible (List UInt8)} (hi : words'.length = i)
    (hwrite : write (leBytes 4 word.toNat) = .ok (leBytes 4 word'.toNat)) :
    onRange (4 * i) (4 * i + 4) write (ofWords (words' ++ word :: words)) =
      .ok (ofWords (words' ++ word' :: words)) := by
  subst hi
  have hsplit : ∀ w : BitVec 32, ofWords (words' ++ w :: words) =
      ofWords words' ++ (leBytes 4 w.toNat ++ ofWords words) := by
    intro w
    rw [ofWords, ofWords, ofWords, List.flatMap_append, List.flatMap_cons]
  have hlen := Isa.Memory.ofWords_length words'
  have hfour : ∀ w : BitVec 32, (leBytes 4 w.toNat).length = 4 := fun w => leBytes_length _ _
  have hslice : slice (ofWords (words' ++ word :: words)) (4 * words'.length)
      (4 * words'.length + 4 - 4 * words'.length) = leBytes 4 word.toNat := by
    rw [Nat.add_sub_cancel_left]
    apply Isa.Memory.slice_ofWords
    rw [List.getElem?_append_right (Nat.le_refl _), Nat.sub_self]
    rfl
  have hsplice : splice (ofWords (words' ++ word :: words)) (4 * words'.length)
      (leBytes 4 word'.toNat) = ofWords (words' ++ word' :: words) := by
    rw [splice, hsplit, hsplit, hfour, List.take_left' hlen, List.append_assoc]
    congr 2
    rw [← List.append_assoc]
    apply List.drop_left'
    rw [List.length_append, hlen, hfour]
  have hle : 4 * words'.length + 4 ≤ (ofWords (words' ++ word :: words)).length := by
    rw [Isa.Memory.ofWords_length, List.length_append, List.length_cons]
    omega
  rw [onRange, assert, if_pos hle, bind_ok, hslice, hwrite, bind_ok, hsplice]

theorem orFromSlice_word (word mask : BitVec 32) :
    orFromSlice (leBytes 4 word.toNat) (toLeBytes 4 mask) =
      .ok (leBytes 4 (word ||| mask).toNat) := by
  have hlen : (leBytes 4 word.toNat).length = 4 := leBytes_length _ _
  have hmask : (toLeBytes 4 mask).length ≤ (leBytes 4 word.toNat).length := by
    rw [toLeBytes_length, hlen]
  rw [orFromSlice_toLeBytes mask hlen.ge]
  congr 1
  apply eq_of_bitAt_eq
  · rw [combine_length _ hmask, hlen, leBytes_length]
  · intro i
    rw [bitAt_combine_or hmask, toLeBytes, bitAt_leBytes, bitAt_leBytes, bitAt_leBytes,
      BitVec.toNat_or, Nat.testBit_or, Bool.and_or_distrib_left]

theorem andFromSlice_word (word mask : BitVec 32) :
    andFromSlice (leBytes 4 word.toNat) (toLeBytes 4 mask) =
      .ok (leBytes 4 (word &&& mask).toNat) := by
  have hlen : (leBytes 4 word.toNat).length = 4 := leBytes_length _ _
  have hmask : (toLeBytes 4 mask).length ≤ (leBytes 4 word.toNat).length := by
    rw [toLeBytes_length, hlen]
  rw [andFromSlice_toLeBytes mask hlen.ge]
  congr 1
  apply eq_of_bitAt_eq
  · rw [combine_length _ hmask, hlen, leBytes_length]
  · intro i
    rw [bitAt_combine_and hmask, toLeBytes_length, toLeBytes, bitAt_leBytes, bitAt_leBytes,
      bitAt_leBytes, BitVec.toNat_and, Nat.testBit_and]
    by_cases hi : i < 8 * 4
    · simp [hi, show ¬ 32 ≤ i by omega]
    · simp [hi]

/-- The bits below an immediate are those of the template. -/
theorem extractLsb'_below (word value : BitVec 32) {start len pos : Nat} (h : start + len ≤ pos) :
    (word ||| value <<< pos).extractLsb' start len = word.extractLsb' start len := by
  apply BitVec.eq_of_getLsbD_eq
  intro i hi
  rw [BitVec.getLsbD_extractLsb', BitVec.getLsbD_extractLsb', BitVec.getLsbD_or,
    BitVec.getLsbD_shiftLeft]
  simp [hi, show start + i < pos by omega]

/-- The bits above an immediate are those of the template. -/
theorem extractLsb'_above (word value : BitVec 32) {start len pos n : Nat}
    (hvalue : value.toNat < 2 ^ n) (h : pos + n ≤ start) :
    (word ||| value <<< pos).extractLsb' start len = word.extractLsb' start len := by
  apply BitVec.eq_of_getLsbD_eq
  intro i hi
  have hzero : value.getLsbD (start + i - pos) = false :=
    Nat.testBit_lt_two_pow (hvalue.trans_le (Nat.pow_le_pow_right (by decide) (by omega)))
  rw [BitVec.getLsbD_extractLsb', BitVec.getLsbD_extractLsb', BitVec.getLsbD_or,
    BitVec.getLsbD_shiftLeft, hzero]
  simp [hi]

/-- The immediate of a template that has none is the value. -/
theorem extractLsb'_immediate (word value : BitVec 32) {pos len : Nat} (hlen : pos + len ≤ 32)
    (h : word.extractLsb' pos len = 0#(len)) :
    (word ||| value <<< pos).extractLsb' pos len = value.setWidth len := by
  rw [BitVec.extractLsb'_or, h, BitVec.zero_or]
  apply BitVec.eq_of_getLsbD_eq
  intro i hi
  rw [BitVec.getLsbD_extractLsb', BitVec.getLsbD_shiftLeft, BitVec.getLsbD_setWidth,
    Nat.add_sub_cancel_left]
  simp [hi, show pos + i < 32 by omega]

end Words
/-! ### x86-64 -/

/-- A signed number of 32 bits is kept by its low half. -/
theorem signExtend_setWidth {value : BitVec 64} (hmin : -2 ^ 31 ≤ value.toInt)
    (hmax : value.toInt < 2 ^ 31) : (value.setWidth 32).signExtend 64 = value := by
  have hlt := value.isLt
  apply BitVec.eq_of_toInt_eq
  rw [BitVec.toInt_signExtend_of_le (by decide), BitVec.toInt_setWidth, Int.bmod_def]
  rw [BitVec.toInt_eq_toNat_cond] at hmin hmax ⊢
  omega

theorem x86_64_jumpsThrough {buffer entry : List UInt8} {gotAddress pltAddress : Address}
    (h : X86_64.writePltEntry buffer gotAddress pltAddress = .ok entry) :
    Isa.JumpsThrough Isa.X64.step id 2 entry pltAddress gotAddress := by
  obtain ⟨template, hcopy, h⟩ := bind_eq_ok.mp h
  obtain ⟨_, -, htemplate⟩ := bind_eq_ok.mp hcopy
  obtain rfl := Except.ok.inj htemplate
  obtain ⟨_, hrange, h⟩ := bind_eq_ok.mp h
  obtain ⟨hmin, hmax⟩ := ensure_eq_ok.mp hrange
  obtain ⟨_, -, h⟩ := bind_eq_ok.mp h
  obtain ⟨bytes, hbytes, h⟩ := bind_eq_ok.mp h
  obtain ⟨_, -, hwritten⟩ := bind_eq_ok.mp hbytes
  obtain rfl := Except.ok.inj hwritten
  obtain rfl := Except.ok.inj h
  have hjump := Isa.X64.jumpsThrough pltAddress ((gotAddress - (pltAddress + 0xb)).setWidth 32)
    [0x0f, 0x1f, 0x44, 0x0, 0x0]
  have hdistance := signExtend_setWidth hmin hmax
  rw [hdistance] at hjump
  have hslot : pltAddress + 11 + (gotAddress - (pltAddress + 0xb)) = gotAddress := by
    rw [BitVec.add_comm]
    exact BitVec.sub_add_cancel ..
  rwa [hslot] at hjump

/-! ### AArch64 -/

theorem adrMask_eq {pages : BitVec 64} :
    AArch64Instruction.adrMask pages = Thunks.adrMask pages := by
  have hrange : ∀ start stop, stop ≤ 64 →
      extractBitRange pages start stop = Thunks.extractBitRange pages start stop := by
    intro start stop hstop
    apply BitVec.eq_of_getLsbD_eq
    intro i hi
    rw [getLsbD_extractBitRange pages hstop, BitVec.getLsbD_eq_getElem hi,
      Thunks.getElem_extractBitRange pages hi]
  rw [AArch64Instruction.adrMask, Thunks.adrMask, hrange 0 2 (by decide), hrange 2 32 (by decide)]

/-- The instruction gets the page of the slot. -/
theorem decode_adrp {pages : BitVec 64} (h : pages.toNat < 2 ^ 21) :
    A64.decode (0x90000010#32 ||| AArch64Instruction.adrMask pages) =
      some (.adrp 16 (pages.setWidth 21)) := by
  rw [adrMask_eq]
  exact Thunks.decode_adrp h

theorem toNat_and_pageMask (value : BitVec 64) :
    (value &&& PAGE_MASK_4KB).toNat = value.toNat % 4096 := by
  rw [BitVec.toNat_and]
  exact Nat.and_two_pow_sub_one_eq_mod value.toNat 12

/-- A distance of less than 4 GiB is a number of pages and a number of doublewords. -/
theorem pages_add_doublewords {offset : BitVec 64} (haligned : offset.toNat % 8 = 0)
    (hrange : offset.toNat < 2 ^ 32) :
    ((offset / SIZE_4KB).setWidth 21 ++ 0#12).signExtend 64 +
      (((offset &&& PAGE_MASK_4KB) / 8).setWidth 12).setWidth 64 <<< 3 = offset := by
  have hpages : (offset / SIZE_4KB).toNat = offset.toNat / 4096 := BitVec.toNat_udiv
  have hpages' : (offset / SIZE_4KB).toInt = offset.toNat / 4096 := by
    rw [BitVec.toInt_eq_toNat_cond, hpages]
    omega
  have hhigh : (((offset / SIZE_4KB).setWidth 21 ++ 0#12).signExtend 64).toNat =
      offset.toNat / 4096 * 4096 := by
    have htoInt := A64.toInt_signExtend_page (offset / SIZE_4KB)
    rw [hpages', Int.bmod_eq_of_le (by omega) (by omega), BitVec.toInt_eq_toNat_cond] at htoInt
    have hlt := (((offset / SIZE_4KB).setWidth 21 ++ 0#12).signExtend 64).isLt
    omega
  have hlow : ((((offset &&& PAGE_MASK_4KB) / 8).setWidth 12).setWidth 64 <<< 3).toNat =
      offset.toNat % 4096 := by
    have hdiv : ((offset &&& PAGE_MASK_4KB) / 8).toNat = offset.toNat % 4096 / 8 := by
      rw [BitVec.toNat_udiv, toNat_and_pageMask]
      rfl
    rw [BitVec.toNat_shiftLeft, BitVec.toNat_setWidth, BitVec.toNat_setWidth, hdiv,
      Nat.shiftLeft_eq]
    omega
  apply BitVec.eq_of_toNat_eq
  rw [BitVec.toNat_add, hhigh, hlow]
  omega

/-- The place of a slot in its page is that of its distance from a page. -/
theorem offset_aligned {gotAddress : Address} (pltAddress : Address)
    (haligned : gotAddress.toNat % 8 = 0) : (gotAddress - page pltAddress).toNat % 8 = 0 := by
  have hpage := A64.page_toNat pltAddress
  have hlt := (page pltAddress).isLt
  rw [BitVec.toNat_sub]
  omega

/-- The offset of a load in a word to which it was added. -/
theorem load_fields {word : BitVec 32} {value : BitVec 64} {rn rt : BitVec 5}
    (hvalue : value.toNat < 2 ^ 12) (hopcode : word.extractLsb' 22 10 = 0b1111100101#10)
    (himm : word.extractLsb' 10 12 = 0#12) (hrn : word.extractLsb' 5 5 = rn)
    (hrt : word.extractLsb' 0 5 = rt) :
    (word ||| value.setWidth 32 <<< 10).extractLsb' 22 10 = 0b1111100101#10 ∧
      (word ||| value.setWidth 32 <<< 10).extractLsb' 5 5 = rn ∧
      (word ||| value.setWidth 32 <<< 10).extractLsb' 0 5 = rt ∧
      (word ||| value.setWidth 32 <<< 10).extractLsb' 10 12 = value.setWidth 12 := by
  have hnarrow : (value.setWidth 32).toNat < 2 ^ 12 := by
    rw [BitVec.toNat_setWidth]
    omega
  refine ⟨?_, ?_, ?_, ?_⟩
  · rw [extractLsb'_above _ _ hnarrow (by decide), hopcode]
  · rw [extractLsb'_below _ _ (by decide), hrn]
  · rw [extractLsb'_below _ _ (by decide), hrt]
  · rw [extractLsb'_immediate _ _ (by decide) himm, BitVec.setWidth_setWidth_of_le _ (by decide)]

/-- An entry made of a page and an offset that was added to a load. -/
theorem arm_jumpsThrough {gotAddress pltAddress : Address} {ldr br : BitVec 32}
    {words : List (BitVec 32)} {r' : BitVec 5} (haligned : gotAddress.toNat % 8 = 0)
    (hrange : (gotAddress - page pltAddress).toNat < 2 ^ 32)
    (hopcode : ldr.extractLsb' 22 10 = 0b1111100101#10) (himm : ldr.extractLsb' 10 12 = 0#12)
    (hrn : ldr.extractLsb' 5 5 = 16) (hrt : ldr.extractLsb' 0 5 = r')
    (hbr : A64.decode br = some (.branchRegister r')) :
    Isa.JumpsThrough Isa.Arm.step id 3
      (ofWords ((0x90000010#32 |||
          AArch64Instruction.adrMask ((gotAddress - page pltAddress) / SIZE_4KB)) ::
        (ldr ||| (((gotAddress - page pltAddress) &&& PAGE_MASK_4KB) / 8).setWidth 32 <<< 10) ::
        br :: words)) pltAddress gotAddress := by
  have hsum := pages_add_doublewords (offset_aligned pltAddress haligned) hrange
  have hcancel : page pltAddress + (gotAddress - page pltAddress) = gotAddress := by
    rw [BitVec.add_comm]
    exact BitVec.sub_add_cancel ..
  generalize gotAddress - page pltAddress = offset at hrange hsum hcancel ⊢
  have hpages : (offset / SIZE_4KB).toNat < 2 ^ 21 := by
    have hdiv : (offset / SIZE_4KB).toNat = offset.toNat / 4096 := BitVec.toNat_udiv
    omega
  have hlow : ((offset &&& PAGE_MASK_4KB) / 8).toNat < 2 ^ 12 := by
    have hdiv : ((offset &&& PAGE_MASK_4KB) / 8).toNat = offset.toNat % 4096 / 8 := by
      rw [BitVec.toNat_udiv, toNat_and_pageMask]
      rfl
    omega
  obtain ⟨hload, hloadRn, hloadRt, hloadImm⟩ := load_fields hlow hopcode himm hrn hrt
  have hjump : Isa.JumpsThrough Isa.Arm.step id 3 (ofWords (_ :: _ :: br :: words)) pltAddress _ :=
    Isa.Arm.jumpsThrough pltAddress (decode_adrp hpages) hload hloadRn hloadRt hbr
  rwa [hloadImm, BitVec.add_assoc, hsum, hcancel] at hjump

/-- A template that was copied is what is filled in. -/
theorem copyFromSlice_ok {dest source out : List UInt8} (h : copyFromSlice dest source = .ok out) :
    out = source := by
  obtain ⟨_, -, hout⟩ := bind_eq_ok.mp h
  exact (Except.ok.inj hout).symm

/-- A page is filled in at the first instruction. -/
theorem onRange_adr (pages : BitVec 64) (word : BitVec 32) (words : List (BitVec 32)) :
    onRange 0 4 (AArch64Instruction.adr.writeToValue pages false) (ofWords (word :: words)) =
      .ok (ofWords ((word ||| AArch64Instruction.adrMask pages) :: words)) :=
  onRange_ofWords [] words rfl (orFromSlice_word word (AArch64Instruction.adrMask pages))

/-- An offset is filled in at the second instruction. -/
theorem onRange_second {write : List UInt8 → Fallible (List UInt8)} {word word' : BitVec 32}
    (hwrite : write (leBytes 4 word.toNat) = .ok (leBytes 4 word'.toNat)) (first : BitVec 32)
    (words : List (BitVec 32)) : onRange 4 8 write (ofWords (first :: word :: words)) =
      .ok (ofWords (first :: word' :: words)) :=
  onRange_ofWords [first] words rfl hwrite

theorem aarch64_template_eq : AArch64.PLT_ENTRY_TEMPLATE =
    ofWords [0x90000010#32, 0xf9400211#32, 0xd61f0220#32, 0xd503201f#32] := by decide

theorem aarch64_jumpsThrough {buffer entry : List UInt8} {gotAddress pltAddress : Address}
    (haligned : gotAddress.toNat % 8 = 0)
    (h : AArch64.writePltEntry buffer gotAddress pltAddress = .ok entry) :
    Isa.JumpsThrough Isa.Arm.step id 3 entry pltAddress gotAddress := by
  obtain ⟨template, hcopy, h⟩ := bind_eq_ok.mp h
  obtain rfl := copyFromSlice_ok hcopy
  obtain ⟨_, hrange, h⟩ := bind_eq_ok.mp h
  have hoffset : (gotAddress - page pltAddress).toNat < 2 ^ 32 := ensure_eq_ok.mp hrange
  obtain ⟨first, hfirst, h⟩ := bind_eq_ok.mp h
  rw [aarch64_template_eq, onRange_adr] at hfirst
  obtain rfl := Except.ok.inj hfirst
  have hldr : ∀ value : BitVec 64,
      AArch64Instruction.ldrRegister.writeToValue value false (leBytes 4 (0xf9400211#32).toNat) =
        .ok (leBytes 4 (0xf9400211#32 ||| value.setWidth 32 <<< 10).toNat) :=
    fun value => orFromSlice_word _ _
  rw [onRange_second (hldr _)] at h
  obtain rfl := Except.ok.inj h
  have hbr : A64.decode 0xd61f0220#32 = some (.branchRegister 17) := by decide
  exact arm_jumpsThrough haligned hoffset (by decide) (by decide) (by decide) (by decide) hbr

theorem machO_template_eq : MachOAArch64.STUB_TEMPLATE =
    ofWords [0x90000010#32, 0xf9400210#32, 0xd61f0200#32] := by decide

/-- The offset of the load is in units of doublewords. -/
theorem machOLow12_word (offset : BitVec 64) :
    AArch64Instruction.machOLow12.writeToValue (offset &&& PAGE_MASK_4KB) false
        (leBytes 4 (0xf9400210#32).toNat) = .ok (leBytes 4
          (0xf9400210#32 ||| ((offset &&& PAGE_MASK_4KB) / 8).setWidth 32 <<< 10).toNat) := by
  have hand := andFromSlice_word 0xf9400210#32 (~~~(0xfff#32 <<< 10))
  have hshift : (offset &&& PAGE_MASK_4KB).setWidth 32 >>> 3 =
      ((offset &&& PAGE_MASK_4KB) / 8).setWidth 32 := by
    have hlow := toNat_and_pageMask offset
    have hdiv : ((offset &&& PAGE_MASK_4KB) / 8).toNat = offset.toNat % 4096 / 8 := by
      rw [BitVec.toNat_udiv, hlow]
      rfl
    apply BitVec.eq_of_toNat_eq
    rw [BitVec.toNat_ushiftRight, BitVec.toNat_setWidth, BitVec.toNat_setWidth, hlow, hdiv,
      Nat.shiftRight_eq_div_pow]
    omega
  have hkept : 0xf9400210#32 &&& ~~~(0xfff#32 <<< 10) = 0xf9400210#32 := by decide
  rw [hkept] at hand
  have hread : u32FromSlice (leBytes 4 (0xf9400210#32).toNat) = .ok 0xf9400210#32 := by decide
  have hscale : AArch64Instruction.machOScale 0xf9400210#32 = 3 := by decide
  show (u32FromSlice (leBytes 4 (0xf9400210#32).toNat) >>= fun insn => _) = _
  rw [hread, bind_ok, hand, bind_ok, hscale, hshift]
  exact orFromSlice_word _ _

theorem machO_jumpsThrough {buffer entry : List UInt8} {gotAddress pltAddress : Address}
    (haligned : gotAddress.toNat % 8 = 0)
    (h : MachOAArch64.writePltEntry buffer gotAddress pltAddress = .ok entry) :
    Isa.JumpsThrough Isa.Arm.step id 3 entry pltAddress gotAddress := by
  obtain ⟨template, hcopy, h⟩ := bind_eq_ok.mp h
  obtain rfl := copyFromSlice_ok hcopy
  obtain ⟨_, hrange, h⟩ := bind_eq_ok.mp h
  have hoffset : (gotAddress - page pltAddress).toNat < 2 ^ 32 := ensure_eq_ok.mp hrange
  obtain ⟨first, hfirst, h⟩ := bind_eq_ok.mp h
  rw [machO_template_eq, onRange_adr] at hfirst
  obtain rfl := Except.ok.inj hfirst
  rw [onRange_second (machOLow12_word _)] at h
  obtain rfl := Except.ok.inj h
  exact arm_jumpsThrough haligned hoffset (by decide) (by decide) (by decide) (by decide)
    Thunks.decode_branchRegister

/-! ### Thunks -/

theorem thunk_template_eq : AArch64.THUNK_TEMPLATE =
    ofWords [0x90000010#32, 0x91000210#32, 0xd61f0200#32] := by decide

/-- A thunk is the words that were written for its block. -/
theorem writeThunk_eq {buffer thunk : List UInt8} {thunkAddress targetAddress : Address}
    (h : AArch64.writeThunk thunkAddress targetAddress buffer = .ok thunk) :
    thunk = ofWords (Thunks.writeThunk thunkAddress targetAddress) := by
  obtain ⟨template, hcopy, h⟩ := bind_eq_ok.mp h
  obtain rfl := copyFromSlice_ok hcopy
  obtain ⟨first, hfirst, h⟩ := bind_eq_ok.mp h
  rw [thunk_template_eq, onRange_adr, adrMask_eq] at hfirst
  obtain rfl := Except.ok.inj hfirst
  have hadd : ∀ value : BitVec 64,
      AArch64Instruction.add.writeToValue value false (leBytes 4 (0x91000210#32).toNat) =
        .ok (leBytes 4 (0x91000210#32 ||| value.setWidth 32 <<< 10).toNat) :=
    fun value => orFromSlice_word _ _
  rw [onRange_second (hadd _)] at h
  exact (Except.ok.inj h).symm

/-- A thunk arrives where its page is less than 4 GiB away from that of its target. -/
theorem pageError_eq_zero_iff (thunkAddress targetAddress : Address) :
    targetAddress - BitVec.ofInt 64 (Thunks.pageError thunkAddress targetAddress) = targetAddress ↔
      -2 ^ 32 ≤ (page targetAddress - page thunkAddress).toInt ∧
        (page targetAddress - page thunkAddress).toInt < 2 ^ 32 := by
  constructor
  · intro h
    have hzero : BitVec.ofInt 64 (Thunks.pageError thunkAddress targetAddress) = 0 :=
      sub_eq_self.mp h
    have herror := congrArg BitVec.toInt hzero
    unfold Thunks.pageError at herror
    have hmin := BitVec.le_toInt (page targetAddress - page thunkAddress)
    have hmax := BitVec.toInt_lt (x := page targetAddress - page thunkAddress)
    rw [BitVec.toInt_ofInt, Int.bmod_def, Int.bmod_def] at herror
    have hnone : (0 : BitVec 64).toInt = 0 := rfl
    omega
  · intro h
    rw [Thunks.pageError_eq_zero h.1 h.2]
    exact BitVec.sub_zero _

theorem thunk_jumpsTo_iff {buffer thunk : List UInt8} {thunkAddress targetAddress : Address}
    (h : AArch64.writeThunk thunkAddress targetAddress buffer = .ok thunk) :
    Isa.JumpsTo Isa.Arm.step 3 thunk thunkAddress targetAddress ↔
      -2 ^ 32 ≤ (page targetAddress - page thunkAddress).toInt ∧
        (page targetAddress - page thunkAddress).toInt < 2 ^ 32 := by
  obtain ⟨hadrp, hadd⟩ := Thunks.decode_writeThunk thunkAddress targetAddress
  have hjump : Isa.JumpsTo Isa.Arm.step 3 (ofWords [_, _, _]) thunkAddress _ :=
    Isa.Arm.jumpsTo thunkAddress hadrp hadd Thunks.decode_branchRegister
  have hlen : (ofWords (Thunks.writeThunk thunkAddress targetAddress)).length ≤ 2 ^ 64 := by
    rw [Isa.Memory.ofWords_length]
    exact Nat.le_of_ble_eq_true rfl
  rw [Thunks.page_add_pageCount] at hjump
  rw [writeThunk_eq h, ← pageError_eq_zero_iff]
  exact hjump.iff_eq hlen

/-! ### RISC-V -/

/-- Two instructions are filled in at the start. -/
theorem onRange_pair {write : List UInt8 → Fallible (List UInt8)} {a b a' b' : BitVec 32}
    (hwrite : write (leBytes 4 a.toNat ++ leBytes 4 b.toNat) =
      .ok (leBytes 4 a'.toNat ++ leBytes 4 b'.toNat)) (words : List (BitVec 32)) :
    onRange 0 8 write (ofWords (a :: b :: words)) = .ok (ofWords (a' :: b' :: words)) := by
  have hsplit : ∀ w w' : BitVec 32, ofWords (w :: w' :: words) =
      (leBytes 4 w.toNat ++ leBytes 4 w'.toNat) ++ ofWords words := by
    intro w w'
    rw [ofWords, List.flatMap_cons, List.flatMap_cons, List.append_assoc]
    rfl
  have height : ∀ w w' : BitVec 32, (leBytes 4 w.toNat ++ leBytes 4 w'.toNat).length = 8 := by
    intro w w'
    rw [List.length_append, leBytes_length, leBytes_length]
  have hslice : slice (ofWords (a :: b :: words)) 0 (8 - 0) =
      leBytes 4 a.toNat ++ leBytes 4 b.toNat := by
    rw [slice, List.drop_zero, hsplit]
    exact List.take_left' (height a b)
  have hsplice : splice (ofWords (a :: b :: words)) 0 (leBytes 4 a'.toNat ++ leBytes 4 b'.toNat) =
      ofWords (a' :: b' :: words) := by
    rw [splice, height, List.take_zero, List.nil_append, hsplit, hsplit, Nat.zero_add,
      List.drop_left' (height a b)]
  have hle : 8 ≤ (ofWords (a :: b :: words)).length := by
    rw [hsplit, List.length_append, height]
    omega
  rw [onRange, assert, if_pos hle, bind_ok, hslice, hwrite, bind_ok, hsplice]

theorem writeUType_word (value : BitVec 64) (word : BitVec 32) :
    RiscVInstruction.writeUType value (leBytes 4 word.toNat) =
      .ok (leBytes 4 ((word &&& utypeImmediateMask) |||
        (extractBitRange (value + 0x800) 12 32).setWidth 32 <<< 12).toNat) := by
  rw [RiscVInstruction.writeUType, andFromSlice_word, bind_ok, orFromSlice_word]

theorem writeIType_word (value : BitVec 64) (word : BitVec 32) :
    RiscVInstruction.writeIType value (leBytes 4 word.toNat) =
      .ok (leBytes 4 ((word &&& itypeImmediateMask) ||| (value <<< 20).setWidth 32).toNat) := by
  rw [RiscVInstruction.writeIType, andFromSlice_word, bind_ok, orFromSlice_word]

theorem uiType_words (value : BitVec 64) (a b : BitVec 32) :
    RiscVInstruction.uiType.writeToValue value (leBytes 4 a.toNat ++ leBytes 4 b.toNat) =
      .ok (leBytes 4 ((a &&& utypeImmediateMask) |||
          (extractBitRange (value + 0x800) 12 32).setWidth 32 <<< 12).toNat ++
        leBytes 4 ((b &&& itypeImmediateMask) ||| (value <<< 20).setWidth 32).toNat) := by
  have hfour : (leBytes 4 a.toNat).length = 4 := leBytes_length _ _
  have hle : 4 ≤ (leBytes 4 a.toNat ++ leBytes 4 b.toNat).length := by
    rw [List.length_append, hfour]
    omega
  rw [RiscVInstruction.writeToValue, assert, if_pos hle, bind_ok, List.take_left' hfour,
    List.drop_left' hfour, writeUType_word, bind_ok, writeIType_word, bind_ok]

theorem riscV_template_eq : RiscV64.PLT_ENTRY_TEMPLATE =
    ofWords [0x00000e17#32, 0x000e3e03#32, 0x000e0367#32, 0x00100073#32] := by decide

/-- The code goes through the slot whose distance its two immediates make up. -/
theorem riscV_jumpsThrough {buffer entry : List UInt8} {gotAddress pltAddress : Address}
    (h : RiscV64.writePltEntry buffer gotAddress pltAddress = .ok entry) :
    entry.length = 16 ∧ Isa.JumpsThrough Isa.RiscV.step (· &&& ~~~1#64) 3 entry pltAddress
      (pltAddress + pairValue ((gotAddress - pltAddress + 0x800).extractLsb' 12 20)
        ((gotAddress - pltAddress).extractLsb' 0 12)) := by
  obtain ⟨template, hcopy, h⟩ := bind_eq_ok.mp h
  obtain rfl := copyFromSlice_ok hcopy
  rw [riscV_template_eq, onRange_pair (uiType_words _ _ _)] at h
  obtain rfl := Except.ok.inj h
  generalize gotAddress - pltAddress = value
  have hupper : (0x00000e17#32 &&& utypeImmediateMask) = 0x00000e17#32 := by decide
  have hlower : (0x000e3e03#32 &&& itypeImmediateMask) = 0x000e3e03#32 := by decide
  have hshift : (value <<< 20).setWidth 32 = value.setWidth 32 <<< 20 :=
    BitVec.setWidth_shiftLeft_of_le (by decide)
  have himmUpper : (0x00000e17#32 |||
      (extractBitRange (value + 0x800) 12 32).setWidth 32 <<< 12).extractLsb' 12 20 =
        (value + 0x800).extractLsb' 12 20 := by
    rw [extractLsb'_immediate _ _ (by decide) (by decide)]
    apply BitVec.eq_of_getLsbD_eq
    intro i hi
    rw [BitVec.getLsbD_setWidth, BitVec.getLsbD_setWidth, getLsbD_extractBitRange _ (by decide),
      BitVec.getLsbD_extractLsb']
    simp [hi, show i < 32 by omega]
  have himmLower : (0x000e3e03#32 ||| value.setWidth 32 <<< 20).extractLsb' 20 12 =
      value.extractLsb' 0 12 := by
    rw [extractLsb'_immediate _ _ (by decide) (by decide),
      BitVec.setWidth_setWidth_of_le _ (by decide)]
    rfl
  rw [hupper, hlower, hshift]
  generalize (extractBitRange (value + 0x800) 12 32).setWidth 32 = upper at himmUpper ⊢
  generalize value.setWidth 32 = lower at himmLower ⊢
  have hauipc : ∀ {start len : Nat}, start + len ≤ 12 →
      (0x00000e17#32 ||| upper <<< 12).extractLsb' start len =
        (0x00000e17#32).extractLsb' start len :=
    fun hle => extractLsb'_below _ _ hle
  have hld : ∀ {start len : Nat}, start + len ≤ 20 →
      (0x000e3e03#32 ||| lower <<< 20).extractLsb' start len =
        (0x000e3e03#32).extractLsb' start len :=
    fun hle => extractLsb'_below _ _ hle
  have ht3 : (28#5) ≠ 0 := by decide
  constructor
  · rw [Isa.Memory.ofWords_length]
    rfl
  · rw [← himmUpper, ← himmLower, pairValue, ← BitVec.add_assoc]
    apply Isa.RiscV.jumpsThrough pltAddress ht3
    · exact (hauipc (by decide)).trans (by decide)
    · exact (hauipc (by decide)).trans (by decide)
    · exact (hld (by decide)).trans (by decide)
    · exact (hld (by decide)).trans (by decide)
    · exact (hld (by decide)).trans (by decide)
    · exact (hld (by decide)).trans (by decide)
    all_goals decide

theorem riscV_jumpsThrough_iff {buffer entry : List UInt8} {gotAddress pltAddress : Address}
    (h : RiscV64.writePltEntry buffer gotAddress pltAddress = .ok entry) :
    Isa.JumpsThrough Isa.RiscV.step (· &&& ~~~1#64) 3 entry pltAddress gotAddress ↔
      -2 ^ 31 - 0x800 ≤ (gotAddress - pltAddress).toInt ∧
        (gotAddress - pltAddress).toInt < 2 ^ 31 - 0x800 := by
  obtain ⟨hlen, hjump⟩ := riscV_jumpsThrough h
  have hsize : entry.length ≤ 2 ^ 64 := by
    rw [hlen]
    decide
  have hcancel : pltAddress + (gotAddress - pltAddress) = gotAddress := by
    rw [BitVec.add_comm]
    exact BitVec.sub_add_cancel ..
  rw [hjump.iff_eq hsize, ← expressible_iff]
  constructor
  · intro hslot
    exact ⟨_, _, by rw [← hslot, BitVec.add_comm, BitVec.add_sub_cancel]⟩
  · intro hexpressible
    obtain ⟨hmin, hmax⟩ := (expressible_iff _).mp hexpressible
    rw [pairValue_parts hmin hmax, hcancel]

/-! ### LoongArch64 -/

theorem page_toNat_eq (address : Address) :
    (page address).toNat = address.toNat - address.toNat % 4096 := by
  have hmod := A64.page_toNat address
  have hle : (page address).toNat ≤ address.toNat := by
    unfold page
    rw [BitVec.toNat_and]
    exact Nat.and_le_left
  have hlow : (address &&& 0xfff#64).toNat = address.toNat % 4096 := by
    rw [BitVec.toNat_and]
    exact Nat.and_two_pow_sub_one_eq_mod address.toNat 12
  have hsum := congrArg BitVec.toNat (A64.page_add address)
  have hlt := address.isLt
  rw [BitVec.toNat_add, hlow] at hsum
  omega

/-- Whole pages can be added before or after the page is taken. -/
theorem page_add_pages (address : Address) (pages : BitVec 64) :
    page (address + pages <<< 12) = page address + pages <<< 12 := by
  have hlt := address.isLt
  apply BitVec.eq_of_toNat_eq
  rw [page_toNat_eq, BitVec.toNat_add, BitVec.toNat_add, page_toNat_eq, BitVec.toNat_shiftLeft,
    Nat.shiftLeft_eq]
  omega

/-- The page of the slot is rounded so that the low part, which is signed, makes up for it. -/
theorem page_add_low (gotAddress : Address) :
    page (gotAddress + SIZE_2KB) + (gotAddress.extractLsb' 0 12).signExtend 64 = gotAddress := by
  have hlow : (gotAddress.extractLsb' 0 12).toNat = gotAddress.toNat % 4096 := by
    rw [BitVec.extractLsb'_toNat, Nat.shiftRight_zero]
  have hsigned : ((gotAddress.extractLsb' 0 12).signExtend 64).toInt =
      ((gotAddress.toNat % 4096 : Nat) : Int).bmod 4096 := by
    rw [BitVec.toInt_signExtend_of_le (by decide), BitVec.toInt_eq_toNat_bmod, hlow]
  have hlt := gotAddress.isLt
  have hsize : SIZE_2KB.toNat = 2048 := rfl
  have hlt' := ((gotAddress.extractLsb' 0 12).signExtend 64).isLt
  apply BitVec.eq_of_toNat_eq
  rw [BitVec.toInt_eq_toNat_cond, Int.bmod_def] at hsigned
  rw [BitVec.toNat_add, page_toNat_eq, BitVec.toNat_add, hsize]
  omega

/-- The upper part of a distance is all of it within 2 GiB. -/
theorem upper_eq_iff {distance : BitVec 64} (hpages : distance.toNat % 4096 = 0) :
    (distance.extractLsb' 12 20).signExtend 64 <<< 12 = distance ↔
      -2 ^ 31 ≤ distance.toInt ∧ distance.toInt < 2 ^ 31 := by
  have hupper := (distance.extractLsb' 12 20).le_toInt
  have hupper' := (distance.extractLsb' 12 20).toInt_lt
  have hbits : (distance.extractLsb' 12 20).toInt =
      ((distance.toNat / 4096 % 2 ^ 20 : Nat) : Int).bmod (2 ^ 20) := by
    rw [BitVec.toInt_eq_toNat_bmod, BitVec.extractLsb'_toNat, Nat.shiftRight_eq_div_pow]
  have hlt := distance.isLt
  rw [← BitVec.toInt_inj, upper_toInt]
  have hdistance := BitVec.toInt_eq_toNat_cond (x := distance)
  rw [Int.bmod_def] at hbits
  omega

theorem loongArch_template_eq : LoongArch64.PLT_ENTRY_TEMPLATE =
    ofWords [0x1a00000f#32, 0x28c001ef#32, 0x4c0001ed#32, 0x002a0000#32] := by decide

/-- The distance in pages that an entry has to express. -/
def pageDistance (gotAddress pltAddress : Address) : BitVec 64 :=
  page (gotAddress + SIZE_2KB) - page pltAddress

/-- The first instruction of an entry. Nothing keeps the distance out of its opcode. -/
def pcalau12i (distance : BitVec 64) : BitVec 32 :=
  0x1a00000f#32 ||| (distance >>> 12 <<< 5).setWidth 32

theorem loongArch_entry_eq {buffer entry : List UInt8} {gotAddress pltAddress : Address}
    (h : LoongArch64.writePltEntry buffer gotAddress pltAddress = .ok entry) :
    entry = ofWords [pcalau12i (pageDistance gotAddress pltAddress),
      0x28c001ef#32 ||| (gotAddress &&& 0xfff).setWidth 32 <<< 10, 0x4c0001ed#32,
      0x002a0000#32] := by
  obtain ⟨template, hcopy, h⟩ := bind_eq_ok.mp h
  obtain rfl := copyFromSlice_ok hcopy
  obtain ⟨first, hfirst, h⟩ := bind_eq_ok.mp h
  have hpcala : ∀ mask : BitVec 32, onRange 0 4 (orFromSlice · (toLeBytes 4 mask))
      (ofWords [0x1a00000f#32, 0x28c001ef#32, 0x4c0001ed#32, 0x002a0000#32]) =
        .ok (ofWords [0x1a00000f#32 ||| mask, 0x28c001ef#32, 0x4c0001ed#32, 0x002a0000#32]) :=
    fun mask => onRange_ofWords [] _ rfl (orFromSlice_word _ mask)
  have hdistance : ((gotAddress + SIZE_2KB) &&& ~~~PAGE_MASK_4KB) -
      (pltAddress &&& ~~~PAGE_MASK_4KB) = pageDistance gotAddress pltAddress := rfl
  rw [loongArch_template_eq, hdistance, hpcala] at hfirst
  obtain rfl := Except.ok.inj hfirst
  have hshift : ((gotAddress &&& 0xfff) <<< 10).setWidth 32 =
      (gotAddress &&& 0xfff).setWidth 32 <<< 10 := BitVec.setWidth_shiftLeft_of_le (by decide)
  have hld : ∀ first mask : BitVec 32, onRange 4 8 (orFromSlice · (toLeBytes 4 mask))
      (ofWords [first, 0x28c001ef#32, 0x4c0001ed#32, 0x002a0000#32]) =
        .ok (ofWords [first, 0x28c001ef#32 ||| mask, 0x4c0001ed#32, 0x002a0000#32]) :=
    fun first mask => @onRange_second (orFromSlice · (toLeBytes 4 mask)) 0x28c001ef#32
      (0x28c001ef#32 ||| mask) (orFromSlice_word _ mask) first [0x4c0001ed#32, 0x002a0000#32]
  rw [hld, hshift] at h
  rw [pcalau12i]
  exact (Except.ok.inj h).symm

theorem getLsbD_pages (distance : BitVec 64) {i : Nat} (hi : i < 32) :
    ((distance >>> 12 <<< 5).setWidth 32).getLsbD i = (decide (5 ≤ i) && distance.getLsbD (i + 7)) := by
  rw [BitVec.getLsbD_setWidth, BitVec.getLsbD_shiftLeft, BitVec.getLsbD_ushiftRight]
  by_cases hlow : i < 5
  · simp [hlow, show ¬ 5 ≤ i by omega]
  · simp [hi, show 5 ≤ i by omega, show i < 64 by omega, show 12 + (i - 5) = i + 7 by omega]

/-- The fields of the first instruction. -/
theorem pcalau12i_fields (distance : BitVec 64) :
    (pcalau12i distance).extractLsb' 25 7 = 0b0001101#7 ||| distance.extractLsb' 32 7 ∧
      (pcalau12i distance).extractLsb' 5 20 = distance.extractLsb' 12 20 ∧
      (pcalau12i distance).extractLsb' 0 5 = 15#5 ∧ (pcalau12i distance).getLsbD 28 = true := by
  unfold pcalau12i
  refine ⟨?_, ?_, ?_, ?_⟩
  · rw [BitVec.extractLsb'_or]
    congr 1
    apply BitVec.eq_of_getLsbD_eq
    intro i hi
    rw [BitVec.getLsbD_extractLsb', BitVec.getLsbD_extractLsb', getLsbD_pages _ (by omega)]
    simp [show 5 ≤ 25 + i by omega, show 25 + i + 7 = 32 + i by omega]
  · rw [BitVec.extractLsb'_or, show (0x1a00000f#32).extractLsb' 5 20 = 0#20 by decide,
      BitVec.zero_or]
    apply BitVec.eq_of_getLsbD_eq
    intro i hi
    rw [BitVec.getLsbD_extractLsb', BitVec.getLsbD_extractLsb', getLsbD_pages _ (by omega)]
    simp [show 5 + i + 7 = 12 + i by omega]
  · have hnone : ((distance >>> 12 <<< 5).setWidth 32).extractLsb' 0 5 = 0#5 := by
      apply BitVec.eq_of_getLsbD_eq
      intro i hi
      rw [BitVec.getLsbD_extractLsb', getLsbD_pages _ (by omega)]
      simp [show ¬ 5 ≤ i by omega]
    rw [BitVec.extractLsb'_or, hnone, BitVec.or_zero]
    decide
  · rw [BitVec.getLsbD_or]
    rfl

/-- The slot that an entry goes through if the opcode of its first instruction is as it was. -/
theorem loongArch_slot {first : BitVec 32} {upper : BitVec 20} (pltAddress gotAddress : Address)
    (hopcode : first.extractLsb' 25 7 = 0b0001101#7) (hupper : first.extractLsb' 5 20 = upper)
    (hrd : first.extractLsb' 0 5 = 15#5) :
    Isa.JumpsThrough Isa.LoongArch.step id 3 (ofWords [first,
        0x28c001ef#32 ||| (gotAddress &&& 0xfff).setWidth 32 <<< 10, 0x4c0001ed#32, 0x002a0000#32])
      pltAddress (page pltAddress + upper.signExtend 64 <<< 12 +
        (gotAddress.extractLsb' 0 12).signExtend 64) := by
  have hlow : ((gotAddress &&& 0xfff).setWidth 32).toNat < 2 ^ 12 := by
    have hmod : (gotAddress &&& 0xfff).toNat = gotAddress.toNat % 4096 :=
      toNat_and_pageMask gotAddress
    rw [BitVec.toNat_setWidth, hmod]
    omega
  have himm : (0x28c001ef#32 ||| (gotAddress &&& 0xfff).setWidth 32 <<< 10).extractLsb' 10 12 =
      gotAddress.extractLsb' 0 12 := by
    rw [extractLsb'_immediate _ _ (by decide) (by decide),
      BitVec.setWidth_setWidth_of_le _ (by decide), BitVec.setWidth_and,
      show (0xfff : BitVec 64).setWidth 12 = BitVec.allOnes 12 by decide, BitVec.and_allOnes]
    rfl
  generalize (gotAddress &&& 0xfff).setWidth 32 = low at hlow himm ⊢
  have habove : ∀ {start len : Nat}, 10 + 12 ≤ start →
      (0x28c001ef#32 ||| low <<< 10).extractLsb' start len =
        (0x28c001ef#32).extractLsb' start len :=
    fun hle => extractLsb'_above _ _ hlow hle
  have hbelow : ∀ {start len : Nat}, start + len ≤ 10 →
      (0x28c001ef#32 ||| low <<< 10).extractLsb' start len =
        (0x28c001ef#32).extractLsb' start len :=
    fun hle => extractLsb'_below _ _ hle
  have ht3 : (15#5) ≠ 0 := by decide
  rw [← page_add_pages, ← hupper, ← himm]
  apply Isa.LoongArch.jumpsThrough pltAddress ht3 hopcode hrd
  · have hfield : (0x28c001ef#32).extractLsb' 25 7 ≠ 0b0001101#7 := by decide
    rwa [habove (by decide)]
  · exact (habove (by decide)).trans (by decide)
  · exact (hbelow (by decide)).trans (by decide)
  · exact (hbelow (by decide)).trans (by decide)
  all_goals decide


theorem slot_eq_iff {pages : BitVec 64} {gotAddress pltAddress : Address} :
    page pltAddress + pages + (gotAddress.extractLsb' 0 12).signExtend 64 = gotAddress ↔
      pages = pageDistance gotAddress pltAddress := by
  have hgot := page_add_low gotAddress
  unfold pageDistance
  constructor
  · intro h
    have hpage : page pltAddress + pages = page (gotAddress + SIZE_2KB) :=
      add_right_cancel (h.trans hgot.symm)
    rw [← hpage, add_sub_cancel_left]
  · intro h
    rw [h, add_sub_cancel, hgot]

/-- An entry goes through its slot where the rounded page of the slot is less than 2 GiB after the
page of the entry. -/
theorem loongArch_jumpsThrough_iff {buffer entry : List UInt8} {gotAddress pltAddress : Address}
    (h : LoongArch64.writePltEntry buffer gotAddress pltAddress = .ok entry) :
    Isa.JumpsThrough Isa.LoongArch.step id 3 entry pltAddress gotAddress ↔
      (pageDistance gotAddress pltAddress).toNat < 2 ^ 31 := by
  rw [loongArch_entry_eq h]
  obtain ⟨hopcode, hupper, hrd, hbit⟩ := pcalau12i_fields (pageDistance gotAddress pltAddress)
  have hlen : (ofWords [pcalau12i (pageDistance gotAddress pltAddress),
      0x28c001ef#32 ||| (gotAddress &&& 0xfff).setWidth 32 <<< 10, 0x4c0001ed#32,
      0x002a0000#32]).length ≤ 2 ^ 64 := by
    rw [Isa.Memory.ofWords_length]
    exact Nat.le_of_ble_eq_true rfl
  have hhigh : ((pageDistance gotAddress pltAddress).extractLsb' 32 7).toNat =
      (pageDistance gotAddress pltAddress).toNat / 2 ^ 32 % 2 ^ 7 := by
    rw [BitVec.extractLsb'_toNat, Nat.shiftRight_eq_div_pow]
  have hnear : (pageDistance gotAddress pltAddress).toNat < 2 ^ 31 →
      (pageDistance gotAddress pltAddress).extractLsb' 32 7 = 0#7 := by
    intro hlt
    apply BitVec.eq_of_toNat_eq
    rw [hhigh]
    show _ = 0
    omega
  by_cases hintact : (pcalau12i (pageDistance gotAddress pltAddress)).extractLsb' 25 7 = 0b0001101#7
  · have hjump := loongArch_slot pltAddress gotAddress hintact hupper hrd
    have hpages : (pageDistance gotAddress pltAddress).toNat % 4096 = 0 := by
      have hgot := A64.page_toNat (gotAddress + SIZE_2KB)
      have hplt := A64.page_toNat pltAddress
      have hlt := (page pltAddress).isLt
      rw [pageDistance, BitVec.toNat_sub]
      omega
    have hpositive : ¬ (pageDistance gotAddress pltAddress).toNat / 2 ^ 32 % 2 ^ 7 = 127 := by
      intro hones
      have hfield : (pageDistance gotAddress pltAddress).extractLsb' 32 7 = 127#7 := by
        apply BitVec.eq_of_toNat_eq
        rw [hhigh, hones]
        rfl
      rw [hopcode, hfield] at hintact
      exact absurd hintact (by decide)
    have hdistance := BitVec.toInt_eq_toNat_cond (x := pageDistance gotAddress pltAddress)
    have hlt := (pageDistance gotAddress pltAddress).isLt
    rw [hjump.iff_eq hlen, slot_eq_iff, upper_eq_iff hpages, hdistance]
    omega
  · have hfar : ¬ (pageDistance gotAddress pltAddress).toNat < 2 ^ 31 := by
      intro hlt
      rw [hopcode, hnear hlt] at hintact
      exact hintact (by decide)
    exact iff_of_false (Isa.LoongArch.not_jumpsThrough hlen hintact hbit) hfar

/-! ### All of them -/

/-- The distances for which an entry is right, of those for which one is written. -/
def Architecture.InReach (arch : Architecture) (gotAddress pltAddress : Address) : Prop :=
  match arch with
  | riscV64 => -2 ^ 31 - 0x800 ≤ (gotAddress - pltAddress).toInt ∧
      (gotAddress - pltAddress).toInt < 2 ^ 31 - 0x800
  | loongArch64 => (pageDistance gotAddress pltAddress).toNat < 2 ^ 31
  | _ => True

def ThunkInReach (thunkAddress targetAddress : Address) : Prop :=
  -2 ^ 32 ≤ (page targetAddress - page thunkAddress).toInt ∧
    (page targetAddress - page thunkAddress).toInt < 2 ^ 32

/-- An entry that is written loads its slot and jumps to where that says, and a thunk goes to its
target, exactly for the distances that the instructions can express. RISC-V, LoongArch64 and thunks
do not report the others. -/
theorem entries_and_thunks_arrive_iff (address targetAddress : Address) :
    (∀ (arch : Architecture) (buffer entry : List UInt8),
      targetAddress.toNat % 8 = 0 → arch.writePltEntry buffer targetAddress address = .ok entry →
        (arch.JumpsThrough entry address targetAddress ↔ arch.InReach targetAddress address)) ∧
    (∀ buffer thunk : List UInt8,
      AArch64.writeThunk address targetAddress buffer = .ok thunk →
        (Isa.JumpsTo Isa.Arm.step 3 thunk address targetAddress ↔
          ThunkInReach address targetAddress)) := by
  constructor
  · intro arch buffer entry haligned hwrite
    cases arch with
    | x86_64 => exact iff_of_true (x86_64_jumpsThrough hwrite) trivial
    | aarch64 => exact iff_of_true (aarch64_jumpsThrough haligned hwrite) trivial
    | riscV64 => exact riscV_jumpsThrough_iff hwrite
    | loongArch64 => exact loongArch_jumpsThrough_iff hwrite
    | ppc64 => exact nomatch hwrite
    | machOAArch64 => exact iff_of_true (machO_jumpsThrough haligned hwrite) trivial
  · intro buffer thunk hwrite
    exact thunk_jumpsTo_iff hwrite

theorem riscV_entry_arrives : ∃ entry,
    Architecture.riscV64.writePltEntry (List.replicate 16 0) 0x12000 0x10000 = .ok entry ∧
      Architecture.riscV64.JumpsThrough entry 0x10000 0x12000 := by
  refine ⟨_, rfl, ?_⟩
  apply ((entries_and_thunks_arrive_iff 0x10000 0x12000).1 .riscV64 (List.replicate 16 0) _
    (by decide) rfl).mpr
  exact ⟨by decide, by decide⟩

/-- The slot is 2 GiB behind the entry. -/
theorem loongArch_entry_goes_astray : ∃ entry,
    Architecture.loongArch64.writePltEntry (List.replicate 16 0) 0x80020000 0x10000 = .ok entry ∧
      ¬ Architecture.loongArch64.JumpsThrough entry 0x10000 0x80020000 := by
  have hwrite : LoongArch64.writePltEntry (List.replicate 16 0) 0x80020000 0x10000 = .ok _ := rfl
  refine ⟨_, hwrite, ?_⟩
  intro h
  have hdistance := (loongArch_jumpsThrough_iff hwrite).mp h
  exact absurd hdistance (by decide)

end JdxLinker.Plt
