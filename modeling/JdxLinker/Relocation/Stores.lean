import JdxLinker.Relocation.Fields

/-!
# What the writes clear and set

A write clears some bits of the word and sets others. Most instructions clear their field, which
leaves nothing of what was there. Those of AArch64 only add the bits of the value to the word.
-/

namespace JdxLinker.Relocation

open Fallible Bytes BitFields ByteMasks

namespace RelocationInstruction

/-- The bits that a write clears. -/
def cleared : RelocationInstruction → BitVec 64
  | aarch64 .movnz => (~~~0x0060001f#32).setWidth 64
  | aarch64 .machOLow12 => (0xfff#32 <<< 10).setWidth 64
  | aarch64 _ => 0
  | riscV .uiType =>
      (~~~utypeImmediateMask).setWidth 64 ||| (~~~itypeImmediateMask).setWidth 64 <<< 32
  | riscV .uType => (~~~utypeImmediateMask).setWidth 64
  | riscV .iType => (~~~itypeImmediateMask).setWidth 64
  | riscV .sType => (~~~stypeImmediateMask).setWidth 64
  | riscV .bType => (~~~btypeImmediateMask).setWidth 64
  | riscV .jType => (~~~jtypeImmediateMask).setWidth 64
  | riscV .cbType => (~~~cbtypeImmediateMask).setWidth 64
  | riscV .cjType => (~~~cjtypeImmediateMask).setWidth 64
  | riscV .cluiType => (~~~cluitypeImmediateMask).setWidth 64
  | loongArch64 .shift5 => (~~~0xfe00001f#32).setWidth 64
  | loongArch64 .shift10 => (~~~0xffc003ff#32).setWidth 64
  | loongArch64 .branch21 => (~~~0xfc0003e0#32).setWidth 64
  | loongArch64 .branch26 => (~~~0xfc000000#32).setWidth 64
  | loongArch64 .call30 => ~~~LoongArch64Instruction.call30Clear
  | loongArch64 .call36 => ~~~LoongArch64Instruction.call36Clear
  | ppc64 insn => insn.fieldMask.setWidth 64

def utypeMask (e : BitVec 64) : BitVec 32 := (extractBitRange (e + 0x800) 12 32).setWidth 32 <<< 12

/-- The bits that a write sets. Those of `machOLow12` depend on the word and are left out. -/
def stored (e : BitVec 64) (negative : Bool) : RelocationInstruction → BitVec 64
  | aarch64 .adr => (AArch64Instruction.adrMask e).setWidth 64
  | aarch64 .movnz => (AArch64Instruction.movnzMask e negative).setWidth 64
  | aarch64 .movkz | aarch64 .ldr | aarch64 .tstBr | aarch64 .bcond =>
      (e.setWidth 32 <<< 5).setWidth 64
  | aarch64 .ldrRegister | aarch64 .add | aarch64 .ldSt => (e.setWidth 32 <<< 10).setWidth 64
  | aarch64 .jumpCall => (e.setWidth 32).setWidth 64
  | aarch64 .machOLow12 => 0
  | riscV .uiType =>
      (utypeMask e).setWidth 64 ||| ((e <<< 20).setWidth 32).setWidth 64 <<< 32
  | riscV .uType => (utypeMask e).setWidth 64
  | riscV .iType => ((e <<< 20).setWidth 32).setWidth 64
  | riscV .sType => ((RiscVInstruction.stypeMask e).setWidth 32).setWidth 64
  | riscV .bType => ((RiscVInstruction.btypeMask e).setWidth 32).setWidth 64
  | riscV .jType => ((RiscVInstruction.jtypeMask e).setWidth 32).setWidth 64
  | riscV .cbType => ((RiscVInstruction.cbtypeMask e).setWidth 16).setWidth 64
  | riscV .cjType => ((RiscVInstruction.cjtypeMask e).setWidth 16).setWidth 64
  | riscV .cluiType => ((RiscVInstruction.cluitypeMask e).setWidth 16).setWidth 64
  | loongArch64 .shift5 => ((e <<< 5).setWidth 32).setWidth 64
  | loongArch64 .shift10 => ((e <<< 10).setWidth 32).setWidth 64
  | loongArch64 .branch21 | loongArch64 .branch26 =>
      ((LoongArch64Instruction.branchMask e).setWidth 32).setWidth 64
  | loongArch64 .call30 => LoongArch64Instruction.call30Mask e
  | loongArch64 .call36 => LoongArch64Instruction.call36Mask e
  | ppc64 insn => (e.setWidth 32 &&& insn.fieldMask).setWidth 64

end RelocationInstruction

/-! ### Writes of one mask -/

section Writes

variable {n m : Nat} {dest : List UInt8}

/-- A mask put into a slice. -/
theorem orFromSlice_stored {len : Nat} (mask : BitVec n) (hn : n = 8 * len) (hlen : len ≤ 8)
    (h : len ≤ dest.length) :
    ∃ out, orFromSlice dest (toLeBytes len mask) = .ok out ∧
      Stored dest out 0 (mask.setWidth 64) := by
  subst hn
  refine ⟨_, orFromSlice_toLeBytes mask h, ?_⟩
  have hstored := stored_or mask h hlen
  rwa [BitVec.setWidth_eq] at hstored

/-- A mask put into a slice of which some bits are cleared first. -/
theorem maskedWrite_stored (len : Nat) (keep : BitVec n) (mask : BitVec m) (hn : n = 8 * len) (hlen : len ≤ 8)
    (h : len ≤ dest.length) :
    ∃ out, (andFromSlice dest (toLeBytes len keep) >>= fun dest =>
        orFromSlice dest (toLeBytes len mask)) = .ok out ∧
      Stored dest out ((~~~keep).setWidth 64) ((mask.setWidth n).setWidth 64) := by
  subst hn
  exact stored_and_or keep mask h rfl hlen

/-- Writes to the first half of a pair of instructions and to the rest. -/
theorem Stored.append {upper lower : List UInt8} {c s c' s' : BitVec 32} (h : 4 ≤ dest.length)
    (hupper : Stored (dest.take 4) upper (c.setWidth 64) (s.setWidth 64))
    (hlower : Stored (dest.drop 4) lower (c'.setWidth 64) (s'.setWidth 64)) :
    Stored dest (upper ++ lower) (c.setWidth 64 ||| c'.setWidth 64 <<< 32)
      (s.setWidth 64 ||| s'.setWidth 64 <<< 32) where
  length := by
    rw [List.length_append, hupper.length, hlower.length, List.length_take, List.length_drop]
    omega
  bit i := by
    have hfour : upper.length = 4 := by
      rw [hupper.length, List.length_take]
      omega
    have hhigh : ∀ w w' : BitVec 32, (w.setWidth 64 ||| w'.setWidth 64 <<< 32).getLsbD i =
        if i < 32 then w.getLsbD i else w'.getLsbD (i - 32) := by
      intro w w'
      rw [BitVec.getLsbD_or, BitVec.getLsbD_setWidth, BitVec.getLsbD_shiftLeft,
        BitVec.getLsbD_setWidth]
      by_cases hi : i < 32
      · simp [hi, show i < 64 by omega]
      · rw [BitVec.getLsbD_of_ge w i (by omega)]
        by_cases h64 : i < 64
        · simp [hi, h64, show i - 32 < 64 by omega]
        · simp [hi, h64, BitVec.getLsbD_of_ge w' (i - 32) (by omega)]
    rw [bitAt_append, hfour, hhigh, hhigh]
    by_cases hi : i < 32
    · rw [if_pos (by omega), if_pos hi, if_pos hi, hupper.bit, bitAt_take,
        BitVec.getLsbD_setWidth, BitVec.getLsbD_setWidth]
      simp [hi, show i < 64 by omega]
    · rw [if_neg (by omega), if_neg hi, if_neg hi, hlower.bit, bitAt_drop,
        BitVec.getLsbD_setWidth, BitVec.getLsbD_setWidth]
      have hsum : 8 * 4 + (i - 8 * 4) = i := by omega
      by_cases h64 : i - 8 * 4 < 64
      · rw [hsum]
        simp [h64]
      · rw [hsum, BitVec.getLsbD_of_ge c' (i - 32) (by omega),
          BitVec.getLsbD_of_ge s' (i - 32) (by omega)]
        simp

/-- A word written over the first four bytes. -/
theorem splice_stored (mask set : BitVec 32) (h : 4 ≤ dest.length) :
    Stored dest (splice dest 0 (toLeBytes 4
        ((BitVec.ofNat 32 (readLe (dest.take 4)) &&& ~~~mask) ||| (set &&& mask))))
      (mask.setWidth 64) ((set &&& mask).setWidth 64) where
  length := splice_length (by rwa [toLeBytes_length, Nat.zero_add])
  bit i := by
    rw [splice, List.take_zero, List.nil_append, toLeBytes_length, bitAt_append, toLeBytes_length,
      bitAt_drop, bitAt_toLeBytes, BitVec.getLsbD_setWidth, BitVec.getLsbD_setWidth]
    by_cases hi : i < 32
    · rw [if_pos (by omega), decide_eq_true (by omega : i < 8 * 4), Bool.true_and, BitVec.getLsbD_or,
        BitVec.getLsbD_and, getLsbD_ofNat_take dest 32 4 hi (by omega), BitVec.getLsbD_not]
      simp [hi, show i < 64 by omega]
    · have hsum : 8 * (0 + 4) + (i - 8 * 4) = i := by omega
      rw [if_neg (by omega), hsum, BitVec.getLsbD_of_ge mask i (by omega),
        BitVec.getLsbD_of_ge (set &&& mask) i (by omega)]
      simp

end Writes

/-! ### The writes of all instructions -/

namespace RelocationInstruction

theorem riscV_stored (insn : RiscVInstruction) (e : BitVec 64) (negative : Bool)
    {dest : List UInt8} (h : (riscV insn).size ≤ dest.length) :
    ∃ out, insn.writeToValue e dest = .ok out ∧
      Stored dest out (riscV insn).cleared ((riscV insn).stored e negative) := by
  cases insn with
  | uiType =>
      have hlen : 8 ≤ dest.length := h
      obtain ⟨upper, hupper, hstored⟩ := maskedWrite_stored 4 utypeImmediateMask (utypeMask e) rfl
        (by decide) (by rw [List.length_take]; omega : 4 ≤ (dest.take 4).length)
      obtain ⟨lower, hlower, hstored'⟩ := maskedWrite_stored 4 itypeImmediateMask
        ((e <<< 20).setWidth 32) rfl (by decide)
        (by rw [List.length_drop]; omega : 4 ≤ (dest.drop 4).length)
      rw [BitVec.setWidth_eq] at hstored hstored'
      refine ⟨upper ++ lower, ?_, hstored.append (by omega) hstored'⟩
      rw [RiscVInstruction.writeToValue, assert, if_pos (by omega), bind_ok]
      rw [show RiscVInstruction.writeUType e (dest.take 4) = .ok upper from hupper, bind_ok,
        show RiscVInstruction.writeIType e (dest.drop 4) = .ok lower from hlower, bind_ok]
  | uType =>
      have hwrite := maskedWrite_stored 4 utypeImmediateMask (utypeMask e) rfl (by decide) h
      rwa [BitVec.setWidth_eq] at hwrite
  | iType =>
      have hwrite := maskedWrite_stored 4 itypeImmediateMask ((e <<< 20).setWidth 32) rfl
        (by decide) h
      rwa [BitVec.setWidth_eq] at hwrite
  | sType =>
      have hwrite := maskedWrite_stored 4 stypeImmediateMask
        ((RiscVInstruction.stypeMask e).setWidth 32) rfl (by decide) h
      rwa [BitVec.setWidth_eq] at hwrite
  | bType =>
      have hwrite := maskedWrite_stored 4 btypeImmediateMask
        ((RiscVInstruction.btypeMask e).setWidth 32) rfl (by decide) h
      rwa [BitVec.setWidth_eq] at hwrite
  | jType =>
      have hwrite := maskedWrite_stored 4 jtypeImmediateMask
        ((RiscVInstruction.jtypeMask e).setWidth 32) rfl (by decide) h
      rwa [BitVec.setWidth_eq] at hwrite
  | cbType =>
      exact maskedWrite_stored 2 cbtypeImmediateMask (RiscVInstruction.cbtypeMask e) rfl
        (by decide) h
  | cjType =>
      exact maskedWrite_stored 2 cjtypeImmediateMask (RiscVInstruction.cjtypeMask e) rfl
        (by decide) h
  | cluiType =>
      have hwrite := maskedWrite_stored 2 cluitypeImmediateMask
        ((RiscVInstruction.cluitypeMask e).setWidth 16) rfl (by decide) h
      rwa [BitVec.setWidth_eq] at hwrite

theorem aarch64_stored (insn : AArch64Instruction) (hinsn : insn ≠ .machOLow12) (e : BitVec 64)
    (negative : Bool) {dest : List UInt8} (h : (aarch64 insn).size ≤ dest.length) :
    ∃ out, insn.writeToValue e negative dest = .ok out ∧
      Stored dest out (aarch64 insn).cleared ((aarch64 insn).stored e negative) := by
  have hor : ∀ mask : BitVec 32, ∃ out, orFromSlice dest (toLeBytes 4 mask) = .ok out ∧
      Stored dest out 0 (mask.setWidth 64) := fun mask => orFromSlice_stored mask rfl (by decide) h
  cases insn with
  | adr => exact hor (AArch64Instruction.adrMask e)
  | movkz | ldr | tstBr | bcond => exact hor (e.setWidth 32 <<< 5)
  | movnz =>
      have hwrite := maskedWrite_stored 4 0x0060001f#32
        (AArch64Instruction.movnzMask e negative) rfl (by decide) h
      rwa [BitVec.setWidth_eq] at hwrite
  | ldrRegister | add | ldSt => exact hor (e.setWidth 32 <<< 10)
  | jumpCall => exact hor (e.setWidth 32)
  | machOLow12 => exact absurd rfl hinsn

theorem loongArch64_stored (insn : LoongArch64Instruction) (e : BitVec 64) (negative : Bool)
    {dest : List UInt8} (h : (loongArch64 insn).size ≤ dest.length) :
    ∃ out, insn.writeToValue e dest = .ok out ∧
      Stored dest out (loongArch64 insn).cleared ((loongArch64 insn).stored e negative) := by
  cases insn with
  | shift5 =>
      have hwrite := maskedWrite_stored 4 0xfe00001f#32 ((e <<< 5).setWidth 32) rfl
        (by decide) h
      rwa [BitVec.setWidth_eq] at hwrite
  | shift10 =>
      have hwrite := maskedWrite_stored 4 0xffc003ff#32 ((e <<< 10).setWidth 32) rfl
        (by decide) h
      rwa [BitVec.setWidth_eq] at hwrite
  | branch21 =>
      have hwrite := maskedWrite_stored 4 0xfc0003e0#32
        ((LoongArch64Instruction.branchMask e).setWidth 32) rfl (by decide) h
      rwa [BitVec.setWidth_eq] at hwrite
  | branch26 =>
      have hwrite := maskedWrite_stored 4 0xfc000000#32
        ((LoongArch64Instruction.branchMask e).setWidth 32) rfl (by decide) h
      rwa [BitVec.setWidth_eq] at hwrite
  | call30 =>
      have hwrite := maskedWrite_stored 8 LoongArch64Instruction.call30Clear
        (LoongArch64Instruction.call30Mask e) rfl (by decide) h
      rwa [BitVec.setWidth_eq, BitVec.setWidth_eq, BitVec.setWidth_eq] at hwrite
  | call36 =>
      have hwrite := maskedWrite_stored 8 LoongArch64Instruction.call36Clear
        (LoongArch64Instruction.call36Mask e) rfl (by decide) h
      rwa [BitVec.setWidth_eq, BitVec.setWidth_eq, BitVec.setWidth_eq] at hwrite

theorem ppc64_stored (insn : Ppc64Instruction) (e : BitVec 64) (negative : Bool)
    {dest : List UInt8} (h : (ppc64 insn).size ≤ dest.length) :
    ∃ out, insn.writeToValue e dest = .ok out ∧
      Stored dest out (ppc64 insn).cleared ((ppc64 insn).stored e negative) := by
  have hlen : 4 ≤ dest.length := h
  refine ⟨_, ?_, splice_stored insn.fieldMask (e.setWidth 32) hlen⟩
  rw [Ppc64Instruction.writeToValue, u32FromSlice, assert, if_pos hlen]
  rfl

/-- What a write does to the bits of a slice. -/
theorem writeToValue_stored (insn : RelocationInstruction) (hinsn : insn ≠ aarch64 .machOLow12)
    (e : BitVec 64) (negative : Bool) {dest : List UInt8} (h : insn.size ≤ dest.length) :
    ∃ out, insn.writeToValue e negative dest = .ok out ∧
      Stored dest out insn.cleared (insn.stored e negative) := by
  cases insn with
  | aarch64 insn => exact aarch64_stored insn (fun heq => hinsn (by rw [heq])) e negative h
  | riscV insn => exact riscV_stored insn e negative h
  | loongArch64 insn => exact loongArch64_stored insn e negative h
  | ppc64 insn => exact ppc64_stored insn e negative h

end RelocationInstruction

end JdxLinker.Relocation
