import JdxLinker.Relocation.Stores

/-!
# What a written instruction holds

The bits that a write sets are those of the value at the places of the field. A field that is
cleared first then holds the value.
-/

namespace JdxLinker.Relocation

open BitFields ByteMasks

/-- A word holds what a write sets in places that it clears. -/
theorem Stored.holds {dest out : List UInt8} {clear set x : BitVec 64} {ps : List Piece}
    (hstored : Stored dest out clear set) (hfit : ∀ p ∈ ps, p.dest + p.length ≤ 64)
    (hclear : ∀ p ∈ ps, ∀ i < p.length, clear.getLsbD (p.dest + i) = true)
    (hset : Holds ps x set) : Holds ps x (wordOf out) := by
  intro p hp i hi
  have hplace := hfit p hp
  rw [getLsbD_wordOf out (by omega), hstored.bit, hclear p hp i hi, hset p hp i hi]
  simp

/-! ### Values that are shifted to their place -/

theorem shifted_holds (e : BitVec 64) (length dest : Nat) (h : dest + length ≤ 32) :
    Holds [⟨0, length, dest⟩] e (((e <<< dest).setWidth 32).setWidth 64) := by
  intro p hp i hi
  obtain rfl := List.mem_singleton.mp hp
  change i < length at hi
  change (((e <<< dest).setWidth 32).setWidth 64).getLsbD (dest + i) = e.getLsbD (0 + i)
  rw [BitVec.getLsbD_setWidth, BitVec.getLsbD_setWidth, BitVec.getLsbD_shiftLeft,
    Nat.add_sub_cancel_left, Nat.zero_add]
  simp [show dest + i < 64 by omega, show dest + i < 32 by omega]

theorem shifted_holds' (e : BitVec 64) (length dest : Nat) (h : dest + length ≤ 32) :
    Holds [⟨0, length, dest⟩] e ((e.setWidth 32 <<< dest).setWidth 64) := by
  intro p hp i hi
  obtain rfl := List.mem_singleton.mp hp
  change i < length at hi
  change ((e.setWidth 32 <<< dest).setWidth 64).getLsbD (dest + i) = e.getLsbD (0 + i)
  rw [BitVec.getLsbD_setWidth, BitVec.getLsbD_shiftLeft, BitVec.getLsbD_setWidth,
    Nat.add_sub_cancel_left, Nat.zero_add]
  simp [show dest + i < 64 by omega, show dest + i < 32 by omega, show i < 32 by omega]

/-! ### Values of which parts are put together -/

section Scattered

variable (e : BitVec 64)

/-- A part of a value that is moved to its place. -/
theorem extractBitRange_shift (start stop dest : Nat) (h : stop ≤ 64) :
    extractBitRange e start stop <<< dest = Piece.store 64 ⟨start, stop - start, dest⟩ e := by
  rw [extractBitRange_eq_bits e start stop h, Piece.store, BitVec.setWidth_eq]

/-- Parts that fit in a narrow word are not changed by a truncation. -/
theorem scatter_truncate {k : Nat} (hk : k ≤ 64) {ps : List Piece}
    (h : ∀ p ∈ ps, p.dest + p.length ≤ k) :
    ((scatter 64 ps e).setWidth k).setWidth 64 = scatter 64 ps e := by
  rw [setWidth_scatter_of_le hk, setWidth_scatter h]

theorem extractBit_shift (position dest : Nat) (h : position < 64) :
    extractBit e position <<< dest = Piece.store 64 ⟨position, 1, dest⟩ e := by
  rw [extractBit, extractBitRange_shift e position (position + 1) dest h,
    Nat.add_sub_cancel_left]

namespace RiscVInstruction

theorem stypeMask_eq : stypeMask e = scatter 64 (RelocationInstruction.riscV .sType).field e := by
  rw [stypeMask, extractBitRange_shift e 0 5 7 (by decide),
    extractBitRange_shift e 5 12 25 (by decide)]
  simp only [RelocationInstruction.field, scatter, List.foldr, BitVec.or_zero]

theorem btypeMask_eq : btypeMask e = scatter 64 (RelocationInstruction.riscV .bType).field e := by
  rw [btypeMask, extractBit_shift e 11 7 (by decide), extractBitRange_shift e 1 5 8 (by decide),
    extractBitRange_shift e 5 11 25 (by decide), extractBit_shift e 12 31 (by decide)]
  simp only [RelocationInstruction.field, scatter, List.foldr, BitVec.or_zero, BitVec.or_assoc]

theorem jtypeMask_eq : jtypeMask e = scatter 64 (RelocationInstruction.riscV .jType).field e := by
  rw [jtypeMask, extractBitRange_shift e 12 20 12 (by decide), extractBit_shift e 11 20 (by decide),
    extractBitRange_shift e 1 11 21 (by decide), extractBit_shift e 20 31 (by decide)]
  simp only [RelocationInstruction.field, scatter, List.foldr, BitVec.or_zero, BitVec.or_assoc]

theorem cbtypeMask_eq :
    cbtypeMask e = scatter 64 (RelocationInstruction.riscV .cbType).field e := by
  rw [cbtypeMask, extractBit_shift e 5 2 (by decide), extractBitRange_shift e 1 3 3 (by decide),
    extractBitRange_shift e 6 8 5 (by decide), extractBitRange_shift e 3 5 10 (by decide),
    extractBit_shift e 8 12 (by decide)]
  simp only [RelocationInstruction.field, scatter, List.foldr, BitVec.or_zero, BitVec.or_assoc]

theorem cjtypeMask_eq :
    cjtypeMask e = scatter 64 (RelocationInstruction.riscV .cjType).field e := by
  rw [cjtypeMask, extractBit_shift e 5 2 (by decide), extractBitRange_shift e 1 4 3 (by decide),
    extractBit_shift e 7 6 (by decide), extractBit_shift e 6 7 (by decide),
    extractBit_shift e 10 8 (by decide), extractBitRange_shift e 8 10 9 (by decide),
    extractBit_shift e 4 11 (by decide), extractBit_shift e 11 12 (by decide)]
  simp only [RelocationInstruction.field, scatter, List.foldr, BitVec.or_zero, BitVec.or_assoc]

theorem cluitypeMask_eq : cluitypeMask e =
    scatter 64 (RelocationInstruction.riscV .cluiType).field (e + 0x800) := by
  have hlow : ((e + 0x800) >>> 12 &&& 0x1f) <<< 2 = Piece.store 64 ⟨12, 5, 2⟩ (e + 0x800) := by
    rw [Piece.store, BitVec.setWidth_eq]
    rfl
  have hhigh : (((e + 0x800) >>> 12) >>> 5 &&& 1) <<< 12 =
      Piece.store 64 ⟨17, 1, 12⟩ (e + 0x800) := by
    rw [Piece.store, BitVec.setWidth_eq, ← BitVec.shiftRight_add]
    rfl
  simp only [cluitypeMask, hlow, hhigh, RelocationInstruction.field, scatter, List.foldr,
    BitVec.or_zero]

end RiscVInstruction

/-- The upper part of a value, from its bit 12 on. -/
theorem utypeMask_holds :
    Holds (RelocationInstruction.riscV .uType).field (e + 0x800)
      ((RelocationInstruction.utypeMask e).setWidth 64) := by
  intro p hp i hi
  obtain rfl := List.mem_singleton.mp hp
  change i < 20 at hi
  change ((RelocationInstruction.utypeMask e).setWidth 64).getLsbD (12 + i) =
    (e + 0x800).getLsbD (12 + i)
  rw [RelocationInstruction.utypeMask, BitVec.getLsbD_setWidth, BitVec.getLsbD_shiftLeft,
    Nat.add_sub_cancel_left, BitVec.getLsbD_setWidth, getLsbD_extractBitRange _ (by decide)]
  simp [show 12 + i < 64 by omega, show 12 + i < 32 by omega, show i < 32 by omega, hi]

/-- The upper part of a pair is rounded, and the lower part is not. -/
theorem uiType_holds (negative : Bool) :
    Holds [⟨12, 20, 12⟩] (e + 0x800) ((RelocationInstruction.riscV .uiType).stored e negative) ∧
      Holds [⟨0, 12, 52⟩] e ((RelocationInstruction.riscV .uiType).stored e negative) := by
  have hlower := shifted_holds e 12 20 (by decide)
  constructor
  · intro p hp i hi
    have hupper := utypeMask_holds e p hp i hi
    obtain rfl := List.mem_singleton.mp hp
    change i < 20 at hi
    rw [RelocationInstruction.stored, BitVec.getLsbD_or, hupper, BitVec.getLsbD_shiftLeft]
    simp [show 12 + i < 32 by omega]
  · intro p hp i hi
    obtain rfl := List.mem_singleton.mp hp
    change i < 12 at hi
    have hbit := hlower ⟨0, 12, 20⟩ (List.mem_singleton_self _) i hi
    change _ = e.getLsbD (0 + i)
    rw [RelocationInstruction.stored, BitVec.getLsbD_or, BitVec.getLsbD_setWidth,
      BitVec.getLsbD_of_ge (RelocationInstruction.utypeMask e) (52 + i) (by omega),
      BitVec.getLsbD_shiftLeft, show 52 + i - 32 = 20 + i by omega, hbit]
    simp [show 52 + i < 64 by omega, show 32 ≤ 52 + i by omega]

end Scattered

namespace RelocationInstruction

variable {insn : RelocationInstruction}

/-- The instructions that are cleared at their field, and nowhere else. -/
def Masked : RelocationInstruction → Prop
  | aarch64 _ => False
  | _ => True

theorem Masked.cleared_eq (h : insn.Masked) : insn.cleared = fieldMask 64 insn.field := by
  cases insn with
  | aarch64 insn => exact h.elim
  | riscV insn => cases insn <;> decide +kernel
  | loongArch64 insn => cases insn <;> decide +kernel
  | ppc64 insn => cases insn <;> decide +kernel

theorem Masked.getLsbD_cleared (h : insn.Masked) {p : Piece} (hp : p ∈ insn.field) {i : Nat}
    (hi : i < p.length) : insn.cleared.getLsbD (p.dest + i) = true := by
  have hfit := (insn.field_apart).1 p hp
  have hsize := insn.size_le
  rw [h.cleared_eq, getLsbD_fieldMask _ (by omega), List.any_eq_true]
  exact ⟨p, hp, by simp [Piece.covers, hi]⟩

/-- A pair of instructions of which the parts are rounded in different ways. -/
def isPair : RelocationInstruction → Bool
  | riscV .uiType | loongArch64 .call30 | loongArch64 .call36 => true
  | _ => false

theorem riscV_stored_holds (insn : RiscVInstruction) (hinsn : insn ≠ .uiType) (e : BitVec 64)
    (negative : Bool) :
    Holds (riscV insn).field ((riscV insn).rounded e) ((riscV insn).stored e negative) := by
  have happart : ∀ {n : Nat} (x : BitVec 64), Apart n (riscV insn).field → n ≤ 64 →
      Holds (riscV insn).field x
        (((scatter 64 (riscV insn).field x).setWidth n).setWidth 64) := by
    intro n x hapart hn
    rw [scatter_truncate x hn hapart.1]
    apply scatter_holds
    exact ⟨fun p hp => (hapart.1 p hp).trans hn, hapart.2⟩
  cases insn with
  | uiType => exact absurd rfl hinsn
  | uType => exact utypeMask_holds e
  | iType => exact shifted_holds e 12 20 (by decide)
  | sType =>
      rw [stored, RiscVInstruction.stypeMask_eq]
      exact happart (n := 32) e (by decide) (by decide)
  | bType =>
      rw [stored, RiscVInstruction.btypeMask_eq]
      exact happart (n := 32) e (by decide) (by decide)
  | jType =>
      rw [stored, RiscVInstruction.jtypeMask_eq]
      exact happart (n := 32) e (by decide) (by decide)
  | cbType =>
      rw [stored, RiscVInstruction.cbtypeMask_eq]
      exact happart (n := 16) e (by decide) (by decide)
  | cjType =>
      rw [stored, RiscVInstruction.cjtypeMask_eq]
      exact happart (n := 16) e (by decide) (by decide)
  | cluiType =>
      rw [stored, RiscVInstruction.cluitypeMask_eq]
      exact happart (n := 16) (e + 0x800) (by decide) (by decide)

/-- A value written into an instruction is found in its field. -/
theorem riscV_written (insn : RiscVInstruction) (hinsn : insn ≠ .uiType) (e : BitVec 64)
    {dest : List UInt8} (h : (riscV insn).size ≤ dest.length) :
    ∃ out, insn.writeToValue e dest = .ok out ∧ out.length = dest.length ∧
      Holds (riscV insn).field ((riscV insn).rounded e) (wordOf out) := by
  obtain ⟨out, hout, hstored⟩ := riscV_stored insn e false h
  have hfit : ∀ p ∈ (riscV insn).field, p.dest + p.length ≤ 64 := by
    intro p hp
    have hsize := (riscV insn).size_le
    have hfield := (riscV insn).field_apart.1 p hp
    omega
  have hmasked : (riscV insn).Masked := trivial
  refine ⟨out, hout, hstored.length, hstored.holds hfit ?_ (riscV_stored_holds insn hinsn e false)⟩
  intro p hp i hi
  exact hmasked.getLsbD_cleared hp hi

/-- A pair of instructions has the rounded upper part and the lower part. -/
theorem uiType_written (e : BitVec 64) {dest : List UInt8} (h : 8 ≤ dest.length) :
    ∃ out, RiscVInstruction.uiType.writeToValue e dest = .ok out ∧ out.length = dest.length ∧
      Holds [⟨12, 20, 12⟩] (e + 0x800) (wordOf out) ∧ Holds [⟨0, 12, 52⟩] e (wordOf out) := by
  obtain ⟨out, hout, hstored⟩ := riscV_stored .uiType e false h
  obtain ⟨hupper, hlower⟩ := uiType_holds e false
  have hmasked : (riscV .uiType).Masked := trivial
  refine ⟨out, hout, hstored.length, hstored.holds (by decide) ?_ hupper,
    hstored.holds (by decide) ?_ hlower⟩
  · intro p hp i hi
    exact hmasked.getLsbD_cleared (List.mem_cons.mpr (.inl (List.mem_singleton.mp hp))) hi
  · intro p hp i hi
    exact hmasked.getLsbD_cleared (List.mem_cons_of_mem _ hp) hi

end RelocationInstruction

end JdxLinker.Relocation
