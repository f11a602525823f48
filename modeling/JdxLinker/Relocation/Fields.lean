import JdxLinker.Relocation.Kinds

/-!
# The fields of instructions

For each kind of instruction, the places of a word at which it holds the bits of a value, and the
forms in which its relocations give it a value: the bits of the value that they take, and the values
that they allow.
-/

namespace JdxLinker.Relocation

open BitFields

namespace RelocationInstruction

/-- Where an instruction has the bits of a value, in its bytes as one little-endian number. -/
def field : RelocationInstruction → List Piece
  | aarch64 .adr => [⟨0, 2, 29⟩, ⟨2, 19, 5⟩]
  | aarch64 .movkz | aarch64 .movnz => [⟨0, 16, 5⟩]
  | aarch64 .ldr | aarch64 .bcond => [⟨0, 19, 5⟩]
  | aarch64 .ldrRegister | aarch64 .add | aarch64 .ldSt | aarch64 .machOLow12 => [⟨0, 12, 10⟩]
  | aarch64 .tstBr => [⟨0, 14, 5⟩]
  | aarch64 .jumpCall => [⟨0, 26, 0⟩]
  | riscV .uiType => [⟨12, 20, 12⟩, ⟨0, 12, 52⟩]
  | riscV .uType => [⟨12, 20, 12⟩]
  | riscV .iType => [⟨0, 12, 20⟩]
  | riscV .sType => [⟨0, 5, 7⟩, ⟨5, 7, 25⟩]
  | riscV .bType => [⟨11, 1, 7⟩, ⟨1, 4, 8⟩, ⟨5, 6, 25⟩, ⟨12, 1, 31⟩]
  | riscV .jType => [⟨12, 8, 12⟩, ⟨11, 1, 20⟩, ⟨1, 10, 21⟩, ⟨20, 1, 31⟩]
  | riscV .cbType => [⟨5, 1, 2⟩, ⟨1, 2, 3⟩, ⟨6, 2, 5⟩, ⟨3, 2, 10⟩, ⟨8, 1, 12⟩]
  | riscV .cjType =>
      [⟨5, 1, 2⟩, ⟨1, 3, 3⟩, ⟨7, 1, 6⟩, ⟨6, 1, 7⟩, ⟨10, 1, 8⟩, ⟨8, 2, 9⟩, ⟨4, 1, 11⟩, ⟨11, 1, 12⟩]
  | riscV .cluiType => [⟨12, 5, 2⟩, ⟨17, 1, 12⟩]
  | loongArch64 .shift5 => [⟨0, 20, 5⟩]
  | loongArch64 .shift10 => [⟨0, 12, 10⟩]
  | loongArch64 .branch21 => [⟨0, 16, 10⟩, ⟨16, 5, 0⟩]
  | loongArch64 .branch26 => [⟨0, 16, 10⟩, ⟨16, 10, 0⟩]
  | loongArch64 .call30 => [⟨0, 9, 42⟩, ⟨9, 20, 5⟩]
  | loongArch64 .call36 => [⟨0, 16, 42⟩, ⟨16, 20, 5⟩]
  | ppc64 .d => [⟨0, 16, 0⟩]
  | ppc64 .ds | ppc64 .branch14 => [⟨2, 14, 2⟩]
  | ppc64 .branch24 => [⟨2, 24, 2⟩]

/-- The value of which a field holds bits. A high part is rounded for the sign of its low part. -/
def rounded : RelocationInstruction → BitVec 64 → BitVec 64
  | riscV .uType, value | riscV .cluiType, value => value + 0x800
  | _, value => value

/-- `MOVN` and `MOVZ` differ in a bit of their opcode, which stands for the sign. -/
def signBit : RelocationInstruction → Option Nat
  | aarch64 .movnz => some 30
  | _ => none

/-- Bits that a relocation of the instruction may change. -/
def inField (insn : RelocationInstruction) (i : Nat) : Bool :=
  insn.field.any (·.covers i) || insn.signBit == some i

/-- The bytes that an instruction, or a pair of them, takes. -/
def size : RelocationInstruction → Nat
  | riscV .uiType | loongArch64 .call30 | loongArch64 .call36 => 8
  | riscV .cbType | riscV .cjType | riscV .cluiType => 2
  | _ => 4

theorem field_apart (insn : RelocationInstruction) : Apart (8 * insn.size) insn.field := by
  cases insn with
  | aarch64 insn => cases insn <;> decide
  | riscV insn => cases insn <;> decide
  | loongArch64 insn => cases insn <;> decide
  | ppc64 insn => cases insn <;> decide

theorem size_le (insn : RelocationInstruction) : insn.size ≤ 8 := by
  cases insn with
  | aarch64 insn => cases insn <;> decide
  | riscV insn => cases insn <;> decide
  | loongArch64 insn => cases insn <;> decide
  | ppc64 insn => cases insn <;> decide

/-! ### The values that relocations give an instruction -/

/-- A relocation takes the bits from `start` up to `stop` of an aligned value in a range. -/
structure Form where
  start : Nat
  stop : Nat
  range : AllowedRange
  alignment : Nat

open AllowedRange in
def aarch64Forms : AArch64Instruction → List Form
  | .adr =>
      [⟨0, 21, fromBitSize 21 .signed, 1⟩, ⟨12, 33, fromBitSize 33 .signed, 1⟩,
        ⟨12, 33, noCheck, 1⟩]
  | .movkz =>
      [⟨0, 16, fromBitSize 16 .unsigned, 1⟩, ⟨0, 16, noCheck, 1⟩,
        ⟨16, 32, fromBitSize 32 .unsigned, 1⟩, ⟨16, 32, noCheck, 1⟩,
        ⟨32, 48, fromBitSize 48 .unsigned, 1⟩, ⟨32, 48, noCheck, 1⟩, ⟨48, 64, noCheck, 1⟩]
  | .movnz =>
      [⟨0, 16, fromBitSize 17 .signed, 1⟩, ⟨0, 16, noCheck, 1⟩,
        ⟨16, 32, fromBitSize 33 .signed, 1⟩, ⟨16, 32, noCheck, 1⟩, ⟨16, 33, noCheck, 1⟩,
        ⟨32, 48, fromBitSize 49 .signed, 1⟩, ⟨32, 48, noCheck, 1⟩, ⟨48, 64, noCheck, 1⟩]
  | .ldr => [⟨0, 21, fromBitSize 21 .signed, 1⟩, ⟨2, 21, fromBitSize 21 .signed, 4⟩]
  | .ldrRegister => [⟨3, 12, noCheck, 8⟩]
  | .add =>
      [⟨0, 12, fromBitSize 12 .unsigned, 1⟩, ⟨0, 12, noCheck, 1⟩,
        ⟨12, 24, fromBitSize 24 .unsigned, 1⟩]
  | .ldSt =>
      [⟨0, 12, fromBitSize 12 .unsigned, 1⟩, ⟨0, 12, noCheck, 1⟩,
        ⟨1, 12, fromBitSize 12 .unsigned, 2⟩, ⟨1, 12, noCheck, 2⟩,
        ⟨2, 12, fromBitSize 12 .unsigned, 4⟩, ⟨2, 12, noCheck, 4⟩,
        ⟨2, 21, fromBitSize 21 .signed, 4⟩,
        ⟨3, 12, fromBitSize 12 .unsigned, 8⟩, ⟨3, 12, noCheck, 8⟩,
        ⟨3, 15, fromBitSize 15 .unsigned, 8⟩,
        ⟨4, 12, fromBitSize 12 .unsigned, 16⟩, ⟨4, 12, noCheck, 16⟩]
  | .tstBr => [⟨2, 16, fromBitSize 16 .signed, 4⟩]
  | .bcond => [⟨2, 21, fromBitSize 21 .signed, 4⟩]
  | .jumpCall => [⟨2, 28, fromBitSize 28 .signed, 4⟩]
  | .machOLow12 => [⟨0, 12, noCheck, 1⟩]

def riscVForms : RiscVInstruction → List Form
  | .uiType => [⟨0, 64, ⟨-2 ^ 31, 2 ^ 32⟩, 1⟩]
  | .uType | .iType | .sType | .cluiType => [⟨0, 32, ⟨-2 ^ 31, 2 ^ 32⟩, 1⟩]
  | .bType => [⟨0, 32, ⟨-2 ^ 12, 2 ^ 12 - 1⟩, 2⟩]
  | .jType => [⟨0, 32, ⟨-2 ^ 20, 2 ^ 20 - 1⟩, 2⟩]
  | .cbType => [⟨0, 16, ⟨-2 ^ 8, 2 ^ 8 - 1⟩, 2⟩]
  | .cjType => [⟨0, 16, ⟨-2 ^ 11, 2 ^ 11 - 1⟩, 2⟩]

open AllowedRange in
def loongArch64Forms : LoongArch64Instruction → List Form
  | .shift5 => [⟨2, 22, fromBitSize 22 .signed, 4⟩, ⟨12, 32, noCheck, 1⟩, ⟨32, 52, noCheck, 1⟩]
  | .shift10 => [⟨0, 12, noCheck, 1⟩, ⟨2, 18, fromBitSize 18 .signed, 4⟩, ⟨52, 64, noCheck, 1⟩]
  | .branch21 => [⟨2, 23, fromBitSize 23 .signed, 4⟩]
  | .branch26 => [⟨2, 28, fromBitSize 28 .signed, 4⟩]
  | .call30 => [⟨2, 19, noCheck, 1⟩]
  | .call36 => [⟨2, 38, fromBitSize 38 .signed, 4⟩]

open AllowedRange in
def ppc64Forms : Ppc64Instruction → List Form
  | .d => [⟨0, 16, noCheck, 1⟩, ⟨16, 32, noCheck, 1⟩]
  | .ds => [⟨0, 16, noCheck, 4⟩]
  | .branch14 => [⟨0, 16, fromBitSize 16 .signed, 4⟩]
  | .branch24 => [⟨0, 26, fromBitSize 26 .signed, 4⟩]

/-- The forms in which the tables of relocations use an instruction. -/
def forms : RelocationInstruction → List Form
  | aarch64 insn => aarch64Forms insn
  | riscV insn => riscVForms insn
  | loongArch64 insn => loongArch64Forms insn
  | ppc64 insn => ppc64Forms insn

end RelocationInstruction

/-- A value that a relocation of an instruction accepts. -/
structure AcceptedValue (insn : RelocationInstruction) where
  form : RelocationInstruction.Form
  mem : form ∈ insn.forms
  value : BitVec 64
  aligned : value.toNat % form.alignment = 0
  allowed : form.range.contains value.toInt = true

namespace AcceptedValue

variable {insn : RelocationInstruction} (v : AcceptedValue insn)

def extracted : BitVec 64 := extractBitRange v.value v.form.start v.form.stop

def negative : Bool := decide (v.value.toInt < 0)

end AcceptedValue

end JdxLinker.Relocation
