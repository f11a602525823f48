import JdxLinker.Relocation.RiscV

/-!
# Immediates of the instructions of each architecture

The instructions of AArch64, LoongArch64 and PowerPC64 in which relocations store a value, next to
those of RISC-V, and the forms in which the relocations of each instruction give it a value.
-/

namespace JdxLinker.Relocation

open Fallible Bytes

/-! ### AArch64 -/

inductive AArch64Instruction where
  | adr
  | movkz
  | movnz
  | ldr
  | ldrRegister
  | add
  | ldSt
  | tstBr
  | bcond
  | jumpCall
  | machOLow12
  deriving DecidableEq, Repr

namespace AArch64Instruction

def adrMask (extractedValue : BitVec 64) : BitVec 32 :=
  (extractBitRange extractedValue 0 2).setWidth 32 <<< 29
    ||| (extractBitRange extractedValue 2 32).setWidth 32 <<< 5

/-- The opcode says the sign: `MOVN` for a negative value, `MOVZ` for another. -/
def movnzMask (extractedValue : BitVec 64) (negative : Bool) : BitVec 32 :=
  let value := if negative then ~~~extractedValue else extractedValue
  let opcode := if negative then 0x92800000#32 else 0xd2800000#32
  opcode ||| (extractBitRange value 0 16).setWidth 32 <<< 5

/-- The scale of the offset of a load or store, and none for another instruction. -/
def machOScale (insn : BitVec 32) : Nat :=
  if insn &&& 0x3b000000 = 0x39000000 then
    let scale := (insn >>> 30).toNat
    if scale = 0 ∧ insn &&& 0x04800000 = 0x04800000 then 4 else scale
  else 0

def writeToValue (insn : AArch64Instruction) (extractedValue : BitVec 64) (negative : Bool)
    (dest : List UInt8) : Fallible (List UInt8) :=
  match insn with
  | adr => orFromSlice dest (toLeBytes 4 (adrMask extractedValue))
  | movkz => orFromSlice dest (toLeBytes 4 (extractedValue.setWidth 32 <<< 5))
  | movnz => do
      let dest ← andFromSlice dest (toLeBytes 4 0x0060001f#32)
      orFromSlice dest (toLeBytes 4 (movnzMask extractedValue negative))
  | ldr => orFromSlice dest (toLeBytes 4 (extractedValue.setWidth 32 <<< 5))
  | ldrRegister => orFromSlice dest (toLeBytes 4 (extractedValue.setWidth 32 <<< 10))
  | add => orFromSlice dest (toLeBytes 4 (extractedValue.setWidth 32 <<< 10))
  | ldSt => orFromSlice dest (toLeBytes 4 (extractedValue.setWidth 32 <<< 10))
  | tstBr => orFromSlice dest (toLeBytes 4 (extractedValue.setWidth 32 <<< 5))
  | bcond => orFromSlice dest (toLeBytes 4 (extractedValue.setWidth 32 <<< 5))
  | jumpCall => orFromSlice dest (toLeBytes 4 (extractedValue.setWidth 32))
  | machOLow12 => do
      let insn ← u32FromSlice dest
      let dest ← andFromSlice dest (toLeBytes 4 (~~~(0xfff#32 <<< 10)))
      orFromSlice dest (toLeBytes 4 ((extractedValue.setWidth 32 >>> machOScale insn) <<< 10))

def readValue (insn : AArch64Instruction) (bytes : List UInt8) :
    Fallible (BitVec 64 × Bool) := do
  let word ← u32FromSlice bytes
  let value := word.setWidth 64
  match insn with
  | adr => .ok (lowBits (value >>> 29) 2 ||| lowBitsSigned (value >>> 5) 19 <<< 2, false)
  | movkz => .ok (lowBitsSigned (value >>> 5) 16, false)
  | movnz =>
      let negative := value &&& (1 <<< 30) == 0
      let v := lowBits (value >>> 5) 16
      .ok (if negative then ~~~v else v, negative)
  | ldr => .ok (lowBitsSigned (value >>> 5) 19, false)
  | ldrRegister => .ok (lowBits (value >>> 10) 12, false)
  | add => .ok (lowBits (value >>> 10) 12, false)
  | ldSt => .ok (lowBitsSigned (value >>> 10) 12, false)
  | tstBr => .ok (lowBitsSigned (value >>> 5) 14, false)
  | bcond => .ok (lowBitsSigned (value >>> 5) 19, false)
  | jumpCall => .ok (lowBitsSigned value 26, false)
  | machOLow12 => .error .panic

end AArch64Instruction

/-! ### LoongArch64 -/

inductive LoongArch64Instruction where
  | shift5
  | shift10
  | branch21
  | branch26
  | call30
  | call36
  deriving DecidableEq, Repr

namespace LoongArch64Instruction

def branchMask (extractedValue : BitVec 64) : BitVec 64 :=
  let lowPart := (extractedValue &&& 0xffff) <<< 10
  let highPart := extractedValue >>> 16
  lowPart ||| highPart

def call30Mask (extractedValue : BitVec 64) : BitVec 64 :=
  let lowPart := (extractedValue &&& 0x1ff) <<< (32 + 10)
  let highPart := (extractedValue &&& ~~~0x1ff) <<< 5
  lowPart ||| highPart

def call36Mask (extractedValue : BitVec 64) : BitVec 64 :=
  let lowPart := (extractedValue &&& 0xffff) <<< (32 + 10)
  let highPart := ((extractedValue + 0x8000) >>> 16) <<< 5
  lowPart ||| highPart

def call30Clear : BitVec 64 := 0xfff803ff#64 <<< 32 ||| 0xfe00001f#64

def call36Clear : BitVec 64 := 0xfc0003ff#64 <<< 32 ||| 0xfe00001f#64

def writeToValue (insn : LoongArch64Instruction) (extractedValue : BitVec 64)
    (dest : List UInt8) : Fallible (List UInt8) :=
  match insn with
  | shift5 => do
      let dest ← andFromSlice dest (toLeBytes 4 0xfe00001f#32)
      orFromSlice dest (toLeBytes 4 ((extractedValue <<< 5).setWidth 32))
  | shift10 => do
      let dest ← andFromSlice dest (toLeBytes 4 0xffc003ff#32)
      orFromSlice dest (toLeBytes 4 ((extractedValue <<< 10).setWidth 32))
  | branch26 => do
      let dest ← andFromSlice dest (toLeBytes 4 0xfc000000#32)
      orFromSlice dest (toLeBytes 4 ((branchMask extractedValue).setWidth 32))
  | branch21 => do
      let dest ← andFromSlice dest (toLeBytes 4 0xfc0003e0#32)
      orFromSlice dest (toLeBytes 4 ((branchMask extractedValue).setWidth 32))
  | call30 => do
      let dest ← andFromSlice dest (toLeBytes 8 call30Clear)
      orFromSlice dest (toLeBytes 8 (call30Mask extractedValue))
  | call36 => do
      let dest ← andFromSlice dest (toLeBytes 8 call36Clear)
      orFromSlice dest (toLeBytes 8 (call36Mask extractedValue))

def branch26Immediate (value : BitVec 32) : BitVec 32 :=
  let lowPart := (value >>> 10) &&& 0xffff
  let highPart := value &&& 0x3ff
  highPart <<< 16 ||| lowPart

def branch21Immediate (value : BitVec 32) : BitVec 32 :=
  let lowPart := (value >>> 10) &&& 0xffff
  let highPart := value &&& 0x1f
  highPart <<< 16 ||| lowPart

/-- Takes the high half of the pair for the first instruction. -/
def call30Immediate (value : BitVec 64) : BitVec 32 :=
  let insn1 := (value >>> 32).setWidth 32
  let insn2 := value.setWidth 32
  let highPart := ((insn1 >>> 5) &&& 0x7ffff) <<< 9
  let lowPart := (insn2 >>> 10) &&& 0x1ff
  highPart ||| lowPart

def call36Immediate (value : BitVec 64) : BitVec 64 :=
  let insn1 := value.setWidth 32
  let insn2 := (value >>> 32).setWidth 32
  let highPart := ((insn1 >>> 5) &&& 0xfffff).setWidth 64
  let lowPart := ((insn2 >>> 10) &&& 0xffff).setWidth 64
  ((highPart <<< 16 - 0x8000) &&& 0xffffffff) ||| lowPart

def readValue (insn : LoongArch64Instruction) (bytes : List UInt8) :
    Fallible (BitVec 64 × Bool) :=
  match insn with
  | shift5 => do
      let value ← u32FromSlice bytes
      .ok (((value >>> 5) &&& 0xfffff).setWidth 64, false)
  | shift10 => do
      let value ← u32FromSlice bytes
      .ok (((value >>> 10) &&& 0xfff).setWidth 64, false)
  | branch26 => do
      let value ← u32FromSlice bytes
      .ok (signedImmediate (branch26Immediate value) 6)
  | branch21 => do
      let value ← u32FromSlice bytes
      .ok (signedImmediate (branch21Immediate value) 11)
  | call30 => do
      let value ← u64FromSlice bytes
      .ok ((call30Immediate value).setWidth 64, false)
  | call36 => do
      let value ← u64FromSlice bytes
      .ok (call36Immediate value, false)

end LoongArch64Instruction

/-! ### PowerPC64 -/

inductive Ppc64Instruction where
  | d
  | ds
  | branch14
  | branch24
  deriving DecidableEq, Repr

namespace Ppc64Instruction

def fieldMask : Ppc64Instruction → BitVec 32
  | d => 0x0000ffff#32
  | ds | branch14 => 0x0000fffc#32
  | branch24 => 0x03fffffc#32

def writeToValue (insn : Ppc64Instruction) (extractedValue : BitVec 64) (dest : List UInt8) :
    Fallible (List UInt8) := do
  let word ← u32FromSlice dest
  let word := (word &&& ~~~insn.fieldMask) ||| (extractedValue.setWidth 32 &&& insn.fieldMask)
  .ok (splice dest 0 (toLeBytes 4 word))

def readValue (insn : Ppc64Instruction) (bytes : List UInt8) : Fallible (BitVec 64 × Bool) := do
  let word ← u32FromSlice bytes
  .ok ((word &&& insn.fieldMask).setWidth 64, false)

end Ppc64Instruction

/-! ### All of them -/

inductive RelocationInstruction where
  | aarch64 (insn : AArch64Instruction)
  | riscV (insn : RiscVInstruction)
  | loongArch64 (insn : LoongArch64Instruction)
  | ppc64 (insn : Ppc64Instruction)
  deriving DecidableEq, Repr

namespace RelocationInstruction

def writeToValue (insn : RelocationInstruction) (extractedValue : BitVec 64) (negative : Bool)
    (dest : List UInt8) : Fallible (List UInt8) :=
  match insn with
  | aarch64 insn => insn.writeToValue extractedValue negative dest
  | riscV insn => insn.writeToValue extractedValue dest
  | loongArch64 insn => insn.writeToValue extractedValue dest
  | ppc64 insn => insn.writeToValue extractedValue dest

def readValue (insn : RelocationInstruction) (bytes : List UInt8) :
    Fallible (BitVec 64 × Bool) :=
  match insn with
  | aarch64 insn => insn.readValue bytes
  | riscV insn => insn.readValue bytes
  | loongArch64 insn => insn.readValue bytes
  | ppc64 insn => insn.readValue bytes

end RelocationInstruction

end JdxLinker.Relocation
