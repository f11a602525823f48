import JdxLinker.Relocation.Slices

/-!
# Immediates of RISC-V instructions

How a relocation value is put into the immediate of an instruction of each format, and how it is
read back.
-/

namespace JdxLinker.Relocation

open Fallible BitFields

inductive RiscVInstruction where
  /-- An `auipc` and the `jalr` after it. -/
  | uiType
  | uType
  | iType
  | sType
  | bType
  | jType
  | cbType
  | cjType
  | cluiType
  deriving DecidableEq, Repr

def utypeImmediateMask : BitVec 32 := 0b00000000000000000000111111111111#32
def itypeImmediateMask : BitVec 32 := 0b00000000000011111111111111111111#32
def stypeImmediateMask : BitVec 32 := 0b00000001111111111111000001111111#32
def btypeImmediateMask : BitVec 32 := 0b00000001111111111111000001111111#32
def jtypeImmediateMask : BitVec 32 := 0b00000000000000000000111111111111#32

def cbtypeImmediateMask : BitVec 16 := 0b1110001110000011#16
def cjtypeImmediateMask : BitVec 16 := 0b1110000000000011#16
def cluitypeImmediateMask : BitVec 16 := 0b1110111110000011#16

namespace RiscVInstruction

/-! ### Writing -/

/-- The `0x800` makes up for the sign of the low part, which is added to this one. -/
def writeUType (extractedValue : BitVec 64) (dest : List UInt8) : Fallible (List UInt8) := do
  let mask := (extractBitRange (extractedValue + 0x800) 12 32).setWidth 32 <<< 12
  let dest ← andFromSlice dest (toLeBytes 4 utypeImmediateMask)
  orFromSlice dest (toLeBytes 4 mask)

def writeIType (extractedValue : BitVec 64) (dest : List UInt8) : Fallible (List UInt8) := do
  let mask := extractedValue <<< 20
  let dest ← andFromSlice dest (toLeBytes 4 itypeImmediateMask)
  orFromSlice dest (toLeBytes 4 (mask.setWidth 32))

def stypeMask (extractedValue : BitVec 64) : BitVec 64 :=
  extractBitRange extractedValue 0 5 <<< 7
    ||| extractBitRange extractedValue 5 12 <<< 25

def btypeMask (extractedValue : BitVec 64) : BitVec 64 :=
  extractBit extractedValue 11 <<< 7
    ||| extractBitRange extractedValue 1 5 <<< 8
    ||| extractBitRange extractedValue 5 11 <<< 25
    ||| extractBit extractedValue 12 <<< 31

def jtypeMask (extractedValue : BitVec 64) : BitVec 64 :=
  extractBitRange extractedValue 12 20 <<< 12
    ||| extractBit extractedValue 11 <<< 20
    ||| extractBitRange extractedValue 1 11 <<< 21
    ||| extractBit extractedValue 20 <<< 31

def cbtypeMask (extractedValue : BitVec 64) : BitVec 64 :=
  extractBit extractedValue 5 <<< 2
    ||| extractBitRange extractedValue 1 3 <<< 3
    ||| extractBitRange extractedValue 6 8 <<< 5
    ||| extractBitRange extractedValue 3 5 <<< 10
    ||| extractBit extractedValue 8 <<< 12

def cjtypeMask (extractedValue : BitVec 64) : BitVec 64 :=
  extractBit extractedValue 5 <<< 2
    ||| extractBitRange extractedValue 1 4 <<< 3
    ||| extractBit extractedValue 7 <<< 6
    ||| extractBit extractedValue 6 <<< 7
    ||| extractBit extractedValue 10 <<< 8
    ||| extractBitRange extractedValue 8 10 <<< 9
    ||| extractBit extractedValue 4 <<< 11
    ||| extractBit extractedValue 11 <<< 12

def cluitypeMask (extractedValue : BitVec 64) : BitVec 64 :=
  let hi20 := (extractedValue + 0x800) >>> 12
  (hi20 &&& 0x1f) <<< 2 ||| ((hi20 >>> 5) &&& 1) <<< 12

def writeToValue (insn : RiscVInstruction) (extractedValue : BitVec 64) (dest : List UInt8) :
    Fallible (List UInt8) :=
  match insn with
  | uiType => do
      assert (4 ≤ dest.length)
      let upper ← writeUType extractedValue (dest.take 4)
      let lower ← writeIType extractedValue (dest.drop 4)
      .ok (upper ++ lower)
  | uType => writeUType extractedValue dest
  | iType => writeIType extractedValue dest
  | sType => do
      let dest ← andFromSlice dest (toLeBytes 4 stypeImmediateMask)
      orFromSlice dest (toLeBytes 4 ((stypeMask extractedValue).setWidth 32))
  | bType => do
      let dest ← andFromSlice dest (toLeBytes 4 btypeImmediateMask)
      orFromSlice dest (toLeBytes 4 ((btypeMask extractedValue).setWidth 32))
  | jType => do
      let dest ← andFromSlice dest (toLeBytes 4 jtypeImmediateMask)
      orFromSlice dest (toLeBytes 4 ((jtypeMask extractedValue).setWidth 32))
  | cbType => do
      let dest ← andFromSlice dest (toLeBytes 2 cbtypeImmediateMask)
      orFromSlice dest (toLeBytes 2 (cbtypeMask extractedValue))
  | cjType => do
      let dest ← andFromSlice dest (toLeBytes 2 cjtypeImmediateMask)
      orFromSlice dest (toLeBytes 2 (cjtypeMask extractedValue))
  | cluiType => do
      let dest ← andFromSlice dest (toLeBytes 2 cluitypeImmediateMask)
      orFromSlice dest (toLeBytes 2 ((cluitypeMask extractedValue).setWidth 16))

/-! ### Reading -/

def readUType (bytes : List UInt8) : Fallible (BitVec 64 × Bool) := do
  let value ← u32FromSlice bytes
  let imm := (value >>> 12) &&& 0xfffff
  let adjusted := sext32 imm 12
  .ok (adjusted.signExtend 64 - 0x800, false)

def readIType (bytes : List UInt8) : Fallible (BitVec 64 × Bool) := do
  let value ← u32FromSlice bytes
  .ok (signedImmediate ((value >>> 20) &&& 0xfff) 20)

def stypeImmediate (value : BitVec 32) : BitVec 32 :=
  let immLow := (value >>> 7) &&& 0x1f
  let immHigh := (value >>> 25) &&& 0x7f
  immHigh <<< 5 ||| immLow

def btypeImmediate (value : BitVec 32) : BitVec 32 :=
  let imm11 := (value >>> 7) &&& 0x1
  let imm1_4 := (value >>> 8) &&& 0xf
  let imm5_10 := (value >>> 25) &&& 0x3f
  let imm12 := (value >>> 31) &&& 0x1
  imm12 <<< 12 ||| imm11 <<< 11 ||| imm5_10 <<< 5 ||| imm1_4 <<< 1

def jtypeImmediate (value : BitVec 32) : BitVec 32 :=
  let imm12_19 := (value >>> 12) &&& 0xff
  let imm11 := (value >>> 20) &&& 0x1
  let imm1_10 := (value >>> 21) &&& 0x3ff
  let imm20 := (value >>> 31) &&& 0x1
  imm20 <<< 20 ||| imm12_19 <<< 12 ||| imm11 <<< 11 ||| imm1_10 <<< 1

def cbtypeImmediate (value : BitVec 16) : BitVec 16 :=
  let imm5 := (value >>> 2) &&& 0x1
  let imm1_2 := (value >>> 3) &&& 0x3
  let imm6_7 := (value >>> 5) &&& 0x3
  let imm3_4 := (value >>> 10) &&& 0x3
  let imm8 := (value >>> 12) &&& 0x1
  imm8 <<< 8 ||| imm6_7 <<< 6 ||| imm5 <<< 5 ||| imm3_4 <<< 3 ||| imm1_2 <<< 1

def cjtypeImmediate (value : BitVec 16) : BitVec 16 :=
  let imm5 := (value >>> 2) &&& 0x1
  let imm1_3 := (value >>> 3) &&& 0x7
  let imm7 := (value >>> 6) &&& 0x1
  let imm6 := (value >>> 7) &&& 0x1
  let imm10 := (value >>> 8) &&& 0x1
  let imm8_9 := (value >>> 9) &&& 0x3
  let imm4 := (value >>> 11) &&& 0x1
  let imm11 := (value >>> 12) &&& 0x1
  imm11 <<< 11 ||| imm10 <<< 10 ||| imm8_9 <<< 8 ||| imm7 <<< 7 ||| imm6 <<< 6 ||| imm5 <<< 5
    ||| imm4 <<< 4 ||| imm1_3 <<< 1

def cluitypeImmediate (value : BitVec 16) : BitVec 16 :=
  let nzimm4_0 := (value >>> 2) &&& 0x1f
  let nzimm5 := (value >>> 12) &&& 0x1
  nzimm5 <<< 5 ||| nzimm4_0

def readValue (insn : RiscVInstruction) (bytes : List UInt8) : Fallible (BitVec 64 × Bool) :=
  match insn with
  | uiType => do
      assert (4 ≤ bytes.length)
      let (hi, _) ← readUType (bytes.take 4)
      let (lo, _) ← readIType (bytes.drop 4)
      .ok (hi <<< 12 ||| lo, false)
  | uType => readUType bytes
  | iType => readIType bytes
  | sType => do
      let value ← u32FromSlice bytes
      .ok (signedImmediate (stypeImmediate value) 20)
  | bType => do
      let value ← u32FromSlice bytes
      .ok (signedImmediate (btypeImmediate value) 19)
  | jType => do
      let value ← u32FromSlice bytes
      .ok (signedImmediate (jtypeImmediate value) 11)
  | cbType => do
      let value ← u16FromSlice bytes
      .ok (signedImmediate ((cbtypeImmediate value).setWidth 32) 23)
  | cjType => do
      let value ← u16FromSlice bytes
      .ok (signedImmediate ((cjtypeImmediate value).setWidth 32) 20)
  | cluiType => do
      let value ← u16FromSlice bytes
      let hi20 := (sext32 ((cluitypeImmediate value).setWidth 32) 26).signExtend 64
      .ok (hi20 <<< 12 - 0x800, hi20.slt 0)

end RiscVInstruction

end JdxLinker.Relocation
