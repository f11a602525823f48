import JdxLinker.Relocation.Instructions

/-!
# Kinds of relocations

What a relocation of some type computes, the values that it allows, and how its value is put into
the bytes of a section.
-/

namespace JdxLinker.Relocation

open Fallible Bytes

inductive Sign where
  | signed
  | unsigned
  deriving DecidableEq, Repr

/-- The values from `min` to below `max`. -/
structure AllowedRange where
  min : Int
  max : Int
  deriving DecidableEq, Repr

namespace AllowedRange

def noCheck : AllowedRange := ⟨-2 ^ 63, 2 ^ 63 - 1⟩

def fromBitSize (nBits : Nat) : Sign → AllowedRange
  | .unsigned => if nBits = 0 ∨ nBits = 64 then noCheck else ⟨0, 2 ^ nBits⟩
  | .signed => if nBits = 0 ∨ nBits = 64 then noCheck else ⟨-2 ^ (nBits - 1), 2 ^ (nBits - 1)⟩

def contains (range : AllowedRange) (value : Int) : Bool :=
  range.min ≤ value && value < range.max

end AllowedRange

/-- What a relocation computes, where `T` are the types of the relocations of an architecture. -/
inductive RelocationKind (T : Type) where
  | absolute
  | absoluteSet
  | absoluteSetWord6
  | absoluteAddition
  | absoluteAdditionWord6
  | absoluteSubtraction
  | absoluteSubtractionWord6
  | absoluteLowPart
  /-- The linker must not alter the length of the ULEB128-encoded value. -/
  | pairSubtractionUleb128 (expected : T)
  | relative
  | relativeLoongArchHigh
  | relativeRiscVLow12
  | symRelGotBase
  | gotRelGotBase
  | got
  | pltRelGotBase
  | pltRelative
  | gotRelative
  | gotRelativeLoongArch64
  | tlsGd
  | tlsGdGot
  | tlsGdGotBase
  | tlsLd
  | tlsLdGot
  | tlsLdGotBase
  /-- The offset of a thread-local within the TLS storage of the shared object that defines it. -/
  | dtpOff
  | gotTpOff
  | gotTpOffLoongArch64
  | gotTpOffGot
  | gotTpOffGotBase
  | tpOff
  | tlsDesc
  | tlsDescLoongArch64
  | tlsDescGot
  | tlsDescGotBase
  | tlsDescCall
  | none
  | alignment
  deriving DecidableEq, Repr

structure BitMask where
  instruction : RelocationInstruction
  start : Nat
  stop : Nat
  deriving DecidableEq, Repr

inductive RelocationSize where
  | byteSize (bytes : Nat)
  | bitMasking (mask : BitMask)
  deriving DecidableEq, Repr

inductive PageMask where
  | symbolPlusAddendAndPosition (mask : BitVec 64)
  | gotEntryAndPosition (mask : BitVec 64)
  | gotBase (mask : BitVec 64)
  | position (mask : BitVec 64)
  deriving DecidableEq, Repr

structure RelocationKindInfo (T : Type) where
  kind : RelocationKind T
  size : RelocationSize
  mask : Option PageMask
  range : AllowedRange
  alignment : Nat
  bias : BitVec 64
  thunkable : Bool

namespace RelocationKindInfo

variable {T : Type}

def verify (info : RelocationKindInfo T) (value : BitVec 64) : Fallible Unit := do
  ensure (value.toNat % info.alignment = 0)
    s!"Relocation {value.toInt} not aligned to {info.alignment} bytes"
  ensure (info.range.contains value.toInt = true)
    s!"Relocation {value.toInt} outside of bounds [{info.range.min}, {info.range.max})"

/-- Writes bytes over the first ones of a slice. -/
def copyFromSlice (output bytes : List UInt8) : Fallible (List UInt8) := do
  assert (bytes.length ≤ output.length)
  .ok (splice output 0 bytes)

/-- Stores a value in the first bytes of `output`. A ULEB128 number is encoded by `lebUnsigned`. -/
def writeToBuffer (lebUnsigned : BitVec 64 → List UInt8) (info : RelocationKindInfo T)
    (value : BitVec 64) (output : List UInt8) : Fallible (List UInt8) := do
  info.verify value
  match info.kind with
  | .pairSubtractionUleb128 _ =>
      let encoded := lebUnsigned value
      ensure (encoded.length ≤ output.length)
        s!"cannot write encoded ULEB128 value of {encoded.length} bytes"
      copyFromSlice output encoded
  | _ =>
      match info.size with
      | .byteSize byteSize =>
          ensure (byteSize ≤ output.length) "Relocation outside of bounds of section"
          assert (byteSize ≤ 8)
          copyFromSlice output (toLeBytes byteSize value)
      | .bitMasking mask =>
          let extractedValue := extractBitRange value mask.start mask.stop
          let negative := decide (value.toInt < 0)
          mask.instruction.writeToValue extractedValue negative output

def low6Mask : BitVec 64 := 0b00111111

/-- The value of a relocation that takes the bytes at its place into account. -/
def adjustValueBasedOnContent (info : RelocationKindInfo T) (value : BitVec 64)
    (content : List UInt8) (offsetInSection : Nat) : Fallible (BitVec 64) :=
  match info.size with
  | .bitMasking _ =>
      .error (.error "Unexpected size for the addition/subtraction relocation")
  | .byteSize relSize => do
      assert (relSize ≤ 8 ∧ offsetInSection + relSize ≤ content.length)
      let currentValue := BitVec.ofNat 64 (readLe (slice content offsetInSection relSize))
      match info.kind with
      | .absoluteSetWord6 =>
          .ok ((value &&& low6Mask) ||| (currentValue &&& ~~~low6Mask))
      | .absoluteAddition => .ok (currentValue + value)
      | .absoluteAdditionWord6 =>
          let sum := ((currentValue &&& low6Mask) + (value &&& low6Mask)) &&& low6Mask
          .ok (sum ||| (currentValue &&& ~~~low6Mask))
      | .absoluteSubtraction => .ok (currentValue - value)
      | .absoluteSubtractionWord6 =>
          let difference := ((currentValue &&& low6Mask) - (value &&& low6Mask)) &&& low6Mask
          .ok (difference ||| (currentValue &&& ~~~low6Mask))
      | _ => .error (.error "Unexpected relocation")

end RelocationKindInfo

end JdxLinker.Relocation

/-!
## The relocations of RISC-V

What each type of relocation computes, how its value is stored, and the values that it allows.
-/

namespace JdxLinker.Relocation

/-- The types in the order of the standard, and any other by its number. -/
inductive RiscVRelocationType where
  | none
  | abs32
  | abs64
  | branch
  | jal
  | call
  | callPlt
  | gotHi20
  | tlsGotHi20
  | tlsGdHi20
  | pcrelHi20
  | pcrelLo12I
  | pcrelLo12S
  | hi20
  | lo12I
  | lo12S
  | tprelHi20
  | tprelLo12I
  | tprelLo12S
  | tprelAdd
  | add8
  | add16
  | add32
  | add64
  | sub8
  | sub16
  | sub32
  | sub64
  | got32Pcrel
  | align
  | rvcBranch
  | rvcJump
  | relax
  | sub6
  | set6
  | set8
  | set16
  | set32
  | pcrel32
  | plt32
  | setUleb128
  | subUleb128
  | tlsdescHi20
  | tlsdescLoadLo12
  | tlsdescAddLo12
  | tlsdescCall
  | other (raw : Nat)
  deriving DecidableEq, Repr

namespace RelocationSize

def bitMaskRiscv (start stop : Nat) (insn : RiscVInstruction) : RelocationSize :=
  .bitMasking ⟨.riscV insn, start, stop⟩

end RelocationSize

/-- The range of a word of four bytes, which can represent a signed or an unsigned value. -/
def signedOrUnsigned32 : AllowedRange := ⟨-2 ^ 31, 2 ^ 32⟩

namespace RiscVRelocationType

/-- The kind, the size, the range and the alignment of a type. -/
def row : RiscVRelocationType →
    Option (RelocationKind RiscVRelocationType × RelocationSize × AllowedRange × Nat)
  | none => some (.none, .byteSize 0, .noCheck, 1)
  | abs32 => some (.absolute, .byteSize 4, signedOrUnsigned32, 1)
  | abs64 => some (.absolute, .byteSize 8, .noCheck, 1)
  -- An even signed offset of 13 bits.
  | branch => some (.relative, .bitMaskRiscv 0 32 .bType, ⟨-2 ^ 12, 2 ^ 12 - 1⟩, 2)
  -- An even signed offset of 21 bits.
  | jal => some (.relative, .bitMaskRiscv 0 32 .jType, ⟨-2 ^ 20, 2 ^ 20 - 1⟩, 2)
  | call | callPlt => some (.pltRelative, .bitMaskRiscv 0 64 .uiType, signedOrUnsigned32, 1)
  | gotHi20 => some (.gotRelative, .bitMaskRiscv 0 32 .uType, signedOrUnsigned32, 1)
  | tlsGotHi20 => some (.gotTpOff, .bitMaskRiscv 0 32 .uType, signedOrUnsigned32, 1)
  | tlsGdHi20 => some (.tlsGd, .bitMaskRiscv 0 32 .uType, signedOrUnsigned32, 1)
  | pcrelHi20 => some (.relative, .bitMaskRiscv 0 32 .uType, signedOrUnsigned32, 1)
  | pcrelLo12I => some (.relativeRiscVLow12, .bitMaskRiscv 0 32 .iType, signedOrUnsigned32, 1)
  | pcrelLo12S => some (.relativeRiscVLow12, .bitMaskRiscv 0 32 .sType, signedOrUnsigned32, 1)
  | hi20 => some (.absolute, .bitMaskRiscv 0 32 .uType, signedOrUnsigned32, 1)
  | lo12I => some (.absolute, .bitMaskRiscv 0 32 .iType, signedOrUnsigned32, 1)
  | lo12S => some (.absolute, .bitMaskRiscv 0 32 .sType, signedOrUnsigned32, 1)
  | tprelHi20 => some (.tpOff, .bitMaskRiscv 0 32 .uType, signedOrUnsigned32, 1)
  | tprelLo12I => some (.tpOff, .bitMaskRiscv 0 32 .iType, signedOrUnsigned32, 1)
  | tprelLo12S => some (.tpOff, .bitMaskRiscv 0 32 .sType, signedOrUnsigned32, 1)
  | tprelAdd => some (.none, .byteSize 0, .noCheck, 1)
  | add8 => some (.absoluteAddition, .byteSize 1, .noCheck, 1)
  | add16 => some (.absoluteAddition, .byteSize 2, .noCheck, 1)
  | add32 => some (.absoluteAddition, .byteSize 4, .noCheck, 1)
  | add64 => some (.absoluteAddition, .byteSize 8, .noCheck, 1)
  | sub8 => some (.absoluteSubtraction, .byteSize 1, .noCheck, 1)
  | sub16 => some (.absoluteSubtraction, .byteSize 2, .noCheck, 1)
  | sub32 => some (.absoluteSubtraction, .byteSize 4, .noCheck, 1)
  | sub64 => some (.absoluteSubtraction, .byteSize 8, .noCheck, 1)
  | got32Pcrel => some (.gotRelative, .byteSize 4, signedOrUnsigned32, 1)
  | align => some (.alignment, .byteSize 0, .noCheck, 1)
  | rvcBranch => some (.relative, .bitMaskRiscv 0 16 .cbType, ⟨-2 ^ 8, 2 ^ 8 - 1⟩, 2)
  | rvcJump => some (.relative, .bitMaskRiscv 0 16 .cjType, ⟨-2 ^ 11, 2 ^ 11 - 1⟩, 2)
  | relax => some (.none, .byteSize 0, .noCheck, 1)
  | sub6 => some (.absoluteSubtractionWord6, .byteSize 1, .noCheck, 1)
  | set6 => some (.absoluteSetWord6, .byteSize 1, .noCheck, 1)
  | set8 => some (.absoluteSet, .byteSize 1, .noCheck, 1)
  | set16 => some (.absoluteSet, .byteSize 2, .noCheck, 1)
  | set32 => some (.absoluteSet, .byteSize 4, .noCheck, 1)
  | pcrel32 => some (.relative, .byteSize 4, signedOrUnsigned32, 1)
  | plt32 => some (.pltRelative, .byteSize 4, signedOrUnsigned32, 1)
  -- The subtraction is done for the second relocation of the pair, and nothing for the first.
  | setUleb128 => some (.relative, .byteSize 0, .noCheck, 1)
  | subUleb128 => some (.pairSubtractionUleb128 setUleb128, .byteSize 8, .noCheck, 1)
  | tlsdescHi20 | tlsdescLoadLo12 | tlsdescAddLo12 | tlsdescCall | other _ => Option.none

/-- What a type of relocation stands for, if it is supported. -/
def relocationTypeFromRaw (rType : RiscVRelocationType) :
    Option (RelocationKindInfo RiscVRelocationType) :=
  rType.row.map fun (kind, size, range, alignment) =>
    { kind, size, mask := Option.none, range, alignment, bias := 0, thunkable := false }

end RiscVRelocationType

end JdxLinker.Relocation
