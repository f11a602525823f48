import JdxLinker.Lib.Isa
import JdxLinker.Relocation.AArch64Table

/-!
# Entries of the procedure linkage table

The code of an entry for each architecture, which loads a word of the global offset table and jumps
to it, and the code of a thunk. Both are a template, in which immediates are filled in.
-/

namespace JdxLinker.Plt

open A64 (Address)
open Bytes Fallible Relocation

def SIZE_2KB : BitVec 64 := 2048
def SIZE_4KB : BitVec 64 := 4096

/-- Panics unless the slices have one length. -/
def copyFromSlice (dest source : List UInt8) : Fallible (List UInt8) := do
  assert (dest.length = source.length)
  .ok source

/-- Writes to a range of a buffer. -/
def onRange (start stop : Nat) (write : List UInt8 → Fallible (List UInt8)) (buffer : List UInt8) :
    Fallible (List UInt8) := do
  assert (stop ≤ buffer.length)
  let written ← write (slice buffer start (stop - start))
  .ok (splice buffer start written)

namespace AArch64

/-- `ADRP x16`, `LDR x17, [x16]`, `BR x17` and `NOP`. -/
def PLT_ENTRY_TEMPLATE : List UInt8 :=
  [0x10, 0x00, 0x00, 0x90,
    0x11, 0x02, 0x40, 0xf9,
    0x20, 0x02, 0x1f, 0xd6,
    0x1f, 0x20, 0x03, 0xd5]

/-- `ADRP x16`, `ADD x16, x16` and `BR x16`. -/
def THUNK_TEMPLATE : List UInt8 :=
  [0x10, 0x00, 0x00, 0x90,
    0x10, 0x02, 0x00, 0x91,
    0x00, 0x02, 0x1f, 0xd6]

/-- The order of the addresses is only asserted in debug builds. -/
def writePltEntry (pltEntry : List UInt8) (gotAddress pltAddress : Address) :
    Fallible (List UInt8) := do
  let pltEntry ← copyFromSlice pltEntry PLT_ENTRY_TEMPLATE
  let pltPageAddress := pltAddress &&& ~~~PAGE_MASK_4KB
  let offset := gotAddress - pltPageAddress
  ensure (offset.toNat < 2 ^ 32) "PLT is more than 4GiB away from GOT"
  let pltEntry ←
    onRange 0 4 (AArch64Instruction.adr.writeToValue (offset / SIZE_4KB) false) pltEntry
  onRange 4 8 (AArch64Instruction.ldrRegister.writeToValue ((offset &&& PAGE_MASK_4KB) / 8) false)
    pltEntry

def writeThunk (thunkAddress targetAddress : Address) (buf : List UInt8) :
    Fallible (List UInt8) := do
  let buf ← copyFromSlice buf THUNK_TEMPLATE
  let thunkPage := thunkAddress &&& ~~~PAGE_MASK_4KB
  let targetPage := targetAddress &&& ~~~PAGE_MASK_4KB
  let pageDiff := targetPage - thunkPage
  let pageCount := pageDiff.sdiv SIZE_4KB &&& 0x1fffff
  let buf ← onRange 0 4 (AArch64Instruction.adr.writeToValue pageCount false) buf
  onRange 4 8 (AArch64Instruction.add.writeToValue (targetAddress &&& PAGE_MASK_4KB) false) buf

end AArch64

namespace MachOAArch64

/-- `ADRP x16`, `LDR x16, [x16]` and `BR x16`. -/
def STUB_TEMPLATE : List UInt8 :=
  [0x10, 0x00, 0x00, 0x90,
    0x10, 0x02, 0x40, 0xf9,
    0x00, 0x02, 0x1f, 0xd6]

def writePltEntry (pltEntry : List UInt8) (gotAddress pltAddress : Address) :
    Fallible (List UInt8) := do
  let pltEntry ← copyFromSlice pltEntry STUB_TEMPLATE
  let pltPageAddress := pltAddress &&& ~~~PAGE_MASK_4KB
  let offset := gotAddress - pltPageAddress
  ensure (offset.toNat < 2 ^ 32) "Mach-O stub is more than 4GiB away from GOT"
  let pltEntry ←
    onRange 0 4 (AArch64Instruction.adr.writeToValue (offset / SIZE_4KB) false) pltEntry
  onRange 4 8 (AArch64Instruction.machOLow12.writeToValue (offset &&& PAGE_MASK_4KB) false) pltEntry

end MachOAArch64

namespace RiscV64

/-- `AUIPC t3`, `LD t3, (t3)`, `JALR t1, t3` and `EBREAK`. -/
def PLT_ENTRY_TEMPLATE : List UInt8 :=
  [0x17, 0x0e, 0x0, 0x0,
    0x03, 0x3e, 0x0e, 0x0,
    0x67, 0x03, 0x0e, 0x0,
    0x73, 0x0, 0x10, 0x0]

def writePltEntry (pltEntry : List UInt8) (gotAddress pltAddress : Address) :
    Fallible (List UInt8) := do
  let pltEntry ← copyFromSlice pltEntry PLT_ENTRY_TEMPLATE
  onRange 0 8 (RiscVInstruction.uiType.writeToValue (gotAddress - pltAddress)) pltEntry

end RiscV64

namespace LoongArch64

/-- `PCALAU12I t3`, `LD.D t3, t3`, `JIRL t1, t3, 0` and `BREAK`. -/
def PLT_ENTRY_TEMPLATE : List UInt8 :=
  [0x0f, 0x0, 0x0, 0x1a,
    0xef, 0x1, 0xc0, 0x28,
    0xed, 0x1, 0x0, 0x4c,
    0x0, 0x0, 0x2a, 0x0]

/-- The arithmetic wraps, as in release builds. -/
def writePltEntry (pltEntry : List UInt8) (gotAddress pltAddress : Address) :
    Fallible (List UInt8) := do
  let pltEntry ← copyFromSlice pltEntry PLT_ENTRY_TEMPLATE
  let pcalaHi20 :=
    (((gotAddress + SIZE_2KB) &&& ~~~PAGE_MASK_4KB) - (pltAddress &&& ~~~PAGE_MASK_4KB)) >>> 12 <<< 5
  let pcalaLo12 := (gotAddress &&& 0xfff) <<< 10
  let pltEntry ←
    onRange 0 4 (orFromSlice · (toLeBytes 4 (pcalaHi20.setWidth 32))) pltEntry
  onRange 4 8 (orFromSlice · (toLeBytes 4 (pcalaLo12.setWidth 32))) pltEntry

end LoongArch64

namespace Ppc64

def writePltEntry (_pltEntry : List UInt8) (_gotAddress _pltAddress : Address) :
    Fallible (List UInt8) :=
  .error (.error "PLT generation for ppc64 is not yet implemented")

end Ppc64

namespace X86_64

/-- `ENDBR64`, `BND JMP *(%rip)` and a `NOPL` that fills up the entry. -/
def PLT_ENTRY_TEMPLATE : List UInt8 :=
  [0xf3, 0x0f, 0x1e, 0xfa,
    0xf2, 0xff, 0x25, 0x0, 0x0, 0x0, 0x0,
    0x0f, 0x1f, 0x44, 0x0, 0x0]

def writePltEntry (pltEntry : List UInt8) (gotAddress pltAddress : Address) :
    Fallible (List UInt8) := do
  let pltEntry ← copyFromSlice pltEntry PLT_ENTRY_TEMPLATE
  let offset := gotAddress - (pltAddress + 0xb)
  ensure (-2 ^ 31 ≤ offset.toInt ∧ offset.toInt < 2 ^ 31) "PLT is more than 2GiB away from GOT"
  onRange 7 11 (copyFromSlice · (toLeBytes 4 (offset.setWidth 32))) pltEntry

end X86_64

inductive Architecture where
  | x86_64
  | aarch64
  | riscV64
  | loongArch64
  | ppc64
  | machOAArch64
  deriving DecidableEq, Repr

namespace Architecture

def writePltEntry : Architecture → List UInt8 → Address → Address → Fallible (List UInt8)
  | x86_64 => X86_64.writePltEntry
  | aarch64 => AArch64.writePltEntry
  | riscV64 => RiscV64.writePltEntry
  | loongArch64 => LoongArch64.writePltEntry
  | ppc64 => Ppc64.writePltEntry
  | machOAArch64 => MachOAArch64.writePltEntry

open Isa in
/-- The code at `start` loads the word of `slot`, and no other, and goes where the word says. -/
def JumpsThrough (arch : Architecture) (code : List UInt8) (start slot : Address) : Prop :=
  match arch with
  | x86_64 => Isa.JumpsThrough X64.step id 2 code start slot
  | aarch64 | machOAArch64 => Isa.JumpsThrough Arm.step id 3 code start slot
  | riscV64 => Isa.JumpsThrough RiscV.step (· &&& ~~~1#64) 3 code start slot
  | loongArch64 => Isa.JumpsThrough LoongArch.step id 3 code start slot
  -- There are no entries.
  | ppc64 => False

end Architecture

end JdxLinker.Plt
