import JdxLinker.Relocation.AArch64Table

/-!
# What the relocations of AArch64 mean

Where an instruction or a data word has the operand of a relocation, how the processor reads it, and
the value that the operand stands for, for each type of relocation.
-/

namespace JdxLinker.Relocation

open Bytes

/-- The operand that a relocation is for. -/
inductive AbiField where
  | nothing
  | data (bytes : Nat)
  /-- The distance of a literal or of a branch target, in words. -/
  | displacement (pos len : Nat)
  | adr
  | adrp
  /-- The `imm12` of `ADD`, or of a load or store in units of its access size. -/
  | offset (unit : Nat)
  /-- The halfword of `MOVK` or `MOVZ`. -/
  | movk
  /-- The halfword of `MOVZ`, or inverted of `MOVN`. -/
  | mov
  deriving DecidableEq, Repr

/-- How an operand and a value belong together. -/
inductive AbiMeaning where
  | nothing
  /-- The operand is the value. -/
  | whole
  /-- The operand is the value from a bit on. -/
  | above
  /-- The operand has some bits of the value. -/
  | low
  /-- Eight bytes. -/
  | word
  | signedWord
  /-- A word that is read as signed or as unsigned. -/
  | eitherWord
  deriving DecidableEq, Repr

/-- The operand of a relocation has the bits from `lo` up to `hi` of the value. -/
structure AbiRow where
  field : AbiField
  lo : Nat
  hi : Nat
  meaning : AbiMeaning
  deriving DecidableEq, Repr

/-- The first four bytes of a slice. -/
def instructionWord (bytes : List UInt8) : BitVec 32 := BitVec.ofNat 32 (readLe (bytes.take 4))

namespace AbiField

/-- The bytes that have the operand. -/
def width : AbiField → Nat
  | nothing => 0
  | data bytes => bytes
  | _ => 4

def length : AbiField → Nat
  | nothing | data _ => 0
  | displacement _ len => len
  | adr | adrp => 21
  | offset _ => 12
  | movk | mov => 16

/-- The immediate of an instruction. -/
def imm : (field : AbiField) → BitVec 32 → BitVec field.length
  | nothing, _ | data _, _ => 0#0
  | displacement pos len, word => word.extractLsb' pos len
  | adr, word | adrp, word => word.extractLsb' 5 19 ++ word.extractLsb' 29 2
  | offset _, word => word.extractLsb' 10 12
  | movk, word | mov, word => word.extractLsb' 5 16

def signed : AbiField → Bool
  | displacement .. | adr | adrp => true
  | _ => false

/-- What the immediate is multiplied by. -/
def unit : AbiField → Nat
  | displacement .. => 4
  | adrp => 4096
  | offset unit => unit
  | _ => 1

/-- The number that an immediate stands for. -/
def value (field : AbiField) (imm : BitVec field.length) : Int :=
  field.unit * if field.signed then imm.toInt else imm.toNat

/-- The operand that is read from the bytes. -/
def operand (field : AbiField) (bytes : List UInt8) : Int :=
  match field with
  | nothing => 0
  | data len => readLe (bytes.take len)
  | mov =>
      let word := instructionWord bytes
      let imm := (word.extractLsb' 5 16).toNat
      -- Bit 30 tells `MOVZ` from `MOVN`.
      if word.getLsbD 30 then imm else -imm - 1
  | field => field.value (field.imm (instructionWord bytes))

end AbiField

/-- The operand stands for the value. -/
def AbiRow.Means (row : AbiRow) (operand : Int) (value : BitVec 64) : Prop :=
  match row.meaning with
  | .nothing => True
  | .whole => operand = value.toInt
  | .above => operand = row.field.unit * (value.toInt / 2 ^ row.lo)
  | .low => operand = row.field.unit *
      if row.field.signed then (value.toInt / 2 ^ row.lo).bmod (2 ^ (row.hi - row.lo))
      else (value.toNat / 2 ^ row.lo % 2 ^ (row.hi - row.lo) : Nat)
  | .word => operand = value.toNat
  | .signedWord => operand.bmod (2 ^ row.hi) = value.toInt
  | .eitherWord => operand = value.toInt ∨ operand - 2 ^ row.hi = value.toInt

open AArch64RelocationType in
/-- The operand of each type. Types whose names end with `NC` are not checked. -/
def abi : AArch64RelocationType → AbiRow
  | .none | tlsdescCall | other _ => ⟨.nothing, 0, 0, .nothing⟩
  | abs64 | prel64 | gotrel64 => ⟨.data 8, 0, 64, .word⟩
  | abs32 | prel32 => ⟨.data 4, 0, 32, .eitherWord⟩
  | abs16 | prel16 => ⟨.data 2, 0, 16, .eitherWord⟩
  | plt32 | gotrel32 | gotpcrel32 => ⟨.data 4, 0, 32, .signedWord⟩
  | movwUabsG0 => ⟨.movk, 0, 16, .above⟩
  | movwUabsG1 => ⟨.movk, 16, 32, .above⟩
  | movwUabsG2 => ⟨.movk, 32, 48, .above⟩
  | movwUabsG3 => ⟨.movk, 48, 64, .low⟩
  | movwUabsG0Nc | movwPrelG0Nc | movwGotoffG0Nc | tlsgdMovwG0Nc | tlsldMovwG0Nc
  | tlsldMovwDtprelG0Nc | tlsieMovwGottprelG0Nc | tlsleMovwTprelG0Nc | tlsdescOffG0Nc =>
      ⟨.movk, 0, 16, .low⟩
  | movwUabsG1Nc | movwPrelG1Nc | movwGotoffG1Nc | tlsldMovwDtprelG1Nc | tlsleMovwTprelG1Nc =>
      ⟨.movk, 16, 32, .low⟩
  | movwUabsG2Nc | movwPrelG2Nc | movwGotoffG2Nc => ⟨.movk, 32, 48, .low⟩
  | movwSabsG0 | movwPrelG0 | movwGotoffG0 | tlsldMovwDtprelG0 | tlsleMovwTprelG0 =>
      ⟨.mov, 0, 16, .above⟩
  | movwSabsG1 | movwPrelG1 | movwGotoffG1 | tlsgdMovwG1 | tlsldMovwG1 | tlsldMovwDtprelG1
  | tlsieMovwGottprelG1 | tlsleMovwTprelG1 | tlsdescOffG1 => ⟨.mov, 16, 32, .above⟩
  | movwSabsG2 | movwPrelG2 | movwGotoffG2 | tlsldMovwDtprelG2 | tlsleMovwTprelG2 =>
      ⟨.mov, 32, 48, .above⟩
  | movwPrelG3 | movwGotoffG3 => ⟨.mov, 48, 64, .above⟩
  | ldPrelLo19 | condbr19 | gotLdPrel19 | tlsldLdPrel19 | tlsieLdGottprelPrel19
  | tlsdescLdPrel19 => ⟨.displacement 5 19, 2, 21, .whole⟩
  | tstbr14 => ⟨.displacement 5 14, 2, 16, .whole⟩
  | jump26 | call26 => ⟨.displacement 0 26, 2, 28, .whole⟩
  | adrPrelLo21 | tlsgdAdrPrel21 | tlsldAdrPrel21 | tlsdescAdrPrel21 => ⟨.adr, 0, 21, .whole⟩
  | adrPrelPgHi21 | adrGotPage | tlsgdAdrPage21 | tlsldAdrPage21 | tlsieAdrGottprelPage21
  | tlsdescAdrPage21 => ⟨.adrp, 12, 33, .above⟩
  | adrPrelPgHi21Nc => ⟨.adrp, 12, 33, .low⟩
  | addAbsLo12Nc | tlsgdAddLo12Nc | tlsldAddLo12Nc | tlsldAddDtprelLo12Nc | tlsleAddTprelLo12Nc
  | tlsdescAddLo12 | ldst8AbsLo12Nc | tlsldLdst8DtprelLo12Nc | tlsleLdst8TprelLo12Nc =>
      ⟨.offset 1, 0, 12, .low⟩
  | tlsldAddDtprelLo12 | tlsleAddTprelLo12 | tlsldLdst8DtprelLo12 | tlsleLdst8TprelLo12 =>
      ⟨.offset 1, 0, 12, .whole⟩
  -- The immediate is shifted left by twelve bits.
  | tlsldAddDtprelHi12 | tlsleAddTprelHi12 => ⟨.offset 4096, 12, 24, .above⟩
  | ldst16AbsLo12Nc | tlsldLdst16DtprelLo12Nc | tlsleLdst16TprelLo12Nc => ⟨.offset 2, 1, 12, .low⟩
  | tlsldLdst16DtprelLo12 | tlsleLdst16TprelLo12 => ⟨.offset 2, 1, 12, .whole⟩
  | ldst32AbsLo12Nc | tlsldLdst32DtprelLo12Nc | tlsleLdst32TprelLo12Nc => ⟨.offset 4, 2, 12, .low⟩
  | tlsldLdst32DtprelLo12 | tlsleLdst32TprelLo12 => ⟨.offset 4, 2, 12, .whole⟩
  | ldst64AbsLo12Nc | tlsldLdst64DtprelLo12Nc | tlsleLdst64TprelLo12Nc | ld64GotLo12Nc
  | tlsieLd64GottprelLo12Nc | tlsdescLd64Lo12 => ⟨.offset 8, 3, 12, .low⟩
  | tlsldLdst64DtprelLo12 | tlsleLdst64TprelLo12 => ⟨.offset 8, 3, 12, .whole⟩
  | ld64GotoffLo15 | ld64GotpageLo15 => ⟨.offset 8, 3, 15, .whole⟩
  | ldst128AbsLo12Nc | tlsldLdst128DtprelLo12Nc | tlsleLdst128TprelLo12Nc =>
      ⟨.offset 16, 4, 12, .low⟩
  | tlsldLdst128DtprelLo12 | tlsleLdst128TprelLo12 => ⟨.offset 16, 4, 12, .whole⟩

/-- The operand in `out` stands for the value, and the bytes after the operand are as they were. -/
structure AbiRow.Stores (row : AbiRow) (value : BitVec 64) (dest out : List UInt8) : Prop where
  length : out.length = dest.length
  fits : row.field.width ≤ out.length
  means : row.Means (row.field.operand out) value
  kept : out.drop row.field.width = dest.drop row.field.width

/-- What a relocation of a type is for, once it was applied to `dest`. -/
def StoresMeaning (rType : AArch64RelocationType) (value : BitVec 64) (dest out : List UInt8) :
    Prop :=
  (abi rType).Stores value dest out

/-! ### Rows of the table that store what they mean -/

/-- The immediate that a value gives an operand. -/
def AbiRow.imm (row : AbiRow) (value : BitVec 64) : BitVec row.field.length :=
  (value.extractLsb' row.lo (row.hi - row.lo)).setWidth row.field.length

/-- The instructions in which the writer stores a field. -/
def AbiField.writers : AbiField → List AArch64Instruction
  | .displacement 5 19 => [.ldr, .bcond]
  | .displacement 5 14 => [.tstBr]
  | .displacement 0 26 => [.jumpCall]
  | .adr | .adrp => [.adr]
  | .offset _ => [.ldrRegister, .add, .ldSt]
  | .movk => [.movkz]
  | .mov => [.movnz]
  | _ => []

/-- The bounds of a value of some bits. -/
def AbiRow.range (row : AbiRow) : AllowedRange :=
  if row.field.signed then ⟨-2 ^ (row.hi - 1), 2 ^ (row.hi - 1)⟩ else ⟨0, 2 ^ row.hi⟩

/-- An instruction stores the bits of the row in its field, and a checked value has no others. -/
def AbiRow.AgreesInstruction (row : AbiRow) (insn : AArch64Instruction) (start stop : Nat)
    (range : AllowedRange) (alignment : Nat) : Prop :=
  insn ∈ row.field.writers ∧ start = row.lo ∧ stop = row.hi ∧ row.lo < row.hi ∧ row.hi ≤ 64 ∧
    row.hi - row.lo ≤ row.field.length ∧ 0 < row.field.unit ∧
    (row.field.signed → row.hi - row.lo = row.field.length) ∧
    (row.meaning = .low ∨ row.meaning = .above ∧ range = row.range ∨
      row.meaning = .whole ∧ range = row.range ∧ row.field.unit = 2 ^ row.lo ∧
        alignment = 2 ^ row.lo)

/-- The size, the range and the alignment of a row are those of its operand. -/
def AbiRow.Agrees (row : AbiRow) (size : RelocationSize) (range : AllowedRange) (alignment : Nat) :
    Prop :=
  match row.field, size with
  | .nothing, .byteSize bytes => bytes = 0 ∧ row.meaning = .nothing
  | .data bytes, .byteSize bytes' => bytes' = bytes ∧ 0 < bytes ∧ bytes ≤ 8 ∧ row.hi = 8 * bytes ∧
      (row.meaning = .word ∧ bytes = 8 ∨
        row.meaning = .signedWord ∧ range = ⟨-2 ^ (row.hi - 1), 2 ^ (row.hi - 1)⟩ ∨
        row.meaning = .eitherWord ∧ range = ⟨-2 ^ (row.hi - 1), 2 ^ row.hi⟩)
  | .mov, .bitMasking ⟨.aarch64 insn, start, stop⟩ =>
      insn = .movnz ∧ start = row.lo ∧ row.hi = row.lo + 16 ∧ row.hi ≤ stop ∧ stop ≤ 64 ∧
        row.meaning = .above
  | .displacement .., .bitMasking ⟨.aarch64 insn, start, stop⟩
  | .adr, .bitMasking ⟨.aarch64 insn, start, stop⟩
  | .adrp, .bitMasking ⟨.aarch64 insn, start, stop⟩
  | .offset _, .bitMasking ⟨.aarch64 insn, start, stop⟩
  | .movk, .bitMasking ⟨.aarch64 insn, start, stop⟩ =>
      row.AgreesInstruction insn start stop range alignment
  | _, _ => False

instance (row : AbiRow) (insn : AArch64Instruction) (start stop : Nat) (range : AllowedRange)
    (alignment : Nat) : Decidable (row.AgreesInstruction insn start stop range alignment) := by
  unfold AbiRow.AgreesInstruction
  infer_instance

instance (row : AbiRow) (size : RelocationSize) (range : AllowedRange) (alignment : Nat) :
    Decidable (row.Agrees size range alignment) := by
  unfold AbiRow.Agrees
  split <;> infer_instance

/-- The types whose rows do not store what they mean. -/
def misfits : List AArch64RelocationType := [.gotrel64, .gotrel32, .gotLdPrel19, .tlsldLdPrel19]

theorem abi_agrees (rType : AArch64RelocationType) (h : rType ∉ misfits) :
    ∀ r ∈ rType.row, (abi rType).Agrees r.2.1 r.2.2.2.1 r.2.2.2.2 := by
  cases rType with
  | other raw => exact fun r hr => nomatch hr
  | _ =>
      first
      | exact absurd (by decide) h
      | decide

end JdxLinker.Relocation
