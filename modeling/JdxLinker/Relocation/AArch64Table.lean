import JdxLinker.Relocation.Kinds

/-!
# The relocations of AArch64

What each type of relocation computes, how its value is stored, and the values that it allows.
-/

namespace JdxLinker.Relocation

/-- The types of the table, and any other by its number. -/
inductive AArch64RelocationType where
  | none
  | abs64
  | abs32
  | abs16
  | prel64
  | prel32
  | prel16
  | plt32
  | movwUabsG0
  | movwUabsG0Nc
  | movwUabsG1
  | movwUabsG1Nc
  | movwUabsG2
  | movwUabsG2Nc
  | movwUabsG3
  | movwSabsG0
  | movwSabsG1
  | movwSabsG2
  | ldPrelLo19
  | adrPrelLo21
  | adrPrelPgHi21
  | adrPrelPgHi21Nc
  | addAbsLo12Nc
  | ldst8AbsLo12Nc
  | ldst16AbsLo12Nc
  | ldst32AbsLo12Nc
  | ldst64AbsLo12Nc
  | ldst128AbsLo12Nc
  | tstbr14
  | condbr19
  | jump26
  | call26
  | movwPrelG0
  | movwPrelG0Nc
  | movwPrelG1
  | movwPrelG1Nc
  | movwPrelG2
  | movwPrelG2Nc
  | movwPrelG3
  | movwGotoffG0
  | movwGotoffG0Nc
  | movwGotoffG1
  | movwGotoffG1Nc
  | movwGotoffG2
  | movwGotoffG2Nc
  | movwGotoffG3
  | gotrel64
  | gotrel32
  | gotpcrel32
  | gotLdPrel19
  | ld64GotoffLo15
  | adrGotPage
  | ld64GotLo12Nc
  | ld64GotpageLo15
  | tlsgdAdrPrel21
  | tlsgdAdrPage21
  | tlsgdAddLo12Nc
  | tlsgdMovwG1
  | tlsgdMovwG0Nc
  | tlsldAdrPrel21
  | tlsldAdrPage21
  | tlsldAddLo12Nc
  | tlsldMovwG1
  | tlsldMovwG0Nc
  | tlsldLdPrel19
  | tlsldMovwDtprelG2
  | tlsldMovwDtprelG1
  | tlsldMovwDtprelG1Nc
  | tlsldMovwDtprelG0
  | tlsldMovwDtprelG0Nc
  | tlsldAddDtprelHi12
  | tlsldAddDtprelLo12
  | tlsldAddDtprelLo12Nc
  | tlsldLdst8DtprelLo12
  | tlsldLdst8DtprelLo12Nc
  | tlsldLdst16DtprelLo12
  | tlsldLdst16DtprelLo12Nc
  | tlsldLdst32DtprelLo12
  | tlsldLdst32DtprelLo12Nc
  | tlsldLdst64DtprelLo12
  | tlsldLdst64DtprelLo12Nc
  | tlsldLdst128DtprelLo12
  | tlsldLdst128DtprelLo12Nc
  | tlsieMovwGottprelG1
  | tlsieMovwGottprelG0Nc
  | tlsieAdrGottprelPage21
  | tlsieLd64GottprelLo12Nc
  | tlsieLdGottprelPrel19
  | tlsleMovwTprelG2
  | tlsleMovwTprelG1
  | tlsleMovwTprelG1Nc
  | tlsleMovwTprelG0
  | tlsleMovwTprelG0Nc
  | tlsleAddTprelHi12
  | tlsleAddTprelLo12
  | tlsleAddTprelLo12Nc
  | tlsleLdst8TprelLo12
  | tlsleLdst8TprelLo12Nc
  | tlsleLdst16TprelLo12
  | tlsleLdst16TprelLo12Nc
  | tlsleLdst32TprelLo12
  | tlsleLdst32TprelLo12Nc
  | tlsleLdst64TprelLo12
  | tlsleLdst64TprelLo12Nc
  | tlsleLdst128TprelLo12
  | tlsleLdst128TprelLo12Nc
  | tlsdescLdPrel19
  | tlsdescAdrPrel21
  | tlsdescAdrPage21
  | tlsdescLd64Lo12
  | tlsdescAddLo12
  | tlsdescOffG1
  | tlsdescOffG0Nc
  | tlsdescCall
  | other (raw : Nat)
  deriving DecidableEq, Repr

namespace RelocationSize

def bitMaskAArch64 (start stop : Nat) (insn : AArch64Instruction) : RelocationSize :=
  .bitMasking ⟨.aarch64 insn, start, stop⟩

end RelocationSize

def PAGE_MASK_4KB : BitVec 64 := 0xfff

namespace AArch64RelocationType

/-- The kind, the size, the page mask, the range and the alignment of a type. -/
def row : AArch64RelocationType →
    Option (RelocationKind AArch64RelocationType × RelocationSize × Option PageMask ×
      AllowedRange × Nat)
  | none => some (.none, .byteSize 0, Option.none, .noCheck, 1)
  | abs64 => some (.absolute, .byteSize 8, Option.none, .noCheck, 1)
  | abs32 => some (.absolute, .byteSize 4, Option.none, ⟨-2 ^ 31, 2 ^ 32⟩, 1)
  | abs16 => some (.absolute, .byteSize 2, Option.none, ⟨-2 ^ 15, 2 ^ 16⟩, 1)
  | prel64 => some (.relative, .byteSize 8, Option.none, .noCheck, 1)
  | prel32 => some (.relative, .byteSize 4, Option.none, ⟨-2 ^ 31, 2 ^ 32⟩, 1)
  | prel16 => some (.relative, .byteSize 2, Option.none, ⟨-2 ^ 15, 2 ^ 16⟩, 1)
  | plt32 => some (.pltRelative, .byteSize 4, Option.none, .fromBitSize 32 .signed, 1)
  | movwUabsG0 =>
      some (.absolute, .bitMaskAArch64 0 16 .movkz, Option.none, .fromBitSize 16 .unsigned, 1)
  | movwUabsG0Nc => some (.absolute, .bitMaskAArch64 0 16 .movkz, Option.none, .noCheck, 1)
  | movwUabsG1 =>
      some (.absolute, .bitMaskAArch64 16 32 .movkz, Option.none, .fromBitSize 32 .unsigned, 1)
  | movwUabsG1Nc => some (.absolute, .bitMaskAArch64 16 32 .movkz, Option.none, .noCheck, 1)
  | movwUabsG2 =>
      some (.absolute, .bitMaskAArch64 32 48 .movkz, Option.none, .fromBitSize 48 .unsigned, 1)
  | movwUabsG2Nc => some (.absolute, .bitMaskAArch64 32 48 .movkz, Option.none, .noCheck, 1)
  | movwUabsG3 => some (.absolute, .bitMaskAArch64 48 64 .movkz, Option.none, .noCheck, 1)
  | movwSabsG0 =>
      some (.absolute, .bitMaskAArch64 0 16 .movnz, Option.none, .fromBitSize 17 .signed, 1)
  | movwSabsG1 =>
      some (.absolute, .bitMaskAArch64 16 32 .movnz, Option.none, .fromBitSize 33 .signed, 1)
  | movwSabsG2 =>
      some (.absolute, .bitMaskAArch64 32 48 .movnz, Option.none, .fromBitSize 49 .signed, 1)
  | ldPrelLo19 =>
      some (.relative, .bitMaskAArch64 2 21 .ldr, Option.none, .fromBitSize 21 .signed, 4)
  | adrPrelLo21 =>
      some (.relative, .bitMaskAArch64 0 21 .adr, Option.none, .fromBitSize 21 .signed, 1)
  | adrPrelPgHi21 =>
      some (.relative, .bitMaskAArch64 12 33 .adr,
        some (.symbolPlusAddendAndPosition PAGE_MASK_4KB), .fromBitSize 33 .signed, 1)
  | adrPrelPgHi21Nc =>
      some (.relative, .bitMaskAArch64 12 33 .adr,
        some (.symbolPlusAddendAndPosition PAGE_MASK_4KB), .noCheck, 1)
  | addAbsLo12Nc => some (.absoluteLowPart, .bitMaskAArch64 0 12 .add, Option.none, .noCheck, 1)
  | ldst8AbsLo12Nc => some (.absoluteLowPart, .bitMaskAArch64 0 12 .ldSt, Option.none, .noCheck, 1)
  | ldst16AbsLo12Nc => some (.absoluteLowPart, .bitMaskAArch64 1 12 .ldSt, Option.none, .noCheck, 2)
  | ldst32AbsLo12Nc => some (.absoluteLowPart, .bitMaskAArch64 2 12 .ldSt, Option.none, .noCheck, 4)
  | ldst64AbsLo12Nc => some (.absoluteLowPart, .bitMaskAArch64 3 12 .ldSt, Option.none, .noCheck, 8)
  | ldst128AbsLo12Nc =>
      some (.absoluteLowPart, .bitMaskAArch64 4 12 .ldSt, Option.none, .noCheck, 16)
  | tstbr14 =>
      some (.relative, .bitMaskAArch64 2 16 .tstBr, Option.none, .fromBitSize 16 .signed, 4)
  | condbr19 =>
      some (.relative, .bitMaskAArch64 2 21 .bcond, Option.none, .fromBitSize 21 .signed, 4)
  | jump26 =>
      some (.pltRelative, .bitMaskAArch64 2 28 .jumpCall, Option.none, .fromBitSize 28 .signed, 4)
  | call26 =>
      some (.pltRelative, .bitMaskAArch64 2 28 .jumpCall, Option.none, .fromBitSize 28 .signed, 4)
  | movwPrelG0 => some (.relative, .bitMaskAArch64 0 16 .movnz, Option.none, .noCheck, 1)
  | movwPrelG0Nc => some (.relative, .bitMaskAArch64 0 16 .movkz, Option.none, .noCheck, 1)
  | movwPrelG1 => some (.relative, .bitMaskAArch64 16 32 .movnz, Option.none, .noCheck, 1)
  | movwPrelG1Nc => some (.relative, .bitMaskAArch64 16 32 .movkz, Option.none, .noCheck, 1)
  | movwPrelG2 => some (.relative, .bitMaskAArch64 32 48 .movnz, Option.none, .noCheck, 1)
  | movwPrelG2Nc => some (.relative, .bitMaskAArch64 32 48 .movkz, Option.none, .noCheck, 1)
  | movwPrelG3 => some (.relative, .bitMaskAArch64 48 64 .movnz, Option.none, .noCheck, 1)
  | movwGotoffG0 => some (.gotRelGotBase, .bitMaskAArch64 0 16 .movnz, Option.none, .noCheck, 1)
  | movwGotoffG0Nc => some (.gotRelGotBase, .bitMaskAArch64 0 16 .movkz, Option.none, .noCheck, 1)
  | movwGotoffG1 => some (.gotRelGotBase, .bitMaskAArch64 16 32 .movnz, Option.none, .noCheck, 1)
  | movwGotoffG1Nc => some (.gotRelGotBase, .bitMaskAArch64 16 32 .movkz, Option.none, .noCheck, 1)
  | movwGotoffG2 => some (.gotRelGotBase, .bitMaskAArch64 32 48 .movnz, Option.none, .noCheck, 1)
  | movwGotoffG2Nc => some (.gotRelGotBase, .bitMaskAArch64 32 48 .movkz, Option.none, .noCheck, 1)
  | movwGotoffG3 => some (.gotRelGotBase, .bitMaskAArch64 48 64 .movnz, Option.none, .noCheck, 1)
  | gotrel64 => some (.symRelGotBase, .byteSize 4, Option.none, .noCheck, 1)
  | gotrel32 => some (.symRelGotBase, .byteSize 8, Option.none, .fromBitSize 32 .signed, 1)
  | gotpcrel32 => some (.gotRelative, .byteSize 4, Option.none, .fromBitSize 32 .signed, 1)
  | gotLdPrel19 =>
      some (.gotRelative, .bitMaskAArch64 2 21 .ldSt, Option.none, .fromBitSize 21 .signed, 4)
  | ld64GotoffLo15 =>
      some (.gotRelGotBase, .bitMaskAArch64 3 15 .ldSt, Option.none, .fromBitSize 15 .unsigned, 8)
  | adrGotPage =>
      some (.gotRelative, .bitMaskAArch64 12 33 .adr,
        some (.gotEntryAndPosition PAGE_MASK_4KB), .fromBitSize 33 .signed, 1)
  | ld64GotLo12Nc => some (.got, .bitMaskAArch64 3 12 .ldSt, Option.none, .noCheck, 8)
  | ld64GotpageLo15 =>
      some (.gotRelGotBase, .bitMaskAArch64 3 15 .ldSt,
        some (.gotBase PAGE_MASK_4KB), .fromBitSize 15 .unsigned, 8)
  | tlsgdAdrPrel21 =>
      some (.tlsGd, .bitMaskAArch64 0 21 .adr, Option.none, .fromBitSize 21 .signed, 1)
  | tlsgdAdrPage21 =>
      some (.tlsGd, .bitMaskAArch64 12 33 .adr,
        some (.gotEntryAndPosition PAGE_MASK_4KB), .fromBitSize 33 .signed, 1)
  | tlsgdAddLo12Nc => some (.tlsGdGot, .bitMaskAArch64 0 12 .add, Option.none, .noCheck, 1)
  | tlsgdMovwG1 => some (.tlsGdGotBase, .bitMaskAArch64 16 33 .movnz, Option.none, .noCheck, 1)
  | tlsgdMovwG0Nc => some (.tlsGdGotBase, .bitMaskAArch64 0 16 .movkz, Option.none, .noCheck, 1)
  | tlsldAdrPrel21 =>
      some (.tlsLd, .bitMaskAArch64 0 21 .adr, Option.none, .fromBitSize 21 .signed, 1)
  | tlsldAdrPage21 =>
      some (.tlsLd, .bitMaskAArch64 12 33 .adr,
        some (.gotEntryAndPosition PAGE_MASK_4KB), .fromBitSize 33 .signed, 1)
  | tlsldAddLo12Nc => some (.tlsLdGot, .bitMaskAArch64 0 12 .add, Option.none, .noCheck, 1)
  | tlsldMovwG1 => some (.tlsLdGotBase, .bitMaskAArch64 16 32 .movnz, Option.none, .noCheck, 1)
  | tlsldMovwG0Nc => some (.tlsLdGotBase, .bitMaskAArch64 0 16 .movkz, Option.none, .noCheck, 1)
  | tlsldLdPrel19 =>
      some (.tlsLd, .bitMaskAArch64 0 21 .ldr, Option.none, .fromBitSize 21 .signed, 1)
  | tlsldMovwDtprelG2 => some (.dtpOff, .bitMaskAArch64 32 48 .movnz, Option.none, .noCheck, 1)
  | tlsldMovwDtprelG1 => some (.dtpOff, .bitMaskAArch64 16 32 .movnz, Option.none, .noCheck, 1)
  | tlsldMovwDtprelG1Nc => some (.dtpOff, .bitMaskAArch64 16 32 .movkz, Option.none, .noCheck, 1)
  | tlsldMovwDtprelG0 => some (.dtpOff, .bitMaskAArch64 0 16 .movnz, Option.none, .noCheck, 1)
  | tlsldMovwDtprelG0Nc => some (.dtpOff, .bitMaskAArch64 0 16 .movkz, Option.none, .noCheck, 1)
  | tlsldAddDtprelHi12 =>
      some (.dtpOff, .bitMaskAArch64 12 24 .add, Option.none, .fromBitSize 24 .unsigned, 1)
  | tlsldAddDtprelLo12 =>
      some (.dtpOff, .bitMaskAArch64 0 12 .add, Option.none, .fromBitSize 12 .unsigned, 1)
  | tlsldAddDtprelLo12Nc => some (.dtpOff, .bitMaskAArch64 0 12 .add, Option.none, .noCheck, 1)
  | tlsldLdst8DtprelLo12 =>
      some (.dtpOff, .bitMaskAArch64 0 12 .ldSt, Option.none, .fromBitSize 12 .unsigned, 1)
  | tlsldLdst8DtprelLo12Nc => some (.dtpOff, .bitMaskAArch64 0 12 .ldSt, Option.none, .noCheck, 1)
  | tlsldLdst16DtprelLo12 =>
      some (.dtpOff, .bitMaskAArch64 1 12 .ldSt, Option.none, .fromBitSize 12 .unsigned, 2)
  | tlsldLdst16DtprelLo12Nc => some (.dtpOff, .bitMaskAArch64 1 12 .ldSt, Option.none, .noCheck, 2)
  | tlsldLdst32DtprelLo12 =>
      some (.dtpOff, .bitMaskAArch64 2 12 .ldSt, Option.none, .fromBitSize 12 .unsigned, 4)
  | tlsldLdst32DtprelLo12Nc => some (.dtpOff, .bitMaskAArch64 2 12 .ldSt, Option.none, .noCheck, 4)
  | tlsldLdst64DtprelLo12 =>
      some (.dtpOff, .bitMaskAArch64 3 12 .ldSt, Option.none, .fromBitSize 12 .unsigned, 8)
  | tlsldLdst64DtprelLo12Nc => some (.dtpOff, .bitMaskAArch64 3 12 .ldSt, Option.none, .noCheck, 8)
  | tlsldLdst128DtprelLo12 =>
      some (.dtpOff, .bitMaskAArch64 4 12 .ldSt, Option.none, .fromBitSize 12 .unsigned, 16)
  | tlsldLdst128DtprelLo12Nc =>
      some (.dtpOff, .bitMaskAArch64 4 12 .ldSt, Option.none, .noCheck, 16)
  | tlsieMovwGottprelG1 =>
      some (.gotTpOffGotBase, .bitMaskAArch64 16 32 .movnz, Option.none, .noCheck, 1)
  | tlsieMovwGottprelG0Nc =>
      some (.gotTpOffGotBase, .bitMaskAArch64 0 16 .movkz, Option.none, .noCheck, 1)
  | tlsieAdrGottprelPage21 =>
      some (.gotTpOff, .bitMaskAArch64 12 33 .adr,
        some (.gotEntryAndPosition PAGE_MASK_4KB), .fromBitSize 33 .signed, 1)
  | tlsieLd64GottprelLo12Nc =>
      some (.gotTpOffGot, .bitMaskAArch64 3 12 .ldrRegister, Option.none, .noCheck, 8)
  | tlsieLdGottprelPrel19 =>
      some (.gotTpOff, .bitMaskAArch64 2 21 .ldr, Option.none, .fromBitSize 21 .signed, 4)
  | tlsleMovwTprelG2 => some (.tpOff, .bitMaskAArch64 32 48 .movnz, Option.none, .noCheck, 1)
  | tlsleMovwTprelG1 => some (.tpOff, .bitMaskAArch64 16 32 .movnz, Option.none, .noCheck, 1)
  | tlsleMovwTprelG1Nc => some (.tpOff, .bitMaskAArch64 16 32 .movkz, Option.none, .noCheck, 1)
  | tlsleMovwTprelG0 => some (.tpOff, .bitMaskAArch64 0 16 .movnz, Option.none, .noCheck, 1)
  | tlsleMovwTprelG0Nc => some (.tpOff, .bitMaskAArch64 0 16 .movkz, Option.none, .noCheck, 1)
  | tlsleAddTprelHi12 =>
      some (.tpOff, .bitMaskAArch64 12 24 .add, Option.none, .fromBitSize 24 .unsigned, 1)
  | tlsleAddTprelLo12 =>
      some (.tpOff, .bitMaskAArch64 0 12 .add, Option.none, .fromBitSize 12 .unsigned, 1)
  | tlsleAddTprelLo12Nc => some (.tpOff, .bitMaskAArch64 0 12 .add, Option.none, .noCheck, 1)
  | tlsleLdst8TprelLo12 =>
      some (.tpOff, .bitMaskAArch64 0 12 .ldSt, Option.none, .fromBitSize 12 .unsigned, 1)
  | tlsleLdst8TprelLo12Nc => some (.tpOff, .bitMaskAArch64 0 12 .ldSt, Option.none, .noCheck, 1)
  | tlsleLdst16TprelLo12 =>
      some (.tpOff, .bitMaskAArch64 1 12 .ldSt, Option.none, .fromBitSize 12 .unsigned, 2)
  | tlsleLdst16TprelLo12Nc => some (.tpOff, .bitMaskAArch64 1 12 .ldSt, Option.none, .noCheck, 2)
  | tlsleLdst32TprelLo12 =>
      some (.tpOff, .bitMaskAArch64 2 12 .ldSt, Option.none, .fromBitSize 12 .unsigned, 4)
  | tlsleLdst32TprelLo12Nc => some (.tpOff, .bitMaskAArch64 2 12 .ldSt, Option.none, .noCheck, 4)
  | tlsleLdst64TprelLo12 =>
      some (.tpOff, .bitMaskAArch64 3 12 .ldSt, Option.none, .fromBitSize 12 .unsigned, 8)
  | tlsleLdst64TprelLo12Nc => some (.tpOff, .bitMaskAArch64 3 12 .ldSt, Option.none, .noCheck, 8)
  | tlsleLdst128TprelLo12 =>
      some (.tpOff, .bitMaskAArch64 4 12 .ldSt, Option.none, .fromBitSize 12 .unsigned, 16)
  | tlsleLdst128TprelLo12Nc => some (.tpOff, .bitMaskAArch64 4 12 .ldSt, Option.none, .noCheck, 16)
  | tlsdescLdPrel19 =>
      some (.tlsDesc, .bitMaskAArch64 2 21 .ldr, Option.none, .fromBitSize 21 .signed, 4)
  | tlsdescAdrPrel21 =>
      some (.tlsDesc, .bitMaskAArch64 0 21 .adr, Option.none, .fromBitSize 21 .signed, 1)
  | tlsdescAdrPage21 =>
      some (.tlsDesc, .bitMaskAArch64 12 33 .adr,
        some (.gotEntryAndPosition PAGE_MASK_4KB), .fromBitSize 33 .signed, 1)
  | tlsdescLd64Lo12 =>
      some (.tlsDescGot, .bitMaskAArch64 3 12 .ldrRegister, Option.none, .noCheck, 8)
  | tlsdescAddLo12 => some (.tlsDescGot, .bitMaskAArch64 0 12 .add, Option.none, .noCheck, 1)
  | tlsdescOffG1 =>
      some (.tlsDescGotBase, .bitMaskAArch64 16 32 .movnz, Option.none, .fromBitSize 33 .signed, 1)
  | tlsdescOffG0Nc => some (.tlsDescGotBase, .bitMaskAArch64 0 16 .movkz, Option.none, .noCheck, 1)
  | tlsdescCall => some (.tlsDescCall, .byteSize 0, Option.none, .noCheck, 1)
  | other _ => Option.none

/-- What a type of relocation stands for, if it is supported. -/
def relocationTypeFromRaw (rType : AArch64RelocationType) :
    Option (RelocationKindInfo AArch64RelocationType) :=
  rType.row.map fun (kind, size, mask, range, alignment) =>
    { kind, size, mask, range, alignment, bias := 0,
      thunkable := rType = call26 || rType = jump26 }

end AArch64RelocationType

end JdxLinker.Relocation
