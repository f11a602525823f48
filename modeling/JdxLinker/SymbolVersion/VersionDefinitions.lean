import JdxLinker.Lib.LinkedRecords
import JdxLinker.SymbolVersion.Records
import JdxLinker.SymbolVersion.Script

/-!
# The version definitions of a version script

The epilogue reserves the space of the definitions with a computation of 16 bits, skips it with one of
64 bits, and writes the records one after another. They agree for scripts whose definitions have
less than 2^16 bytes.
-/

namespace JdxLinker.SymbolVersion.Epilogue

open Bytes LinkedRecords

/-! ### Sizes -/

structure VersionDef where
  name : List UInt8
  parentIndex : Option UInt16
  deriving Repr, DecidableEq

/-- What is reserved for the version definitions. -/
structure VerdefSizes where
  dynstr : Nat
  gnuVersionD : Nat
  verdefs : Option (List VersionDef)
  deriving Repr, DecidableEq

def sizeOfVerdef : Nat := 20

def sizeOfVerdaux : Nat := 8

/-- The versions of a script after the base version. -/
def namedVersions : VersionScript → List Version
  | .regular versions => versions.drop 1
  | .rust => []

/-- Without a soname, the base version has the name of the output file. -/
def finaliseSizesEpilogue (script : VersionScript) (soname : Option (List UInt8))
    (fileName : List UInt8) : VerdefSizes :=
  if 0 < script.versionCount then
    let versions := namedVersions script
    { dynstr := (if soname.isNone then fileName.length + 1 else 0)
        + stringBytes (versions.map Version.name)
      gnuVersionD := (UInt16.ofNat sizeOfVerdef * script.versionCount
        + UInt16.ofNat sizeOfVerdaux * (script.versionCount + script.parentCount)).toNat
      verdefs := some (⟨if soname.isNone then fileName else [], none⟩ ::
        versions.map fun version => ⟨version.name, version.parentIndex⟩) }
  else
    { dynstr := 0, gnuVersionD := 0, verdefs := none }

/-- The bytes of `.gnu.version_d` that are skipped. -/
def finaliseLayoutEpilogue (script : VersionScript) : Option (List VersionDef) → Nat
  | none => 0
  | some verdefs => sizeOfVerdef * verdefs.length
      + sizeOfVerdaux * (verdefs.length + script.parentCount.toNat)

/-! ### Records -/

structure VerdefRecord where
  vdVersion : UInt16
  vdFlags : UInt16
  vdNdx : UInt16
  vdCnt : UInt16
  vdHash : UInt32
  vdAux : UInt32
  vdNext : UInt32
  deriving Repr, DecidableEq

structure VerdauxRecord where
  vdaName : UInt32
  vdaNext : UInt32
  deriving Repr, DecidableEq

def u16At (bytes : List UInt8) (offset : Nat) : UInt16 := UInt16.ofNat (readLe (slice bytes offset 2))

def u32At (bytes : List UInt8) (offset : Nat) : UInt32 := UInt32.ofNat (readLe (slice bytes offset 4))

theorem u16_leBytes (value : UInt16) : UInt16.ofNat (readLe (leBytes 2 value.toNat)) = value := by
  rw [readLe_leBytes_of_lt value.toNat_lt, UInt16.ofNat_toNat]

theorem u32_leBytes (value : UInt32) : UInt32.ofNat (readLe (leBytes 4 value.toNat)) = value := by
  rw [readLe_leBytes_of_lt value.toNat_lt, UInt32.ofNat_toNat]

def verdefFormat : Format VerdefRecord where
  size := sizeOfVerdef
  encode record := leBytes 2 record.vdVersion.toNat ++ (leBytes 2 record.vdFlags.toNat
    ++ (leBytes 2 record.vdNdx.toNat ++ (leBytes 2 record.vdCnt.toNat
    ++ (leBytes 4 record.vdHash.toNat ++ (leBytes 4 record.vdAux.toNat
    ++ leBytes 4 record.vdNext.toNat)))))
  decode bytes := {
    vdVersion := u16At bytes 0
    vdFlags := u16At bytes 2
    vdNdx := u16At bytes 4
    vdCnt := u16At bytes 6
    vdHash := u32At bytes 8
    vdAux := u32At bytes 12
    vdNext := u32At bytes 16 }
  next record := record.vdNext.toNat
  encode_length _ := rfl
  decode_encode record := by
    rw [VerdefRecord.mk.injEq]
    exact ⟨u16_leBytes _, u16_leBytes _, u16_leBytes _, u16_leBytes _, u32_leBytes _,
      u32_leBytes _, u32_leBytes _⟩
  size_pos := by decide

def verdauxFormat : Format VerdauxRecord where
  size := sizeOfVerdaux
  encode record := leBytes 4 record.vdaName.toNat ++ leBytes 4 record.vdaNext.toNat
  decode bytes := { vdaName := u32At bytes 0, vdaNext := u32At bytes 4 }
  next record := record.vdaNext.toNat
  encode_length _ := rfl
  decode_encode record := by
    rw [VerdauxRecord.mk.injEq]
    exact ⟨u32_leBytes _, u32_leBytes _⟩
  size_pos := by decide

/-! ### Writing -/

/-- The string table, what is left of `.gnu.version_d` and what was written of it, and the offsets of
the names of versions. -/
structure VerdefWriter where
  strtab : StrTabWriter
  versionD : Nat
  out : List UInt8
  versionStringOffsets : List UInt32
  deriving Repr, DecidableEq

namespace VerdefWriter

def takeBytesD (writer : VerdefWriter) (size : Nat) : Fallible VerdefWriter := do
  Fallible.ensure (size ≤ writer.versionD)
    "Insufficient .gnu.version_d allocation. Setting JDXLD_VERIFY_ALLOCATIONS=1 might give more info"
  pure { writer with versionD := writer.versionD - size }

def put (writer : VerdefWriter) (bytes : List UInt8) : VerdefWriter :=
  { writer with out := writer.out ++ bytes }

/-- The next auxiliary record. -/
def takeVerdaux (writer : VerdefWriter) (record : VerdauxRecord) : Fallible VerdefWriter := do
  let writer ← writer.takeBytesD sizeOfVerdaux
  pure (writer.put (verdauxFormat.encode record))

/-- The name of a version and its offset. The soname was written before. -/
def writeName (soname : Option (List UInt8 × UInt32)) (i : Nat) (verdef : VersionDef)
    (writer : VerdefWriter) : Fallible ((List UInt8 × UInt32) × VerdefWriter) :=
  if i = 0 then
    match soname with
    | some soname => pure (soname, writer)
    | none => do
        let (offset, strtab) ← writer.strtab.writeStr verdef.name
        pure ((verdef.name, offset), { writer with strtab := strtab })
  else do
    let (offset, strtab) ← writer.strtab.writeStr verdef.name
    pure ((verdef.name, offset), { writer with
      strtab := strtab
      versionStringOffsets := writer.versionStringOffsets ++ [offset] })

end VerdefWriter

def verFlgBase : UInt16 := 1

def auxCount (verdef : VersionDef) : UInt16 := if verdef.parentIndex.isSome then 2 else 1

/-- The record of a parent's name. The index of a parent counts the base version. -/
def writeParent (verdef : VersionDef) (writer : VerdefWriter) : Fallible VerdefWriter :=
  match verdef.parentIndex with
  | none => pure writer
  | some parentIndex => do
      Fallible.assert (1 ≤ parentIndex.toNat)
      let nameOffset ← Fallible.unwrap writer.versionStringOffsets[parentIndex.toNat - 1]?
      writer.takeVerdaux ⟨nameOffset, 0⟩

/-- The record of a version. The last one has no next one. -/
def verdefRecord (hash : List UInt8 → UInt32) (count i : Nat) (verdef : VersionDef)
    (name : List UInt8) : VerdefRecord where
  vdVersion := 1
  vdFlags := if i = 0 then verFlgBase else 0
  vdNdx := scriptVersionIndex i
  vdCnt := auxCount verdef
  vdHash := hash name
  vdAux := UInt32.ofNat sizeOfVerdef
  vdNext :=
    if i < count - 1 then
      UInt32.ofNat (sizeOfVerdef + sizeOfVerdaux * (auxCount verdef).toNat)
    else
      0

def writeEntry (hash : List UInt8 → UInt32) (soname : Option (List UInt8 × UInt32)) (count i : Nat)
    (verdef : VersionDef) (writer : VerdefWriter) : Fallible VerdefWriter := do
  let writer ← writer.takeBytesD sizeOfVerdef
  let ((name, nameOffset), writer) ← writer.writeName soname i verdef
  let writer := writer.put (verdefFormat.encode (verdefRecord hash count i verdef name))
  let nextVda := if verdef.parentIndex.isSome then UInt32.ofNat sizeOfVerdaux else 0
  let writer ← writer.takeVerdaux ⟨nameOffset, nextVda⟩
  writeParent verdef writer

def writeEntries (hash : List UInt8 → UInt32) (soname : Option (List UInt8 × UInt32)) (count : Nat) :
    Nat → List VersionDef → VerdefWriter → Fallible VerdefWriter
  | _, [], writer => pure writer
  | i, verdef :: verdefs, writer => do
      let writer ← writeEntry hash soname count i verdef writer
      writeEntries hash soname count (i + 1) verdefs writer

def writeVerdef (hash : List UInt8 → UInt32) (soname : Option (List UInt8 × UInt32))
    (verdefs : List VersionDef) (writer : VerdefWriter) : Fallible VerdefWriter :=
  writeEntries hash soname verdefs.length 0 verdefs writer

/-- The version definitions of the epilogue, if there are any. -/
def writeEpilogue (hash : List UInt8 → UInt32) (soname : Option (List UInt8 × UInt32))
    (verdefs : Option (List VersionDef)) (writer : VerdefWriter) : Fallible VerdefWriter :=
  match verdefs with
  | none => pure writer
  | some verdefs => writeVerdef hash soname verdefs writer

end JdxLinker.SymbolVersion.Epilogue
