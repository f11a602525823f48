import JdxLinker.SymbolVersion.Library

/-!
# Writing symbol versions

A library with needed versions gets a record with an auxiliary record for each of them, and its
undefined symbols get the output versions of their input versions.
-/

namespace JdxLinker.SymbolVersion

/-! ### Strings -/

/-- The string table: what is written of it, and how many bytes of its allocation are left. -/
structure StrTabWriter where
  nextOffset : UInt32
  strings : List UInt8
  available : Nat
  deriving Repr, DecidableEq

/-- Writes a string with its terminator, for the offset at which it starts. -/
def StrTabWriter.writeStr (writer : StrTabWriter) (str : List UInt8) :
    Fallible (UInt32 × StrTabWriter) := do
  Fallible.assert (str.length + 1 ≤ writer.available)
  pure (writer.nextOffset, {
    nextOffset := writer.nextOffset + UInt32.ofNat (str.length + 1)
    strings := writer.strings ++ (str ++ [0])
    available := writer.available - (str.length + 1) })

/-! ### Symbols -/

def copySymbolVersion (versymIn : List UInt16) (symbol : Nat) (versionMapping : List UInt16) :
    Fallible UInt16 :=
  match versymIn[symbol]? with
  | none => pure verNdxGlobal
  | some versym =>
      let inputVersion := versymIndex versym
      if isSpecial inputVersion then
        pure inputVersion
      else
        Fallible.unwrap versionMapping[tableIndex inputVersion]?

/-- Writes the name of an undefined symbol, for the symbol and its version. -/
def writeUndefinedSymbol (file : File) (versionMapping : List UInt16) (strtab : StrTabWriter)
    (symbol : Nat) : Fallible ((Nat × UInt16) × StrTabWriter) := do
  let name ← Fallible.unwrap file.symbolNames[symbol]?
  let (_, strtab) ← strtab.writeStr name
  let version ← copySymbolVersion file.versym symbol versionMapping
  pure ((symbol, version), strtab)

def writeUndefinedSymbols (file : File) (versionMapping : List UInt16) :
    StrTabWriter → List Nat → Fallible (List (Nat × UInt16) × StrTabWriter)
  | strtab, [] => pure ([], strtab)
  | strtab, symbol :: symbols => do
      let (entry, strtab) ← writeUndefinedSymbol file versionMapping strtab symbol
      let (entries, strtab) ← writeUndefinedSymbols file versionMapping strtab symbols
      pure (entry :: entries, strtab)

/-! ### Records -/

structure Vernaux where
  vnaHash : UInt32
  vnaFlags : UInt16
  vnaOther : UInt16
  vnaName : UInt32
  vnaNext : UInt32
  deriving Repr, DecidableEq

/-- A record with its auxiliary records. The name of the library is only written for a base version. -/
structure Verneed where
  vnVersion : UInt16
  vnCnt : UInt16
  vnFile : Option UInt32
  vnAux : UInt32
  vnNext : UInt32
  auxes : List Vernaux
  deriving Repr, DecidableEq

structure VerneedState where
  strtab : StrTabWriter
  vnFile : Option UInt32
  auxes : List Vernaux
  deriving Repr, DecidableEq

def outputVersion (versionMapping : List UInt16) (inputVersion : UInt16) : UInt16 :=
  versionMapping[tableIndex inputVersion]?.getD verNdxLocal

/-- The step of the walk that writes the records. -/
def writeVerdef (hash : List UInt8 → UInt32) (libName : List UInt8) (versionMapping : List UInt16)
    (versionCount : Nat) (state : VerneedState) (verdef : Verdef) : Fallible VerneedState :=
  if verdef.isBase then do
    let (nameOffset, strtab) ← state.strtab.writeStr libName
    pure { state with strtab := strtab, vnFile := some nameOffset }
  else if verdef.vdNdx = verNdxLocal then
    .error (.error "Invalid version index")
  else if outputVersion versionMapping verdef.vdNdx = verNdxGlobal then
    pure state
  else do
    let name ← firstAuxName verdef
    let (nameOffset, strtab) ← state.strtab.writeStr name
    Fallible.ensure (state.auxes.length < versionCount) "Insufficient vernaux allocation"
    pure { state with
      strtab := strtab
      auxes := state.auxes ++ [{
        vnaHash := hash name
        vnaFlags := 0
        vnaOther := outputVersion versionMapping verdef.vdNdx
        vnaName := nameOffset
        vnaNext :=
          if state.auxes.length + 1 = versionCount then 0 else UInt32.ofNat sizeOfVernaux }] }

/-- What is left of the allocations of `.dynstr` and `.gnu.version_r`. -/
structure TableWriter where
  strtab : StrTabWriter
  versionR : Nat
  deriving Repr, DecidableEq

def TableWriter.takeBytes (writer : TableWriter) (size : Nat) : Fallible TableWriter := do
  Fallible.ensure (size ≤ writer.versionR) 
    "Insufficient .gnu.version_r allocation. Setting JDXLD_VERIFY_ALLOCATIONS=1 might give more info"
  pure { writer with versionR := writer.versionR - size }

def writeVerneed (hash : List UInt8 → UInt32) (libName : List UInt8)
    (versionMapping : List UInt16) (isLastVerneed : Bool) (info : VerneedInfo)
    (writer : TableWriter) : Fallible (Verneed × TableWriter) := do
  let writer ← writer.takeBytes sizeOfVerneed
  let writer ← writer.takeBytes (sizeOfVernaux * info.versionCount.toNat)
  let state ← info.defs.foldlM (writeVerdef hash libName versionMapping info.versionCount.toNat)
    { strtab := writer.strtab, vnFile := none, auxes := [] }
  Fallible.assert (state.auxes.length = info.versionCount.toNat)
  pure ({
    vnVersion := 1
    vnCnt := info.versionCount
    vnFile := state.vnFile
    vnAux := UInt32.ofNat sizeOfVerneed
    vnNext :=
      if isLastVerneed then
        0
      else
        UInt32.ofNat (sizeOfVerneed + sizeOfVernaux * info.versionCount.toNat)
    auxes := state.auxes }, { writer with strtab := state.strtab })

/-! ### Libraries -/

/-- What is written for a library: the versions of its undefined symbols, and its record. -/
structure DynamicOutput where
  versym : List (Nat × UInt16)
  verneed : Option Verneed
  deriving Repr, DecidableEq

def writeVerneedInfo (hash : List UInt8 → UInt32) (layout : DynamicLayout) (writer : TableWriter) :
    Fallible (Option Verneed × TableWriter) :=
  match layout.verneedInfo with
  | none => pure (none, writer)
  | some info => do
      let (verneed, writer) ← writeVerneed hash layout.dynamic.file.libName layout.versionMapping
        layout.isLastVerneed info writer
      pure (some verneed, writer)

/-- The name of the library comes first. -/
def writeDynamicFile (hash : List UInt8 → UInt32) (layout : DynamicLayout) (writer : TableWriter) :
    Fallible (DynamicOutput × TableWriter) := do
  let (_, strtab) ← writer.strtab.writeStr layout.dynamic.file.libName
  let (versym, strtab) ← writeUndefinedSymbols layout.dynamic.file layout.versionMapping strtab
    layout.dynamic.undefinedSymbols
  let (verneed, writer) ← writeVerneedInfo hash layout { writer with strtab := strtab }
  pure ({ versym, verneed }, writer)

def writeDynamicFiles (hash : List UInt8 → UInt32) :
    TableWriter → List DynamicLayout → Fallible (List DynamicOutput × TableWriter)
  | writer, [] => pure ([], writer)
  | writer, layout :: layouts => do
      let (output, writer) ← writeDynamicFile hash layout writer
      let (outputs, writer) ← writeDynamicFiles hash writer layouts
      pure (output :: outputs, writer)

end JdxLinker.SymbolVersion
