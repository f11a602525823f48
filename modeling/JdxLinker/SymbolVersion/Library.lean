import Mathlib
import JdxLinker.Lib.Failure

/-!
# Symbol versions of shared libraries

A shared library defines versions of its symbols. The versions of the symbols that a link refers to
are named in the output file: space is reserved for them once it is known which are needed, and they
get output indices after those of the version script, library after library.
-/

namespace JdxLinker.SymbolVersion

/-! ### Version indices -/

def verNdxLocal : UInt16 := 0

def verNdxGlobal : UInt16 := 1

def isSpecial (index : UInt16) : Bool := index == verNdxLocal || index == verNdxGlobal

/-- A version table entry without its hidden bit. -/
def versymIndex (versym : UInt16) : UInt16 := versym &&& 0x7fff

/-- The place of a version in tables whose first entry is the global version. -/
def tableIndex (index : UInt16) : Nat := (index - verNdxGlobal).toNat

/-! ### Libraries -/

/-- A version definition, with the names of its auxiliary entries. -/
structure Verdef where
  vdNdx : UInt16
  vdFlags : UInt16
  auxNames : List (List UInt8)
  deriving Repr, DecidableEq

def verFlgBase : UInt16 := 1

def Verdef.isBase (verdef : Verdef) : Bool := verdef.vdFlags &&& verFlgBase != 0

/-- A shared library, as the linker parsed it. -/
structure File where
  libName : List UInt8
  symbolNames : List (List UInt8)
  versym : List UInt16
  verdef : Option (List Verdef)
  verdefnum : Nat
  deriving Repr, DecidableEq

/-- A library of the link: the symbols that were requested from it, and those of them that got copy
relocations. -/
structure Dynamic where
  file : File
  requested : List Nat
  needsCopyRelocation : List Nat
  deriving Repr, DecidableEq

/-- The symbols that are undefined dynamic symbols of the output file, in the order in which they are
written. -/
def Dynamic.undefinedSymbols (dynamic : Dynamic) : List Nat :=
  (List.range dynamic.file.symbolNames.length).filter fun symbol =>
    dynamic.requested.contains symbol && !dynamic.needsCopyRelocation.contains symbol

/-! ### Needed versions -/

def markVersionAsNeeded (symbolVersionsNeeded : List Bool) (versym : UInt16) :
    Fallible (List Bool) :=
  let versionIndex := versymIndex versym
  if isSpecial versionIndex then
    pure symbolVersionsNeeded
  else do
    Fallible.ensure (tableIndex versionIndex < symbolVersionsNeeded.length)
      s!"Invalid symbol version index {versionIndex}"
    pure (symbolVersionsNeeded.set (tableIndex versionIndex) true)

def dynamicSymbolUsed (file : File) (symbolVersionsNeeded : List Bool) (symbol : Nat) :
    Fallible (List Bool) :=
  match file.versym[symbol]? with
  | some versym => markVersionAsNeeded symbolVersionsNeeded versym
  | none => pure symbolVersionsNeeded

/-- Which versions the requested symbols have. -/
def loadSymbols (dynamic : Dynamic) : Fallible (List Bool) :=
  dynamic.requested.foldlM (dynamicSymbolUsed dynamic.file)
    (List.replicate dynamic.file.verdefnum false)

/-! ### Sizes -/

def sizeOfVerneed : Nat := 16

def sizeOfVernaux : Nat := 16

structure VerneedInfo where
  defs : List Verdef
  versionCount : UInt16
  deriving Repr, DecidableEq

structure VersionSizes where
  dynstr : Nat
  versionCount : UInt16
  baseSize : Nat
  deriving Repr, DecidableEq

/-- The base version and any versions that are referenced are kept. -/
def keepsVerdef (symbolVersionsNeeded : List Bool) (verdef : Verdef) : Fallible Bool :=
  if verdef.isBase then
    pure true
  else
    Fallible.context symbolVersionsNeeded[tableIndex verdef.vdNdx]? "Invalid version index"

def firstAuxName (verdef : Verdef) : Fallible (List UInt8) :=
  Fallible.context verdef.auxNames.head? "VERDEF with no AUX entry"

/-- The step of the walk that counts: a base version has the name of the library. -/
def sizeVerdef (libName : List UInt8) (symbolVersionsNeeded : List Bool) (sizes : VersionSizes)
    (verdef : Verdef) : Fallible VersionSizes := do
  Fallible.ensure (verdef.vdNdx ≠ verNdxLocal) "Invalid version index"
  let needed ← keepsVerdef symbolVersionsNeeded verdef
  if !needed then
    pure sizes
  else if verdef.isBase then
    pure { sizes with baseSize := libName.length + 1 }
  else do
    let name ← firstAuxName verdef
    pure { sizes with
      dynstr := sizes.dynstr + (name.length + 1)
      versionCount := sizes.versionCount + 1 }

/-- What is reserved for the versions of a library. -/
structure DynamicSizes where
  verneedInfo : Option VerneedInfo
  dynstr : Nat
  gnuVersionR : Nat
  deriving Repr, DecidableEq

def finaliseSizesDynamic (file : File) (symbolVersionsNeeded : List Bool) :
    Fallible DynamicSizes :=
  match file.verdef with
  | none => pure { verneedInfo := none, dynstr := 0, gnuVersionR := 0 }
  | some defs => do
      let sizes ← defs.foldlM (sizeVerdef file.libName symbolVersionsNeeded)
        { dynstr := 0, versionCount := 0, baseSize := 0 }
      if sizes.versionCount = 0 then
        pure { verneedInfo := none, dynstr := sizes.dynstr, gnuVersionR := 0 }
      else
        pure {
          verneedInfo := some { defs := defs, versionCount := sizes.versionCount }
          dynstr := sizes.dynstr + sizes.baseSize
          gnuVersionR := sizeOfVerneed + sizes.versionCount.toNat * sizeOfVernaux }

/-- The space for the name of a library and for the names of its undefined symbols. -/
def nameSizes (dynamic : Dynamic) : Nat :=
  (dynamic.file.libName.length + 1) + (dynamic.undefinedSymbols.map fun symbol =>
    (dynamic.file.symbolNames.getD symbol []).length + 1).sum

/-! ### Indices -/

/-- The number of versions of a script, without a lone base version. It has 16 bits. -/
def scriptVersionCount (versions : Nat) : UInt16 :=
  if versions = 1 then 0 else UInt16.ofNat versions

/-- The index of a version of the script. -/
def scriptVersionIndex (number : Nat) : UInt16 := verNdxGlobal + UInt16.ofNat number

/-- The first index after the local and global ones and those of a version script. -/
def firstVersionIndex (versions : Nat) : UInt16 := verNdxGlobal + max 1 (scriptVersionCount versions)

/-- The index after those of a library. -/
def applyNonAddressableIndexes (checkedOffset : UInt16 → UInt16 → Option UInt16)
    (nextGnuVersionRIndex : UInt16) (verneedInfo : Option VerneedInfo) : Fallible UInt16 :=
  match verneedInfo with
  | none => pure nextGnuVersionRIndex
  | some info =>
      if info.versionCount = 0 then
        pure nextGnuVersionRIndex
      else
        Fallible.context (checkedOffset nextGnuVersionRIndex info.versionCount)
          "Symbol versions overflowed 2**16"

/-- The output version of every input version. -/
def computeVersionMapping : UInt16 → List Bool → List UInt16
  | _, [] => []
  | nextOutputVersion, true :: needed =>
      nextOutputVersion :: computeVersionMapping (nextOutputVersion + 1) needed
  | nextOutputVersion, false :: needed =>
      verNdxGlobal :: computeVersionMapping nextOutputVersion needed

/-! ### Layout -/

/-- A library after the sizes were computed. -/
structure SizedLibrary where
  dynamic : Dynamic
  symbolVersionsNeeded : List Bool
  sizes : DynamicSizes
  deriving Repr, DecidableEq

def sizeLibrary (dynamic : Dynamic) : Fallible SizedLibrary := do
  let symbolVersionsNeeded ← loadSymbols dynamic
  let sizes ← finaliseSizesDynamic dynamic.file symbolVersionsNeeded
  pure { dynamic, symbolVersionsNeeded, sizes }

/-- A library with everything that writing it needs. -/
structure DynamicLayout where
  dynamic : Dynamic
  verneedInfo : Option VerneedInfo
  versionMapping : List UInt16
  isLastVerneed : Bool
  deriving Repr, DecidableEq

/-- Lays out the libraries one after another. The last one that has a record is told by where its
record ends. -/
def layoutLibraries (checkedOffset : UInt16 → UInt16 → Option UInt16) (gnuVersionREnd : Nat) :
    UInt16 → Nat → List SizedLibrary → Fallible (List DynamicLayout)
  | _, _, [] => pure []
  | nextIndex, gnuVersionR, library :: libraries => do
      let gnuVersionR := gnuVersionR + library.sizes.gnuVersionR
      let layout : DynamicLayout := {
        dynamic := library.dynamic
        verneedInfo := library.sizes.verneedInfo
        versionMapping := computeVersionMapping nextIndex library.symbolVersionsNeeded
        isLastVerneed := library.sizes.verneedInfo.isSome && gnuVersionR == gnuVersionREnd }
      let nextIndex ← applyNonAddressableIndexes checkedOffset nextIndex library.sizes.verneedInfo
      let layouts ← layoutLibraries checkedOffset gnuVersionREnd nextIndex gnuVersionR libraries
      pure (layout :: layouts)

/-- The layouts of all libraries, and the bytes reserved in `.dynstr` and `.gnu.version_r`. -/
structure Layout where
  libraries : List DynamicLayout
  dynstr : Nat
  gnuVersionR : Nat
  verneedCount : Nat
  deriving Repr, DecidableEq

def layoutVersions (checkedOffset : UInt16 → UInt16 → Option UInt16) (scriptVersions : Nat)
    (libraries : List Dynamic) : Fallible Layout := do
  let sized ← libraries.mapM sizeLibrary
  let gnuVersionR := (sized.map fun library => library.sizes.gnuVersionR).sum
  let layouts ← layoutLibraries checkedOffset gnuVersionR (firstVersionIndex scriptVersions) 0 sized
  pure {
    libraries := layouts
    dynstr := (sized.map fun library => nameSizes library.dynamic + library.sizes.dynstr).sum
    gnuVersionR := gnuVersionR
    verneedCount := sized.countP fun library => library.sizes.verneedInfo.isSome }

end JdxLinker.SymbolVersion
