import JdxLinker.Layout.OutputKind
import JdxLinker.Symbols.Alternatives
import JdxLinker.Lib.Failure

/-!
# Names and their definitions

References are resolved by the names of symbols, with or without a version. The symbol table has the
first definition of every name, and the other definitions as its alternatives. Names are spread over
buckets by their hashes.
-/

namespace JdxLinker.Resolution

open Symbols

structure FileId where
  group : Nat
  file : Nat
  deriving Repr, DecidableEq

def PRELUDE_FILE_ID : FileId := ⟨0, 0⟩

abbrev SymbolId := Symbols.SymbolId

/-- No definition is known. -/
def undefinedId : SymbolId := 0

abbrev Name := List UInt8

/-! ### Names -/

/-- The name of a symbol as it is written in its file. -/
structure RawSymbolName where
  name : Name
  versionName : Option Name
  isDefault : Bool
  deriving Repr, DecidableEq

def atSign : UInt8 := 0x40

/-- Names may end in a version, as in `foo@1.1`, or `foo@@2.0` for a default version. -/
def RawSymbolName.parse (nameBytes : Name) : RawSymbolName :=
  match nameBytes.dropWhile (· ≠ atSign) with
  | [] => ⟨nameBytes, none, true⟩
  | _ :: rest =>
    let name := nameBytes.takeWhile (· ≠ atSign)
    match rest with
    | [] => ⟨name, some [], false⟩
    | c :: version =>
      if c = atSign then ⟨name, some version, true⟩ else ⟨name, some rest, false⟩

inductive PreHashedSymbolName where
  | unversioned (name : Name)
  | versioned (name version : Name)
  deriving Repr, DecidableEq

def PreHashedSymbolName.fromRaw (nameInfo : RawSymbolName) : PreHashedSymbolName :=
  match nameInfo.versionName with
  | some version => .versioned nameInfo.name version
  | none => .unversioned nameInfo.name

/-- The versions that the symbols of a file need. -/
structure VerneedTable where
  versym : List Nat
  versionNamesByIndex : List (Option Name)
  deriving Repr, DecidableEq

/-- The highest bit of an entry marks hidden symbols. -/
def versionIndex (entry : Nat) : Nat := entry % 0x8000

def VerneedTable.versionName (table : VerneedTable) (localSymbolIndex : Nat) : Option Name :=
  table.versym[localSymbolIndex]?.bind fun entry =>
    table.versionNamesByIndex[versionIndex entry]?.join

/-- What differs between object file formats. -/
structure Platform where
  hasNullSymbolEntry : Bool
  rawSymbolName : Name → VerneedTable → Nat → RawSymbolName

def elf : Platform where
  hasNullSymbolEntry := true
  rawSymbolName nameBytes verneedTable symbolIndex :=
    match verneedTable.versionName symbolIndex with
    | some versionName => ⟨nameBytes, some versionName, false⟩
    | none => .parse nameBytes

def macho : Platform where
  hasNullSymbolEntry := false
  rawSymbolName nameBytes _ _ := ⟨nameBytes, none, true⟩

/-! ### The symbol table -/

/-- The names of one bucket, with their first definitions. -/
structure Bucket extends SymbolBucket where
  nameToId : List (Name × SymbolId)
  versionedNameToId : List ((Name × Name) × SymbolId)

structure SymbolDb where
  buckets : List Bucket
  hash : PreHashedSymbolName → Nat
  symbolFileIds : SymbolId → FileId
  isDynamic : FileId → Bool
  symbolStrength : SymbolId → SymbolStrength
  inputSymbolVisibility : SymbolId → Visibility
  /-- The flags that symbols have before references are resolved. -/
  flags : SymbolId → ValueFlags

namespace SymbolDb

variable (db : SymbolDb)

def bucket (name : PreHashedSymbolName) : Bucket :=
  (db.buckets[db.hash name % db.buckets.length]?).getD ⟨⟨[], []⟩, [], []⟩

/-- The best of the alternatives that no shared library defines. -/
def getNonDynamic (bucket : Bucket) (symbolId : SymbolId) : Option SymbolId :=
  (bucket.alternativeDefinitions.find? fun list => list.first = symbolId).bind fun list =>
    (list.alternatives.foldl
      (fun (selector : SymbolPrioritySelector) alt =>
        if db.isDynamic (db.symbolFileIds alt) then selector
        else selector.consider alt (db.symbolStrength alt))
      SymbolPrioritySelector.new).best

def getUnversioned (name : Name) : Option SymbolId :=
  (db.bucket (.unversioned name)).nameToId.lookup name

/-- The definition that a name is first resolved to. -/
def get (key : PreHashedSymbolName) (allowDynamic : Bool) : Option SymbolId :=
  let bucket := db.bucket key
  let found :=
    match key with
    | .unversioned name => bucket.nameToId.lookup name
    | .versioned name version => bucket.versionedNameToId.lookup (name, version)
  found.bind fun symbolId =>
    if !allowDynamic && db.isDynamic (db.symbolFileIds symbolId) then
      db.getNonDynamic bucket symbolId
    else some symbolId

end SymbolDb

end JdxLinker.Resolution

/-!
## Resolving the symbols of a file

The undefined symbols of a file are looked up by their names. The file of a definition is loaded
unless the reference is weak. What cannot be resolved, or not for sure, is recorded.
-/

namespace JdxLinker.Resolution

open Symbols

structure UndefinedSymbol where
  /-- The symbol is defined after all if this file is loaded. -/
  ignoreIfLoaded : Option FileId
  name : PreHashedSymbolName
  symbolId : SymbolId
  deriving Repr, DecidableEq

structure SymbolAttributes where
  nameInfo : RawSymbolName
  defaultVisibility : Bool
  isWeak : Bool
  deriving Repr, DecidableEq

/-- What resolving a symbol does: the definition it leaves, the file that it requests, what it
records, and the flags it adds. -/
structure Resolved where
  definition : SymbolId
  request : Option FileId := none
  undefined : Option UndefinedSymbol := none
  orAssigned : List (SymbolId × ValueFlags) := []
  deriving Repr, DecidableEq

/-- The flags that a reference adds to its definition. -/
def referenceFlags (db : SymbolDb) (localSymbolId : SymbolId) (attributes : SymbolAttributes)
    (symbolId : SymbolId) (fromIr : Bool) : List (SymbolId × ValueFlags) :=
  let visibility :=
    if attributes.defaultVisibility then []
    else
      match db.inputSymbolVisibility localSymbolId with
      | .hidden =>
        [(symbolId, { ValueFlags.empty with nonInterposable := true, downgradeToLocal := true })]
      | .«protected» =>
        if !(db.flags symbolId).dynamic then
          [(symbolId, { ValueFlags.empty with nonInterposable := true })]
        else []
      | .default => []
  visibility ++ if fromIr then [] else [(symbolId, { ValueFlags.empty with hasNonIrRef := true })]

def resolveSymbol (db : SymbolDb) (localSymbolId : SymbolId) (attributes : SymbolAttributes)
    (definition : SymbolId) (isDynamic : Bool) (fileId : FileId) (fromIr : Bool) : Resolved :=
  let prehashedName := PreHashedSymbolName.fromRaw attributes.nameInfo
  -- only symbols of default visibility can refer to shared libraries
  match db.get prehashedName attributes.defaultVisibility with
  | some symbolId =>
    let orAssigned := referenceFlags db localSymbolId attributes symbolId fromIr
    let symbolFileId := db.symbolFileIds symbolId
    if symbolFileId ≠ fileId ∧ attributes.isWeak = false then
      -- shared libraries do not activate other shared libraries
      if !isDynamic || !db.isDynamic symbolFileId then
        { definition := symbolId, request := symbolFileId, orAssigned }
      else { definition := symbolId, orAssigned }
    else if symbolFileId ≠ PRELUDE_FILE_ID then
      -- the file may not be loaded, in which case the symbol is undefined
      { definition := symbolId
        undefined := some ⟨some symbolFileId, prehashedName, localSymbolId⟩
        orAssigned }
    else { definition := symbolId, orAssigned }
  | none => { definition, undefined := some ⟨none, prehashedName, localSymbolId⟩ }

/-! ### Objects -/

/-- A symbol of an object. The name may be unreadable. -/
structure InputSymbol where
  name : Fallible Name
  isHidden : Bool
  isInterposable : Bool
  isWeak : Bool

structure InputObject where
  fileId : FileId
  symbols : List InputSymbol
  /-- The ID of the first symbol. -/
  symbolIdStart : SymbolId
  isDynamic : Bool
  verneedTable : Fallible VerneedTable

section Objects

variable (platform : Platform) (db : SymbolDb) (obj : InputObject)

/-- Whether a symbol is left as it is: one that is defined, the null symbol, and hidden symbols of a
shared library. -/
def isSkipped (index : Nat) (symbol : InputSymbol) (definition : SymbolId) : Bool :=
  definition ≠ undefinedId || (platform.hasNullSymbolEntry && index = 0)
    || (obj.isDynamic && symbol.isHidden)

/-- A symbol of a chunk, by its index in the chunk. -/
def resolveEntry (verneedTable : VerneedTable) (startSymbolOffset localSymbolIndex : Nat)
    (symbol : InputSymbol) (definition : SymbolId) : Fallible Resolved := do
  let index := startSymbolOffset + localSymbolIndex
  if isSkipped platform obj index symbol definition then return { definition }
  else
    let nameBytes ← symbol.name
    -- the version is looked up by the index in the chunk
    let nameInfo := platform.rawSymbolName nameBytes verneedTable localSymbolIndex
    return resolveSymbol db (obj.symbolIdStart + index)
      ⟨nameInfo, symbol.isInterposable, symbol.isWeak⟩ definition obj.isDynamic obj.fileId false

/-- The symbols of a chunk that starts at the offset, with the definitions it is to write. -/
def resolveSymbols (startSymbolOffset : Nat) (definitionsOut : List SymbolId) :
    Fallible (List Resolved) := do
  let verneedTable ← obj.verneedTable
  ((obj.symbols.drop startSymbolOffset).zipIdx.zip definitionsOut).mapM fun entry =>
    resolveEntry platform db obj verneedTable startSymbolOffset entry.1.2 entry.1.1 entry.2

end Objects

/-! ### Work items -/

def MAX_SYMBOLS_PER_WORK_ITEM : Nat := 5000

/-- A request to resolve some of the symbols of an object, with the definitions to be written. -/
structure LoadObjectSymbolsRequest where
  fileId : FileId
  symbolStartOffset : Nat
  definitionsOut : List SymbolId
  deriving Repr, DecidableEq

/-- The work items of an object: as many definitions as fit into one, and the rest. There is one even
if there are no definitions. -/
def workItems (chunkSize : Nat) (fileId : FileId) :
    Nat → Nat → List SymbolId → List LoadObjectSymbolsRequest
  | 0, _, _ => []
  | fuel + 1, symbolStartOffset, definitionsOut =>
    let len := min chunkSize definitionsOut.length
    ⟨fileId, symbolStartOffset, definitionsOut.take len⟩
      :: if (definitionsOut.drop len).isEmpty then []
        else workItems chunkSize fileId fuel (symbolStartOffset + len) (definitionsOut.drop len)

/-- The loop ends, since every item takes some definitions. -/
def workItemsDo (chunkSize : Nat) (fileId : FileId) (definitionsOut : List SymbolId) :
    List LoadObjectSymbolsRequest :=
  workItems chunkSize fileId (definitionsOut.length + 1) 0 definitionsOut

end JdxLinker.Resolution
