import JdxLinker.Lib.Indexed
import JdxLinker.Resolution.SymbolDb
import JdxLinker.Script.Expression

/-!
# The files whose symbols are resolved

The input files are in groups, and the table of definitions has the symbols of one file after those
of another. Resolution may be repeated after more groups have been added. The definitions of a file
are split off the table when it starts, and are handed to the work items of the file, if it is loaded.
-/

namespace JdxLinker.Resolution

open Indexed

inductive SymbolPlacement where
  | forceUndefined
  | redirect (expression : Script.Expression)
  /-- A placement that needs no other symbol. -/
  | other
  deriving Repr, DecidableEq

structure InternalSymDefInfo where
  placement : SymbolPlacement
  name : Name
  deriving Repr, DecidableEq

structure SequencedInputObject extends InputObject where
  /-- The file is only loaded if it is referenced: an archive entry or an as-needed library. -/
  isOptional : Bool

/-- A symbol of a file that a linker plugin claimed. -/
structure PluginSymbol where
  name : Name
  version : Option Name
  isDefinition : Bool
  defaultVisibility : Bool
  isWeak : Bool
  deriving Repr, DecidableEq

structure LtoInput where
  fileId : FileId
  symbols : List PluginSymbol
  symbolIdStart : SymbolId
  isOptional : Bool
  deriving Repr, DecidableEq

inductive Group where
  | prelude (symbolDefinitions : List InternalSymDefInfo)
  | objects (parsed : List SequencedInputObject)
  | stubLibraries (numSymbols : List Nat)
  | linkerScripts (scripts : List (List InternalSymDefInfo))
  | syntheticSymbols (numSymbols : Nat)
  | ltoInputs (lto : List LtoInput)

inductive InputFile where
  | prelude (symbolDefinitions : List InternalSymDefInfo)
  | object (obj : SequencedInputObject)
  | stubLibrary (numSymbols : Nat)
  | linkerScript (symbolDefs : List InternalSymDefInfo)
  | syntheticSymbols (numSymbols : Nat)
  | ltoInput (obj : LtoInput)

def Group.files : Group → List InputFile
  | prelude symbolDefinitions => [.prelude symbolDefinitions]
  | objects parsed => parsed.map .object
  | stubLibraries numSymbols => numSymbols.map .stubLibrary
  | linkerScripts scripts => scripts.map .linkerScript
  | syntheticSymbols numSymbols => [.syntheticSymbols numSymbols]
  | ltoInputs lto => lto.map .ltoInput

/-- The definitions of all scripts of a group. -/
def Group.scriptDefinitions : Group → List InternalSymDefInfo
  | linkerScripts scripts => scripts.flatten
  | _ => []

namespace InputFile

def numSymbols : InputFile → Nat
  | prelude symbolDefinitions => symbolDefinitions.length
  | object obj => obj.symbols.length
  | stubLibrary numSymbols => numSymbols
  | linkerScript symbolDefs => symbolDefs.length
  | syntheticSymbols numSymbols => numSymbols
  | ltoInput obj => obj.symbols.length

def isOptional : InputFile → Bool
  | object obj => obj.isOptional
  | ltoInput obj => obj.isOptional
  | _ => false

/-- Only objects and the files of linker plugins are loaded. -/
def isLoadable : InputFile → Bool
  | object _ => true
  | ltoInput _ => true
  | _ => false

end InputFile

/-- A file, with its part of the table of definitions. A place in the table is the ID of the symbol
whose definition it has. -/
structure FileDefinitions where
  fileId : FileId
  file : InputFile
  definitionsOut : List SymbolId

/-- Every file takes as many definitions off the rest of the table as it has symbols. -/
def splitDefinitions : List (FileId × InputFile) → List SymbolId → List FileDefinitions
  | [], _ => []
  | (fileId, file) :: files, definitions =>
    ⟨fileId, file, definitions.take file.numSymbols⟩
      :: splitDefinitions files (definitions.drop file.numSymbols)

/-- The IDs and the files of groups. -/
def numberedFiles (groups : List Group) : List (FileId × InputFile) :=
  groups.zipIdx.flatMap fun numbered =>
    numbered.1.files.zipIdx.map fun file => (⟨numbered.2, file.2⟩, file.1)

def numSymbols (groups : List Group) : Nat :=
  ((numberedFiles groups).map fun numbered => numbered.2.numSymbols).sum

structure ResolutionInputs where
  platform : Platform
  db : SymbolDb
  groups : List Group
  /-- The number of groups whose symbols have been resolved before. -/
  preExistingGroups : Nat
  /-- Whether a file has been loaded before. -/
  wasLoaded : FileId → Bool
  /-- The symbol that execution starts at, unless there is none or it is an address. -/
  entrySymbolName : Option Name
  symbolDefinitions : List SymbolId
  length_symbolDefinitions : symbolDefinitions.length = numSymbols groups
  object_fileId : ∀ fileId obj, (fileId, .object obj) ∈ numberedFiles groups → obj.fileId = fileId
  ltoInput_fileId : ∀ fileId obj, (fileId, .ltoInput obj) ∈ numberedFiles groups →
    obj.fileId = fileId

/-! ### Steps -/

/-- One step of processing a work item, with the place of the definition that it may write. -/
inductive Action where
  /-- Look up the entry symbol. -/
  | entrySymbol (name : Name)
  /-- Look up a symbol that is undefined at the user's request. -/
  | forceUndefined (name : Name) (place : SymbolId)
  /-- Look up a symbol that a definition mentions. -/
  | redirectTarget (name : Name)
  | objectSymbol (obj : InputObject) (verneedTable : VerneedTable)
      (startSymbolOffset localSymbolIndex : Nat) (symbol : InputSymbol) (place : SymbolId)
  | ltoSymbol (obj : LtoInput) (localSymbolIndex : Nat) (symbol : PluginSymbol) (place : SymbolId)
  /-- The symbols cannot be resolved at all. -/
  | fail (failure : Failure)

namespace Action

def place : Action → Option SymbolId
  | forceUndefined _ place => place
  | objectSymbol _ _ _ _ _ place => place
  | ltoSymbol _ _ _ place => place
  | _ => none

/-- The file and the index of the symbol that is resolved. -/
def symbol : Action → Option (FileId × Nat)
  | objectSymbol obj _ startSymbolOffset localSymbolIndex _ _ =>
    some (obj.fileId, startSymbolOffset + localSymbolIndex)
  | ltoSymbol obj localSymbolIndex _ _ => some (obj.fileId, localSymbolIndex)
  | _ => none

/-- The name that is looked up for the entry, a forced symbol or an expression. -/
def name : Action → Option Name
  | entrySymbol name => name
  | forceUndefined name _ => name
  | redirectTarget name => name
  | _ => none

end Action

/-- The definition of an unversioned name is written, and its file is loaded. -/
def loadSymbolNamed (db : SymbolDb) (definition : SymbolId) (name : Name) : Resolved :=
  match db.getUnversioned name with
  | some symbolId => { definition := symbolId, request := db.symbolFileIds symbolId }
  | none => { definition }

def markNonIrRef (symbolId : SymbolId) : List (SymbolId × ValueFlags) :=
  [(symbolId, { ValueFlags.empty with hasNonIrRef := true })]

/-- The entry symbol is referenced, whatever file it is in. -/
def loadEntrySymbol (db : SymbolDb) (name : Name) : Resolved :=
  { loadSymbolNamed db undefinedId name with
    orAssigned := (db.getUnversioned name).elim [] markNonIrRef }

def loadRedirectTarget (db : SymbolDb) (targetName : Name) : Resolved :=
  match db.getUnversioned targetName with
  | some symbolId =>
    { definition := undefinedId
      request := db.symbolFileIds symbolId
      orAssigned := markNonIrRef symbolId }
  | none => { definition := undefinedId }

/-- The name of an undefined symbol of a linker plugin's file. Its version may be given apart. -/
def PluginSymbol.rawName (symbol : PluginSymbol) : RawSymbolName :=
  match symbol.version with
  | some version => { RawSymbolName.parse symbol.name with versionName := some version }
  | none => .parse symbol.name

def resolveLtoSymbol (db : SymbolDb) (obj : LtoInput) (localSymbolIndex : Nat)
    (symbol : PluginSymbol) (definition : SymbolId) : Resolved :=
  if symbol.isDefinition then { definition }
  else
    resolveSymbol db (obj.symbolIdStart + localSymbolIndex)
      ⟨symbol.rawName, symbol.defaultVisibility, symbol.isWeak⟩ definition false obj.fileId true

/-- What a step does, by the definition at its place. -/
def Action.run (platform : Platform) (db : SymbolDb) (definition : SymbolId) :
    Action → Fallible Resolved
  | entrySymbol name => .ok (loadEntrySymbol db name)
  | forceUndefined name _ => .ok (loadSymbolNamed db definition name)
  | redirectTarget name => .ok (loadRedirectTarget db name)
  | objectSymbol obj verneedTable startSymbolOffset localSymbolIndex symbol _ =>
    resolveEntry platform db obj verneedTable startSymbolOffset localSymbolIndex symbol definition
  | ltoSymbol obj localSymbolIndex symbol _ =>
    .ok (resolveLtoSymbol db obj localSymbolIndex symbol definition)
  | fail failure => .error failure

/-! ### Work items -/

/-- The targets of a definition. -/
def loadSymbolsInRedirect (expression : Script.Expression) : List Action :=
  expression.symbols.map .redirectTarget

def loadPrelude (entrySymbolName : Option Name) (symbolDefinitions : List InternalSymDefInfo)
    (definitionsOut : List SymbolId) : List Action :=
  entrySymbolName.toList.map .entrySymbol ++
    (symbolDefinitions.zip definitionsOut).flatMap fun entry =>
      match entry.1.placement with
      | .forceUndefined => [.forceUndefined entry.1.name entry.2]
      | .redirect expression => loadSymbolsInRedirect expression
      | .other => []

def loadScripts (symbolDefs : List InternalSymDefInfo) : List Action :=
  symbolDefs.flatMap fun defInfo =>
    match defInfo.placement with
    | .redirect expression => loadSymbolsInRedirect expression
    | _ => []

/-- The symbols of an object, from an offset on. -/
def objectSymbols (obj : InputObject) (startSymbolOffset : Nat) (definitionsOut : List SymbolId) :
    List Action :=
  match obj.verneedTable with
  | .ok verneedTable =>
    map₂ (.objectSymbol obj verneedTable startSymbolOffset) 0 (obj.symbols.drop startSymbolOffset)
      definitionsOut
  | .error failure => [.fail failure]

def ltoSymbols (obj : LtoInput) (definitionsOut : List SymbolId) : List Action :=
  map₂ (.ltoSymbol obj) 0 obj.symbols definitionsOut

namespace ResolutionInputs

variable (inputs : ResolutionInputs)

/-- Each file's part of the whole table. -/
def definitionsPerFile : List FileDefinitions :=
  splitDefinitions (numberedFiles inputs.groups) (List.range inputs.symbolDefinitions.length)

def file? (fileId : FileId) : Option InputFile :=
  (inputs.groups[fileId.group]?).bind fun group => group.files[fileId.file]?

/-- The steps of a work item. -/
def processObject (workItem : LoadObjectSymbolsRequest) : List Action :=
  match inputs.file? workItem.fileId with
  | some (.prelude symbolDefinitions) =>
    loadPrelude inputs.entrySymbolName symbolDefinitions workItem.definitionsOut
  | some (.object obj) =>
    objectSymbols obj.toInputObject workItem.symbolStartOffset workItem.definitionsOut
  | some (.linkerScript _) =>
    loadScripts (((inputs.groups[workItem.fileId.group]?).map Group.scriptDefinitions).getD [])
  | some (.ltoInput obj) => ltoSymbols obj workItem.definitionsOut
  | _ => []

end ResolutionInputs

/-- The work items of a file. Only objects are divided up. -/
def FileDefinitions.workItems (file : FileDefinitions) : List LoadObjectSymbolsRequest :=
  match file.file with
  | .prelude _ => workItemsDo file.definitionsOut.length file.fileId file.definitionsOut
  | .object _ => workItemsDo MAX_SYMBOLS_PER_WORK_ITEM file.fileId file.definitionsOut
  | .linkerScript _ | .ltoInput _ => [⟨file.fileId, 0, file.definitionsOut⟩]
  | .stubLibrary _ | .syntheticSymbols _ => []

end JdxLinker.Resolution
