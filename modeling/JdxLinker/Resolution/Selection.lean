import JdxLinker.Lib.Activation
import JdxLinker.Resolution.Inputs

/-!
# Selecting the files to be loaded

The work items of the files that are loaded in any case are there from the start. A file that may be
left out has its definitions taken by the first symbol that needs it, which adds its work items. The
work items of all files are processed side by side, in any order.
-/

namespace JdxLinker.Resolution

open TaskSystem

/-- What the work items share. -/
structure Resolving where
  definitions : List SymbolId
  /-- The definitions of the files that have not been loaded, but may be. -/
  definitionsPerFile : FileId → Option FileDefinitions
  loaded : List FileId
  undefinedSymbols : List UndefinedSymbol
  perSymbolFlags : SymbolId → ValueFlags
  /-- There is room for one error. -/
  error : Option Failure

namespace Resolving

def orAssign (flags : SymbolId → ValueFlags) (added : SymbolId × ValueFlags) :
    SymbolId → ValueFlags :=
  Function.update flags added.1 ((flags added.1).union added.2)

/-- What a step leaves behind. -/
def record (s : Resolving) (a : Action) (resolved : Resolved) : Resolving :=
  { s with
    definitions := a.place.elim s.definitions fun place => s.definitions.set place resolved.definition
    undefinedSymbols := s.undefinedSymbols ++ resolved.undefined.toList
    perSymbolFlags := resolved.orAssigned.foldl orAssign s.perSymbolFlags }

def handleError (s : Resolving) (failure : Failure) : Resolving :=
  { s with error := s.error <|> some failure }

/-- The definitions of a file that is loaded now. -/
def take (s : Resolving) (file : FileDefinitions) : Resolving :=
  { s with
    definitionsPerFile := Function.update s.definitionsPerFile file.fileId none
    loaded := s.loaded ++ [file.fileId] }

end Resolving

/-- The definition that a step starts from. -/
def Action.definition (definitions : List SymbolId) (a : Action) : SymbolId :=
  a.place.elim undefinedId fun place => definitions.getD place undefinedId

namespace ResolutionInputs

variable (inputs : ResolutionInputs)

/-- The steps of the work items of a file. -/
def steps (file : FileDefinitions) : List (List Action) :=
  file.workItems.map inputs.processObject

def isNew (file : FileDefinitions) : Bool := decide (inputs.preExistingGroups ≤ file.fileId.group)

/-- Whether a file is processed in any case. -/
def isRoot (file : FileDefinitions) : Bool := inputs.isNew file && !file.file.isOptional

/-- Whether a file is processed only if it is requested. -/
def mayTake (file : FileDefinitions) : Bool :=
  if inputs.isNew file then file.file.isOptional
  else file.file.isLoadable && !inputs.wasLoaded file.fileId

def rootFiles : List FileDefinitions := inputs.definitionsPerFile.filter inputs.isRoot

def optionalFile (fileId : FileId) : Option FileDefinitions :=
  inputs.definitionsPerFile.find? fun file => decide (file.fileId = fileId) && inputs.mayTake file

def initialWork : List (List Action) := inputs.rootFiles.flatMap inputs.steps

def initialLoaded : List FileId :=
  (inputs.rootFiles.filter fun file => file.file.isLoadable).map fun file => file.fileId

def start : Config Resolving (List Action) where
  shared :=
    { definitions := inputs.symbolDefinitions
      definitionsPerFile := inputs.optionalFile
      loaded := inputs.initialLoaded
      undefinedSymbols := []
      perSymbolFlags := inputs.db.flags
      error := none }
  tasks := inputs.initialWork

def tryRequestFileId (s : Resolving) (request : Option FileId) : Option FileDefinitions :=
  request.bind s.definitionsPerFile

/-- What becomes of a work item that has taken a step. An error ends it. -/
def proceed (s : Resolving) (a : Action) (rest : List Action) :
    Fallible Resolved → Effect Resolving (List Action) Action
  | .error failure => ⟨s.handleError failure, [], [a]⟩
  | .ok resolved =>
    match tryRequestFileId s resolved.request with
    | some file => ⟨(s.record a resolved).take file, rest :: inputs.steps file, [a]⟩
    | none => ⟨s.record a resolved, [rest], [a]⟩

/-- A work item takes its next step. -/
def act : List Action → Resolving → Effect Resolving (List Action) Action
  | [], s => ⟨s, [], []⟩
  | a :: rest, s =>
    inputs.proceed s a rest (a.run inputs.platform inputs.db (a.definition s.definitions))

end ResolutionInputs

end JdxLinker.Resolution
