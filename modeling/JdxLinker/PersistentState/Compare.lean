import JdxLinker.Lib.SortedMap
import JdxLinker.Lib.Bytes

/-!
# Comparing inputs with a recorded link

A manifest records the inputs of a link. A later link counts how many of its inputs are as they were
recorded, and how many were changed, added or removed.
-/

namespace JdxLinker.PersistentState

/-- A path as bytes, in the order of the bytes. -/
structure PathBytes where
  bytes : List UInt8
  deriving Repr, DecidableEq

instance : LinearOrder PathBytes :=
  LinearOrder.lift' (fun path => path.bytes.map UInt8.toFin) fun a b h => by
    have hbytes : a.bytes = b.bytes :=
      List.map_injective_iff.mpr (fun _ _ => UInt8.toFin_inj.mp) h
    cases a
    cases b
    exact congrArg PathBytes.mk hbytes

/-- A BLAKE3 digest. -/
abbrev Digest := Vector UInt8 32

structure InputIdentity where
  path : PathBytes
  modifiedNanos : Nat
  len : Nat
  contentDigest : Option Digest
  deriving Repr, DecidableEq

structure Manifest where
  formatVersion : Nat
  linkerVersion : String
  generation : Nat
  structureDigest : Digest
  inputs : List InputIdentity
  deriving Repr, DecidableEq

structure StateObservation where
  previousGeneration : Option Nat
  unchanged : Nat
  changed : Nat
  added : Nat
  removed : Nat
  deriving Repr, DecidableEq

def sameContents (old current : InputIdentity) : Bool :=
  match old.contentDigest, current.contentDigest with
  | some old, some current => old = current
  | _, _ => old.modifiedNanos = current.modifiedNanos && old.len = current.len

/-- The counts so far, the recorded paths that were matched to a current input, and the current
inputs whose paths were not recorded. -/
structure Comparison where
  unchanged : Nat
  changed : Nat
  added : Nat
  matchedOldPaths : Finset PathBytes
  unmatchedCurrent : List InputIdentity

def Comparison.initial : Comparison := ⟨0, 0, 0, ∅, []⟩

abbrev OldInputs := SortedMap PathBytes InputIdentity

def oldInputs (previous : Manifest) : OldInputs :=
  .ofList (previous.inputs.map fun input => (input.path, input))

/-- Matches a current input by its path. -/
def matchPath (old : OldInputs) (state : Comparison) (identity : InputIdentity) : Comparison :=
  match old.get? identity.path with
  | some old =>
    let matchedOldPaths := insert old.path state.matchedOldPaths
    if sameContents old identity then
      { state with matchedOldPaths := matchedOldPaths, unchanged := state.unchanged + 1 }
    else { state with matchedOldPaths := matchedOldPaths, changed := state.changed + 1 }
  | none => { state with unmatchedCurrent := state.unmatchedCurrent ++ [identity] }

/-- The first recorded input, in the order of the paths, that is not matched yet and has the digest
of the current one. -/
def findDigest (old : OldInputs) (matchedOldPaths : Finset PathBytes) (identity : InputIdentity) :
    Option InputIdentity :=
  (old.entries.find? fun entry =>
    entry.2.path ∉ matchedOldPaths && entry.2.contentDigest.isSome
      && entry.2.contentDigest = identity.contentDigest).map Prod.snd

/-- Matches a current input whose path was not recorded by its digest. -/
def matchDigest (old : OldInputs) (state : Comparison) (identity : InputIdentity) : Comparison :=
  match findDigest old state.matchedOldPaths identity with
  | some old =>
    { state with
      matchedOldPaths := insert old.path state.matchedOldPaths
      unchanged := state.unchanged + 1 }
  | none => { state with added := state.added + 1 }

def samePaths (previous current : List InputIdentity) : Bool :=
  previous.length = current.length
    && (previous.zip current).all fun pair => pair.1.path = pair.2.path

def comparePaths (previous : Manifest) (current : List InputIdentity) : Comparison :=
  let old := oldInputs previous
  let matched := current.foldl (matchPath old) .initial
  matched.unmatchedCurrent.foldl (matchDigest old) matched

def compare (previous : Option Manifest) (current : List InputIdentity) : StateObservation :=
  match previous with
  | none => ⟨none, 0, 0, current.length, 0⟩
  | some previous =>
    if samePaths previous.inputs current then
      let unchanged := ((previous.inputs.zip current).filter fun pair =>
        sameContents pair.1 pair.2).length
      ⟨some previous.generation, unchanged, current.length - unchanged, 0, 0⟩
    else
      let comparison := comparePaths previous current
      ⟨some previous.generation, comparison.unchanged, comparison.changed, comparison.added,
        (oldInputs previous).entries.length - comparison.matchedOldPaths.card⟩

end JdxLinker.PersistentState

/-!
## The digest of a command line

The arguments of a link are hashed one after the other. The value of the output option and the
temporary search paths of rustc are hashed as placeholders, and input files are left out.
-/

namespace JdxLinker.PersistentState

open Framing

/-- An argument of the command line. -/
structure Argument where
  bytes : List UInt8
  length_lt : bytes.length < 2 ^ 64
  deriving DecidableEq

/-! ### Paths -/

def slash : UInt8 := 0x2F

def dot : UInt8 := 0x2E

/-- The components of a path: repeated separators, and dots that are not the start of a relative
path, are dropped. -/
def components (path : List UInt8) : List (List UInt8) :=
  let parts := path.splitOn slash
  let start :=
    if path.head? = some slash then [[slash]]
    else if parts.head? = some [dot] then [[dot]]
    else []
  start ++ parts.filter fun part => part ≠ [] && part ≠ [dot]

def isAbsolute (path : List UInt8) : Bool := path.head? = some slash

/-- A relative path below a directory. -/
def join (cwd path : List UInt8) : List UInt8 :=
  match cwd.getLast? with
  | none => path
  | some last => if last = slash then cwd ++ path else cwd ++ slash :: path

/-- The input paths are compared by their components. -/
def isInputPath (cwd path : List UInt8) (inputPaths : List (List UInt8)) : Bool :=
  let path := if isAbsolute path then path else join cwd path
  inputPaths.any fun input => components input = components path

def stripPrefix (start bytes : List UInt8) : Option (List UInt8) :=
  if start <+: bytes then some (bytes.drop start.length) else none

def startsWith (start bytes : List UInt8) : Bool := (stripPrefix start bytes).isSome

def isAsciiAlphanumeric (byte : UInt8) : Bool :=
  (0x30 ≤ byte && byte ≤ 0x39) || (0x41 ≤ byte && byte ≤ 0x5A) || (0x61 ≤ byte && byte ≤ 0x7A)

def text (string : String) : List UInt8 := string.toUTF8.data.toList

def isRustcTemporaryPath (path : List UInt8) : Bool :=
  (components path).any fun component =>
    match stripPrefix (text "rustc") component with
    | some suffix => suffix ≠ [] && suffix.all isAsciiAlphanumeric
    | none => false

/-! ### The digest -/

/-- What has been hashed, and what the next argument is the value of. -/
structure DigestState where
  hasher : List UInt8
  isOutputValue : Bool
  isSearchPathValue : Bool
  deriving DecidableEq

namespace DigestState

def initial : DigestState := ⟨[], false, false⟩

def hashPart (state : DigestState) (part : List UInt8) : DigestState :=
  { state with hasher := state.hasher ++ frame part }

end DigestState

def outputPlaceholder : List UInt8 := text "<output>"

def searchPathPlaceholder : List UInt8 := text "<rustc-temporary-search-path>"

/-- `-L` with a temporary search path of rustc joined to it. -/
def isJoinedTemporaryPath (argument : List UInt8) : Bool :=
  match stripPrefix (text "-L") argument with
  | some path => isRustcTemporaryPath path
  | none => false

def digestArgument (cwd : List UInt8) (inputPaths : List (List UInt8)) (state : DigestState)
    (argument : Argument) : DigestState :=
  let argument := argument.bytes
  if state.isOutputValue then
    { state.hashPart outputPlaceholder with isOutputValue := false }
  else if state.isSearchPathValue then
    { state.hashPart
        (if isRustcTemporaryPath argument then searchPathPlaceholder else argument) with
      isSearchPathValue := false }
  else if argument = text "-o" ∨ argument = text "--output" then
    { state.hashPart argument with isOutputValue := true }
  else if argument = text "-L" then
    { state.hashPart argument with isSearchPathValue := true }
  else if startsWith (text "--output=") argument || startsWith (text "-o") argument then
    state.hashPart outputPlaceholder
  else if isJoinedTemporaryPath argument then
    state.hashPart searchPathPlaceholder
  else if isInputPath cwd argument inputPaths then
    -- which inputs there are is the changing part, and not the structure of the link
    state
  else
    state.hashPart argument

/-- The digest of the arguments after the first one, which is the name of the program. -/
def structureDigest {δ : Type} (hash : List UInt8 → δ) (cwd : List UInt8) (arguments : List Argument)
    (inputPaths : List (List UInt8)) : δ :=
  hash ((arguments.drop 1).foldl (digestArgument cwd inputPaths) .initial).hasher

end JdxLinker.PersistentState
