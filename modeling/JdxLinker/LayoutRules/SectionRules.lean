import JdxLinker.Lib.Utf8
import JdxLinker.Lib.Chunks

/-!
# Patterns of linker scripts

A pattern is a plain string, a string with escapes, or a glob. Globs are compiled and matched by an
external library.
-/

namespace JdxLinker.LayoutRules

open Utf8

/-- A byte of a pattern. -/
def byte (c : Char) : UInt8 := UInt8.ofNat c.toNat

inductive GlobPatternType where
  | exact
  | escapedExact
  | star
  | nonStar
  deriving Repr, DecidableEq

/-- The loop over the bytes of a pattern, with what was found so far. -/
def analyzeRest : GlobPatternType → List UInt8 → GlobPatternType
  | patternType, [] => patternType
  | patternType, c :: rest =>
    if c = byte '\\' then
      let patternType := if patternType = .exact then .escapedExact else patternType
      match rest with
      | [] => patternType
      | _ :: rest => analyzeRest patternType rest
    else if c = byte '*' then .star
    else if c = byte '[' ∨ c = byte ']' ∨ c = byte '?' then analyzeRest .nonStar rest
    else analyzeRest patternType rest

def analyzeGlobPattern (pattern : List UInt8) : GlobPatternType := analyzeRest .exact pattern

def unescapePattern : List UInt8 → List UInt8
  | [] => []
  | [c] => [c]
  | c :: next :: rest =>
    if c = byte '\\' then next :: unescapePattern rest else c :: unescapePattern (next :: rest)

/-- The library of globs, over the bytes of UTF-8 strings. -/
structure Glob where
  Pattern : Type
  new : List UInt8 → Option Pattern
  isMatch : Pattern → List UInt8 → Bool

/-- The library has another character for negation. -/
def replaceNegation : List UInt8 → List UInt8
  | [] => []
  | [c] => [c]
  | c :: next :: rest =>
    if c = byte '[' ∧ next = byte '^' then byte '[' :: byte '!' :: replaceNegation rest
    else c :: replaceNegation (next :: rest)

def compileGlobPattern (glob : Glob) (token : List UInt8) : Except String glob.Pattern :=
  if isUtf8 token then
    match glob.new (replaceNegation token) with
    | some pattern => .ok pattern
    | none => .error "Invalid Glob Pattern"
  else .error "Invalid UTF-8 string"

/-- Strings with question marks and stars. -/
def wildcardMatches : List UInt8 → List UInt8 → Bool
  | [], name => name.isEmpty
  | c :: pattern, name =>
    if c = byte '*' then name.tails.any (wildcardMatches pattern)
    else
      match name with
      | [] => false
      | b :: name => (c = byte '?' || c = b) && wildcardMatches pattern name

/-- Globs without character classes. -/
def wildcards : Glob where
  Pattern := List UInt8
  new := some
  isMatch := wildcardMatches

end JdxLinker.LayoutRules

/-!
## Rules for input sections

What is done with an input section is decided by the first rule that matches its name and its file.
The rules are in a table, under the hash of the first four bytes of what they were written as.
-/

namespace JdxLinker.LayoutRules

open Filed Utf8

abbrev OutputSectionId := Nat

structure SectionOutputInfo where
  sectionId : OutputSectionId
  mustKeep : Bool
  sorted : Bool
  deriving Repr, DecidableEq

def SectionOutputInfo.regular (sectionId : OutputSectionId) : SectionOutputInfo :=
  ⟨sectionId, false, false⟩

inductive SectionRuleOutcome where
  | «section» (info : SectionOutputInfo)
  | discard
  | custom
  | ehFrame
  | noteGnuProperty
  | noteGnuStack
  | debug
  | debugIndex
  | riscVAttribute
  | sortedSection (info : SectionOutputInfo)
  deriving Repr, DecidableEq

/-- How names of input sections are matched. A glob keeps the text of its pattern. -/
inductive SectionNameMatcher (glob : Glob) where
  | exact (name : List UInt8)
  | pre (text : List UInt8)
  | glob (text : List UInt8) (pattern : glob.Pattern)

structure SectionRule (glob : Glob) where
  nameMatcher : SectionNameMatcher glob
  /-- Matches all files if there is none. -/
  inputFilePattern : Option glob.Pattern
  outcome : SectionRuleOutcome

variable {glob : Glob}

def SectionNameMatcher.prefixBytes : SectionNameMatcher glob → List UInt8
  | .exact name => name
  | .pre text => text
  | .glob text _ => text

namespace SectionRule

/-- A rule of a linker script. -/
def new (pattern : List UInt8) (inputFilePattern : Option (List UInt8))
    (outcome : SectionRuleOutcome) : Except String (SectionRule glob) := do
  let compiledFilePattern ← match inputFilePattern with
    | some pattern => some <$> compileGlobPattern glob pattern
    | none => pure none
  let nameMatcher ← match analyzeGlobPattern pattern with
    | .exact => pure (.exact pattern)
    | .escapedExact => pure (.exact (unescapePattern pattern))
    | .star | .nonStar => .glob pattern <$> compileGlobPattern glob pattern
  return ⟨nameMatcher, compiledFilePattern, outcome⟩

def isMatch (rule : SectionRule glob) (sectionName : List UInt8) (fileName : Option (List UInt8)) :
    Bool :=
  let sectionMatches : Bool :=
    match rule.nameMatcher with
    | .exact name => sectionName = name
    | .pre text => text.isPrefixOf sectionName
    | .glob _ pattern => isUtf8 sectionName && glob.isMatch pattern sectionName
  if sectionMatches then
    match rule.inputFilePattern, fileName with
    | none, _ => true
    | some _, none => false
    | some pattern, some name => isUtf8 name && glob.isMatch pattern name
  else false

end SectionRule

/-- A hash of the first four bytes of a name, with zeros where it is shorter. -/
def sectionNamePrefixHash (hashBytes : List UInt8 → UInt64) (name : List UInt8) : Option UInt64 :=
  if name.isEmpty then none else some (hashBytes ((name ++ List.replicate 4 0).take 4))

abbrev SectionRules (glob : Glob) := Filed.Table UInt64 (SectionRule glob)

/-- The hash that a rule is filed under. -/
def SectionRule.filedUnder (hashBytes : List UInt8 → UInt64) (rule : SectionRule glob) : UInt64 :=
  (sectionNamePrefixHash hashBytes rule.nameMatcher.prefixBytes).getD 0

def SectionRules.fromRules (hashBytes : List UInt8 → UInt64) (rules : List (SectionRule glob)) :
    SectionRules glob :=
  rules.foldl (fun map rule => map.insert (rule.filedUnder hashBytes) rule) Filed.Table.empty

/-! ### Sections without a name -/

structure SectionHeader where
  shouldExclude : Bool
  isAlloc : Bool
  isProgBits : Bool
  isNoBits : Bool
  isExecutable : Bool
  isTls : Bool
  isWritable : Bool
  deriving Repr, DecidableEq

/-- The output sections that a platform has. -/
structure PlatformSections where
  text : Option OutputSectionId
  rodata : Option OutputSectionId
  data : Option OutputSectionId
  bss : Option OutputSectionId
  tdata : Option OutputSectionId
  tbss : Option OutputSectionId
  deriving Repr, DecidableEq

def regularSectionOrDiscard : Option OutputSectionId → SectionRuleOutcome
  | some sectionId => .section (.regular sectionId)
  | none => .discard

def unnamedSectionOutput (platform : PlatformSections) (header : SectionHeader) :
    SectionRuleOutcome :=
  if !header.isAlloc then .discard
  else if header.isProgBits then
    if header.isExecutable then regularSectionOrDiscard platform.text
    else if header.isTls then regularSectionOrDiscard platform.tdata
    else if header.isWritable then regularSectionOrDiscard platform.data
    else regularSectionOrDiscard platform.rodata
  else if header.isNoBits then
    if header.isTls then regularSectionOrDiscard platform.tbss
    else regularSectionOrDiscard platform.bss
  else .discard

/-! ### The lookup -/

def SectionRules.lookup (hashBytes : List UInt8 → UInt64) (platform : PlatformSections)
    (map : SectionRules glob) (sectionName : List UInt8) (fileName : Option (List UInt8))
    (header : SectionHeader) : SectionRuleOutcome :=
  if header.shouldExclude then .discard
  else
    let found := (sectionNamePrefixHash hashBytes sectionName).bind fun hash =>
      map.find hash fun rule => rule.isMatch sectionName fileName
    match found with
    | some rule => rule.outcome
    | none =>
      if sectionName.isEmpty then unnamedSectionOutput platform header else .custom

/-- The outcome of the first rule that matches. -/
def firstMatch (rules : List (SectionRule glob)) (sectionName : List UInt8)
    (fileName : Option (List UInt8)) : SectionRuleOutcome :=
  match rules.find? fun rule => rule.isMatch sectionName fileName with
  | some rule => rule.outcome
  | none => .custom

section Lookup

variable (hashBytes : List UInt8 → UInt64) (platform : PlatformSections)
  {rules : List (SectionRule glob)} {sectionName : List UInt8} {fileName : Option (List UInt8)}
  {header : SectionHeader}

/-- Only the rules under the hash of the name are searched. -/
theorem lookup_eq (hname : sectionName ≠ []) (hexclude : header.shouldExclude = false) :
    (SectionRules.fromRules hashBytes rules).lookup hashBytes platform sectionName fileName header
      = firstMatch (rules.filter fun rule =>
          rule.filedUnder hashBytes
            = hashBytes ((sectionName ++ List.replicate 4 0).take 4)) sectionName fileName := by
  obtain ⟨first, rest, rfl⟩ := List.exists_cons_of_ne_nil hname
  unfold SectionRules.lookup SectionRules.fromRules
  rw [hexclude]
  simp only [sectionNamePrefixHash, List.isEmpty_cons, Bool.false_eq_true, if_false,
    Option.bind_some]
  rw [Filed.Table.find_foldl_insert]
  rfl

end Lookup

end JdxLinker.LayoutRules
