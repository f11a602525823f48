import JdxLinker.Lib.Precedence
import JdxLinker.SymbolVersion.Patterns
import JdxLinker.SymbolVersion.Script

/-!
# Matching symbols with versions

The patterns of a version are kept by their kinds: for global and for local symbols, and for names as
they are and for those of C++ after demangling. A symbol gets the first version with its name, else
the last one with a glob that matches it, where globs without a star come first, else the last one
that matches everything.
-/

namespace JdxLinker.SymbolVersion

open LayoutRules Precedence Utf8

inductive VersionRuleSection where
  | «global»
  | «local»
  deriving Repr, DecidableEq

/-- The two sets of names are hash sets in which the order plays no role. -/
structure BasicMatchRules (glob : Glob) where
  exact : List (List UInt8) := []
  escapedExact : List (List UInt8) := []
  starGlobs : List glob.Pattern := []
  nonstarGlobs : List glob.Pattern := []
  matchesAll : Bool := false

structure MatchRules (glob : Glob) where
  general : BasicMatchRules glob := {}
  cxx : BasicMatchRules glob := {}

structure VersionBody (glob : Glob) where
  globals : MatchRules glob := {}
  locals : MatchRules glob := {}

structure RegularVersionScript (glob : Glob) where
  versions : List (Version × VersionBody glob)
  versionNameMapping : List (List UInt8 × Nat)

/-- A name to look up, and what demangles names. Other names than those in UTF-8 are not looked
up. -/
structure SymbolLookupName where
  name : List UInt8
  demangle : List UInt8 → Option (List UInt8)
  isUtf8 : Utf8.isUtf8 name = true

def SymbolLookupName.demangledName (lookup : SymbolLookupName) : List UInt8 :=
  (lookup.demangle lookup.name).getD lookup.name

/-- The name that is matched, which is demangled if it is for C++. -/
def SymbolLookupName.bytes (lookup : SymbolLookupName) (mangled : Bool) : List UInt8 :=
  if mangled then lookup.demangledName else lookup.name

section Matching

variable {glob : Glob}

namespace BasicMatchRules

def push (rules : BasicMatchRules glob) : SymbolMatcher glob → BasicMatchRules glob
  | .matchesAll => { rules with matchesAll := true }
  | .starGlob pattern => { rules with starGlobs := rules.starGlobs ++ [pattern] }
  | .nonstarGlob pattern => { rules with nonstarGlobs := rules.nonstarGlobs ++ [pattern] }
  | .exact name => { rules with exact := name :: rules.exact }
  | .escapedExact escaped =>
    { rules with escapedExact := unescapePattern escaped :: rules.escapedExact }

def matchesExact (rules : BasicMatchRules glob) (lookup : SymbolLookupName) (mangled : Bool) :
    Bool :=
  rules.exact.contains (lookup.bytes mangled) || rules.escapedExact.contains (lookup.bytes mangled)

def matchesGlob (rules : BasicMatchRules glob) (lookup : SymbolLookupName)
    (nonStar mangled : Bool) : Bool :=
  (if nonStar then rules.nonstarGlobs else rules.starGlobs).any fun pattern =>
    glob.isMatch pattern (lookup.bytes mangled)

end BasicMatchRules

def MatchRules.push (rules : MatchRules glob) : ParsedSymbolMatcher glob → MatchRules glob
  | .single matcher => { rules with general := rules.general.push matcher }
  | .multiple matchers =>
    { rules with general := matchers.foldl BasicMatchRules.push rules.general }
  | .cxxMatchers matchers => { rules with cxx := matchers.foldl BasicMatchRules.push rules.cxx }

namespace VersionBody

variable (body : VersionBody glob) (lookup : SymbolLookupName)

/-- Names as they are come first, since they are cheaper to compare. -/
def exactSection : Option VersionRuleSection :=
  if body.globals.general.matchesExact lookup false then some .«global»
  else if body.locals.general.matchesExact lookup false then some .«local»
  else if body.globals.cxx.matchesExact lookup true then some .«global»
  else if body.locals.cxx.matchesExact lookup true then some .«local»
  else none

def globSection (nonStar : Bool) : Option VersionRuleSection :=
  if body.globals.general.matchesGlob lookup nonStar false
      || body.globals.cxx.matchesGlob lookup nonStar true then some .«global»
  else if body.locals.general.matchesGlob lookup nonStar false
      || body.locals.cxx.matchesGlob lookup nonStar true then some .«local»
  else none

def matchesAllSection : Option VersionRuleSection :=
  if body.globals.general.matchesAll || body.globals.cxx.matchesAll then some .«global»
  else if body.locals.general.matchesAll || body.locals.cxx.matchesAll then some .«local»
  else none

end VersionBody

namespace RegularVersionScript

variable (script : RegularVersionScript glob) (lookup : SymbolLookupName)

def bodies : List (VersionBody glob) := script.versions.map Prod.snd

def findMatch : Option (Nat × VersionRuleSection) :=
  firstAnswer (·.exactSection lookup) script.bodies
    <|> lastAnswer (·.globSection lookup true) script.bodies
    <|> lastAnswer (·.globSection lookup false) script.bodies
    <|> lastAnswer (·.matchesAllSection) script.bodies

def isLocal : Bool :=
  match script.findMatch lookup with
  | some (_, .«local») => true
  | _ => false

def versionForSymbol (versionName : Option (List UInt8)) : Fallible (Option UInt16) :=
  match versionName with
  | some versionName =>
    -- an empty version, as in `foo@`, disables the versions of the script
    if versionName.isEmpty then .ok (some verNdxGlobal)
    else
      match script.versionNameMapping.lookup versionName with
      | some number => .ok (some (verNdxGlobal + UInt16.ofNat number))
      | none =>
        .error (.error (s!"Symbol {fromUtf8Lossy lookup.name} has undefined version "
          ++ fromUtf8Lossy versionName))
  | none =>
    .ok <| (script.findMatch lookup).bind fun found =>
      if found.1 = 0 then none else some (verNdxGlobal + UInt16.ofNat found.1)

end RegularVersionScript

/-! ### Parsing -/

/-- What is between the braces of a version. -/
inductive SectionItem where
  | globalLabel
  | localLabel
  | pattern (text : PatternText)
  deriving Repr, DecidableEq

structure RawVersionBody (glob : Glob) where
  globals : List (ParsedSymbolMatcher glob) := []
  locals : List (ParsedSymbolMatcher glob) := []

/-- Patterns before any label are for global symbols. -/
def parseVersionSection (glob : Glob) :
    VersionRuleSection → RawVersionBody glob → List SectionItem → Fallible (RawVersionBody glob)
  | _, out, [] => .ok out
  | _, out, .globalLabel :: items => parseVersionSection glob .«global» out items
  | _, out, .localLabel :: items => parseVersionSection glob .«local» out items
  | .«global», out, .pattern text :: items => do
    let matcher ← parseMatcher glob text
    parseVersionSection glob .«global» { out with globals := out.globals ++ [matcher] } items
  | .«local», out, .pattern text :: items => do
    let matcher ← parseMatcher glob text
    parseVersionSection glob .«local» { out with locals := out.locals ++ [matcher] } items

namespace RawVersionBody

/-- All symbols but some names are local, and nothing else is said. -/
def rustLike (body : RawVersionBody glob) : Bool :=
  body.locals.any (fun matcher => matcher matches .single .matchesAll)
    && body.globals.all (fun matcher => matcher matches .single (.exact _))

def toVersionBody (body : RawVersionBody glob) : VersionBody glob where
  globals := body.globals.foldl MatchRules.push {}
  locals := body.locals.foldl MatchRules.push {}

end RawVersionBody

/-- The text of a version script. -/
inductive VersionScriptText where
  | body (items : List SectionItem)
  | versions (texts : List (VersionText × List SectionItem))

def RegularVersionScript.parseVersions (glob : Glob) (script : RegularVersionScript glob) :
    List (VersionText × List SectionItem) → Fallible (RegularVersionScript glob)
  | [] => .ok script
  | (text, items) :: texts => do
    let versionBody ← parseVersionSection glob .«global» {} items
    let parentIndex ← parseParent (script.versions.map (·.1.name)) text.parentName
    parseVersions glob
      ⟨script.versions ++ [(⟨text.name, parentIndex⟩, versionBody.toVersionBody)],
        (text.name, script.versions.length) :: script.versionNameMapping⟩ texts

/-- A script that is not regular is kept in another form, which has no versions. -/
def RegularVersionScript.parse (glob : Glob) :
    VersionScriptText → Fallible (Option (RegularVersionScript glob))
  | .body items => do
    let versionBody ← parseVersionSection glob .«global» {} items
    if versionBody.rustLike then return none
    else return some ⟨[(Version.base, versionBody.toVersionBody)], []⟩
  | .versions texts => do
    return some (← RegularVersionScript.parseVersions glob ⟨[(Version.base, {})], []⟩ texts)

end Matching

end JdxLinker.SymbolVersion
