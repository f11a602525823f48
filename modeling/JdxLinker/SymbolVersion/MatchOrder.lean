import JdxLinker.SymbolVersion.Match

/-!
# The order in which versions match

What a version matches is said by what its patterns mean, whether they are quoted, have escapes or are
plain. A name in the rules for C comes before one in the rules for C++, and in each of them a global
one before a local one. Otherwise global patterns come first.
-/

namespace JdxLinker.SymbolVersion

open LayoutRules Precedence

/-- What the patterns of a section mean, for names as they are and for demangled ones. -/
structure RuleMeanings (glob : Glob) where
  general : List (Meaning glob) := []
  cxx : List (Meaning glob) := []

structure VersionMeanings (glob : Glob) where
  globals : RuleMeanings glob := {}
  locals : RuleMeanings glob := {}

section Meanings

variable {glob : Glob}

/-! ### What patterns match -/

def Meaning.isExact (name : List UInt8) : Meaning glob → Bool
  | .exact other => other = name
  | _ => false

def Meaning.isGlob (nonStar : Bool) (name : List UInt8) : Meaning glob → Bool
  | .star pattern => !nonStar && glob.isMatch pattern name
  | .nonStar pattern => nonStar && glob.isMatch pattern name
  | _ => false

def Meaning.isAll : Meaning glob → Bool
  | .all => true
  | _ => false

/-- Global comes before local. -/
def sectionOf (globals locals : Bool) : Option VersionRuleSection :=
  if globals then some .«global» else if locals then some .«local» else none

namespace RuleMeanings

variable (rules : RuleMeanings glob) (lookup : SymbolLookupName)

def hasGlob (nonStar : Bool) : Bool :=
  rules.general.any (Meaning.isGlob nonStar (lookup.bytes false))
    || rules.cxx.any (Meaning.isGlob nonStar (lookup.bytes true))

def hasAll : Bool := rules.general.any Meaning.isAll || rules.cxx.any Meaning.isAll

end RuleMeanings

namespace VersionMeanings

variable (version : VersionMeanings glob) (lookup : SymbolLookupName)

/-- The section with the name, where C comes before C++. -/
def exactSection : Option VersionRuleSection :=
  sectionOf (version.globals.general.any (Meaning.isExact (lookup.bytes false)))
      (version.locals.general.any (Meaning.isExact (lookup.bytes false)))
    <|> sectionOf (version.globals.cxx.any (Meaning.isExact (lookup.bytes true)))
      (version.locals.cxx.any (Meaning.isExact (lookup.bytes true)))

/-- The section with the name, where global comes before local. -/
def globalFirstSection : Option VersionRuleSection :=
  sectionOf
    (version.globals.general.any (Meaning.isExact (lookup.bytes false))
      || version.globals.cxx.any (Meaning.isExact (lookup.bytes true)))
    (version.locals.general.any (Meaning.isExact (lookup.bytes false))
      || version.locals.cxx.any (Meaning.isExact (lookup.bytes true)))

def globSection (nonStar : Bool) : Option VersionRuleSection :=
  sectionOf (version.globals.hasGlob lookup nonStar) (version.locals.hasGlob lookup nonStar)

def allSection : Option VersionRuleSection :=
  sectionOf version.globals.hasAll version.locals.hasAll

end VersionMeanings

/-- The version and the section of a name: the first version with the name, else the last one with a
matching glob without a star, else the last one with a matching glob with a star, else the last one
that matches everything. -/
inductive Matched (exactSection : VersionMeanings glob → Option VersionRuleSection)
    (lookup : SymbolLookupName) (versions : List (VersionMeanings glob)) :
    Option (Nat × VersionRuleSection) → Prop where
  | exact {i : Nat} {rules : VersionRuleSection} (h : IsFirst exactSection versions i rules) :
      Matched exactSection lookup versions (some (i, rules))
  | nonStar {i : Nat} {rules : VersionRuleSection} (hexact : NoAnswer exactSection versions)
      (h : IsLast (·.globSection lookup true) versions i rules) :
      Matched exactSection lookup versions (some (i, rules))
  | star {i : Nat} {rules : VersionRuleSection} (hexact : NoAnswer exactSection versions)
      (hnonStar : NoAnswer (·.globSection lookup true) versions)
      (h : IsLast (·.globSection lookup false) versions i rules) :
      Matched exactSection lookup versions (some (i, rules))
  | all {i : Nat} {rules : VersionRuleSection} (hexact : NoAnswer exactSection versions)
      (hnonStar : NoAnswer (·.globSection lookup true) versions)
      (hstar : NoAnswer (·.globSection lookup false) versions)
      (h : IsLast (·.allSection) versions i rules) :
      Matched exactSection lookup versions (some (i, rules))
  | none (hexact : NoAnswer exactSection versions)
      (hnonStar : NoAnswer (·.globSection lookup true) versions)
      (hstar : NoAnswer (·.globSection lookup false) versions)
      (hall : NoAnswer (·.allSection) versions) : Matched exactSection lookup versions none

/-! ### What the text of a script means -/

def PatternText.generalTokens : PatternText → List (List UInt8)
  | .token text => [text]
  | .externC tokens => tokens
  | .externCxx _ => []

def PatternText.cxxTokens : PatternText → List (List UInt8)
  | .token _ | .externC _ => []
  | .externCxx tokens => tokens

/-- The patterns for global and for local symbols. -/
def patternsOf : VersionRuleSection → List SectionItem → List PatternText × List PatternText
  | _, [] => ([], [])
  | _, .globalLabel :: items => patternsOf .«global» items
  | _, .localLabel :: items => patternsOf .«local» items
  | .«global», .pattern text :: items =>
    let (globals, locals) := patternsOf .«global» items
    (text :: globals, locals)
  | .«local», .pattern text :: items =>
    let (globals, locals) := patternsOf .«local» items
    (globals, text :: locals)

def ruleMeanings (glob : Glob) (patterns : List PatternText) : Fallible (RuleMeanings glob) := do
  let general ← (patterns.flatMap PatternText.generalTokens).mapM (meaning glob)
  let cxx ← (patterns.flatMap PatternText.cxxTokens).mapM (meaning glob)
  return ⟨general, cxx⟩

def versionMeanings (glob : Glob) (items : List SectionItem) : Fallible (VersionMeanings glob) := do
  let globals ← ruleMeanings glob (patternsOf .«global» items).1
  let locals ← ruleMeanings glob (patternsOf .«global» items).2
  return ⟨globals, locals⟩

/-- What the versions of a script match. The base version matches nothing. -/
def VersionScriptText.meanings (glob : Glob) :
    VersionScriptText → Fallible (List (VersionMeanings glob))
  | body items => do return [← versionMeanings glob items]
  | versions texts => do
    return {} :: (← texts.mapM fun text => versionMeanings glob text.2)

end Meanings

/-! ### The rules mean what their patterns mean -/

section Rules

variable {glob : Glob} {rules : BasicMatchRules glob} {meanings : List (Meaning glob)}
  {matchers : List (SymbolMatcher glob)} {lookup : SymbolLookupName} {mangled nonStar : Bool}

/-- The rules match what some patterns mean. -/
structure BasicMatchRules.Means (rules : BasicMatchRules glob) (meanings : List (Meaning glob)) :
    Prop where
  exact : ∀ name, (rules.exact.contains name || rules.escapedExact.contains name)
    = meanings.any (Meaning.isExact name)
  glob : ∀ nonStar name, ((if nonStar then rules.nonstarGlobs else rules.starGlobs).any fun pattern =>
      glob.isMatch pattern name) = meanings.any (Meaning.isGlob nonStar name)
  all : rules.matchesAll = meanings.any Meaning.isAll

theorem means_empty : ({} : BasicMatchRules glob).Means [] :=
  ⟨fun _ => rfl, fun nonStar _ => by cases nonStar <;> rfl, rfl⟩

theorem contains_cons_eq (name other : List UInt8) (names : List (List UInt8)) :
    (other :: names).contains name = (decide (other = name) || names.contains name) := by
  rw [List.contains_cons]
  apply congrArg (· || _)
  rw [Bool.eq_iff_iff, beq_iff_eq, decide_eq_true_eq]
  exact eq_comm

theorem push_exact (rules : BasicMatchRules glob) (matcher : SymbolMatcher glob)
    (name : List UInt8) :
    ((rules.push matcher).exact.contains name || (rules.push matcher).escapedExact.contains name)
      = ((rules.exact.contains name || rules.escapedExact.contains name)
        || matcher.meaning.isExact name) := by
  cases matcher with
  | exact other =>
      rw [BasicMatchRules.push, contains_cons_eq, Bool.or_assoc]
      exact Bool.or_comm ..
  | escapedExact escaped =>
      rw [BasicMatchRules.push, contains_cons_eq, Bool.or_left_comm]
      exact Bool.or_comm ..
  | starGlob | nonstarGlob | matchesAll => exact (Bool.or_false _).symm

theorem push_glob (rules : BasicMatchRules glob) (matcher : SymbolMatcher glob) (nonStar : Bool)
    (name : List UInt8) :
    ((if nonStar then (rules.push matcher).nonstarGlobs else (rules.push matcher).starGlobs).any
        fun pattern => glob.isMatch pattern name)
      = (((if nonStar then rules.nonstarGlobs else rules.starGlobs).any
          fun pattern => glob.isMatch pattern name)
        || matcher.meaning.isGlob nonStar name) := by
  cases matcher with
  | exact | escapedExact | matchesAll => exact (Bool.or_false _).symm
  | starGlob pattern =>
      cases nonStar with
      | true => exact (Bool.or_false _).symm
      | false =>
          show (rules.starGlobs ++ [pattern]).any _ = _
          rw [List.any_append, List.any_cons, List.any_nil, Bool.or_false]
          rfl
  | nonstarGlob pattern =>
      cases nonStar with
      | false => exact (Bool.or_false _).symm
      | true =>
          show (rules.nonstarGlobs ++ [pattern]).any _ = _
          rw [List.any_append, List.any_cons, List.any_nil, Bool.or_false]
          rfl

theorem push_matchesAll (rules : BasicMatchRules glob) (matcher : SymbolMatcher glob) :
    (rules.push matcher).matchesAll = (rules.matchesAll || matcher.meaning.isAll) := by
  cases matcher with
  | matchesAll => exact (Bool.or_true _).symm
  | exact | escapedExact | starGlob | nonstarGlob => exact (Bool.or_false _).symm

theorem any_append_singleton {α : Type} (p : α → Bool) (items : List α) (item : α) :
    (items ++ [item]).any p = (items.any p || p item) := by
  rw [List.any_append, List.any_cons, List.any_nil, Bool.or_false]

theorem BasicMatchRules.Means.push (h : rules.Means meanings) (matcher : SymbolMatcher glob) :
    (rules.push matcher).Means (meanings ++ [matcher.meaning]) where
  exact name := by rw [push_exact, h.exact, any_append_singleton]
  glob nonStar name := by rw [push_glob, h.glob, any_append_singleton]
  all := by rw [push_matchesAll, h.all, any_append_singleton]

theorem BasicMatchRules.Means.foldl (h : rules.Means meanings)
    (matchers : List (SymbolMatcher glob)) :
    (matchers.foldl BasicMatchRules.push rules).Means
      (meanings ++ matchers.map SymbolMatcher.meaning) := by
  induction matchers generalizing rules meanings with
  | nil =>
      rw [List.map_nil, List.append_nil]
      exact h
  | cons matcher matchers ih =>
      rw [List.foldl_cons, List.map_cons, List.append_cons]
      exact ih (h.push matcher)

/-- The rules for C and for C++ mean what their patterns mean. -/
structure MatchRules.Means (rules : MatchRules glob) (meanings : RuleMeanings glob) : Prop where
  general : rules.general.Means meanings.general
  cxx : rules.cxx.Means meanings.cxx

structure VersionBody.Means (body : VersionBody glob) (meanings : VersionMeanings glob) : Prop where
  globals : body.globals.Means meanings.globals
  locals : body.locals.Means meanings.locals

theorem matchesExact_eq (h : rules.Means meanings) (lookup : SymbolLookupName) (mangled : Bool) :
    rules.matchesExact lookup mangled = meanings.any (Meaning.isExact (lookup.bytes mangled)) :=
  h.exact _

theorem matchesGlob_eq (h : rules.Means meanings) (lookup : SymbolLookupName)
    (nonStar mangled : Bool) : rules.matchesGlob lookup nonStar mangled
      = meanings.any (Meaning.isGlob nonStar (lookup.bytes mangled)) :=
  h.glob nonStar _

section Sections

variable {body : VersionBody glob} {version : VersionMeanings glob} (lookup : SymbolLookupName)

theorem exactSection_eq (h : body.Means version) :
    body.exactSection lookup = version.exactSection lookup := by
  unfold VersionBody.exactSection VersionMeanings.exactSection sectionOf
  rw [matchesExact_eq h.globals.general, matchesExact_eq h.locals.general,
    matchesExact_eq h.globals.cxx, matchesExact_eq h.locals.cxx]
  split
  · rfl
  · split
    · rfl
    · rfl

theorem globSection_eq (h : body.Means version) (nonStar : Bool) :
    body.globSection lookup nonStar = version.globSection lookup nonStar := by
  unfold VersionBody.globSection VersionMeanings.globSection sectionOf RuleMeanings.hasGlob
  rw [matchesGlob_eq h.globals.general, matchesGlob_eq h.locals.general,
    matchesGlob_eq h.globals.cxx, matchesGlob_eq h.locals.cxx]

theorem matchesAllSection_eq (h : body.Means version) :
    body.matchesAllSection = version.allSection := by
  unfold VersionBody.matchesAllSection VersionMeanings.allSection sectionOf RuleMeanings.hasAll
  rw [h.globals.general.all, h.globals.cxx.all, h.locals.general.all, h.locals.cxx.all]

end Sections

end Rules

/-! ### Parsed scripts mean what their text means -/

section Parsed

variable {glob : Glob}

theorem mapM_meaning {tokens : List (List UInt8)} {matchers : List (SymbolMatcher glob)}
    (h : tokens.mapM (parseToken glob) = .ok matchers) :
    tokens.mapM (meaning glob) = .ok (matchers.map SymbolMatcher.meaning) := by
  have hall := Fallible.mapM_eq_ok h
  clear h
  induction hall with
  | nil => rfl
  | @cons token matcher tokens matchers htoken _ ih =>
      have hmeaning : meaning glob token = .ok matcher.meaning := by
        rw [← parseToken_meaning, htoken]
        rfl
      rw [List.mapM_cons, hmeaning, ih]
      rfl

theorem mapM_append_eq_ok {α β : Type} {f : α → Fallible β} {as as' : List α} {bs bs' : List β}
    (h : as.mapM f = .ok bs) (h' : as'.mapM f = .ok bs') :
    (as ++ as').mapM f = .ok (bs ++ bs') := by
  rw [List.mapM_append, h, Fallible.bind_ok, h', Fallible.bind_ok]
  rfl

/-- A pattern adds what it means. -/
theorem Means.push_parsed {rules : MatchRules glob} {general cxx : List (Meaning glob)}
    {text : PatternText} {matcher : ParsedSymbolMatcher glob} (h : rules.Means ⟨general, cxx⟩)
    (hparse : parseMatcher glob text = .ok matcher) :
    ∃ general' cxx', text.generalTokens.mapM (meaning glob) = .ok general' ∧
      text.cxxTokens.mapM (meaning glob) = .ok cxx' ∧
      (rules.push matcher).Means ⟨general ++ general', cxx ++ cxx'⟩ := by
  cases text with
  | token text =>
      obtain ⟨single, hsingle, hok⟩ := Fallible.bind_eq_ok.mp hparse
      obtain rfl := Except.ok.inj hok
      have hmeaning : meaning glob text = .ok single.meaning := by
        rw [← parseToken_meaning, hsingle]
        rfl
      refine ⟨[single.meaning], [], ?_, rfl, h.general.push single, ?_⟩
      · show [text].mapM (meaning glob) = _
        rw [List.mapM_cons, hmeaning]
        rfl
      · rw [List.append_nil]
        exact h.cxx
  | externC tokens =>
      obtain ⟨matchers, hmatchers, hok⟩ := Fallible.bind_eq_ok.mp hparse
      obtain rfl := Except.ok.inj hok
      refine ⟨_, [], mapM_meaning hmatchers, rfl, h.general.foldl matchers, ?_⟩
      rw [List.append_nil]
      exact h.cxx
  | externCxx tokens =>
      obtain ⟨matchers, hmatchers, hok⟩ := Fallible.bind_eq_ok.mp hparse
      obtain rfl := Except.ok.inj hok
      refine ⟨[], _, rfl, mapM_meaning hmatchers, ?_, h.cxx.foldl matchers⟩
      rw [List.append_nil]
      exact h.general

theorem Means.foldl_parsed {rules : MatchRules glob} {general cxx : List (Meaning glob)}
    {patterns : List PatternText} {matchers : List (ParsedSymbolMatcher glob)}
    (h : rules.Means ⟨general, cxx⟩)
    (hparse : List.Forall₂ (fun text matcher => parseMatcher glob text = .ok matcher)
      patterns matchers) :
    ∃ general' cxx',
      (patterns.flatMap PatternText.generalTokens).mapM (meaning glob) = .ok general' ∧
      (patterns.flatMap PatternText.cxxTokens).mapM (meaning glob) = .ok cxx' ∧
      (matchers.foldl MatchRules.push rules).Means ⟨general ++ general', cxx ++ cxx'⟩ := by
  induction hparse generalizing rules general cxx with
  | nil =>
      refine ⟨[], [], rfl, rfl, ?_⟩
      rw [List.append_nil, List.append_nil]
      exact h
  | cons hfirst _ ih =>
      obtain ⟨general', cxx', hgeneral', hcxx', hpush⟩ := Means.push_parsed h hfirst
      obtain ⟨general'', cxx'', hgeneral'', hcxx'', hfoldl⟩ := ih hpush
      rw [List.append_assoc, List.append_assoc] at hfoldl
      exact ⟨_, _, mapM_append_eq_ok hgeneral' hgeneral'', mapM_append_eq_ok hcxx' hcxx'', hfoldl⟩

theorem means_of_parsed {patterns : List PatternText} {matchers : List (ParsedSymbolMatcher glob)}
    (hparse : List.Forall₂ (fun text matcher => parseMatcher glob text = .ok matcher)
      patterns matchers) : ∃ meanings, ruleMeanings glob patterns = .ok meanings ∧
      (matchers.foldl MatchRules.push {}).Means meanings := by
  have hempty : ({} : MatchRules glob).Means ⟨[], []⟩ := ⟨means_empty, means_empty⟩
  obtain ⟨general, cxx, hgeneral, hcxx, hmeans⟩ := Means.foldl_parsed hempty hparse
  refine ⟨⟨general, cxx⟩, ?_, hmeans⟩
  unfold ruleMeanings
  rw [hgeneral, Fallible.bind_ok, hcxx]
  rfl

/-- The patterns of a section are parsed one after the other. -/
theorem parseVersionSection_eq_ok {rules : VersionRuleSection} {out body : RawVersionBody glob}
    {items : List SectionItem} (h : parseVersionSection glob rules out items = .ok body) :
    ∃ globals locals, body = ⟨out.globals ++ globals, out.locals ++ locals⟩ ∧
      List.Forall₂ (fun text matcher => parseMatcher glob text = .ok matcher)
        (patternsOf rules items).1 globals ∧
      List.Forall₂ (fun text matcher => parseMatcher glob text = .ok matcher)
        (patternsOf rules items).2 locals := by
  induction items generalizing rules out with
  | nil =>
      cases rules <;>
      · obtain rfl := Except.ok.inj h
        exact ⟨[], [], by rw [List.append_nil, List.append_nil], .nil, .nil⟩
  | cons item items ih =>
      cases item with
      | globalLabel => cases rules <;> exact ih h
      | localLabel => cases rules <;> exact ih h
      | pattern text =>
          cases rules with
          | «global» =>
              obtain ⟨matcher, hmatcher, hrest⟩ := Fallible.bind_eq_ok.mp h
              obtain ⟨globals, locals, rfl, hglobals, hlocals⟩ := ih hrest
              refine ⟨matcher :: globals, locals, ?_, .cons hmatcher hglobals, hlocals⟩
              rw [List.append_assoc]
              rfl
          | «local» =>
              obtain ⟨matcher, hmatcher, hrest⟩ := Fallible.bind_eq_ok.mp h
              obtain ⟨globals, locals, rfl, hglobals, hlocals⟩ := ih hrest
              refine ⟨globals, matcher :: locals, ?_, hglobals, .cons hmatcher hlocals⟩
              rw [List.append_assoc]
              rfl

theorem versionBody_means {items : List SectionItem} {body : RawVersionBody glob}
    (h : parseVersionSection glob .«global» {} items = .ok body) :
    ∃ version, versionMeanings glob items = .ok version ∧ body.toVersionBody.Means version := by
  obtain ⟨globals, locals, rfl, hglobals, hlocals⟩ := parseVersionSection_eq_ok h
  obtain ⟨globalMeanings, hglobalMeanings, hglobalMeans⟩ := means_of_parsed hglobals
  obtain ⟨localMeanings, hlocalMeanings, hlocalMeans⟩ := means_of_parsed hlocals
  refine ⟨⟨globalMeanings, localMeanings⟩, ?_, hglobalMeans, hlocalMeans⟩
  unfold versionMeanings
  rw [hglobalMeanings, Fallible.bind_ok, hlocalMeanings]
  rfl

theorem parseVersions_means {script script' : RegularVersionScript glob}
    {texts : List (VersionText × List SectionItem)}
    (h : RegularVersionScript.parseVersions glob script texts = .ok script') :
    ∃ bodies versions, script'.bodies = script.bodies ++ bodies ∧
      texts.mapM (fun text => versionMeanings glob text.2) = .ok versions ∧
      List.Forall₂ VersionBody.Means bodies versions := by
  induction texts generalizing script with
  | nil =>
      obtain rfl := Except.ok.inj h
      exact ⟨[], [], (List.append_nil _).symm, rfl, .nil⟩
  | cons text texts ih =>
      obtain ⟨raw, hraw, h⟩ := Fallible.bind_eq_ok.mp h
      obtain ⟨parentIndex, -, h⟩ := Fallible.bind_eq_ok.mp h
      obtain ⟨version, hversion, hmeans⟩ := versionBody_means hraw
      obtain ⟨bodies, versions, hbodies, hversions, hall⟩ := ih h
      refine ⟨raw.toVersionBody :: bodies, version :: versions, ?_, ?_, .cons hmeans hall⟩
      · rw [hbodies, RegularVersionScript.bodies, List.map_append, List.append_assoc]
        rfl
      · rw [List.mapM_cons, hversion, Fallible.bind_ok, hversions]
        rfl

/-- The versions of a script that was parsed match what its text means. -/
theorem parse_means {text : VersionScriptText} {script : RegularVersionScript glob}
    (h : RegularVersionScript.parse glob text = .ok (some script)) :
    ∃ versions, text.meanings glob = .ok versions ∧
      List.Forall₂ VersionBody.Means script.bodies versions := by
  cases text with
  | body items =>
      obtain ⟨raw, hraw, h⟩ := Fallible.bind_eq_ok.mp h
      obtain ⟨version, hversion, hmeans⟩ := versionBody_means hraw
      split at h
      · cases h
      · obtain rfl := Option.some.inj (Except.ok.inj h)
        refine ⟨[version], ?_, .cons hmeans .nil⟩
        show (versionMeanings glob items >>= fun version => _) = _
        rw [hversion]
        rfl
  | versions texts =>
      obtain ⟨parsed, hparsed, h⟩ := Fallible.bind_eq_ok.mp h
      obtain rfl := Option.some.inj (Except.ok.inj h)
      obtain ⟨bodies, versions, hbodies, hversions, hall⟩ := parseVersions_means hparsed
      have hbase : ({} : VersionBody glob).Means {} :=
        ⟨⟨means_empty, means_empty⟩, means_empty, means_empty⟩
      refine ⟨{} :: versions, ?_, ?_⟩
      · show (texts.mapM (fun text => versionMeanings glob text.2) >>= fun versions => _) = _
        rw [hversions]
        rfl
      · rw [hbodies]
        exact .cons hbase hall

/-! ### The match of a name -/

/-- The match among versions, as the searches for each kind of pattern find it. -/
def searchMatch (versions : List (VersionMeanings glob)) (lookup : SymbolLookupName) :
    Option (Nat × VersionRuleSection) :=
  firstAnswer (·.exactSection lookup) versions
    <|> lastAnswer (·.globSection lookup true) versions
    <|> lastAnswer (·.globSection lookup false) versions
    <|> lastAnswer (·.allSection) versions

theorem findMatch_eq_searchMatch {script : RegularVersionScript glob}
    {versions : List (VersionMeanings glob)}
    (h : List.Forall₂ VersionBody.Means script.bodies versions) (lookup : SymbolLookupName) :
    script.findMatch lookup = searchMatch versions lookup := by
  unfold RegularVersionScript.findMatch searchMatch
  rw [firstAnswer_congr (h.imp fun _ _ hmeans => exactSection_eq lookup hmeans),
    lastAnswer_congr (h.imp fun _ _ hmeans => globSection_eq lookup hmeans true),
    lastAnswer_congr (h.imp fun _ _ hmeans => globSection_eq lookup hmeans false),
    lastAnswer_congr (h.imp fun _ _ hmeans => matchesAllSection_eq hmeans)]

theorem matched_searchMatch (versions : List (VersionMeanings glob)) (lookup : SymbolLookupName) :
    Matched (·.exactSection lookup) lookup versions (searchMatch versions lookup) := by
  unfold searchMatch
  cases hexact : firstAnswer (·.exactSection lookup) versions with
  | some found => exact .exact (isFirst_of_firstAnswer hexact)
  | none =>
      have hexact := firstAnswer_eq_none hexact
      cases hnonStar : lastAnswer (·.globSection lookup true) versions with
      | some found => exact .nonStar hexact (isLast_of_lastAnswer hnonStar)
      | none =>
          have hnonStar := lastAnswer_eq_none hnonStar
          cases hstar : lastAnswer (·.globSection lookup false) versions with
          | some found => exact .star hexact hnonStar (isLast_of_lastAnswer hstar)
          | none =>
              have hstar := lastAnswer_eq_none hstar
              cases hall : lastAnswer (·.allSection) versions with
              | some found => exact .all hexact hnonStar hstar (isLast_of_lastAnswer hall)
              | none => exact .none hexact hnonStar hstar (lastAnswer_eq_none hall)

/-- The version for a symbol and whether it is local come from its match. The base version is not a
version of symbols. -/
structure RegularVersionScript.FollowsMatch (script : RegularVersionScript glob)
    (lookup : SymbolLookupName) (found : Option (Nat × VersionRuleSection)) : Prop where
  isLocal : script.isLocal lookup = true ↔ ∃ i, found = some (i, .«local»)
  unversioned : (∀ i rules, found = some (i, rules) → i = 0) →
    script.versionForSymbol lookup none = .ok none
  versioned : ∀ i rules, found = some (i, rules) → i ≠ 0 →
    script.versionForSymbol lookup none = .ok (some (verNdxGlobal + UInt16.ofNat i))

theorem followsMatch_findMatch (script : RegularVersionScript glob) (lookup : SymbolLookupName) :
    script.FollowsMatch lookup (script.findMatch lookup) where
  isLocal := by
    unfold RegularVersionScript.isLocal
    cases script.findMatch lookup with
    | none => simp
    | some found =>
        obtain ⟨i, rules⟩ := found
        cases rules <;> simp
  unversioned hzero := by
    unfold RegularVersionScript.versionForSymbol
    cases hfound : script.findMatch lookup with
    | none => rfl
    | some found =>
        dsimp only
        rw [Option.bind_some, if_pos (hzero found.1 found.2 hfound)]
  versioned i rules hfound hne := by
    unfold RegularVersionScript.versionForSymbol
    dsimp only
    rw [hfound, Option.bind_some, if_neg hne]

/-- The match of a name follows the order of the versions and of the kinds of patterns. It does not
depend on how the patterns are written. -/
theorem findMatch_matched {text : VersionScriptText} {script : RegularVersionScript glob}
    (h : RegularVersionScript.parse glob text = .ok (some script)) (lookup : SymbolLookupName) :
    (∃ versions, text.meanings glob = .ok versions ∧
      Matched (·.exactSection lookup) lookup versions (script.findMatch lookup)) ∧
    script.FollowsMatch lookup (script.findMatch lookup) ∧
    ∀ text' script', RegularVersionScript.parse glob text' = .ok (some script') →
      text'.meanings glob = text.meanings glob →
      script'.findMatch lookup = script.findMatch lookup := by
  obtain ⟨versions, hversions, hmeans⟩ := parse_means h
  have hfind := findMatch_eq_searchMatch hmeans lookup
  refine ⟨⟨versions, hversions, ?_⟩, followsMatch_findMatch script lookup, ?_⟩
  · rw [hfind]
    exact matched_searchMatch versions lookup
  · intro text' script' h' hsame
    obtain ⟨versions', hversions', hmeans'⟩ := parse_means h'
    rw [hversions, hversions'] at hsame
    obtain rfl := Except.ok.inj hsame
    rw [hfind, findMatch_eq_searchMatch hmeans' lookup]

end Parsed

/-! ### A name that C and C++ both match -/

/-- A version with the C++ name `f` for global symbols, and the name `_` for local ones. -/
def cxxGlobal : VersionScriptText :=
  .versions [(⟨[0x56], []⟩, [.pattern (.externCxx [[0x66]]), .localLabel, .pattern (.token [0x5f])])]

def cxxGlobalScript : RegularVersionScript wildcards where
  versions := [(Version.base, {}),
    (⟨[0x56], none⟩, { globals.cxx.exact := [[0x66]], locals.general.exact := [[0x5f]] })]
  versionNameMapping := [([0x56], 1)]

def cxxGlobalMeanings : List (VersionMeanings wildcards) :=
  [{}, { globals.cxx := [.exact [0x66]], locals.general := [.exact [0x5f]] }]

/-- The name `_`, which is demangled to `f`. -/
def mangledName : SymbolLookupName where
  name := [0x5f]
  demangle name := if name = [0x5f] then some [0x66] else none
  isUtf8 := by decide

theorem cxxGlobal_parse :
    RegularVersionScript.parse wildcards cxxGlobal = .ok (some cxxGlobalScript) := rfl

theorem findMatch_cxxGlobal :
    cxxGlobalScript.FollowsMatch mangledName (some (1, .«local»)) :=
  (findMatch_matched cxxGlobal_parse mangledName).2.1

/-- The local name for C comes before the global one for C++. -/
theorem cxxGlobal_not_globalFirst :
    RegularVersionScript.parse wildcards cxxGlobal = .ok (some cxxGlobalScript) ∧
    cxxGlobal.meanings wildcards = .ok cxxGlobalMeanings ∧
    ¬ Matched (·.globalFirstSection mangledName) mangledName cxxGlobalMeanings
      (cxxGlobalScript.findMatch mangledName) := by
  refine ⟨rfl, rfl, fun h => ?_⟩
  have hfind : cxxGlobalScript.findMatch mangledName = some (1, .«local») := by decide
  have hanswer : ¬ NoAnswer (·.globalFirstSection mangledName) cxxGlobalMeanings := by
    intro hnone
    exact absurd (hnone (cxxGlobalMeanings[1]) (List.getElem_mem _)) (by decide)
  rw [hfind] at h
  cases h with
  | exact h =>
      obtain ⟨⟨version, hversion, hsection⟩, -⟩ := h
      obtain rfl : cxxGlobalMeanings[1] = version := Option.some.inj hversion
      exact absurd hsection (by decide)
  | nonStar hexact | star hexact | all hexact => exact hanswer hexact

end JdxLinker.SymbolVersion
