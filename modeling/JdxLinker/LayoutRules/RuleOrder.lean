import JdxLinker.LayoutRules.SectionRules

/-!
# The order of the rules

The table of rules is searched under the first four bytes of a name, while a pattern is filed under
the first four bytes of its text. The first rule that matches is found if and only if both have the
same hash, which they need not have if there is a wildcard among the first bytes of the pattern, or
if the text of a prefix is shorter.
-/

namespace JdxLinker.LayoutRules

open Filed

variable {glob : Glob}

/-- What a rule matches, apart from its outcome. -/
def SectionRule.patterns (rule : SectionRule glob) :
    SectionNameMatcher glob × Option glob.Pattern :=
  (rule.nameMatcher, rule.inputFilePattern)

/-- Rules with these patterns are matched in order, whatever their outcomes are. -/
def MatchedInOrder (hashBytes : List UInt8 → UInt64) (platform : PlatformSections)
    (patterns : List (SectionNameMatcher glob × Option glob.Pattern)) (sectionName : List UInt8)
    (fileName : Option (List UInt8)) : Prop :=
  ∀ rules : List (SectionRule glob), rules.map SectionRule.patterns = patterns →
    ∀ header : SectionHeader, header.shouldExclude = false →
      (SectionRules.fromRules hashBytes rules).lookup hashBytes platform sectionName fileName header
        = firstMatch rules sectionName fileName

/-- A rule with the patterns. -/
def ruleOf (outcome : SectionRuleOutcome)
    (patterns : SectionNameMatcher glob × Option glob.Pattern) : SectionRule glob :=
  ⟨patterns.1, patterns.2, outcome⟩

/-- The first pattern that matches is filed under the hash of the name. -/
def FirstIsFiled (hashBytes : List UInt8 → UInt64)
    (patterns : List (SectionNameMatcher glob × Option glob.Pattern)) (sectionName : List UInt8)
    (fileName : Option (List UInt8)) : Prop :=
  ∀ first ∈ patterns.find? fun pattern => (ruleOf .custom pattern).isMatch sectionName fileName,
    sectionNamePrefixHash hashBytes sectionName
      = some ((ruleOf .custom first).filedUnder hashBytes)

section Order

variable {hashBytes : List UInt8 → UInt64} {platform : PlatformSections}
  {patterns : List (SectionNameMatcher glob × Option glob.Pattern)} {first : UInt8}
  {rest : List UInt8} {fileName : Option (List UInt8)}

theorem find?_patterns (rules : List (SectionRule glob)) (sectionName : List UInt8) :
    ((rules.map SectionRule.patterns).find? fun pattern =>
        (ruleOf .custom pattern).isMatch sectionName fileName)
      = (rules.find? fun rule => rule.isMatch sectionName fileName).map SectionRule.patterns :=
  List.find?_map ..

theorem matchedInOrder_of_firstIsFiled
    (h : FirstIsFiled hashBytes patterns (first :: rest) fileName) :
    MatchedInOrder hashBytes platform patterns (first :: rest) fileName := by
  rintro rules rfl header hexclude
  rw [lookup_eq hashBytes platform (List.cons_ne_nil first rest) hexclude]
  unfold firstMatch
  rw [Filed.Table.find?_filter_eq_iff.mpr]
  intro rule hrule
  have hfiled := h rule.patterns
    (by rw [find?_patterns]; exact Option.mem_map_of_mem SectionRule.patterns hrule)
  exact (Option.some_inj.mp hfiled).symm

theorem firstMatch_eq_custom {rules : List (SectionRule glob)}
    (h : ∀ rule ∈ rules, rule.outcome = .custom) (sectionName : List UInt8) :
    firstMatch rules sectionName fileName = .custom := by
  unfold firstMatch
  cases hfind : rules.find? fun rule => rule.isMatch sectionName fileName with
  | none => rfl
  | some rule => exact h rule (List.mem_of_find?_eq_some hfind)

/-- The first rule that matches has an outcome of its own, which is missed if it is filed under
another hash. -/
theorem firstIsFiled_of_matchedInOrder
    (h : MatchedInOrder hashBytes platform patterns (first :: rest) fileName) :
    FirstIsFiled hashBytes patterns (first :: rest) fileName := by
  intro found hfound
  apply congrArg some
  by_contra hfiled
  obtain ⟨hmatch, before, after, rfl, hbefore⟩ := List.find?_eq_some_iff_append.mp hfound
  have hpatterns : ∀ patterns : List (SectionNameMatcher glob × Option glob.Pattern),
      (patterns.map (ruleOf .custom)).map SectionRule.patterns = patterns := fun patterns => by
    rw [List.map_map]
    exact List.map_id patterns
  have hrules := h
    (before.map (ruleOf .custom) ++ ruleOf .discard found :: after.map (ruleOf .custom))
    (by rw [List.map_append, List.map_cons, hpatterns, hpatterns]; rfl)
    ⟨false, false, false, false, false, false, false⟩ rfl
  have hmissed : ¬ decide ((ruleOf .discard found).filedUnder hashBytes
      = hashBytes ((first :: rest ++ List.replicate 4 0).take 4)) = true := by
    rw [decide_eq_true_eq]
    exact fun heq => hfiled heq.symm
  rw [lookup_eq hashBytes platform (List.cons_ne_nil first rest) rfl, List.filter_append,
    List.filter_cons, if_neg hmissed] at hrules
  have hfirst : (before.map (ruleOf .custom) ++ ruleOf .discard found
      :: after.map (ruleOf .custom)).find? (fun rule => rule.isMatch (first :: rest) fileName)
        = some (ruleOf .discard found) := by
    refine List.find?_eq_some_iff_append.mpr ⟨hmatch, _, _, rfl, fun rule hrule => ?_⟩
    obtain ⟨pattern, hpattern, rfl⟩ := List.mem_map.mp hrule
    exact hbefore pattern hpattern
  rw [firstMatch_eq_custom, firstMatch, hfirst] at hrules
  · cases hrules
  · intro rule hrule
    rw [← List.filter_append, ← List.map_append] at hrule
    obtain ⟨pattern, -, rfl⟩ := List.mem_map.mp (List.mem_of_mem_filter hrule)
    rfl

/-- Rules are matched in order if and only if the first one that matches is filed under the hash of
the name. -/
theorem matchedInOrder_iff (hashBytes : List UInt8 → UInt64) (platform : PlatformSections)
    (patterns : List (SectionNameMatcher glob × Option glob.Pattern)) (first : UInt8)
    (rest : List UInt8) (fileName : Option (List UInt8)) :
    MatchedInOrder hashBytes platform patterns (first :: rest) fileName
      ↔ FirstIsFiled hashBytes patterns (first :: rest) fileName :=
  ⟨firstIsFiled_of_matchedInOrder, matchedInOrder_of_firstIsFiled⟩

end Order

/-! ### Patterns that are filed under the names that they match -/

section Filed

variable {hashBytes : List UInt8 → UInt64} {sectionName : List UInt8}
  {fileName : Option (List UInt8)} {rule : SectionRule glob}

/-- Exact patterns are found. -/
theorem filedUnder_of_exact {name : List UInt8} (hmatcher : rule.nameMatcher = .exact name)
    (hmatch : rule.isMatch sectionName fileName = true) (hname : sectionName ≠ []) :
    sectionNamePrefixHash hashBytes sectionName = some (rule.filedUnder hashBytes) := by
  obtain rfl : sectionName = name := by
    unfold SectionRule.isMatch at hmatch
    rw [hmatcher] at hmatch
    by_contra hne
    simp [hne] at hmatch
  unfold SectionRule.filedUnder
  rw [hmatcher]
  simp [SectionNameMatcher.prefixBytes, sectionNamePrefixHash, hname]

/-- Prefixes of at least four bytes are found. -/
theorem filedUnder_of_prefix {text : List UInt8} (hmatcher : rule.nameMatcher = .pre text)
    (hmatch : rule.isMatch sectionName fileName = true) (hlength : 4 ≤ text.length) :
    sectionNamePrefixHash hashBytes sectionName = some (rule.filedUnder hashBytes) := by
  obtain ⟨rest, rfl⟩ : text <+: sectionName := by
    unfold SectionRule.isMatch at hmatch
    rw [hmatcher] at hmatch
    by_contra hne
    simp [hne] at hmatch
  have htext : text ≠ [] := List.ne_nil_of_length_pos (Nat.lt_of_lt_of_le (by decide) hlength)
  unfold SectionRule.filedUnder
  rw [hmatcher]
  simp [SectionNameMatcher.prefixBytes, sectionNamePrefixHash, htext, List.take_append_of_le_length,
    hlength]

end Filed

/-! ### A star at the start -/

/-- The first four bytes as a number. -/
def firstBytes (bytes : List UInt8) : UInt64 :=
  bytes.foldr (fun byte hash => hash * 256 + byte.toUInt64) 0

def noSections : PlatformSections := ⟨none, none, none, none, none, none⟩

/-- A rule for all sections. -/
def starRule : SectionRule wildcards := ⟨.glob [byte '*'] [byte '*'], none, .discard⟩

/-- The name `.foo` is matched, but the rule is not found. -/
theorem starRule_counterexample :
    SectionRule.new [byte '*'] none .discard = .ok starRule ∧
      ¬ MatchedInOrder firstBytes noSections [starRule.patterns]
        [byte '.', byte 'f', byte 'o', byte 'o'] none := by
  refine ⟨rfl, fun h => ?_⟩
  have hlookup := h [starRule] rfl ⟨false, true, true, false, false, false, false⟩ rfl
  revert hlookup
  decide

end JdxLinker.LayoutRules
