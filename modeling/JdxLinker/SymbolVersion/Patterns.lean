import JdxLinker.LayoutRules.SectionRules
import JdxLinker.Lib.Failure

/-!
# Patterns of version scripts

A pattern of a version script is a name, a glob, or a lone star that matches everything. A name may
be quoted, or have escapes. Which of them a pattern is, is decided by its characters, without those
that are escaped.
-/

namespace JdxLinker.SymbolVersion

open LayoutRules

inductive SymbolMatcher (glob : Glob) where
  | exact (name : List UInt8)
  /-- A name with escapes. -/
  | escapedExact (escaped : List UInt8)
  | starGlob (pattern : glob.Pattern)
  | nonstarGlob (pattern : glob.Pattern)
  | matchesAll

inductive ParsedSymbolMatcher (glob : Glob) where
  | single (matcher : SymbolMatcher glob)
  | multiple (matchers : List (SymbolMatcher glob))
  | cxxMatchers (matchers : List (SymbolMatcher glob))

/-- A pattern in the text of a script, or a block of patterns for a language. -/
inductive PatternText where
  | token (token : List UInt8)
  | externC (tokens : List (List UInt8))
  | externCxx (tokens : List (List UInt8))
  deriving Repr, DecidableEq

/-! ### Parsing -/

/-- What is between the quotes of a token. -/
def unquote : List UInt8 → Option (List UInt8)
  | [] => none
  | c :: rest =>
    if c = byte '"' ∧ rest.getLast? = some (byte '"') then some rest.dropLast else none

def createPattern (glob : Glob) (token : List UInt8) : Fallible glob.Pattern :=
  match compileGlobPattern glob token with
  | .ok pattern => .ok pattern
  | .error "Invalid UTF-8 string" => .error (.error "Invalid utf-8 string")
  | .error _ => .error (.error "Invalid glob pattern")

def parseToken (glob : Glob) (token : List UInt8) : Fallible (SymbolMatcher glob) :=
  match unquote token with
  | some unquoted => .ok (.exact unquoted)
  | none =>
    if token = [byte '*'] then .ok .matchesAll
    else
      match analyzeGlobPattern token with
      | .exact => .ok (.exact token)
      | .escapedExact => .ok (.escapedExact token)
      | .star => do return .starGlob (← createPattern glob token)
      | .nonStar => do return .nonstarGlob (← createPattern glob token)

def parseMatcher (glob : Glob) : PatternText → Fallible (ParsedSymbolMatcher glob)
  | .token token => do return .single (← parseToken glob token)
  | .externC tokens => do return .multiple (← tokens.mapM (parseToken glob))
  | .externCxx tokens => do return .cxxMatchers (← tokens.mapM (parseToken glob))

/-! ### What the characters of a pattern say -/

/-- The characters of a pattern, each with whether it is escaped. A backslash at the end stands for
itself. -/
def letters : List UInt8 → List (Bool × UInt8)
  | [] => []
  | [c] => [(c = byte '\\', c)]
  | c :: next :: rest =>
    if c = byte '\\' then (true, next) :: letters rest else (false, c) :: letters (next :: rest)

def isStarLetter (letter : Bool × UInt8) : Bool := !letter.1 && letter.2 = byte '*'

/-- A question mark or a bracket. -/
def isWildcardLetter (letter : Bool × UInt8) : Bool :=
  !letter.1 && (letter.2 = byte '[' ∨ letter.2 = byte ']' ∨ letter.2 = byte '?')

/-- What a token matches. -/
inductive Meaning (glob : Glob) where
  | exact (name : List UInt8)
  | star (pattern : glob.Pattern)
  | nonStar (pattern : glob.Pattern)
  | all

/-- A token is quoted, or a lone star, or a glob with or without a star, or else it is a name. -/
def meaning (glob : Glob) (token : List UInt8) : Fallible (Meaning glob) :=
  match unquote token with
  | some unquoted => .ok (.exact unquoted)
  | none =>
    if token = [byte '*'] then .ok .all
    else if (letters token).any isStarLetter then do return .star (← createPattern glob token)
    else if (letters token).any isWildcardLetter then
      do return .nonStar (← createPattern glob token)
    else .ok (.exact ((letters token).map Prod.snd))

def SymbolMatcher.meaning {glob : Glob} : SymbolMatcher glob → Meaning glob
  | exact name => .exact name
  | escapedExact escaped => .exact (unescapePattern escaped)
  | starGlob pattern => .star pattern
  | nonstarGlob pattern => .nonStar pattern
  | matchesAll => .all

/-! ### The characters are read as the parser reads them -/

section Letters

variable {token : List UInt8} {patternType : GlobPatternType}

theorem letters_map_snd (token : List UInt8) :
    (letters token).map Prod.snd = unescapePattern token := by
  induction token using letters.induct with
  | case1 => rfl
  | case2 c => rfl
  | case3 next rest ih =>
      rw [letters, unescapePattern, if_pos rfl, if_pos rfl, List.map_cons, ih]
  | case4 c next rest hescape ih =>
      rw [letters, unescapePattern, if_neg hescape, if_neg hescape, List.map_cons, ih]

/-- A name without escapes stands for itself. -/
theorem unescapePattern_of_not_mem (h : byte '\\' ∉ token) : unescapePattern token = token := by
  induction token using unescapePattern.induct with
  | case1 => rfl
  | case2 c => rfl
  | case3 next rest _ => exact absurd List.mem_cons_self h
  | case4 c next rest hescape ih =>
      rw [unescapePattern, if_neg hescape, ih fun hmem => h (List.mem_cons_of_mem _ hmem)]

/-- The type of a pattern for its characters, where the type is known for what is before them. -/
def typeOf (patternType : GlobPatternType) (token : List UInt8) : GlobPatternType :=
  if (letters token).any isStarLetter then .star
  else if (letters token).any isWildcardLetter then .nonStar
  else if patternType = .exact ∧ byte '\\' ∈ token then .escapedExact
  else patternType

theorem byte_star_ne_backslash : byte '*' ≠ byte '\\' := by decide

/-- A character that is not escaped is a star, a wildcard, or one that stands for itself. -/
theorem analyzeRest_cons {c : UInt8} (rest : List UInt8) (hescape : c ≠ byte '\\') :
    analyzeRest patternType (c :: rest)
      = if isStarLetter (false, c) then .star
        else analyzeRest (if isWildcardLetter (false, c) then .nonStar else patternType) rest := by
  rw [analyzeRest.eq_def]
  dsimp only
  rw [if_neg hescape]
  unfold isStarLetter isWildcardLetter
  by_cases hstar : c = byte '*'
  · simp [hstar]
  · by_cases hwild : c = byte '[' ∨ c = byte ']' ∨ c = byte '?'
    · simp [hstar, hwild]
    · simp [hstar, hwild]

theorem typeOf_cons {c : UInt8} {rest : List UInt8}
    (hescape : c ≠ byte '\\') (hletters : letters (c :: rest) = (false, c) :: letters rest) :
    typeOf patternType (c :: rest)
      = if isStarLetter (false, c) then .star
        else typeOf (if isWildcardLetter (false, c) then .nonStar else patternType) rest := by
  have hmem : byte '\\' ∈ c :: rest ↔ byte '\\' ∈ rest := by
    rw [List.mem_cons]
    exact or_iff_right (Ne.symm hescape)
  unfold typeOf
  rw [hletters, List.any_cons, List.any_cons]
  simp only [hmem]
  cases hstar : isStarLetter (false, c) with
  | true => rfl
  | false =>
      cases hwild : isWildcardLetter (false, c) with
      | true =>
          rw [Bool.false_or, Bool.true_or]
          by_cases hlater : (letters rest).any isStarLetter = true
          · simp [hlater]
          · simp [hlater]
      | false => rfl

theorem analyzeRest_eq_typeOf (patternType : GlobPatternType) (token : List UInt8) :
    analyzeRest patternType token = typeOf patternType token := by
  induction token using letters.induct generalizing patternType with
  | case1 => simp [analyzeRest, typeOf, letters]
  | case2 c =>
      by_cases hescape : c = byte '\\'
      · subst hescape
        simp [analyzeRest, typeOf, letters, isStarLetter, isWildcardLetter]
      · rw [analyzeRest_cons [] hescape,
          typeOf_cons hescape (by simp [letters, hescape])]
        simp [analyzeRest, typeOf, letters]
  | case3 next rest ih =>
      rw [analyzeRest.eq_def]
      dsimp only
      rw [if_pos rfl, ih]
      unfold typeOf
      rw [letters, if_pos rfl, List.any_cons, List.any_cons]
      simp only [isStarLetter, isWildcardLetter, Bool.not_true, Bool.false_and, Bool.false_or]
      split
      · rfl
      · split
        · rfl
        · cases patternType <;> simp
  | case4 c next rest hescape ih =>
      have hletters : letters (c :: next :: rest) = (false, c) :: letters (next :: rest) := by
        rw [letters, if_neg hescape]
      rw [analyzeRest_cons _ hescape, typeOf_cons hescape hletters]
      split
      · rfl
      · exact ih _

theorem analyzeGlobPattern_eq (token : List UInt8) :
    analyzeGlobPattern token = typeOf .exact token :=
  analyzeRest_eq_typeOf .exact token

/-- A token is parsed as what it matches. -/
theorem parseToken_meaning (glob : Glob) (token : List UInt8) :
    (parseToken glob token).map SymbolMatcher.meaning = meaning glob token := by
  unfold parseToken meaning
  cases unquote token with
  | some unquoted => rfl
  | none =>
      dsimp only
      split
      · rfl
      · rw [analyzeGlobPattern_eq]
        unfold typeOf
        by_cases hstar : (letters token).any isStarLetter = true
        · rw [if_pos hstar, if_pos hstar]
          cases createPattern glob token <;> rfl
        · rw [if_neg hstar, if_neg hstar]
          by_cases hwild : (letters token).any isWildcardLetter = true
          · rw [if_pos hwild, if_pos hwild]
            cases createPattern glob token <;> rfl
          · rw [if_neg hwild, if_neg hwild, letters_map_snd]
            by_cases hescape : byte '\\' ∈ token
            · rw [if_pos ⟨rfl, hescape⟩]
              rfl
            · rw [if_neg fun h => hescape h.2, unescapePattern_of_not_mem hescape]
              rfl

end Letters

end JdxLinker.SymbolVersion
