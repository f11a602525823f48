import JdxLinker.Script.Follow

/-!
# The parser reads what is derived

A text that stands for an expression is read as that expression, wherever it ends before a text that
can follow it.
-/

namespace JdxLinker.Script

open JdxLinker.Parser

/-- An expression without the places of its assertions. -/
def Expression.erase : Expression → Expression
  | .binary operator l r => .binary operator l.erase r.erase
  | .division operator l r => .division operator l.erase r.erase
  | .comparison operator l r => .comparison operator l.erase r.erase
  | .alignLocation e => .alignLocation e.erase
  | .align exponent e => .align exponent.erase e.erase
  | .segmentStart name e => .segmentStart name e.erase
  | .logicalAnd l r => .logicalAnd l.erase r.erase
  | .logicalOr l r => .logicalOr l.erase r.erase
  | .unary operator e => .unary operator e.erase
  | .ternary c a b => .ternary c.erase a.erase b.erase
  | .assert e message _ => .assert e.erase message []
  | e => e

theorem erase_apply (o : InfixOperator) (l r : Expression) :
    (o.apply l r).erase = o.apply l.erase r.erase := by
  cases o <;> rfl

theorem erase_nameFunction (function : NameFunction) (name : Name) :
    (function.apply name).erase = function.apply name := by
  cases function <;> rfl

/-! ### How derived texts start -/

theorem Derives.head {level : Nat} {e : Expression} {t : Text} (h : Derives level e t) :
    ∃ c t', t = c :: t' ∧ isStart c = true ∧ (level = 11 → isPrimaryStart c = true) := by
  have happend : ∀ {t u : Text} {level level' : Nat}, level ≠ 11 →
      (∃ c t', t = c :: t' ∧ isStart c = true ∧ (level' = 11 → isPrimaryStart c = true)) →
        ∃ c t', t ++ u = c :: t' ∧ isStart c = true ∧ (level = 11 → isPrimaryStart c = true) := by
    rintro t u level level' hne ⟨c, t', rfl, hc, -⟩
    exact ⟨c, t' ++ u, rfl, hc, fun h => absurd h hne⟩
  induction h with
  | tighter hlevel _ ih =>
      obtain ⟨c, t', rfl, hc, -⟩ := ih
      exact ⟨c, t', rfl, hc, fun h => absurd h (Nat.ne_of_lt hlevel)⟩
  | ternary _ _ _ _ _ _ _ ihc => exact happend (by decide) ihc
  | @operator o _ _ _ _ _ _ _ _ _ _ ihl =>
      exact happend (Nat.ne_of_lt (Nat.lt_of_le_of_lt o.level_le.1 (by decide))) ihl
  | @unary operator =>
      cases operator <;> exact ⟨_, _, rfl, by decide, fun h => absurd h (by decide)⟩
  | number n =>
      obtain ⟨hne, hdigits⟩ := decimal_spec n.toNat
      cases hdecimal : decimal n.toNat with
      | nil => exact absurd hdecimal hne
      | cons c t =>
          have hc := hdigits c (by simp [hdecimal])
          exact ⟨c, t, rfl, isStart_of_isDigit hc, fun _ => by simp [isPrimaryStart, hc]⟩
  | symbol h =>
      obtain ⟨c, t, rfl, hc⟩ := h.1.head
      exact ⟨c, t, rfl, isStart_of_isIdentifierStart hc, fun _ => by simp [isPrimaryStart, hc]⟩
  | @nameFunction function =>
      cases function <;> exact ⟨_, _, rfl, by decide, fun _ => by decide⟩
  | @pair function => cases function <;> exact ⟨_, _, rfl, by decide, fun _ => by decide⟩
  | _ => exact ⟨_, _, rfl, by decide, fun _ => by decide⟩

theorem Derives.startsOperand {level : Nat} {e : Expression} {t w : Text} (h : Derives level e t)
    (hw : Blank w) (rest : Text) : StartsOperand (w ++ (t ++ rest)) := by
  obtain ⟨c, t', rfl, hc, -⟩ := h.head
  exact .of_blank hw hc _

theorem Derives.skip {level : Nat} {e : Expression} {t w : Text} (h : Derives level e t)
    (hw : Blank w) (rest : Text) : Parser.skip (w ++ (t ++ rest)) = t ++ rest := by
  obtain ⟨c, t', rfl, hc, -⟩ := h.head
  rw [skip_append_of_blank hw]
  exact skip_cons_of_not_space (isSpace_of_isStart hc) _

theorem Derives.length_pos {level : Nat} {e : Expression} {t : Text} (h : Derives level e t) :
    0 < t.length := by
  obtain ⟨c, t', rfl, -⟩ := h.head
  exact Nat.succ_pos _

/-! ### Parsers by level -/

section Levels

variable (numbers : NumberParsers) (k : Nat)

/-- The parser of a level, where nested expressions are read with fuel `k`. -/
def parserAt : Nat → Parser Expression
  | 0 => parseTernary numbers (parseNested numbers k) (k + 1)
  | 1 => parseLogicalOr numbers (parseNested numbers k) (k + 1)
  | 2 => parseLogicalAnd numbers (parseNested numbers k) (k + 1)
  | 3 => parseComparison numbers (parseNested numbers k) (k + 1)
  | 4 => parseBitwiseOr numbers (parseNested numbers k) (k + 1)
  | 5 => parseBitwiseXor numbers (parseNested numbers k) (k + 1)
  | 6 => parseBitwiseAnd numbers (parseNested numbers k) (k + 1)
  | 7 => parseShift numbers (parseNested numbers k) (k + 1)
  | 8 => parseAdditive numbers (parseNested numbers k) (k + 1)
  | 9 => parseMultiplicative numbers (parseNested numbers k) (k + 1)
  | 10 => parseUnary numbers (parseNested numbers k) (k + 1) (k + 1)
  | _ => parsePrimary numbers (parseNested numbers k) (k + 1)

/-- The operators of the level associate to the left. -/
def AssociatesLeft (level : Nat) : Prop := level = 1 ∨ level = 2 ∨ 4 ≤ level ∧ level ≤ 9

theorem parserAt_of_associatesLeft {level : Nat} (h : AssociatesLeft level) :
    parserAt numbers k level =
      parseLeftAssociative (parserAt numbers k (level + 1)) (operatorAt level) (k + 1) := by
  rcases h with rfl | rfl | ⟨hge, hle⟩
  · rfl
  · rfl
  · interval_cases level <;> rfl

theorem bind_congr_input {α β : Type} {p : Parser α} {f : α → Parser β} {i j : Text}
    (h : p i = p j) : (p >>= f) i = (p >>= f) j := by
  simp only [bind, StateT.bind, h]

/-- Blanks before an expression are skipped. -/
theorem parserAt_blank {level : Nat} (hlevel : level ≤ 10) {w : Text} (hw : Blank w)
    (input : Text) : parserAt numbers k level (w ++ input) = parserAt numbers k level input := by
  induction hlevel using Nat.decreasingInduction with
  | self =>
      change (multispace0 >>= _) _ = (multispace0 >>= _) _
      rw [multispace0_bind, multispace0_bind, skip_append_of_blank hw]
  | of_succ m hm ih =>
      by_cases hleft : AssociatesLeft m
      · rw [parserAt_of_associatesLeft numbers k hleft]
        exact bind_congr_input ih
      · have hcases : m = 0 ∨ m = 3 := by
          unfold AssociatesLeft at hleft
          omega
        rcases hcases with rfl | rfl
        · exact bind_congr_input ih
        · exact bind_congr_input ih

theorem parseNested_blank {w : Text} (hw : Blank w) (input : Text) :
    parseNested numbers k (w ++ input) = parseNested numbers k input := by
  cases k with
  | zero => rfl
  | succ k => exact parserAt_blank numbers k (Nat.zero_le _) hw input

/-- The expression is read up to the blanks after it. -/
def Reads (p : Parser Expression) (e : Expression) (t rest : Text) : Prop :=
  ∃ e', e'.erase = e.erase ∧ p (t ++ rest) = some (e', Parser.skip rest)

/-- The expression is read, and perhaps some blanks after it. -/
def ReadsLoosely (p : Parser Expression) (e : Expression) (t rest : Text) : Prop :=
  ∃ e' r, e'.erase = e.erase ∧ Parser.skip r = Parser.skip rest ∧ p (t ++ rest) = some (e', r)

/-- The expression is read as the left operand of what may follow. -/
def Chains (level : Nat) (e : Expression) (t rest : Text) : Prop :=
  ∃ e' n, e'.erase = e.erase ∧ k + 1 ≤ n + t.length ∧
    parserAt numbers k level (t ++ rest) =
      continueLeft (parserAt numbers k (level + 1)) (operatorAt level) n e' (Parser.skip rest)

end Levels

variable {numbers : NumberParsers} {k level : Nat} {e : Expression} {t rest : Text}

theorem Reads.loosely {p : Parser Expression} (h : Reads p e t rest) : ReadsLoosely p e t rest := by
  obtain ⟨e', herase, hp⟩ := h
  exact ⟨e', _, herase, skip_skip rest, hp⟩

theorem continueLeft_stop {next : Parser Expression} {operator : Parser Combine} {n : Nat}
    (left : Expression) {input : Text} (hn : 0 < n) (hstop : operator input = none) :
    continueLeft next operator n left input = some (left, input) := by
  obtain ⟨m, rfl⟩ := Nat.exists_eq_add_of_lt hn
  rw [Nat.zero_add, continueLeft, bind_of_some (opt_of_none hstop)]
  rfl

/-- A chain ends where no operator of the level follows. -/
theorem Chains.reads (h : Chains numbers k level e t rest) (hlength : t.length ≤ k)
    (hfollows : Follows level rest) : Reads (parserAt numbers k level) e t rest := by
  obtain ⟨e', n, herase, hn, hp⟩ := h
  refine ⟨e', herase, ?_⟩
  rw [hp, continueLeft_stop e' (by omega) (hfollows.stops level le_rfl)]

/-- What is read at the next level starts a chain. -/
theorem ReadsLoosely.chains (h : ReadsLoosely (parserAt numbers k (level + 1)) e t rest)
    (hleft : AssociatesLeft level) : Chains numbers k level e t rest := by
  obtain ⟨e', r, herase, hskip, hp⟩ := h
  refine ⟨e', k + 1, herase, Nat.le_add_right _ _, ?_⟩
  rw [parserAt_of_associatesLeft numbers k hleft, parseLeftAssociative, bind_of_some hp,
    multispace0_bind, hskip]

/-- A chain is continued by an operator of its level and an operand of the next. -/
theorem Chains.operator {o : InfixOperator} {l r : Expression} {tl tr w₁ w₂ : Text}
    (hl : Chains numbers k o.level l tl (w₁ ++ (o.token ++ (w₂ ++ (tr ++ rest)))))
    (hr : ReadsLoosely (parserAt numbers k (o.level + 1)) r tr rest)
    (hderives : Derives (o.level + 1) r tr) (hw₁ : Blank w₁) (hw₂ : Blank w₂)
    (hlength : (tl ++ (w₁ ++ (o.token ++ (w₂ ++ tr)))).length ≤ k) :
    Chains numbers k o.level (o.apply l r) (tl ++ (w₁ ++ (o.token ++ (w₂ ++ tr)))) rest := by
  obtain ⟨l', n, hlerase, hn, hlp⟩ := hl
  obtain ⟨r', rest', hrerase, hskip, hrp⟩ := hr
  have hstarts := hderives.startsOperand hw₂ rest
  have htoken : Parser.skip (w₁ ++ (o.token ++ (w₂ ++ (tr ++ rest)))) =
      o.token ++ (w₂ ++ (tr ++ rest)) := by
    obtain ⟨c, t, htoken, hspace, -⟩ := token_head o
    rw [skip_append_of_blank hw₁, htoken]
    exact skip_cons_of_not_space hspace _
  have hpositive : 0 < o.token.length := by
    obtain ⟨c, t, htoken, -⟩ := token_head o
    rw [htoken]
    exact Nat.succ_pos _
  simp only [List.length_append] at hlength
  obtain ⟨m, rfl⟩ : ∃ m, n = m + 1 := Nat.exists_eq_succ_of_ne_zero (by omega)
  refine ⟨o.apply l' r', m, by rw [erase_apply, erase_apply, hlerase, hrerase], ?_, ?_⟩
  · simp only [List.length_append]
    omega
  · simp only [List.append_assoc]
    rw [hlp, htoken, continueLeft, bind_of_some (opt_of_some (operatorAt_level o hstarts))]
    change (multispace0 >>= _) _ = _
    rw [multispace0_bind, hderives.skip hw₂, bind_of_some hrp, multispace0_bind, hskip]

/-! ### Primary expressions -/

theorem isIdentifier_of_all {name : Name} (hname : isName name = true)
    (hall : name.all isIdentifierByte = true) : IsIdentifier name :=
  ⟨hname, List.all_eq_true.mp hall⟩

theorem literal_run (c : UInt8) (rest : Text) : literal [c] (c :: rest) = some ((), rest) :=
  literal_append [c] rest

theorem not_digit_of_identifierStart {c : UInt8} (h : isIdentifierStart c = true) :
    isDigit c = false ∧ c ≠ 0x28 ∧ c ≠ 0x30 := by
  refine ⟨?_, ?_, ?_⟩
  · revert h
    simp only [isIdentifierStart, isAsciiAlphabetic, isDigit, Bool.or_eq_true, Bool.and_eq_true,
      decide_eq_true_eq, beq_iff_eq, Bool.and_eq_false_iff, decide_eq_false_iff_not,
      UInt8.le_iff_toNat_le, ← UInt8.toNat_inj]
    intro h
    simp only [UInt8.reduceToNat] at h ⊢
    omega
  · rintro rfl
    exact absurd h (by decide)
  · rintro rfl
    exact absurd h (by decide)

section Primary

variable (numbers k) (expression : Parser Expression) (fuel : Nat)

theorem parsePrimary_skip (input : Text) : parsePrimary numbers expression fuel input =
    alt [parseParenthesised expression, parseNumberWithSuffix numbers,
      parseIdentifierOrFunction expression fuel] (Parser.skip input) := rfl

theorem literal_hex_none {c : UInt8} (x : UInt8) (rest : Text) (h : c ≠ 0x30) :
    literal [0x30, x] (c :: rest) = none := literal_cons_of_ne _ _ (Ne.symm h)

/-- A text that starts with a letter is read as an identifier. -/
theorem parsePrimary_identifier {ident rest : Text} (hident : IsIdentifier ident) :
    parsePrimary numbers expression fuel (ident ++ rest) =
      parseIdentifierOrFunction expression fuel (ident ++ rest) := by
  obtain ⟨c, t, rfl, hc⟩ := hident.head
  obtain ⟨hdigit, hparen, hzero⟩ := not_digit_of_identifierStart hc
  have hspace := isSpace_of_isStart (isStart_of_isIdentifierStart hc)
  rw [parsePrimary_skip, List.cons_append, skip_cons_of_not_space hspace]
  have hnumber : parseNumberWithSuffix numbers (c :: (t ++ rest)) = none := by
    refine bind_of_none ?_
    rw [alt_of_none (bind_of_none ?_), alt_of_none (numbers.decUint_none _ ?_)]
    · rfl
    · simpa using hdigit
    · have hlower : literal (bytes "0x") (c :: (t ++ rest)) = none := literal_hex_none _ _ hzero
      have hupper : literal (bytes "0X") (c :: (t ++ rest)) = none := literal_hex_none _ _ hzero
      rw [alt_of_none hlower, alt_of_none hupper]
      rfl
  have hparenthesised : parseParenthesised expression (c :: (t ++ rest)) = none :=
    bind_of_none (literal_cons_of_ne _ _ (Ne.symm hparen))
  rw [alt_of_none hparenthesised, alt_of_none hnumber]
  cases h : parseIdentifierOrFunction expression fuel (c :: (t ++ rest)) with
  | none =>
      rw [alt_of_none h]
      rfl
  | some result => rw [alt_of_some h]

theorem parseIdentifier_run {ident rest : Text} (hident : IsIdentifier ident)
    (hrest : ∀ c ∈ rest.head?, isIdentifierByte c = false) :
    parseIdentifier (ident ++ rest) = some (ident, rest) := by
  have hne : ident ≠ [] := by
    rintro rfl
    exact absurd hident.1 (by decide)
  rw [parseIdentifier, bind_of_some (takeWhile1_append hne hident.2 hrest), if_pos hident.1]
  rfl

/-- An identifier before an opening bracket is a function. -/
theorem parsePrimary_function {ident w u : Text} (hident : IsIdentifier ident)
    (hdot : ident ≠ bytes ".") (hw : Blank w) :
    parsePrimary numbers expression fuel (ident ++ (w ++ (bytes "(" ++ u))) =
      parseFunction expression fuel ident (bytes "(" ++ u) := by
  have hrest : ∀ c ∈ (w ++ (bytes "(" ++ u)).head?, isIdentifierByte c = false := by
    intro c hc
    cases w with
    | nil =>
        obtain rfl : 0x28 = c := by simpa [bytes_punctuation] using hc
        decide
    | cons b w =>
        obtain rfl : b = c := by simpa using hc
        exact isIdentifierByte_of_isSpace (hw b (by simp))
  have hskip : Parser.skip (w ++ (bytes "(" ++ u)) = bytes "(" ++ u := by
    rw [skip_append_of_blank hw]
    exact skip_cons_of_not_space (by decide) _
  have hopen : (bytes "(").isPrefixOf (bytes "(" ++ u) = true :=
    List.isPrefixOf_iff_prefix.mpr (List.prefix_append _ _)
  rw [parsePrimary_identifier numbers expression fuel hident, parseIdentifierOrFunction,
    bind_of_some (parseIdentifier_run hident hrest), if_neg hdot, multispace0_bind, hskip,
    remaining_bind, if_pos hopen, multispace0_bind]
  rw [← hskip, skip_skip, hskip]

theorem parsePrimary_symbol {name rest : Text} (hname : IsSymbol name)
    (hrest : Follows 11 rest) : parsePrimary numbers expression fuel (name ++ rest) =
      some (.symbol name, Parser.skip rest) := by
  rw [parsePrimary_identifier numbers expression fuel hname.1, parseIdentifierOrFunction,
    bind_of_some (parseIdentifier_run hname.1 hrest.boundary), if_neg hname.2.1, multispace0_bind,
    remaining_bind, if_neg (by simp [hrest.noArgument]), if_neg hname.2.2]
  rfl

theorem parsePrimary_sizeofHeaders {rest : Text} (hrest : Follows 11 rest) :
    parsePrimary numbers expression fuel (bytes "SIZEOF_HEADERS" ++ rest) =
      some (.sizeofHeaders, Parser.skip rest) := by
  have hident : IsIdentifier (bytes "SIZEOF_HEADERS") :=
    isIdentifier_of_all (by decide) (by decide)
  rw [parsePrimary_identifier numbers expression fuel hident, parseIdentifierOrFunction,
    bind_of_some (parseIdentifier_run hident hrest.boundary), if_neg (by decide), multispace0_bind,
    remaining_bind, if_neg (by simp [hrest.noArgument]), if_pos rfl]
  rfl

theorem parsePrimary_locationCounter {rest : Text} (hrest : Follows 11 rest) :
    parsePrimary numbers expression fuel (bytes "." ++ rest) = some (.locationCounter, rest) := by
  have hident : IsIdentifier (bytes ".") := isIdentifier_of_all (by decide) (by decide)
  rw [parsePrimary_identifier numbers expression fuel hident, parseIdentifierOrFunction,
    bind_of_some (parseIdentifier_run hident hrest.boundary), if_pos rfl]
  rfl

theorem isDigit_isIdentifierByte {c : UInt8} (h : isDigit c = true) : isIdentifierByte c = true := by
  simp [isIdentifierByte, h]

theorem suffix_none {c : UInt8} (h : isIdentifierByte c = false) (rest : Text) (a b : UInt64) :
    alt [value (bytes "K") a, value (bytes "k") a, value (bytes "M") b, value (bytes "m") b]
      (c :: rest) = none := by
  have hne : ∀ d, isIdentifierByte d = true → d ≠ c := by
    rintro d hd rfl
    rw [h] at hd
    cases hd
  have hK := hne 0x4b (by decide)
  have hk := hne 0x6b (by decide)
  have hM := hne 0x4d (by decide)
  have hm := hne 0x6d (by decide)
  have hbytes : bytes "K" = [0x4b] ∧ bytes "k" = [0x6b] ∧ bytes "M" = [0x4d] ∧
      bytes "m" = [0x6d] := by decide
  simp [alt, fail, value_run, hbytes, List.isPrefixOf, hK, hk, hM, hm]

theorem parsePrimary_number (n : UInt64) {rest : Text} (hrest : Follows 11 rest) :
    parsePrimary numbers expression fuel (decimal n.toNat ++ rest) = some (.number n, rest) := by
  obtain ⟨hne, hdigits⟩ := decimal_spec n.toNat
  have hboundary : ∀ c ∈ rest.head?, isDigit c = false := by
    intro c hc
    by_contra hdigit
    rw [Bool.not_eq_false] at hdigit
    have hbyte := hrest.boundary c hc
    rw [isDigit_isIdentifierByte hdigit] at hbyte
    cases hbyte
  -- The second byte is a digit or no letter at all.
  have hsecond : ∀ x, isDigit x = false → isIdentifierByte x = true →
      literal [0x30, x] (decimal n.toNat ++ rest) = none := by
    intro x hx hletter
    rw [literal, if_neg]
    intro hleading
    obtain ⟨u, hu⟩ := List.isPrefixOf_iff_prefix.mp hleading
    have hget : (decimal n.toNat ++ rest)[1]? = some x := by rw [← hu]; rfl
    rw [List.getElem?_append] at hget
    split at hget
    · have hdigit := hdigits x (List.mem_of_getElem? hget)
      rw [hx] at hdigit
      cases hdigit
    · rename_i hlength
      have hone : (decimal n.toNat).length = 1 := by
        have := List.length_pos_iff.mpr hne
        omega
      rw [hone, Nat.sub_self, ← List.head?_eq_getElem?] at hget
      have hbyte := hrest.boundary x (by rw [hget]; rfl)
      rw [hletter] at hbyte
      cases hbyte
  have hspace : Parser.skip (decimal n.toNat ++ rest) = decimal n.toNat ++ rest := by
    cases hdecimal : decimal n.toNat with
    | nil => exact absurd hdecimal hne
    | cons c t =>
        exact skip_cons_of_not_space
          (isSpace_of_isStart (isStart_of_isDigit (hdigits c (by simp [hdecimal])))) _
  have hparenthesised : parseParenthesised expression (decimal n.toNat ++ rest) = none := by
    cases hdecimal : decimal n.toNat with
    | nil => exact absurd hdecimal hne
    | cons c t =>
        refine bind_of_none (literal_cons_of_ne _ _ ?_)
        rintro rfl
        exact absurd (hdigits 0x28 (by simp [hdecimal])) (by decide)
  have hbase : alt [(do
      alt [literal (bytes "0x"), literal (bytes "0X")]
      numbers.hexUint), numbers.decUint] (decimal n.toNat ++ rest) = some (n, rest) := by
    have hlower : literal (bytes "0x") (decimal n.toNat ++ rest) = none :=
      hsecond 0x78 (by decide) (by decide)
    have hupper : literal (bytes "0X") (decimal n.toNat ++ rest) = none :=
      hsecond 0x58 (by decide) (by decide)
    have hhex : alt [literal (bytes "0x"), literal (bytes "0X")] (decimal n.toNat ++ rest) =
        none := by
      rw [alt_of_none hlower, alt_of_none hupper]
      rfl
    rw [alt_of_none (bind_of_none hhex), alt_of_some (numbers.decUint_decimal n rest hboundary)]
  have hsuffix : opt (alt [value (bytes "K") (1024 : UInt64), value (bytes "k") 1024,
      value (bytes "M") (1024 * 1024), value (bytes "m") (1024 * 1024)]) rest =
        some (none, rest) := by
    refine opt_of_none ?_
    cases rest with
    | nil => rfl
    | cons c rest => exact suffix_none (hrest.boundary c rfl) _ _ _
  have hnumber : parseNumberWithSuffix numbers (decimal n.toNat ++ rest) =
      some (.number n, rest) := by
    rw [parseNumberWithSuffix, bind_of_some hbase, bind_of_some hsuffix, pure_run,
      Option.getD_none, UInt64.mul_one]
  rw [parsePrimary_skip, hspace, alt_of_none hparenthesised, alt_of_some hnumber]

end Primary

/-! ### Comments and quoted texts -/

/-- Where no comment starts, only blanks are skipped. -/
theorem skipCommentsAndWhitespace_run {fuel : Nat} {input : Text} (hfuel : 0 < fuel)
    (hhash : (bytes "#").isPrefixOf (Parser.skip input) = false)
    (hcomment : (bytes "/*").isPrefixOf (Parser.skip input) = false) :
    skipCommentsAndWhitespace fuel input = some ((), Parser.skip input) := by
  obtain ⟨fuel, rfl⟩ := Nat.exists_eq_add_of_lt hfuel
  rw [Nat.zero_add, skipCommentsAndWhitespace, multispace0_bind, remaining_bind,
    if_neg (by simp [hhash]), if_neg (by simp [hcomment])]
  rfl

theorem skipCommentsAndWhitespace_cons {fuel : Nat} {w : Text} {c : UInt8} (hfuel : 0 < fuel)
    (hw : Blank w) (hspace : isSpace c = false) (hhash : c ≠ 0x23) (hslash : c ≠ 0x2f) (u : Text) :
    skipCommentsAndWhitespace fuel (w ++ c :: u) = some ((), c :: u) := by
  have hskip : Parser.skip (w ++ c :: u) = c :: u := by
    rw [skip_append_of_blank hw, skip_cons_of_not_space hspace]
  have hrun : skipCommentsAndWhitespace fuel (w ++ c :: u) = some ((), Parser.skip (w ++ c :: u)) :=
    skipCommentsAndWhitespace_run hfuel
      (by rw [hskip]; simp [bytes_punctuation, List.isPrefixOf, Ne.symm hhash])
      (by rw [hskip]; simp [bytes_punctuation, List.isPrefixOf, Ne.symm hslash])
  rwa [hskip] at hrun

theorem takeUntil_quote {content : Text} (hcontent : Quotable content) (u : Text) :
    takeUntil 0 (bytes "\"") (content ++ (bytes "\"" ++ u)) =
      some (content, bytes "\"" ++ u) := by
  have hindex : (content ++ (bytes "\"" ++ u)).tails.findIdx?
      ((bytes "\"").isPrefixOf ·) = some content.length := by
    induction content with
    | nil => simp [bytes_punctuation, List.isPrefixOf, List.findIdx?_cons]
    | cons c content ih =>
        have hc : (0x22 == c) = false := by simpa using Ne.symm (hcontent c (by simp))
        rw [List.cons_append, List.tails_cons, List.findIdx?_cons,
          ih fun d hd => hcontent d (by simp [hd])]
        simp [bytes_punctuation, List.isPrefixOf, hc]
  rw [takeUntil, hindex]
  simp

theorem parseToken_quoted {content : Text} (hcontent : Quotable content) (u : Text) :
    parseToken (bytes "\"" ++ (content ++ (bytes "\"" ++ u))) = some (content, u) := by
  rw [parseToken, remaining_bind, if_pos (List.isPrefixOf_iff_prefix.mpr (List.prefix_append _ _)),
    bind_of_some (literal_append _ _), bind_of_some (takeUntil_quote hcontent u),
    bind_of_some (literal_append _ _)]
  rfl

end JdxLinker.Script
