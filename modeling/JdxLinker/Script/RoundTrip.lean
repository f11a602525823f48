import JdxLinker.Script.Completeness

/-!
# Printed expressions are read back

Induction on how a text stands for an expression: each level reads its operators, and each primary
expression reads those that are nested in it. An expression that is printed with the parentheses that
the parser's precedences call for is read back.
-/

namespace JdxLinker.Script

open JdxLinker.Parser

variable {numbers : NumberParsers} {level k : Nat} {e : Expression} {t : Text}

/-- What reading a derived text means at each level, with enough fuel. -/
structure IsRead (numbers : NumberParsers) (level : Nat) (e : Expression) (t : Text) : Prop where
  operators : level ≤ 9 → ∀ k, t.length ≤ k → ∀ rest, Follows level rest →
    Reads (parserAt numbers k level) e t rest
  chains : AssociatesLeft level → ∀ k, t.length ≤ k → ∀ rest, Follows (level + 1) rest →
    Chains numbers k level e t rest
  unary : level = 10 → ∀ k, t.length ≤ k → ∀ m, t.length < m → ∀ rest, Follows 10 rest →
    ReadsLoosely (parseUnary numbers (parseNested numbers k) (k + 1) m) e t rest
  primary : level = 11 → ∀ k, t.length ≤ k → ∀ rest, Follows 11 rest →
    ReadsLoosely (parserAt numbers k 11) e t rest

theorem IsRead.loosely (h : IsRead numbers level e t) (hlevel : level ≤ 11) (hk : t.length ≤ k)
    {rest : Text} (hrest : Follows level rest) :
    ReadsLoosely (parserAt numbers k level) e t rest := by
  rcases Nat.lt_or_ge level 10 with hlt | hge
  · exact (h.operators (by omega) k hk rest hrest).loosely
  · have hcases : level = 10 ∨ level = 11 := by omega
    rcases hcases with rfl | rfl
    · exact h.unary rfl k hk (k + 1) (by omega) rest hrest
    · exact h.primary rfl k hk rest hrest

theorem AssociatesLeft.le_nine (h : AssociatesLeft level) : level ≤ 9 := by
  unfold AssociatesLeft at h
  omega

theorem isRead_of_chains (hleft : AssociatesLeft level)
    (h : ∀ k, t.length ≤ k → ∀ rest, Follows (level + 1) rest → Chains numbers k level e t rest) :
    IsRead numbers level e t where
  operators _ k hk rest hrest := (h k hk rest (hrest.mono (Nat.le_succ _))).reads hk hrest
  chains _ := h
  unary hlevel := absurd hleft.le_nine (by omega)
  primary hlevel := absurd hleft.le_nine (by omega)

theorem isRead_of_reads (hleft : ¬ AssociatesLeft level) (hlevel : level ≤ 9)
    (h : ∀ k, t.length ≤ k → ∀ rest, Follows level rest →
      Reads (parserAt numbers k level) e t rest) : IsRead numbers level e t where
  operators _ := h
  chains h := absurd h hleft
  unary h := absurd hlevel (by omega)
  primary h := absurd hlevel (by omega)

theorem isRead_of_unary (h : ∀ k, t.length ≤ k → ∀ m, t.length < m → ∀ rest, Follows 10 rest →
    ReadsLoosely (parseUnary numbers (parseNested numbers k) (k + 1) m) e t rest) :
    IsRead numbers 10 e t where
  operators h := absurd h (by decide)
  chains h := absurd h.le_nine (by decide)
  unary _ := h
  primary h := absurd h (by decide)

theorem isRead_of_primary (h : ∀ k, t.length ≤ k → ∀ rest, Follows 11 rest →
    ReadsLoosely (parserAt numbers k 11) e t rest) : IsRead numbers 11 e t where
  operators h := absurd h (by decide)
  chains h := absurd h.le_nine (by decide)
  unary h := absurd h (by decide)
  primary _ := h

/-! ### Operators -/

/-- What is read at the next level is read at the level. -/
theorem IsRead.tighter (h : IsRead numbers (level + 1) e t) (hlevel : level < 11)
    (hderives : Derives (level + 1) e t) : IsRead numbers level e t := by
  by_cases hleft : AssociatesLeft level
  · exact isRead_of_chains hleft fun k hk rest hrest =>
      (h.loosely hlevel hk hrest).chains hleft
  · have hcases : level = 0 ∨ level = 3 ∨ level = 10 := by
      unfold AssociatesLeft at hleft
      omega
    rcases hcases with rfl | rfl | rfl
    · refine isRead_of_reads hleft (by decide) fun k hk rest hrest => ?_
      obtain ⟨e', herase, hp⟩ := h.operators (by decide) k hk rest (hrest.mono (by decide))
      refine ⟨e', herase, ?_⟩
      have hstop : literal (bytes "?") (Parser.skip rest) = none := by
        cases hliteral : literal (bytes "?") (Parser.skip rest) with
        | none => rfl
        | some result =>
            have hzero := hrest.stops 0 le_rfl
            rw [operatorAt, value, bind_of_some hliteral] at hzero
            cases hzero
      refine (bind_of_some hp).trans ?_
      rw [multispace0_bind, skip_skip, bind_of_some (opt_of_none hstop)]
      rfl
    · refine isRead_of_reads hleft (by decide) fun k hk rest hrest => ?_
      obtain ⟨e', herase, hp⟩ := h.operators (by decide) k hk rest (hrest.mono (by decide))
      refine ⟨e', herase, ?_⟩
      have hstop : comparisonOperator (Parser.skip rest) = none := hrest.stops 3 le_rfl
      refine (bind_of_some hp).trans ?_
      rw [multispace0_bind, skip_skip, bind_of_some (opt_of_none hstop)]
      rfl
    · refine isRead_of_unary fun k hk m hm rest hrest => ?_
      obtain ⟨e', r, herase, hskip, hp⟩ := h.primary rfl k hk rest (hrest.mono (by decide))
      refine ⟨e', r, herase, hskip, ?_⟩
      obtain ⟨m, rfl⟩ := Nat.exists_eq_add_of_lt (Nat.zero_lt_of_lt hm)
      obtain ⟨c, t', rfl, hstart, hprimary⟩ := hderives.head
      have hspace : Parser.skip (c :: t' ++ rest) = c :: t' ++ rest :=
        skip_cons_of_not_space (isSpace_of_isStart hstart) _
      have hne : c ≠ 0x21 ∧ c ≠ 0x7e ∧ c ≠ 0x2d := by
        have hc := hprimary rfl
        refine ⟨?_, ?_, ?_⟩
        all_goals
          rintro rfl
          exact absurd hc (by decide)
      have hoperator : unaryOperator (c :: t' ++ rest) = none := by
        have hnot : literal (bytes "!") (c :: (t' ++ rest)) = none :=
          literal_cons_of_ne _ _ (Ne.symm hne.1)
        have htilde : value (bytes "~") UnaryOperator.bitwiseNot (c :: (t' ++ rest)) = none :=
          bind_of_none (literal_cons_of_ne _ _ (Ne.symm hne.2.1))
        have hminus : value (bytes "-") UnaryOperator.negate (c :: (t' ++ rest)) = none :=
          bind_of_none (literal_cons_of_ne _ _ (Ne.symm hne.2.2))
        rw [unaryOperator, List.cons_append, alt_of_none (bind_of_none hnot), alt_of_none htilde,
          alt_of_none hminus]
        rfl
      rw [Nat.zero_add, parseUnary, multispace0_bind, hspace, bind_of_some (opt_of_none hoperator)]
      exact hp

theorem unaryOperator_run (operator : UnaryOperator) {u : Text} (hu : StartsOperand u) :
    unaryOperator (operator.token ++ u) = some (operator, u) := by
  obtain ⟨c, u, rfl, hc⟩ := hu
  obtain ⟨hequal, -⟩ := ne_of_operand hc
  cases operator with
  | logicalNot =>
      refine alt_of_some ((bind_of_some (literal_append _ _)).trans ?_)
      have hlookahead : notFollowedBy (literal (bytes "=")) (c :: u) = some ((), c :: u) := by
        rw [notFollowedBy, show literal (bytes "=") (c :: u) = none from
          literal_cons_of_ne _ _ (Ne.symm hequal)]
      rw [bind_of_some hlookahead]
      rfl
  | bitwiseNot =>
      have hnot : literal (bytes "!") (UnaryOperator.bitwiseNot.token ++ c :: u) = none :=
        literal_cons_of_ne (c := 0x21) (d := 0x7e) [] (c :: u) (by decide)
      exact (alt_of_none (bind_of_none hnot)).trans
        (alt_of_some (bind_of_some (literal_append _ _)))
  | negate =>
      have hnot : literal (bytes "!") (UnaryOperator.negate.token ++ c :: u) = none :=
        literal_cons_of_ne (c := 0x21) (d := 0x2d) [] (c :: u) (by decide)
      have htilde : value (bytes "~") UnaryOperator.bitwiseNot
          (UnaryOperator.negate.token ++ c :: u) = none :=
        bind_of_none (literal_cons_of_ne (c := 0x7e) (d := 0x2d) [] (c :: u) (by decide))
      exact (alt_of_none (bind_of_none hnot)).trans
        ((alt_of_none htilde).trans (alt_of_some (bind_of_some (literal_append _ _))))

theorem IsRead.unaryOperator {operator : UnaryOperator} {w : Text} (h : IsRead numbers 10 e t)
    (hderives : Derives 10 e t) (hw : Blank w) :
    IsRead numbers 10 (.unary operator e) (operator.token ++ (w ++ t)) := by
  refine isRead_of_unary fun k hk m hm rest hrest => ?_
  have htoken : 0 < operator.token.length := by cases operator <;> decide
  simp only [List.length_append] at hk hm
  obtain ⟨m, rfl⟩ : ∃ m', m = m' + 1 := Nat.exists_eq_succ_of_ne_zero (by omega)
  obtain ⟨e', r, herase, hskip, hp⟩ := h.unary rfl k (by omega) m (by omega) rest hrest
  refine ⟨.unary operator e', r, by rw [Expression.erase, Expression.erase, herase], hskip, ?_⟩
  have hblank : parseUnary numbers (parseNested numbers k) (k + 1) m (w ++ (t ++ rest)) =
      parseUnary numbers (parseNested numbers k) (k + 1) m (t ++ rest) := by
    cases m with
    | zero => rfl
    | succ m =>
        rw [parseUnary, multispace0_bind, multispace0_bind, skip_append_of_blank hw]
  have hspace : Parser.skip (operator.token ++ (w ++ (t ++ rest))) =
      operator.token ++ (w ++ (t ++ rest)) := by
    cases operator <;> exact skip_cons_of_not_space (by decide) _
  simp only [List.append_assoc]
  rw [parseUnary, multispace0_bind, hspace,
    bind_of_some (opt_of_some (unaryOperator_run operator (hderives.startsOperand hw rest)))]
  refine (bind_of_some (hblank.trans hp)).trans ?_
  rfl

/-- An operator of a level with its operands. -/
theorem IsRead.operator {o : InfixOperator} {l r : Expression} {tl tr w₁ w₂ : Text}
    (hl : IsRead numbers o.leftLevel l tl) (hr : IsRead numbers (o.level + 1) r tr)
    (hderives : Derives (o.level + 1) r tr) (hw₁ : Blank w₁) (hw₂ : Blank w₂) :
    IsRead numbers o.level (o.apply l r) (tl ++ (w₁ ++ (o.token ++ (w₂ ++ tr)))) := by
  have hlevel := o.level_le
  have hfollows : ∀ rest, Follows (o.level + 1) (w₁ ++ (o.token ++ (w₂ ++ (tr ++ rest)))) :=
    fun rest => follows_operator o hw₁ (hderives.startsOperand hw₂ rest)
  by_cases hleft : AssociatesLeft o.level
  · have hsame : o.leftLevel = o.level := by
      cases o with
      | comparison c => exact absurd hleft (by simp [AssociatesLeft, InfixOperator.level])
      | _ => rfl
    rw [hsame] at hl
    refine isRead_of_chains hleft fun k hk rest hrest => ?_
    have hlengths := hk
    simp only [List.length_append] at hlengths
    exact (hl.chains hleft k (by omega) _ (hfollows rest)).operator
      (hr.loosely (by omega) (by omega) hrest) hderives hw₁ hw₂ hk
  · -- Comparisons are the operators that do not associate to the left.
    obtain ⟨c, rfl⟩ : ∃ c, o = .comparison c := by
      cases o with
      | comparison c => exact ⟨c, rfl⟩
      | _ => exact absurd (by simp [AssociatesLeft, InfixOperator.level]) hleft
    refine isRead_of_reads hleft hlevel.1 fun k hk rest hrest => ?_
    simp only [List.length_append] at hk
    obtain ⟨l', hlerase, hlp⟩ := hl.operators hlevel.2 k (by omega) _ (hfollows rest)
    obtain ⟨r', hrerase, hrp⟩ := hr.operators (show 4 ≤ 9 by decide) k (by omega) rest
      (hrest.mono (Nat.le_succ _))
    refine ⟨.comparison c l' r', by rw [Expression.erase, hlerase, hrerase]; rfl, ?_⟩
    have htoken : Parser.skip (w₁ ++ ((InfixOperator.comparison c).token ++
        (w₂ ++ (tr ++ rest)))) = (InfixOperator.comparison c).token ++ (w₂ ++ (tr ++ rest)) := by
      obtain ⟨b, t, htoken, hspace, -⟩ := token_head (.comparison c)
      rw [skip_append_of_blank hw₁, htoken]
      exact skip_cons_of_not_space hspace _
    have hoperator : comparisonOperator ((InfixOperator.comparison c).token ++
        (w₂ ++ (tr ++ rest))) = some (.comparison c, w₂ ++ (tr ++ rest)) :=
      operatorAt_level (.comparison c) (hderives.startsOperand hw₂ rest)
    simp only [List.append_assoc]
    refine (bind_of_some hlp).trans ?_
    rw [multispace0_bind, skip_skip, htoken, bind_of_some (opt_of_some hoperator)]
    change (multispace0 >>= _) _ = _
    rw [multispace0_bind, hderives.skip hw₂]
    refine (bind_of_some hrp).trans ?_
    rw [multispace0_bind, skip_skip]
    rfl

/-! ### Nested expressions -/

theorem parseNested_skip (numbers : NumberParsers) (k : Nat) (u : Text) :
    parseNested numbers k (Parser.skip u) = parseNested numbers k u := by
  have hblank : Blank (u.takeWhile isSpace) := fun c hc => List.mem_takeWhile_imp hc
  conv_rhs => rw [← List.takeWhile_append_dropWhile (p := isSpace) (l := u)]
  rw [parseNested_blank _ _ hblank]
  rfl

/-- A nested expression is read, after blanks, where there is fuel for its text. -/
theorem IsRead.nested (h : IsRead numbers 0 e t) (hk : t.length < k) {u rest : Text}
    (hu : Parser.skip u = t ++ rest) (hrest : Follows 0 rest) :
    ∃ e', e'.erase = e.erase ∧ parseNested numbers k u = some (e', Parser.skip rest) := by
  obtain ⟨k, rfl⟩ := Nat.exists_eq_add_of_lt (Nat.zero_lt_of_lt hk)
  rw [Nat.zero_add] at hk ⊢
  obtain ⟨e', herase, hp⟩ := h.operators (by decide) k (by omega) rest hrest
  rw [← parseNested_skip, hu]
  exact ⟨e', herase, hp⟩

theorem skip_token {w : Text} {c : UInt8} (hw : Blank w) (hspace : isSpace c = false) (u : Text) :
    Parser.skip (w ++ ([c] ++ u)) = [c] ++ u := by
  rw [skip_append_of_blank hw]
  exact skip_cons_of_not_space hspace u

theorem IsRead.ternary {c a b : Expression} {tc ta tb w₁ w₂ w₃ w₄ : Text}
    (hc : IsRead numbers 1 c tc) (ha : IsRead numbers 0 a ta) (hb : IsRead numbers 0 b tb)
    (hda : Derives 0 a ta) (hdb : Derives 0 b tb)
    (hw₁ : Blank w₁) (hw₂ : Blank w₂) (hw₃ : Blank w₃) (hw₄ : Blank w₄) :
    IsRead numbers 0 (.ternary c a b)
      (tc ++ (w₁ ++ (bytes "?" ++ (w₂ ++ (ta ++ (w₃ ++ (bytes ":" ++ (w₄ ++ tb)))))))) := by
  refine isRead_of_reads (by unfold AssociatesLeft; omega) (by decide) fun k hk rest hrest => ?_
  have htokens : (bytes "?").length = 1 ∧ (bytes ":").length = 1 := by decide
  simp only [List.length_append, htokens] at hk
  obtain ⟨c', hcerase, hcp⟩ := hc.operators (by decide) k (by omega) _
    (follows_question hw₁ (w₂ ++ (ta ++ (w₃ ++ (bytes ":" ++ (w₄ ++ (tb ++ rest)))))))
  obtain ⟨a', haerase, hap⟩ := ha.nested (k := k) (by omega)
    ((skip_skip _).trans (hda.skip hw₂ (w₃ ++ (bytes ":" ++ (w₄ ++ (tb ++ rest))))))
    (follows_closer hw₃ (.inr (.inr rfl)) (w₄ ++ (tb ++ rest)))
  obtain ⟨b', hberase, hbp⟩ := hb.nested (k := k) (by omega)
    ((skip_skip _).trans (hdb.skip hw₄ rest)) hrest
  refine ⟨.ternary c' a' b', by simp only [Expression.erase, hcerase, haerase, hberase], ?_⟩
  have hquestion : Parser.skip (w₁ ++ (bytes "?" ++ (w₂ ++ (ta ++ (w₃ ++ (bytes ":" ++ (w₄ ++ (tb ++
      rest)))))))) = bytes "?" ++ (w₂ ++ (ta ++ (w₃ ++ (bytes ":" ++ (w₄ ++ (tb ++ rest)))))) :=
    skip_token hw₁ (by decide) _
  have hcolon : Parser.skip (w₃ ++ (bytes ":" ++ (w₄ ++ (tb ++ rest)))) =
      bytes ":" ++ (w₄ ++ (tb ++ rest)) := skip_token hw₃ (by decide) _
  simp only [List.append_assoc]
  refine (bind_of_some hcp).trans ?_
  rw [multispace0_bind, skip_skip, hquestion, bind_of_some (opt_of_some (literal_append _ _))]
  change (multispace0 >>= _) _ = _
  rw [multispace0_bind]
  refine (bind_of_some hap).trans ?_
  rw [multispace0_bind, skip_skip, hcolon, bind_of_some (literal_append _ _), multispace0_bind]
  refine (bind_of_some hbp).trans ?_
  rw [multispace0_bind, skip_skip]
  rfl

theorem IsRead.parenthesised {w₁ w₂ : Text} (h : IsRead numbers 0 e t) (hd : Derives 0 e t)
    (hw₁ : Blank w₁) (hw₂ : Blank w₂) :
    IsRead numbers 11 e (bytes "(" ++ (w₁ ++ (t ++ (w₂ ++ bytes ")")))) := by
  refine isRead_of_primary fun k hk rest hrest => ?_
  simp only [List.length_append, show (bytes "(").length = 1 from rfl] at hk
  obtain ⟨e', herase, hp⟩ := h.nested (k := k) (by omega)
    (hd.skip hw₁ (w₂ ++ (bytes ")" ++ rest))) (follows_closer hw₂ (.inl rfl) rest)
  refine ⟨e', rest, herase, rfl, ?_⟩
  have hclose : Parser.skip (w₂ ++ (bytes ")" ++ rest)) = bytes ")" ++ rest :=
    skip_token hw₂ (by decide) _
  have hopen : Parser.skip (bytes "(" ++ (w₁ ++ (t ++ (w₂ ++ (bytes ")" ++ rest))))) =
      bytes "(" ++ (w₁ ++ (t ++ (w₂ ++ (bytes ")" ++ rest)))) :=
    skip_cons_of_not_space (by decide) _
  have hparenthesised : parseParenthesised (parseNested numbers k)
      (bytes "(" ++ (w₁ ++ (t ++ (w₂ ++ (bytes ")" ++ rest))))) = some (e', rest) := by
    rw [parseParenthesised, bind_of_some (literal_append _ _)]
    refine (bind_of_some hp).trans ?_
    rw [hclose, bind_of_some (literal_append _ _)]
    rfl
  simp only [List.append_assoc]
  change parsePrimary numbers (parseNested numbers k) (k + 1) _ = _
  rw [parsePrimary_skip, hopen, alt_of_some hparenthesised]

/-! ### Functions -/

/-- A keyword before an opening bracket is read as the function of the keyword. -/
theorem readsLoosely_function {keyword w u : Text} {rest : Text}
    (hkeyword : IsIdentifier keyword) (hdot : keyword ≠ bytes ".") (hw : Blank w)
    (h : ∃ e' r, e'.erase = e.erase ∧ Parser.skip r = Parser.skip rest ∧
      parseFunction (parseNested numbers k) (k + 1) keyword (bytes "(" ++ (u ++ rest)) =
        some (e', r)) :
    ReadsLoosely (parserAt numbers k 11) e (keyword ++ (w ++ (bytes "(" ++ u))) rest := by
  obtain ⟨e', r, herase, hskip, hp⟩ := h
  refine ⟨e', r, herase, hskip, ?_⟩
  simp only [List.append_assoc]
  exact (parsePrimary_function numbers (parseNested numbers k) (k + 1) hkeyword hdot hw).trans hp

theorem NameFunction.keyword_spec (function : NameFunction) :
    IsIdentifier function.keyword ∧ function.keyword ≠ bytes "." := by
  cases function <;> exact ⟨isIdentifier_of_all (by decide) (by decide), by decide⟩

theorem parseFunctionArg_run {name w₂ w₃ : Text} (hname : IsIdentifier name) (hw₂ : Blank w₂)
    (hw₃ : Blank w₃) (rest : Text) :
    parseFunctionArg (bytes "(" ++ (w₂ ++ (name ++ (w₃ ++ (bytes ")" ++ rest))))) =
      some (name, rest) := by
  have hclose : Parser.skip (w₃ ++ (bytes ")" ++ rest)) = bytes ")" ++ rest :=
    skip_token hw₃ (by decide) _
  have hskip : Parser.skip (w₂ ++ (name ++ (w₃ ++ (bytes ")" ++ rest)))) =
      name ++ (w₃ ++ (bytes ")" ++ rest)) := by
    obtain ⟨c, t, rfl, hc⟩ := hname.head
    rw [skip_append_of_blank hw₂]
    exact skip_cons_of_not_space (isSpace_of_isStart (isStart_of_isIdentifierStart hc)) _
  have hboundary : ∀ c ∈ (w₃ ++ (bytes ")" ++ rest)).head?, isIdentifierByte c = false :=
    (follows_closer (c := 0x29) hw₃ (.inl rfl) rest).boundary
  rw [parseFunctionArg, bind_of_some (literal_append _ _), multispace0_bind, hskip,
    bind_of_some (parseIdentifier_run hname hboundary), multispace0_bind, hclose,
    bind_of_some (literal_append _ _)]
  rfl

theorem parseFunction_name (function : NameFunction) (expression : Parser Expression)
    (fuel : Nat) : parseFunction expression fuel function.keyword =
      function.apply <$> parseFunctionArg := by
  cases function <;> rfl

theorem IsRead.nameFunction {function : NameFunction} {name : Name} {w₁ w₂ w₃ : Text}
    (hname : IsIdentifier name) (hw₁ : Blank w₁) (hw₂ : Blank w₂) (hw₃ : Blank w₃) :
    IsRead numbers 11 (function.apply name)
      (function.keyword ++ (w₁ ++ (bytes "(" ++ (w₂ ++ (name ++ (w₃ ++ bytes ")")))))) := by
  refine isRead_of_primary fun k hk rest hrest => ?_
  obtain ⟨hkeyword, hdot⟩ := function.keyword_spec
  refine readsLoosely_function hkeyword hdot hw₁ ⟨function.apply name, rest, rfl, rfl, ?_⟩
  simp only [List.append_assoc]
  rw [parseFunction_name, map_eq_pure_bind, bind_of_some (parseFunctionArg_run hname hw₂ hw₃ rest)]
  rfl

theorem IsRead.alignLocation {w₁ w₂ w₃ : Text} (h : IsRead numbers 0 e t) (hd : Derives 0 e t)
    (hw₁ : Blank w₁) (hw₂ : Blank w₂) (hw₃ : Blank w₃) :
    IsRead numbers 11 (.alignLocation e)
      (bytes "ALIGN" ++ (w₁ ++ (bytes "(" ++ (w₂ ++ (t ++ (w₃ ++ bytes ")")))))) := by
  refine isRead_of_primary fun k hk rest hrest => ?_
  simp only [List.length_append, show (bytes "ALIGN").length = 5 from rfl] at hk
  obtain ⟨e', herase, hp⟩ := h.nested (k := k) (by omega)
    (hd.skip hw₂ (w₃ ++ (bytes ")" ++ rest))) (follows_closer hw₃ (.inl rfl) rest)
  refine readsLoosely_function (isIdentifier_of_all (by decide) (by decide)) (by decide) hw₁
    ⟨.alignLocation e', rest, by simp only [Expression.erase, herase], rfl, ?_⟩
  have hclose : Parser.skip (w₃ ++ (bytes ")" ++ rest)) = bytes ")" ++ rest :=
    skip_token hw₃ (by decide) _
  have hcomma : literal (bytes ",") (bytes ")" ++ rest) = none :=
    literal_cons_of_ne (c := 0x2c) (d := 0x29) [] rest (by decide)
  simp only [List.append_assoc]
  change parseAlign (parseNested numbers k) _ = _
  rw [parseAlign, bind_of_some (literal_append _ _)]
  refine (bind_of_some hp).trans ?_
  rw [multispace0_bind, skip_skip, hclose, bind_of_some (opt_of_none hcomma)]
  change (literal (bytes ")") >>= _) _ = _
  rw [bind_of_some (literal_append _ _)]
  rfl

theorem IsRead.align {exponent : Expression} {te w₁ w₂ w₃ w₄ w₅ : Text}
    (h : IsRead numbers 0 e t) (hd : Derives 0 e t) (hexponent : IsRead numbers 0 exponent te)
    (hdexponent : Derives 0 exponent te) (hw₁ : Blank w₁) (hw₂ : Blank w₂) (hw₃ : Blank w₃)
    (hw₄ : Blank w₄) (hw₅ : Blank w₅) :
    IsRead numbers 11 (.align exponent e) (bytes "ALIGN" ++ (w₁ ++ (bytes "(" ++ (w₂ ++ (t ++
      (w₃ ++ (bytes "," ++ (w₄ ++ (te ++ (w₅ ++ bytes ")")))))))))) := by
  refine isRead_of_primary fun k hk rest hrest => ?_
  simp only [List.length_append, show (bytes "ALIGN").length = 5 from rfl] at hk
  obtain ⟨e', herase, hp⟩ := h.nested (k := k) (by omega)
    (hd.skip hw₂ (w₃ ++ (bytes "," ++ (w₄ ++ (te ++ (w₅ ++ (bytes ")" ++ rest)))))))
    (follows_closer hw₃ (.inr (.inl rfl)) _)
  obtain ⟨f', hferase, hfp⟩ := hexponent.nested (k := k) (by omega)
    ((skip_skip _).trans (hdexponent.skip hw₄ (w₅ ++ (bytes ")" ++ rest))))
    (follows_closer hw₅ (.inl rfl) rest)
  refine readsLoosely_function (isIdentifier_of_all (by decide) (by decide)) (by decide) hw₁
    ⟨.align f' e', rest, by simp only [Expression.erase, herase, hferase], rfl, ?_⟩
  have hcomma : Parser.skip (w₃ ++ (bytes "," ++ (w₄ ++ (te ++ (w₅ ++ (bytes ")" ++ rest)))))) =
      bytes "," ++ (w₄ ++ (te ++ (w₅ ++ (bytes ")" ++ rest)))) := skip_token hw₃ (by decide) _
  have hclose : Parser.skip (w₅ ++ (bytes ")" ++ rest)) = bytes ")" ++ rest :=
    skip_token hw₅ (by decide) _
  simp only [List.append_assoc]
  change parseAlign (parseNested numbers k) _ = _
  rw [parseAlign, bind_of_some (literal_append _ _)]
  refine (bind_of_some hp).trans ?_
  rw [multispace0_bind, skip_skip, hcomma, bind_of_some (opt_of_some (literal_append _ _))]
  change (multispace0 >>= _) _ = _
  rw [multispace0_bind]
  refine (bind_of_some hfp).trans ?_
  rw [multispace0_bind, skip_skip, hclose, bind_of_some (literal_append _ _)]
  rfl

theorem PairFunction.keyword_spec (function : PairFunction) :
    IsIdentifier function.keyword ∧ function.keyword ≠ bytes "." ∧
      0 < function.keyword.length := by
  cases function <;> exact ⟨isIdentifier_of_all (by decide) (by decide), by decide, by decide⟩

theorem parseFunction_pair (function : PairFunction) (expression : Parser Expression)
    (fuel : Nat) : parseFunction expression fuel function.keyword =
      parsePair expression function.operator := by
  cases function <;> rfl

theorem IsRead.pair {function : PairFunction} {l r : Expression} {tl tr w₁ w₂ w₃ w₄ w₅ : Text}
    (hl : IsRead numbers 0 l tl) (hdl : Derives 0 l tl) (hr : IsRead numbers 0 r tr)
    (hdr : Derives 0 r tr) (hw₁ : Blank w₁) (hw₂ : Blank w₂) (hw₃ : Blank w₃) (hw₄ : Blank w₄)
    (hw₅ : Blank w₅) :
    IsRead numbers 11 (.binary function.operator l r) (function.keyword ++ (w₁ ++ (bytes "(" ++
      (w₂ ++ (tl ++ (w₃ ++ (bytes "," ++ (w₄ ++ (tr ++ (w₅ ++ bytes ")")))))))))) := by
  obtain ⟨hkeyword, hdot, hlength⟩ := function.keyword_spec
  refine isRead_of_primary fun k hk rest hrest => ?_
  simp only [List.length_append] at hk
  obtain ⟨l', hlerase, hlp⟩ := hl.nested (k := k) (by omega)
    (hdl.skip hw₂ (w₃ ++ (bytes "," ++ (w₄ ++ (tr ++ (w₅ ++ (bytes ")" ++ rest)))))))
    (follows_closer hw₃ (.inr (.inl rfl)) _)
  obtain ⟨r', hrerase, hrp⟩ := hr.nested (k := k) (by omega)
    ((skip_skip _).trans (hdr.skip hw₄ (w₅ ++ (bytes ")" ++ rest))))
    (follows_closer hw₅ (.inl rfl) rest)
  refine readsLoosely_function hkeyword hdot hw₁ ⟨.binary function.operator l' r', rest,
    by simp only [Expression.erase, hlerase, hrerase], rfl, ?_⟩
  have hcomma : Parser.skip (w₃ ++ (bytes "," ++ (w₄ ++ (tr ++ (w₅ ++ (bytes ")" ++ rest)))))) =
      bytes "," ++ (w₄ ++ (tr ++ (w₅ ++ (bytes ")" ++ rest)))) := skip_token hw₃ (by decide) _
  have hclose : Parser.skip (w₅ ++ (bytes ")" ++ rest)) = bytes ")" ++ rest :=
    skip_token hw₅ (by decide) _
  simp only [List.append_assoc]
  rw [parseFunction_pair, parsePair, bind_of_some (literal_append _ _)]
  refine (bind_of_some hlp).trans ?_
  rw [multispace0_bind, skip_skip, hcomma, bind_of_some (literal_append _ _), multispace0_bind]
  refine (bind_of_some hrp).trans ?_
  rw [multispace0_bind, skip_skip, hclose, bind_of_some (literal_append _ _)]
  rfl

theorem IsRead.segmentStart {name w₁ w₂ w₃ w₄ w₅ : Text} (h : IsRead numbers 0 e t)
    (hd : Derives 0 e t) (hname : name ≠ []) (hquotable : Quotable name) (hw₁ : Blank w₁)
    (hw₂ : Blank w₂) (hw₃ : Blank w₃) (hw₄ : Blank w₄) (hw₅ : Blank w₅) :
    IsRead numbers 11 (.segmentStart (SegmentName.fromBytes name) e) (bytes "SEGMENT_START" ++
      (w₁ ++ (bytes "(" ++ (w₂ ++ (bytes "\"" ++ (name ++ (bytes "\"" ++ (w₃ ++ (bytes "," ++ (w₄ ++
        (t ++ (w₅ ++ bytes ")")))))))))))) := by
  refine isRead_of_primary fun k hk rest hrest => ?_
  simp only [List.length_append, show (bytes "SEGMENT_START").length = 13 from rfl] at hk
  obtain ⟨e', herase, hp⟩ := h.nested (k := k) (by omega)
    ((skip_skip _).trans (hd.skip hw₄ (w₅ ++ (bytes ")" ++ rest))))
    (follows_closer hw₅ (.inl rfl) rest)
  refine readsLoosely_function (isIdentifier_of_all (by decide) (by decide)) (by decide) hw₁
    ⟨.segmentStart (SegmentName.fromBytes name) e', rest, by simp only [Expression.erase, herase],
      rfl, ?_⟩
  have hquote : Parser.skip (w₂ ++ (bytes "\"" ++ (name ++ (bytes "\"" ++ (w₃ ++ (bytes "," ++ (w₄ ++
      (t ++ (w₅ ++ (bytes ")" ++ rest)))))))))) = bytes "\"" ++ (name ++ (bytes "\"" ++ (w₃ ++
        (bytes "," ++ (w₄ ++ (t ++ (w₅ ++ (bytes ")" ++ rest)))))))) := skip_token hw₂ (by decide) _
  have hcomma : Parser.skip (w₃ ++ (bytes "," ++ (w₄ ++ (t ++ (w₅ ++ (bytes ")" ++ rest)))))) =
      bytes "," ++ (w₄ ++ (t ++ (w₅ ++ (bytes ")" ++ rest)))) := skip_token hw₃ (by decide) _
  have hclose : Parser.skip (w₅ ++ (bytes ")" ++ rest)) = bytes ")" ++ rest :=
    skip_token hw₅ (by decide) _
  have htake : ∀ u, takeWhile1 (fun c => c != 0x22) (name ++ (bytes "\"" ++ u)) =
      some (name, bytes "\"" ++ u) := fun u =>
    takeWhile1_append hname (fun c hc => by simpa using hquotable c hc) (by
      intro c hc
      obtain rfl : 0x22 = c := by simpa [bytes_punctuation] using hc
      rfl)
  simp only [List.append_assoc]
  change parseSegmentStart (parseNested numbers k) _ = _
  rw [parseSegmentStart, bind_of_some (literal_append _ _), multispace0_bind, hquote,
    bind_of_some (literal_append _ _), bind_of_some (htake _), bind_of_some (literal_append _ _),
    multispace0_bind, hcomma, bind_of_some (literal_append _ _), multispace0_bind]
  refine (bind_of_some hp).trans ?_
  rw [multispace0_bind, skip_skip, hclose, bind_of_some (literal_append _ _)]
  rfl

theorem IsRead.assert {message remainder w₁ w₂ w₃ w₄ w₅ : Text} (h : IsRead numbers 0 e t)
    (hd : Derives 0 e t) (hmessage : Quotable message) (hw₁ : Blank w₁) (hw₂ : Blank w₂)
    (hw₃ : Blank w₃) (hw₄ : Blank w₄) (hw₅ : Blank w₅) :
    IsRead numbers 11 (.assert e message remainder) (bytes "ASSERT" ++ (w₁ ++ (bytes "(" ++ (w₂ ++
      (t ++ (w₃ ++ (bytes "," ++ (w₄ ++ (bytes "\"" ++ (message ++ (bytes "\"" ++ (w₅ ++
        bytes ")")))))))))))) := by
  refine isRead_of_primary fun k hk rest hrest => ?_
  simp only [List.length_append, show (bytes "ASSERT").length = 6 from rfl] at hk
  have hu : Parser.skip (t ++ (w₃ ++ (bytes "," ++ (w₄ ++ (bytes "\"" ++ (message ++ (bytes "\"" ++
      (w₅ ++ (bytes ")" ++ rest))))))))) = t ++ (w₃ ++ (bytes "," ++ (w₄ ++ (bytes "\"" ++ (message ++
        (bytes "\"" ++ (w₅ ++ (bytes ")" ++ rest)))))))) := hd.skip (w := []) .nil _
  obtain ⟨e', herase, hp⟩ := h.nested (k := k) (by omega) hu
    (follows_closer hw₃ (.inr (.inl rfl)) _)
  refine readsLoosely_function (isIdentifier_of_all (by decide) (by decide)) (by decide) hw₁
    ⟨.assert e' message (bytes "(" ++ ((w₂ ++ (t ++ (w₃ ++ (bytes "," ++ (w₄ ++ (bytes "\"" ++
      (message ++ (bytes "\"" ++ (w₅ ++ bytes ")"))))))))) ++ rest)), Parser.skip rest,
      by simp only [Expression.erase, herase], skip_skip rest, ?_⟩
  have hfuel : 0 < k + 1 := Nat.succ_pos k
  have hskip : ∀ {w : Text} {c : UInt8} (u : Text), Blank w → isSpace c = false → c ≠ 0x23 →
      c ≠ 0x2f → skipCommentsAndWhitespace (k + 1) (w ++ ([c] ++ u)) = some ((), [c] ++ u) :=
    fun u hw hspace hhash hslash => skipCommentsAndWhitespace_cons hfuel hw hspace hhash hslash u
  have hstart : skipCommentsAndWhitespace (k + 1) (w₂ ++ (t ++ (w₃ ++ (bytes "," ++ (w₄ ++
      (bytes "\"" ++ (message ++ (bytes "\"" ++ (w₅ ++ (bytes ")" ++ rest)))))))))) =
      some ((), t ++ (w₃ ++ (bytes "," ++ (w₄ ++ (bytes "\"" ++ (message ++ (bytes "\"" ++ (w₅ ++
        (bytes ")" ++ rest))))))))) := by
    obtain ⟨c, t', rfl, hc, -⟩ := hd.head
    refine hskip _ hw₂ (isSpace_of_isStart hc) ?_ ?_
    all_goals
      rintro rfl
      exact absurd hc (by decide)
  have hcomma : Parser.skip (w₃ ++ (bytes "," ++ (w₄ ++ (bytes "\"" ++ (message ++ (bytes "\"" ++
      (w₅ ++ (bytes ")" ++ rest)))))))) = bytes "," ++ (w₄ ++ (bytes "\"" ++ (message ++ (bytes "\"" ++
        (w₅ ++ (bytes ")" ++ rest)))))) := skip_token hw₃ (by decide) _
  have hend := skipCommentsAndWhitespace_run hfuel hrest.noComment.1 hrest.noComment.2
  simp only [List.append_assoc]
  change parseAssert (parseNested numbers k) (k + 1) _ = _
  rw [parseAssert, remaining_bind, bind_of_some (literal_append _ _), bind_of_some hstart]
  refine (bind_of_some hp).trans ?_
  rw [hcomma]
  have hcommaSkip := hskip (w := []) (c := 0x2c) (w₄ ++ (bytes "\"" ++ (message ++ (bytes "\"" ++
    (w₅ ++ (bytes ")" ++ rest)))))) .nil (by decide) (by decide) (by decide)
  refine (bind_of_some hcommaSkip).trans ?_
  refine (bind_of_some (literal_append _ _)).trans ?_
  refine (bind_of_some (hskip _ hw₄ (by decide) (by decide) (by decide))).trans ?_
  refine (bind_of_some (parseToken_quoted hmessage _)).trans ?_
  refine (bind_of_some (hskip _ hw₅ (by decide) (by decide) (by decide))).trans ?_
  refine (bind_of_some (literal_append _ _)).trans ?_
  rw [bind_of_some hend]
  rfl

/-! ### Results -/

/-- A text that stands for an expression is read as the expression. -/
theorem Derives.isRead (numbers : NumberParsers) (h : Derives level e t) :
    IsRead numbers level e t := by
  induction h with
  | tighter hlevel h ih => exact ih.tighter hlevel h
  | ternary hc ha hb hw₁ hw₂ hw₃ hw₄ ihc iha ihb =>
      exact IsRead.ternary ihc iha ihb ha hb hw₁ hw₂ hw₃ hw₄
  | operator hl hr hw₁ hw₂ ihl ihr => exact IsRead.operator ihl ihr hr hw₁ hw₂
  | unary h hw ih => exact IsRead.unaryOperator ih h hw
  | parenthesised h hw₁ hw₂ ih => exact IsRead.parenthesised ih h hw₁ hw₂
  | number n =>
      exact isRead_of_primary fun k _ rest hrest =>
        ⟨_, rest, rfl, rfl, parsePrimary_number numbers _ _ n hrest⟩
  | symbol hname =>
      exact isRead_of_primary fun k _ rest hrest =>
        ⟨_, _, rfl, skip_skip rest, parsePrimary_symbol numbers _ _ hname hrest⟩
  | locationCounter =>
      exact isRead_of_primary fun k _ rest hrest =>
        ⟨_, rest, rfl, rfl, parsePrimary_locationCounter numbers _ _ hrest⟩
  | sizeofHeaders =>
      exact isRead_of_primary fun k _ rest hrest =>
        ⟨_, _, rfl, skip_skip rest, parsePrimary_sizeofHeaders numbers _ _ hrest⟩
  | nameFunction hname hw₁ hw₂ hw₃ => exact IsRead.nameFunction hname hw₁ hw₂ hw₃
  | alignLocation h hw₁ hw₂ hw₃ ih => exact ih.alignLocation h hw₁ hw₂ hw₃
  | align h hexponent hw₁ hw₂ hw₃ hw₄ hw₅ ih ihexponent =>
      exact ih.align h ihexponent hexponent hw₁ hw₂ hw₃ hw₄ hw₅
  | pair hl hr hw₁ hw₂ hw₃ hw₄ hw₅ ihl ihr => exact ihl.pair hl ihr hr hw₁ hw₂ hw₃ hw₄ hw₅
  | segmentStart h hname hquotable hw₁ hw₂ hw₃ hw₄ hw₅ ih =>
      exact ih.segmentStart h hname hquotable hw₁ hw₂ hw₃ hw₄ hw₅
  | assert h hmessage hw₁ hw₂ hw₃ hw₄ hw₅ ih => exact ih.assert h hmessage hw₁ hw₂ hw₃ hw₄ hw₅

/-- The whole of a text that stands for an expression is read, with any fuel above its length. -/
theorem parseNested_of_derives (numbers : NumberParsers) (h : Derives 0 e t) {fuel : Nat}
    (hfuel : t.length < fuel) :
    ∃ e', e'.erase = e.erase ∧ parseNested numbers fuel t = some (e', []) := by
  obtain ⟨e', herase, hp⟩ := (h.isRead numbers).nested (u := t) hfuel
    (by simpa using h.skip (w := []) .nil []) follows_nil
  exact ⟨e', herase, hp⟩

end JdxLinker.Script
