import JdxLinker.Script.Evaluation

/-!
# Constant expressions

The values that the linker needs before there is a layout are evaluated by themselves, from numbers
and operators only. The full evaluation of such an expression gives the same value, to which the start
of the current section is added.
-/

namespace JdxLinker.Script

open Evaluation Fallible

namespace Expression

/-- Built from numbers and operators. -/
def isConstant : Expression → Bool
  | number _ => true
  | binary _ l r | division _ l r | comparison _ l r | logicalAnd l r | logicalOr l r =>
      l.isConstant && r.isConstant
  | unary _ e => e.isConstant
  | ternary condition ifTrue ifFalse =>
      condition.isConstant && ifTrue.isConstant && ifFalse.isConstant
  | _ => false

end Expression

def evaluateConst : Expression → Fallible UInt64
  | .number n => .ok n
  | .binary operator l r => do
      let left ← evaluateConst l
      let right ← evaluateConst r
      .ok (operator.apply left right)
  | .division operator l r => do
      let divisor ← evaluateConst r
      if divisor = 0 then .error (.error operator.byZero)
      else do
        let dividend ← evaluateConst l
        .ok (operator.apply dividend divisor)
  | .comparison operator l r => do
      let left ← evaluateConst l
      let right ← evaluateConst r
      .ok (ofBool (operator.apply left right))
  | .logicalAnd l r => do
      let left ← evaluateConst l
      if left = 0 then .ok 0
      else do
        let right ← evaluateConst r
        .ok (ofBool (right ≠ 0))
  | .logicalOr l r => do
      let left ← evaluateConst l
      if left = 0 then do
        let right ← evaluateConst r
        .ok (ofBool (right ≠ 0))
      else .ok 1
  | .unary operator e => do
      let value ← evaluateConst e
      .ok (operator.apply value)
  | .ternary condition ifTrue ifFalse => do
      let value ← evaluateConst condition
      if value ≠ 0 then evaluateConst ifTrue else evaluateConst ifFalse
  | _ => .error (.error "Expected constant expression")

/-! ### Where a section starts -/

/-- What is added to values that are relative to the current section. -/
def sectionBase (context : Context) (loc : SymbolLoc) : UInt64 :=
  match currentSection context loc with
  | some current => memOffset context current
  | none => 0

/-- The operands of comparisons stay below `2 ^ 64` when the start of the section is added. -/
def ComparisonsFit (base : UInt64) : Expression → Prop
  | .comparison _ l r =>
      (∀ e ∈ [l, r], ∀ value, evaluateConst e = .ok value → value.toNat + base.toNat < 2 ^ 64) ∧
        ComparisonsFit base l ∧ ComparisonsFit base r
  | .binary _ l r | .division _ l r | .logicalAnd l r | .logicalOr l r =>
      ComparisonsFit base l ∧ ComparisonsFit base r
  | .unary _ e => ComparisonsFit base e
  | .ternary condition ifTrue ifFalse =>
      ComparisonsFit base condition ∧ ComparisonsFit base ifTrue ∧ ComparisonsFit base ifFalse
  | _ => True

theorem comparisonsFit_zero (e : Expression) : ComparisonsFit 0 e := by
  induction e with
  | comparison _ l r ihl ihr => exact ⟨fun _ _ value _ => value.toNat_lt, ihl, ihr⟩
  | binary _ l r ihl ihr | division _ l r ihl ihr | logicalAnd l r ihl ihr | logicalOr l r ihl ihr =>
      exact ⟨ihl, ihr⟩
  | unary _ e ih => exact ih
  | ternary _ _ _ ihc iht ihf => exact ⟨ihc, iht, ihf⟩
  | _ => trivial

/-- A comparison is not changed by adding to both sides. -/
theorem Comparison.apply_add (operator : Comparison) {l r base : UInt64}
    (hl : l.toNat + base.toNat < 2 ^ 64) (hr : r.toNat + base.toNat < 2 ^ 64) :
    operator.apply (l + base) (r + base) = operator.apply l r := by
  have hadd : ∀ {x : UInt64}, x.toNat + base.toNat < 2 ^ 64 →
      (x + base).toNat = x.toNat + base.toNat := by
    intro x hx
    rw [UInt64.toNat_add, Nat.mod_eq_of_lt hx]
  have heq : (l + base = r + base) = (l = r) := propext (add_left_inj base)
  cases operator <;>
    simp only [Comparison.apply, GT.gt, GE.ge, UInt64.lt_iff_toNat_lt, UInt64.le_iff_toNat_le,
      hadd hl, hadd hr, Nat.add_lt_add_iff_right, Nat.add_le_add_iff_right, ne_eq, heq]

/-- A step that leaves the kinds as they are can be replaced by its result. -/
theorem Evaluation.run_bind_pure {α β : Type} {step : Evaluation α} {result : Fallible α}
    {kind : ExpressionValueKind} (f : α → Evaluation β)
    (h : step.run kind = result >>= fun v => .ok (v, kind)) :
    (step >>= f).run kind = result >>= fun v => (f v).run kind := by
  rw [StateT.run_bind, h]
  cases result <;> rfl

section Agreement

variable {context : Context} {loc : SymbolLoc} {callback : Name → Fallible SymbolValue}

/-- The value on its own needs the start of the section, as nothing in it is absolute. -/
theorem evaluateAbsolute_pure {value : Evaluation UInt64} {result : Fallible UInt64}
    (h : ∀ kind, value.run kind = result >>= fun v => .ok (v, kind)) :
    evaluateAbsolute context loc value =
      result >>= fun v => .ok (v + sectionBase context loc) := by
  rw [evaluateAbsolute, h]
  cases result with
  | error failure => rfl
  | ok v =>
      show Except.ok (addSectionBase context loc (v, .initial)) = Except.ok _
      rw [addSectionBase, if_pos (show (v, ExpressionValueKind.initial).2.needsSectionBase = true
        from rfl), sectionBase]
      cases currentSection context loc with
      | none => exact congrArg _ (add_zero v).symm
      | some current => rfl

/-- Constant expressions have the value that they are given before the layout. -/
theorem evaluateExpressionValue_constant {e : Expression} (h : e.isConstant = true)
    (hfit : ComparisonsFit (sectionBase context loc) e) (kind : ExpressionValueKind) :
    (evaluateExpressionValue context loc callback e).run kind =
      evaluateConst e >>= fun v => .ok (v, kind) := by
  induction e generalizing kind with
  | number n => rfl
  | binary operator l r ihl ihr =>
      rw [Expression.isConstant, Bool.and_eq_true] at h
      rw [evaluateExpressionValue, run_bind_pure _ (ihl h.1 hfit.1 kind), evaluateConst, bind_assoc]
      congr 1
      funext left
      rw [run_bind_pure _ (ihr h.2 hfit.2 kind), bind_assoc]
      rfl
  | division operator l r ihl ihr =>
      rw [Expression.isConstant, Bool.and_eq_true] at h
      rw [evaluateExpressionValue, run_bind_pure _ (ihr h.2 hfit.2 kind), evaluateConst, bind_assoc]
      congr 1
      funext divisor
      by_cases hzero : divisor = 0
      · rw [if_pos hzero, if_pos hzero]
        rfl
      · rw [if_neg hzero, if_neg hzero, run_bind_pure _ (ihl h.1 hfit.1 kind), bind_assoc]
        rfl
  | comparison operator l r ihl ihr =>
      rw [Expression.isConstant, Bool.and_eq_true] at h
      have hl := @evaluateAbsolute_pure context loc _ _ fun kind => ihl h.1 hfit.2.1 kind
      have hr := @evaluateAbsolute_pure context loc _ _ fun kind => ihr h.2 hfit.2.2 kind
      rw [evaluateExpressionValue, evaluateConst, hl, hr]
      cases hleft : evaluateConst l with
      | error failure => rfl
      | ok left =>
          cases hright : evaluateConst r with
          | error failure => rfl
          | ok right =>
              have hcompare := operator.apply_add (hfit.1 l List.mem_cons_self left hleft)
                (hfit.1 r (List.mem_cons_of_mem _ List.mem_cons_self) right hright)
              show Except.ok (ofBool (operator.apply _ _), kind) = Except.ok (_, kind)
              rw [hcompare]
  | logicalAnd l r ihl ihr =>
      rw [Expression.isConstant, Bool.and_eq_true] at h
      rw [evaluateExpressionValue, run_bind_pure _ (ihl h.1 hfit.1 kind), evaluateConst, bind_assoc]
      congr 1
      funext left
      by_cases hzero : left = 0
      · rw [if_pos hzero, if_pos hzero]
        rfl
      · rw [if_neg hzero, if_neg hzero, run_bind_pure _ (ihr h.2 hfit.2 kind), bind_assoc]
        rfl
  | logicalOr l r ihl ihr =>
      rw [Expression.isConstant, Bool.and_eq_true] at h
      rw [evaluateExpressionValue, run_bind_pure _ (ihl h.1 hfit.1 kind), evaluateConst, bind_assoc]
      congr 1
      funext left
      by_cases hzero : left = 0
      · rw [if_pos hzero, if_pos hzero, run_bind_pure _ (ihr h.2 hfit.2 kind), bind_assoc]
        rfl
      · rw [if_neg hzero, if_neg hzero]
        rfl
  | unary operator e ih =>
      rw [evaluateExpressionValue, run_bind_pure _ (ih h hfit kind), evaluateConst, bind_assoc]
      rfl
  | ternary condition ifTrue ifFalse ihc iht ihf =>
      rw [Expression.isConstant, Bool.and_eq_true, Bool.and_eq_true] at h
      rw [evaluateExpressionValue, run_bind_pure _ (ihc h.1.1 hfit.1 kind), evaluateConst, bind_assoc]
      congr 1
      funext value
      by_cases hzero : value ≠ 0
      · rw [if_pos hzero, if_pos hzero]
        exact iht h.1.2 hfit.2.1 kind
      · rw [if_neg hzero, if_neg hzero]
        exact ihf h.2 hfit.2.2 kind
  | _ => exact absurd h Bool.false_ne_true

/-- The full evaluation adds the start of the current section, and nothing else. -/
theorem evaluateExpression_constant {e : Expression} (h : e.isConstant = true)
    (hfit : ComparisonsFit (sectionBase context loc) e) :
    evaluateExpression context loc callback e =
      evaluateConst e >>= fun v => .ok (v + sectionBase context loc) :=
  evaluateAbsolute_pure fun kind => evaluateExpressionValue_constant h hfit kind

end Agreement

/-! ### Panics -/

/-- A step that ends with a value or with an error that is reported. -/
def Evaluation.Safe {α : Type} (step : Evaluation α) : Prop :=
  ∀ kind, step.run kind ≠ .error .panic

namespace Evaluation.Safe

variable {α β : Type}

theorem bind_ne_panic {x : Fallible α} {f : α → Fallible β} (hx : x ≠ .error .panic)
    (hf : ∀ a, f a ≠ .error .panic) : (x >>= f) ≠ .error .panic := by
  cases x with
  | error failure =>
      intro h
      cases h
      exact hx rfl
  | ok a => exact hf a

theorem pure (a : α) : Safe (Pure.pure a) := by
  intro kind h
  cases h

theorem fail (message : String) : Safe (Evaluation.fail message : Evaluation α) := by
  intro kind h
  cases h

theorem context (value : Option α) (message : String) : Safe (Evaluation.context value message) := by
  cases value with
  | none => exact fail message
  | some a => exact pure a

theorem markAbsolute : Safe Evaluation.markAbsolute := by
  intro kind h
  cases h

theorem markSectionRelative : Safe Evaluation.markSectionRelative := by
  intro kind h
  cases h

theorem bind {step : Evaluation α} {f : α → Evaluation β} (hstep : step.Safe)
    (hf : ∀ a, (f a).Safe) : (step >>= f).Safe := by
  intro kind
  rw [StateT.run_bind]
  exact bind_ne_panic (hstep kind) fun result => hf result.1 result.2

theorem lift {x : Fallible α} (h : x ≠ .error .panic) : Safe (liftM x : Evaluation α) := by
  intro kind
  show (x >>= fun a => Except.ok (a, kind)) ≠ _
  apply bind_ne_panic h
  intro a heq
  cases heq

theorem ite {p : Prop} [Decidable p] {step step' : Evaluation α} (h : step.Safe)
    (h' : step'.Safe) : Safe (if p then step else step') := by
  split
  · exact h
  · exact h'

end Evaluation.Safe

section Panics

variable {context : Context} {loc : SymbolLoc} {callback : Name → Fallible SymbolValue}

theorem evaluateSymbolValue_safe (value : SymbolValue) (name : Name) :
    (evaluateSymbolValue context loc value name).Safe := by
  cases value with
  | absolute value => exact .bind .markAbsolute fun _ => .pure value
  | sectionRelative sectionId address =>
      apply Evaluation.Safe.ite
      · exact .bind .markSectionRelative fun _ => .context _ _
      · cases currentSection context loc with
        | none => exact .bind .markAbsolute fun _ => .pure _
        | some current => exact .bind .markAbsolute fun _ => .pure _
  | partRelative partId offset =>
      apply Evaluation.Safe.bind (.context _ _)
      intro partAddress
      apply Evaluation.Safe.ite
      · exact .bind .markSectionRelative fun _ => .context _ _
      · exact .bind .markAbsolute fun _ => .pure _

theorem evaluateLocation_safe : (evaluateLocation context loc).Safe := by
  cases loc with
  | locationCounter index sectionId =>
      apply Evaluation.Safe.bind (.context _ _)
      intro entry
      exact .ite (.pure _) (.pure _)
  | _ => exact .pure _

theorem evaluateAbsolute_ne_panic {value : Evaluation UInt64} (h : value.Safe) :
    evaluateAbsolute context loc value ≠ .error .panic := by
  apply Evaluation.Safe.bind_ne_panic (h .initial)
  intro result heq
  cases heq

theorem evaluateExpressionValue_safe (hcallback : ∀ name, callback name ≠ .error .panic)
    (e : Expression) : (evaluateExpressionValue context loc callback e).Safe := by
  induction e with
  | number n => exact .pure n
  | locationCounter =>
      rw [evaluateExpressionValue]
      split
      · exact .bind .markSectionRelative fun _ => evaluateLocation_safe
      · exact .bind .markAbsolute fun _ => evaluateLocation_safe
  | symbol name =>
      apply Evaluation.Safe.bind (.lift (hcallback name))
      exact fun value => evaluateSymbolValue_safe value name
  | binary operator l r ihl ihr => exact .bind ihl fun _ => .bind ihr fun _ => .pure _
  | division operator l r ihl ihr =>
      apply Evaluation.Safe.bind ihr
      intro divisor
      exact .ite (.fail _) (.bind ihl fun _ => .pure _)
  | comparison operator l r ihl ihr =>
      apply Evaluation.Safe.bind (.lift (evaluateAbsolute_ne_panic ihl))
      intro left
      exact .bind (.lift (evaluateAbsolute_ne_panic ihr)) fun _ => .pure _
  | sizeof name | alignof name | sizeofHeaders | defined name => exact .pure _
  | addr name | loadaddr name =>
      exact .bind .markAbsolute fun _ => .bind (.context _ _) fun _ => .pure _
  | alignLocation exponent ih =>
      apply Evaluation.Safe.bind ih
      intro align
      exact .ite (.fail _) (.bind evaluateLocation_safe fun _ => .pure _)
  | align exponent e ih ih' =>
      apply Evaluation.Safe.bind ih
      intro align
      exact .ite (.fail _) (.bind ih' fun _ => .pure _)
  | segmentStart name default ih =>
      apply Evaluation.Safe.bind .markAbsolute
      intro _
      cases context.args.segmentStartOverride name with
      | some value => exact .pure value
      | none => exact ih
  | logicalAnd l r ihl ihr =>
      apply Evaluation.Safe.bind ihl
      intro left
      exact .ite (.pure _) (.bind ihr fun _ => .pure _)
  | logicalOr l r ihl ihr =>
      apply Evaluation.Safe.bind ihl
      intro left
      exact .ite (.bind ihr fun _ => .pure _) (.pure _)
  | unary operator e ih => exact .bind ih fun _ => .pure _
  | origin name =>
      exact .bind .markAbsolute fun _ => .bind (.context _ _) fun _ => .pure _
  | length name => exact .bind (.context _ _) fun _ => .pure _
  | ternary condition ifTrue ifFalse ihc iht ihf =>
      exact .bind ihc fun _ => .ite iht ihf
  | assert e message remainder ih => exact .bind ih fun _ => .ite (.fail _) (.pure _)

theorem evaluateConst_ne_panic (e : Expression) : evaluateConst e ≠ .error .panic := by
  have hok : ∀ v : UInt64, (Except.ok v : Fallible UInt64) ≠ .error .panic := fun v heq => by cases heq
  induction e with
  | number n => exact hok n
  | binary operator l r ihl ihr | comparison operator l r ihl ihr =>
      apply Evaluation.Safe.bind_ne_panic ihl
      intro left
      exact Evaluation.Safe.bind_ne_panic ihr fun right => hok _
  | division operator l r ihl ihr =>
      apply Evaluation.Safe.bind_ne_panic ihr
      intro divisor
      split
      · intro heq
        cases heq
      · exact Evaluation.Safe.bind_ne_panic ihl fun dividend => hok _
  | logicalAnd l r ihl ihr =>
      apply Evaluation.Safe.bind_ne_panic ihl
      intro left
      split
      · exact hok 0
      · exact Evaluation.Safe.bind_ne_panic ihr fun right => hok _
  | logicalOr l r ihl ihr =>
      apply Evaluation.Safe.bind_ne_panic ihl
      intro left
      split
      · exact Evaluation.Safe.bind_ne_panic ihr fun right => hok _
      · exact hok 1
  | unary operator e ih => exact Evaluation.Safe.bind_ne_panic ih fun value => hok _
  | ternary condition ifTrue ifFalse ihc iht ihf =>
      apply Evaluation.Safe.bind_ne_panic ihc
      intro value
      split
      · exact iht
      · exact ihf
  | _ =>
      intro heq
      cases heq

end Panics

/-- A constant expression has one value wherever it is evaluated, relative to the current section if
there is one. No expression makes an evaluation panic. -/
theorem evaluateConst_agrees (context : Context) (loc : SymbolLoc)
    (callback : Name → Fallible SymbolValue) (e : Expression) :
    (e.isConstant = true → currentSection context loc = none →
        evaluateExpression context loc callback e = evaluateConst e) ∧
      (∀ current, e.isConstant = true → currentSection context loc = some current →
        ComparisonsFit (memOffset context current) e →
        evaluateExpression context loc callback e =
          evaluateConst e >>= fun v => .ok (v + memOffset context current)) ∧
      evaluateConst e ≠ .error .panic ∧
      ((∀ name, callback name ≠ .error .panic) →
        evaluateExpression context loc callback e ≠ .error .panic) := by
  refine ⟨fun hconstant hnone => ?_, fun current hconstant hsome hfit => ?_,
    evaluateConst_ne_panic e, fun hcallback => ?_⟩
  · have hbase : sectionBase context loc = 0 := by rw [sectionBase, hnone]
    rw [evaluateExpression_constant hconstant (hbase ▸ comparisonsFit_zero e), hbase]
    simp only [add_zero]
    cases evaluateConst e <;> rfl
  · have hbase : sectionBase context loc = memOffset context current := by rw [sectionBase, hsome]
    rw [evaluateExpression_constant hconstant (hbase ▸ hfit), hbase]
  · exact evaluateAbsolute_ne_panic (evaluateExpressionValue_safe hcallback e)

/-- One section, at `0x1000`. -/
def oneSection : Context where
  inputRef := none
  sectionLayouts _ := ⟨16, ⟨0⟩, 0x1000, 0x1000⟩
  outputSections := ⟨fun _ => .primary, fun _ => none, fun _ => 0⟩
  memoryRegions _ := none
  args := ⟨none, none, none⟩
  getUnversioned _ := none
  sizeofHeaders := 0
  resolvedLocationCounters := []
  laidOutMemOffsets _ := none

/-- `3 < 4` inside the section. -/
theorem evaluateConst_agrees_inside :
    evaluateExpression oneSection (.sectionStartRelative 0) (fun _ => .ok (.absolute 0))
        (.comparison .lessThan (.number 3) (.number 4)) =
      evaluateConst (.comparison .lessThan (.number 3) (.number 4)) >>= fun v => .ok (v + 0x1000) :=
  (evaluateConst_agrees oneSection (.sectionStartRelative 0) (fun _ => .ok (.absolute 0)) _).2.1 0
    rfl rfl ⟨fun e he value hvalue => by
      obtain rfl | he := List.mem_cons.mp he
      · cases hvalue
        decide
      · obtain rfl := List.mem_singleton.mp he
        cases hvalue
        decide, trivial, trivial⟩

/-- A number in a section is an offset from its start. -/
theorem evaluateExpression_ne_evaluateConst :
    evaluateConst (.number 5) = .ok 5 ∧
      evaluateExpression oneSection (.sectionStartRelative 0) (fun _ => .ok (.absolute 0))
        (.number 5) = .ok 0x1005 := by
  exact ⟨rfl, rfl⟩

end JdxLinker.Script
