import JdxLinker.Script.Redirects

/-!
# Orders in which definitions go wrong

A reference graph that is not in order has definitions that the pass does not resolve: one definition
adds one to the symbol that it mentions too early, and all others define constants.
-/

namespace JdxLinker.Script

/-! ### Definitions with a given reference graph -/

/-- The value of a symbol, and one more. -/
def successor (name : Name) : Expression := .binary .add (.symbol name) (.number 1)

/-- A definition that evaluates `x`, and mentions what it mentioned before. -/
def withValue (x : Expression) (defInfo : InternalSymDefInfo) : InternalSymDefInfo where
  placement :=
    match defInfo.placement with
    | .redirect redirect =>
      .redirect {
        kind := redirect.kind
        expression := .ternary (.number 1) x redirect.expression
        loc := .none }
    | .other => .other
  name := defInfo.name

theorem withValue_redirect {x : Expression} {defInfo : InternalSymDefInfo} {redirect : Redirect}
    (h : (withValue x defInfo).placement = .redirect redirect) :
    ∃ redirect', defInfo.placement = .redirect redirect' ∧ redirect = {
      kind := redirect'.kind
      expression := .ternary (.number 1) x redirect'.expression
      loc := .none } := by
  unfold withValue at h
  cases hplacement : defInfo.placement with
  | other =>
      rw [hplacement] at h
      cases h
  | redirect redirect' =>
      rw [hplacement] at h
      exact ⟨redirect', rfl, (SymbolPlacement.redirect.inj h).symm⟩

/-- The definitions, with the one at `i` evaluating `x` and all others the number one. -/
def variantDefinitions (db : SymbolDb) (i : Nat) (x : Expression) : List InternalSymDefInfo :=
  (definitions db).mapIdx fun k => withValue (if k = i then x else .number 1)

theorem entered_definitions (db : SymbolDb) {defInfo : InternalSymDefInfo} {redirect : Redirect}
    (hmem : defInfo ∈ definitions db) (hplacement : defInfo.placement = .redirect redirect)
    (hname : defInfo.name ≠ []) : (db.getUnversioned defInfo.name).isSome := by
  obtain ⟨group, hgroup, hmem⟩ := List.mem_flatMap.mp hmem
  exact db.entered group hgroup defInfo hmem redirect hplacement hname

/-- The same symbols, with the variant of the definitions. -/
def variant (db : SymbolDb) (i : Nat) (x : Expression) : SymbolDb where
  groups := [.prelude (variantDefinitions db i x)]
  getUnversioned := db.getUnversioned
  definition := db.definition
  outputSectionId _ := none
  args := db.args
  entered := by
    intro group hgroup defInfo hmem redirect hplacement hname
    obtain rfl := List.mem_singleton.mp hgroup
    obtain ⟨k, hk, rfl⟩ := List.mem_mapIdx.mp hmem
    obtain ⟨redirect', hredirect, -⟩ := withValue_redirect hplacement
    have hentered := entered_definitions db (List.getElem_mem hk) hredirect
    exact hentered hname

/-- A layout without sections or memory regions. -/
def emptyLayout : FinalLayout where
  outputSections :=
    { kind := fun _ => .primary, sectionIdByName := fun _ => none, partSection := fun _ => 0 }
  sectionLayouts _ := ⟨0, ⟨0⟩, 0, 0⟩
  mergedSectionLayouts _ := ⟨0, ⟨0⟩, 0, 0⟩
  sizeofHeaders := 0
  memoryRegions _ := none
  resolvedLocationCounters := []

section Variant

variable {db : SymbolDb} {i : Nat} {x : Expression}

/-- An expression that mentions no other symbols than the definition at `i`. -/
def MentionsWithin (db : SymbolDb) (i : Nat) (x : Expression) : Prop :=
  ∀ (defInfo : InternalSymDefInfo) (redirect : Redirect), (definitions db)[i]? = some defInfo →
    defInfo.placement = .redirect redirect →
      ∀ name ∈ x.symbols, name ∈ redirect.expression.symbols

theorem reference_withValue {x : Expression} {defInfo : InternalSymDefInfo}
    (hx : ∀ redirect, defInfo.placement = .redirect redirect →
      ∀ name ∈ x.symbols, name ∈ redirect.expression.symbols) :
    reference db (withValue x defInfo) = reference db defInfo := by
  cases hplacement : defInfo.placement with
  | other =>
      unfold reference withValue
      rw [hplacement]
  | redirect redirect =>
      rw [reference_redirect hplacement]
      unfold reference withValue
      rw [hplacement]
      refine congrArg (Reference.mk _) (Set.ext fun id => ?_)
      constructor
      · rintro ⟨name, hname, htarget⟩
        rcases List.mem_append.mp hname with hname | hname
        · exact ⟨name, hx redirect hplacement name hname, htarget⟩
        · exact ⟨name, hname, htarget⟩
      · rintro ⟨name, hname, htarget⟩
        exact ⟨name, List.mem_append_right _ hname, htarget⟩

theorem definitions_variant : definitions (variant db i x) = variantDefinitions db i x :=
  List.append_nil _

/-- The variant has the same reference graph. -/
theorem referenceGraph_variant (hx : MentionsWithin db i x) :
    referenceGraph (variant db i x) = referenceGraph db := by
  unfold referenceGraph
  rw [definitions_variant]
  refine List.ext_getElem? fun k => ?_
  rw [List.getElem?_map, List.getElem?_map, variantDefinitions, List.getElem?_mapIdx,
    Option.map_map]
  cases hk : (definitions db)[k]? with
  | none => rfl
  | some defInfo =>
      have hmentioned : ∀ redirect, defInfo.placement = .redirect redirect →
          ∀ name ∈ (if k = i then x else .number 1).symbols, name ∈ redirect.expression.symbols := by
        intro redirect hplacement name hname
        by_cases heq : k = i
        · rw [if_pos heq] at hname
          exact hx defInfo redirect (heq ▸ hk) hplacement name hname
        · rw [if_neg heq] at hname
          cases hname
      exact congrArg some (reference_withValue hmentioned)

end Variant

/-! ### The pass over a variant -/

section Run

variable {db : SymbolDb} {context : Context} {redirect : Redirect} {resolutions : Resolutions}
  {name : Name} {defInfo : InternalSymDefInfo} {i : Nat} {x : Expression}

theorem redirectValue_withValue (hplacement : (withValue x defInfo).placement = .redirect redirect) :
    redirectValue db context redirect resolutions
      = evaluateExpression context .none (resolveTarget db redirect resolutions) x := by
  obtain ⟨redirect', -, rfl⟩ := withValue_redirect hplacement
  rfl

theorem evaluateExpression_number (callback : Name → Fallible SymbolValue) (n : UInt64) :
    evaluateExpression context .none callback (.number n) = .ok n := rfl

/-- Outside all sections, the successor of a symbol without a section is its value and one. -/
theorem evaluateExpression_successor {id : SymbolId} {value : UInt64}
    (hsection : db.outputSectionId id = none) (htarget : canonicalTarget db name = some id)
    (hvalue : resolutions id = some value) :
    evaluateExpression context .none (resolveTarget db redirect resolutions) (successor name)
      = .ok (value + 1) := by
  have hresolve : resolveTarget db redirect resolutions name = .ok (.absolute value) := by
    unfold resolveTarget
    rw [htarget]
    show (Fallible.context (resolutions id) _ >>= _) = _
    simp only [hvalue, hsection, Fallible.context, Fallible.bind_ok]
    rfl
  unfold evaluateExpression successor
  simp only [evaluateExpressionValue, hresolve]
  rfl

/-- A definition whose expression has a value is processed, where all symbols have values. -/
theorem updateEntry_eq_ok (db : SymbolDb) (entry : Entry)
    (hall : ∀ id, (resolutions id).isSome)
    (hentered : ∀ redirect, entry.2.placement = .redirect redirect → entry.2.name ≠ [] →
      (db.getUnversioned entry.2.name).isSome)
    (hvalue : ∀ redirect, entry.2.placement = .redirect redirect →
      ∃ value, redirectValue db (entry.1 redirect) redirect resolutions = .ok value) :
    ∃ resolutions', updateEntry db resolutions entry = .ok resolutions' ∧
      ∀ id, (resolutions' id).isSome := by
  unfold updateEntry updateDefsymSymbolResolution
  cases hplacement : entry.2.placement with
  | other => exact ⟨resolutions, rfl, hall⟩
  | redirect redirect =>
      obtain ⟨value, hvalue⟩ := hvalue redirect hplacement
      dsimp only
      rw [hvalue, Fallible.bind_ok]
      by_cases hname : entry.2.name = []
      · rw [if_pos hname]
        exact ⟨resolutions, rfl, hall⟩
      · obtain ⟨target, htarget⟩ := Option.isSome_iff_exists.mp (hentered redirect hplacement hname)
        have hcanonical : canonicalTarget db entry.2.name = some (db.definition target) := by
          unfold canonicalTarget
          rw [htarget]
          rfl
        obtain ⟨old, hold⟩ := Option.isSome_iff_exists.mp (hall (db.definition target))
        rw [if_neg hname, hcanonical]
        refine ⟨Function.update resolutions (db.definition target) (some value), ?_, fun id => ?_⟩
        · show (Fallible.context (resolutions (db.definition target)) _ >>= _) = _
          rw [hold]
          rfl
        · by_cases heq : id = db.definition target
          · rw [heq, Function.update_self]
            rfl
          · rw [Function.update_of_ne heq]
            exact hall id

theorem entries_variant : entries (variant db i x) emptyLayout
    = (variantDefinitions db i x).map fun defInfo =>
      (fun _ => preludeContext (variant db i x) emptyLayout, defInfo) :=
  List.append_nil _

theorem entries_variant_getElem? {k : Nat} {entry : Entry}
    (h : (entries (variant db i x) emptyLayout)[k]? = some entry) :
    ∃ defInfo, (definitions db)[k]? = some defInfo ∧
      entry.2 = withValue (if k = i then x else .number 1) defInfo := by
  rw [entries_variant, List.getElem?_map, variantDefinitions, List.getElem?_mapIdx] at h
  cases hget : (definitions db)[k]? with
  | none =>
      rw [hget] at h
      cases h
  | some defInfo =>
      rw [hget] at h
      exact ⟨defInfo, rfl, (congrArg Prod.snd (Option.some.inj h)).symm⟩

/-- The reference of the definition at a position. -/
theorem referenceGraph_getElem? (hx : MentionsWithin db i x) {k : Nat} {entry : Entry}
    (h : (entries (variant db i x) emptyLayout)[k]? = some entry) :
    (referenceGraph db)[k]? = some (reference (variant db i x) entry.2) := by
  rw [← referenceGraph_variant hx, referenceGraph, ← entries_map _ emptyLayout, List.map_map,
    List.getElem?_map, h]
  rfl

theorem variantDefinitions_getElem? (k : Nat) :
    (variantDefinitions db i x)[k]?
      = (definitions db)[k]?.map (withValue (if k = i then x else .number 1)) :=
  List.getElem?_mapIdx

theorem getElem?_of_split {α : Type} {as visited rest : List α} {a : α}
    (h : as = visited ++ a :: rest) : as[visited.length]? = some a := by
  rw [h, List.getElem?_append_right le_rfl, Nat.sub_self]
  rfl

/-- An expression that has a value wherever all symbols have one. -/
def HasValue (db : SymbolDb) (i : Nat) (x : Expression) : Prop :=
  ∀ (context : Context) (redirect : Redirect) (resolutions : Resolutions),
    (∀ id, (resolutions id).isSome) → ∃ value,
      evaluateExpression context .none (resolveTarget (variant db i x) redirect resolutions) x
        = .ok value

/-- The pass over a variant succeeds, and what its steps keep holds at its end. -/
theorem variant_run (hx : HasValue db i x) (Holds : List Entry → Resolutions → Prop)
    (hstart : Holds [] fun _ => some 0)
    (hstep : ∀ visited entry rest resolutions resolutions',
      entries (variant db i x) emptyLayout = visited ++ entry :: rest → Holds visited resolutions →
        updateEntry (variant db i x) resolutions entry = .ok resolutions' →
          Holds (visited ++ [entry]) resolutions') :
    ∃ final, updateRedirectResolutions (variant db i x) emptyLayout (fun _ => some 0) = .ok final ∧
      Holds (entries (variant db i x) emptyLayout) final := by
  rw [updateRedirectResolutions_eq]
  suffices hrun : ∃ final,
      (entries (variant db i x) emptyLayout).foldlM (updateEntry (variant db i x))
          (fun _ => some 0) = .ok final ∧
        (∀ id, (final id).isSome) ∧ Holds (entries (variant db i x) emptyLayout) final by
    obtain ⟨final, hok, -, hfinal⟩ := hrun
    exact ⟨final, hok, hfinal⟩
  refine Fallible.foldlM_eq_ok (fun visited (resolutions : Resolutions) =>
    (∀ id, (resolutions id).isSome) ∧ Holds visited resolutions) ⟨fun _ => rfl, hstart⟩ ?_
  · rintro visited entry rest resolutions hsplit ⟨hall, hvisited⟩
    obtain ⟨defInfo, hdefInfo, hwith⟩ := entries_variant_getElem? (getElem?_of_split hsplit)
    obtain ⟨resolutions', hok, hall'⟩ := updateEntry_eq_ok (variant db i x) entry hall
      (fun redirect hplacement => by
        rw [hwith] at hplacement ⊢
        obtain ⟨redirect', hredirect, -⟩ := withValue_redirect hplacement
        have hentered := entered_definitions db (List.mem_of_getElem? hdefInfo) hredirect
        exact hentered)
      (fun redirect hplacement => by
        rw [hwith] at hplacement
        rw [redirectValue_withValue hplacement]
        by_cases heq : visited.length = i
        · rw [if_pos heq]
          exact hx _ redirect resolutions hall
        · rw [if_neg heq]
          exact ⟨1, evaluateExpression_number _ 1⟩)
    exact ⟨resolutions', hok, hall', hstep visited _ rest resolutions resolutions' hsplit hvisited
      hok⟩

/-- What it says that the variant of a definition is resolved. -/
theorem resolved_variant {final : Resolutions}
    (h : ∀ entry ∈ entries (variant db i x) emptyLayout, Resolved (variant db i x) entry final)
    {k : Nat} {ref : Reference} (hget : (referenceGraph db)[k]? = some ref) {target : SymbolId}
    (hdefines : ref.defines = some target) :
    ∃ value, final target = some value ∧ ∃ redirect,
      evaluateExpression (preludeContext (variant db i x) emptyLayout) .none
        (resolveTarget (variant db i x) redirect final) (if k = i then x else .number 1)
          = .ok value := by
  rw [referenceGraph, List.getElem?_map, Option.map_eq_some_iff] at hget
  obtain ⟨defInfo, hdefInfo, rfl⟩ := hget
  have hmem : withValue (if k = i then x else .number 1) defInfo ∈ variantDefinitions db i x := by
    refine List.mem_of_getElem? ((variantDefinitions_getElem? k).trans ?_)
    rw [hdefInfo]
    rfl
  have hentry := h (fun _ => preludeContext (variant db i x) emptyLayout, _)
    (by rw [entries_variant]; exact List.mem_map_of_mem hmem)
  cases hplacement : defInfo.placement with
  | other =>
      rw [reference, hplacement] at hdefines
      cases hdefines
  | redirect redirect =>
      rw [reference_redirect hplacement] at hdefines
      by_cases hname : defInfo.name = []
      · rw [if_pos hname] at hdefines
        cases hdefines
      · rw [if_neg hname] at hdefines
        have hplacement' : (withValue (if k = i then x else .number 1) defInfo).placement
            = .redirect ⟨redirect.kind, .ternary (.number 1) (if k = i then x else .number 1)
              redirect.expression, .none⟩ := by
          unfold withValue
          rw [hplacement]
        obtain ⟨id, value, htarget, hfinal, hvalue⟩ := hentry _ hplacement' hname
        obtain rfl : target = id := Option.some.inj (hdefines.symm.trans htarget)
        rw [redirectValue_withValue hplacement'] at hvalue
        exact ⟨value, hfinal, _, hvalue⟩

end Run

/-! ### The exact condition -/

section Order

variable {db : SymbolDb}

/-- Whatever its definitions are, the pass resolves all symbols of the reference graph. -/
def AlwaysResolved (graph : List Reference) : Prop :=
  ∀ (db : SymbolDb) (layout : FinalLayout) (resolutions final : Resolutions),
    referenceGraph db = graph →
      updateRedirectResolutions db layout resolutions = .ok final →
        ∀ entry ∈ entries db layout, Resolved db entry final

theorem hasValue_number (i : Nat) (n : UInt64) : HasValue db i (.number n) :=
  fun _ _ _ _ => ⟨n, rfl⟩

theorem variant_successor {i : Nat} {x : Expression} {name : Name} {id : SymbolId}
    {context : Context} {redirect : Redirect} {resolutions : Resolutions} {value : UInt64}
    (htarget : canonicalTarget db name = some id) (hvalue : resolutions id = some value) :
    evaluateExpression context .none (resolveTarget (variant db i x) redirect resolutions)
      (successor name) = .ok (value + 1) :=
  evaluateExpression_successor rfl htarget hvalue

theorem hasValue_successor (i : Nat) {name : Name} {id : SymbolId}
    (htarget : canonicalTarget db name = some id) : HasValue db i (successor name) := by
  intro context redirect resolutions hall
  obtain ⟨value, hvalue⟩ := Option.isSome_iff_exists.mp (hall id)
  exact ⟨value + 1, variant_successor htarget hvalue⟩

/-- Two definitions of one symbol cannot both be resolved: one may define it as one, the other as
two. -/
theorem AlwaysResolved.distinct (h : AlwaysResolved (referenceGraph db)) {i j : Nat}
    {first later : Reference} (hfirst : (referenceGraph db)[i]? = some first)
    (hlater : (referenceGraph db)[j]? = some later) (hlt : i < j) {target : SymbolId}
    (hdefines : first.defines = some target) : later.defines ≠ some target := by
  intro hdefines'
  have hwithin : MentionsWithin db i (.number 2) := fun _ _ _ _ name hname => by cases hname
  obtain ⟨final, hok, -⟩ := variant_run (hasValue_number i 2) (fun _ _ => True) trivial
    fun _ _ _ _ _ _ _ _ => trivial
  have hresolved := h _ _ _ _ (referenceGraph_variant hwithin) hok
  obtain ⟨value, hvalue, redirect, heval⟩ := resolved_variant hresolved hfirst hdefines
  obtain ⟨value', hvalue', redirect', heval'⟩ := resolved_variant hresolved hlater hdefines'
  rw [if_pos rfl] at heval
  rw [if_neg hlt.ne'] at heval'
  obtain rfl : (2 : UInt64) = value := Except.ok.inj heval
  obtain rfl : (1 : UInt64) = value' := Except.ok.inj heval'
  exact absurd (hvalue.symm.trans hvalue') (by decide)

/-- Where a definition adds one to a symbol that is defined later, its value is one: the symbol is
still zero. -/
theorem AlwaysResolved.early (h : AlwaysResolved (referenceGraph db)) {i j : Nat}
    {first later : Reference} (hfirst : (referenceGraph db)[i]? = some first)
    (hlater : (referenceGraph db)[j]? = some later) (hlt : i < j) {target id : SymbolId}
    (hdefines : first.defines = some target) (hdefines' : later.defines = some id) {name : Name}
    (htarget : canonicalTarget db name = some id) (hwithin : MentionsWithin db i (successor name)) :
    ∃ final, updateRedirectResolutions (variant db i (successor name)) emptyLayout
        (fun _ => some 0) = .ok final ∧ final target = some 1 := by
  have hj : j < (referenceGraph db).length := (List.getElem?_eq_some_iff.mp hlater).1
  obtain ⟨final, hok, -, hfinal⟩ := variant_run (hasValue_successor i htarget)
    (fun visited resolutions => (visited.length ≤ j → resolutions id = some 0) ∧
      (i < visited.length → resolutions target = some 1))
    ⟨fun _ => rfl, fun hlt => absurd hlt (Nat.not_lt_zero i)⟩
    (by
      rintro visited entry rest resolutions resolutions' hsplit ⟨hzero, hone⟩ hstep
      have hentry := getElem?_of_split hsplit
      have hget := referenceGraph_getElem? hwithin hentry
      rw [List.length_append, List.length_singleton]
      constructor
      · intro hle
        rw [updateEntry_of_ne hstep fun hdefines => h.distinct hget hlater hle hdefines hdefines']
        exact hzero (by omega)
      · intro hlt'
        by_cases heq : visited.length = i
        · obtain ⟨defInfo, -, hwith⟩ := entries_variant_getElem? hentry
          rw [heq] at hget
          obtain rfl := Option.some.inj (hfirst.symm.trans hget)
          rw [if_pos heq] at hwith
          obtain ⟨-, hnone, -⟩ | ⟨redirect, target', value, hplacement, htarget', -, hvalue, rfl⟩ :=
            updateEntry_cases hstep
          · rw [hdefines] at hnone
            cases hnone
          · obtain rfl : target = target' := Option.some.inj (hdefines.symm.trans htarget')
            rw [hwith] at hplacement
            rw [redirectValue_withValue hplacement,
              variant_successor htarget (hzero (by omega))] at hvalue
            rw [Function.update_self, ← Except.ok.inj hvalue]
            rfl
        · have hafter : i < visited.length := by omega
          rw [updateEntry_of_ne hstep (h.distinct hfirst hget hafter hdefines)]
          exact hone hafter)
  refine ⟨final, hok, hfinal ?_⟩
  have hlength := congrArg List.length (referenceGraph_variant hwithin)
  rw [referenceGraph, ← entries_map _ emptyLayout, List.length_map, List.length_map] at hlength
  omega

/-- A definition whose symbol is mentioned with it or before it is not always resolved. -/
theorem AlwaysResolved.not_mem_mentions (h : AlwaysResolved (referenceGraph db)) {i j : Nat}
    {first later : Reference} (hfirst : (referenceGraph db)[i]? = some first)
    (hlater : (referenceGraph db)[j]? = some later) (hle : i ≤ j) {target id : SymbolId}
    (hdefines : first.defines = some target) (hdefines' : later.defines = some id) :
    id ∉ first.mentions := by
  intro hmentions
  have hget := hfirst
  rw [referenceGraph, List.getElem?_map, Option.map_eq_some_iff] at hget
  obtain ⟨defInfo, hdefInfo, rfl⟩ := hget
  cases hplacement : defInfo.placement with
  | other =>
      rw [reference, hplacement] at hdefines
      cases hdefines
  | redirect redirect =>
      have hmentioned : id ∈ mentioned db redirect := by
        rw [reference_redirect hplacement] at hmentions
        exact hmentions
      obtain ⟨name, hname, htarget⟩ := hmentioned
      have hwithin : MentionsWithin db i (successor name) := by
        intro defInfo' redirect' hget hplacement' name' hname'
        obtain rfl : defInfo = defInfo' := Option.some.inj (hdefInfo.symm.trans hget)
        obtain rfl : redirect = redirect' :=
          SymbolPlacement.redirect.inj (hplacement.symm.trans hplacement')
        obtain rfl := List.mem_singleton.mp hname'
        exact hname
      have hgraph := referenceGraph_variant hwithin
      rcases hle.eq_or_lt with rfl | hlt
      · obtain rfl : target = id := by
          rw [hfirst] at hlater
          obtain rfl := Option.some.inj hlater
          exact Option.some.inj (hdefines.symm.trans hdefines')
        obtain ⟨final, hok, -⟩ := variant_run (hasValue_successor i htarget) (fun _ _ => True)
          trivial fun _ _ _ _ _ _ _ _ => trivial
        obtain ⟨value, hvalue, redirect', heval⟩ :=
          resolved_variant (h _ _ _ _ hgraph hok) hfirst hdefines
        rw [if_pos rfl, variant_successor htarget hvalue] at heval
        exact absurd (Except.ok.inj heval) (by simp)
      · obtain ⟨final, hok, hone⟩ := h.early hfirst hlater hlt hdefines hdefines' htarget hwithin
        have hresolved := h _ _ _ _ hgraph hok
        obtain ⟨value, hvalue, redirect', heval⟩ := resolved_variant hresolved hfirst hdefines
        obtain ⟨value', hvalue', redirect'', heval'⟩ :=
          resolved_variant hresolved hlater hdefines'
        rw [if_neg hlt.ne'] at heval'
        obtain rfl : (1 : UInt64) = value' := Except.ok.inj heval'
        rw [if_pos rfl, variant_successor htarget hvalue'] at heval
        obtain rfl : (1 + 1 : UInt64) = value := Except.ok.inj heval
        exact absurd (hvalue.symm.trans hone) (by decide)

/-- Whatever the definitions are, the pass gives each symbol the value of its expression, evaluated
with the final values of all symbols, exactly where the definitions are in order. -/
theorem redirects_resolved_iff (db : SymbolDb) :
    AlwaysResolved (referenceGraph db) ↔ InOrder (referenceGraph db) := by
  constructor
  · intro h
    constructor
    · intro first hfirst id hdefines
      obtain ⟨i, hi⟩ := List.mem_iff_getElem?.mp hfirst
      exact h.not_mem_mentions hi hi le_rfl hdefines hdefines
    · refine List.pairwise_iff_getElem.mpr fun i j hi hj hlt target id hdefines hdefines' => ?_
      have hfirst := List.getElem?_eq_getElem hi
      have hlater := List.getElem?_eq_getElem hj
      refine ⟨fun heq => h.distinct hfirst hlater hlt hdefines (heq ▸ hdefines'), ?_⟩
      exact h.not_mem_mentions hfirst hlater hlt.le hdefines hdefines'
  · intro horder db' layout resolutions final hgraph hok
    exact updateRedirectResolutions_resolved (hgraph ▸ horder) hok

end Order

/-- `a = b`, and then `b = 5`. -/
def usedBeforeDefined : SymbolDb where
  groups := [.prelude [
    { placement := .redirect ⟨.defSym, .symbol [0x62], .none⟩, name := [0x61] },
    { placement := .redirect ⟨.defSym, .number 5, .none⟩, name := [0x62] }]]
  getUnversioned name := if name = [0x61] then some 1 else if name = [0x62] then some 2 else none
  definition id := id
  outputSectionId _ := none
  args := ⟨none, none, none⟩
  entered := by
    intro group hgroup defInfo hmem redirect _ _
    obtain rfl := List.mem_singleton.mp hgroup
    rcases List.mem_cons.mp hmem with rfl | hmem
    · rfl
    · obtain rfl := List.mem_singleton.mp hmem
      rfl

/-- `a` is given the value zero, while its expression has the value five at the end. -/
theorem redirects_resolved_counterexample :
    ∃ final,
      updateRedirectResolutions usedBeforeDefined emptyLayout (fun _ => some 0) = .ok final ∧
        final 1 = some 0 ∧ final 2 = some 5 ∧
        redirectValue usedBeforeDefined (preludeContext usedBeforeDefined emptyLayout)
          ⟨.defSym, .symbol [0x62], .none⟩ final = .ok 5 :=
  ⟨_, rfl, rfl, rfl, rfl⟩

end JdxLinker.Script
