import JdxLinker.Lib.Lists
import JdxLinker.Trie.Topology

/-!
# The linked lists of children

What the links of the nodes say is a function that gives every node the list of its children. The
two operations that change links change one list each, and leave everything else of the nodes as it
was.
-/

namespace JdxLinker.Trie

/-- What a node holds besides links. -/
structure NodeData where
  symbol : Option Nat
  representative : Nat
  depth : Nat

def UncompressedNode.data (node : UncompressedNode) : NodeData where
  symbol := node.symbol
  representative := node.representative
  depth := node.depth

/-- The links of the nodes are those of the given lists of children. -/
structure Linked (nodes : List UncompressedNode) (kids : Nat → List Nat) : Prop where
  inside : ∀ p c, c ∈ kids p → p < nodes.length ∧ c < nodes.length
  ends : ∀ p n, nodes[p]? = some n → n.firstChild = (kids p).head? ∧
    n.lastChild = (kids p).getLast? ∧ n.numChildren = (kids p).length
  siblings : ∀ p before c after n, kids p = before ++ c :: after → nodes[c]? = some n →
    n.previousSibling = before.getLast? ∧ n.nextSibling = after.head?
  parent : ∀ p q c, c ∈ kids p → c ∈ kids q → p = q
  nodup : ∀ p, (kids p).Nodup

/-- A node that nothing links to yet. -/
structure Unlinked (node : UncompressedNode) : Prop where
  firstChild : node.firstChild = none
  lastChild : node.lastChild = none
  previousSibling : node.previousSibling = none
  nextSibling : node.nextSibling = none
  numChildren : node.numChildren = 0

theorem updateNode_of_lt {nodes : List UncompressedNode} {index : Nat}
    (h : index < nodes.length) (change : UncompressedNode → UncompressedNode) :
    updateNode nodes index change = .ok (nodes.modify index change) := by
  unfold updateNode
  rw [Fallible.assert, if_pos h]
  rfl

theorem modify_map_data {nodes : List UncompressedNode} {index : Nat}
    {change : UncompressedNode → UncompressedNode} (h : ∀ node, (change node).data = node.data) :
    (nodes.modify index change).map UncompressedNode.data = nodes.map UncompressedNode.data := by
  ext1 i
  rw [List.getElem?_map, List.getElem?_modify, List.getElem?_map]
  cases nodes[i]? with
  | none => rfl
  | some node =>
      by_cases hi : index = i
      · simp [hi, h]
      · simp [hi]

namespace Linked

variable {nodes : List UncompressedNode} {kids : Nat → List Nat}

theorem kids_of_le (h : Linked nodes kids) {p : Nat} (hp : nodes.length ≤ p) : kids p = [] := by
  apply List.eq_nil_iff_forall_not_mem.mpr
  intro c hc
  have := (h.inside p c hc).1
  omega

theorem last_mem {p c : Nat} (hc : (kids p).getLast? = some c) : c ∈ kids p :=
  List.mem_of_getLast? hc

end Linked

/-! ### What the two operations change -/

/-- The nodes before and after `child` was linked in as the last child of `parent`, field by field.
The node `moved` has its previous sibling set to `previous`, and the children of the parent grow in
number by `grown`. -/
structure Relinked (nodes : List UncompressedNode) (moved : Nat) (previous sibling : Option Nat)
    (parent child grown : Nat) (result : List UncompressedNode) : Prop where
  length : result.length = nodes.length
  data : result.map UncompressedNode.data = nodes.map UncompressedNode.data
  fields : ∀ j new, result[j]? = some new → ∃ old, nodes[j]? = some old ∧
    new.firstChild = (if sibling = none ∧ j = parent then some child else old.firstChild) ∧
    new.lastChild = (if j = parent then some child else old.lastChild) ∧
    new.previousSibling = (if j = moved then previous else old.previousSibling) ∧
    new.nextSibling = (if sibling = some j then some child else old.nextSibling) ∧
    new.numChildren = (if j = parent then old.numChildren + grown else old.numChildren)

theorem linkAfter_of_lt {nodes : List UncompressedNode} {previousSibling : Option Nat}
    {parent : Nat} (hparent : parent < nodes.length)
    (hprevious : ∀ c, previousSibling = some c → c < nodes.length) (child : Nat) :
    linkAfter nodes previousSibling parent child = .ok (nodes.modify
      (previousSibling.getD parent) fun node =>
        if previousSibling = none then { node with firstChild := some child }
        else { node with nextSibling := some child }) := by
  cases previousSibling with
  | none => exact updateNode_of_lt hparent _
  | some c => exact updateNode_of_lt (hprevious c rfl) _

/-- The three writes of `appendChild` and `splitEdge`. -/
theorem relinked_of_writes {nodes : List UncompressedNode} (moved parent : Nat)
    {sibling : Option Nat} (hmoved : moved < nodes.length) (hparent : parent < nodes.length)
    (hsibling : ∀ c, sibling = some c → c < nodes.length) (previous : Option Nat)
    (child grown : Nat) :
    ∃ result, (do
      let nodes ← updateNode nodes moved fun node => { node with previousSibling := previous }
      let nodes ← linkAfter nodes sibling parent child
      updateNode nodes parent fun node =>
        { node with lastChild := some child, numChildren := node.numChildren + grown })
      = .ok result ∧ Relinked nodes moved previous sibling parent child grown result := by
  rw [updateNode_of_lt hmoved, Fallible.bind_ok,
    linkAfter_of_lt (by simpa using hparent) (by simpa using hsibling), Fallible.bind_ok,
    updateNode_of_lt (by simpa using hparent)]
  refine ⟨_, rfl, by simp, ?_, ?_⟩
  · rw [modify_map_data, modify_map_data, modify_map_data]
    · exact fun _ => rfl
    · intro node
      split <;> rfl
    · exact fun _ => rfl
  · intro j new hnew
    simp only [List.getElem?_modify, Option.map_eq_map, Option.map_map,
      Option.map_eq_some_iff] at hnew
    obtain ⟨old, hold, rfl⟩ := hnew
    refine ⟨old, hold, ?_⟩
    cases sibling with
    | none => by_cases hj : parent = j <;> by_cases hj' : moved = j <;> grind
    | some c =>
        by_cases hj : parent = j <;> by_cases hj' : moved = j <;> by_cases hj'' : c = j <;> grind

/-! ### Appending a child -/

theorem appendChild_eq_ok {nodes : List UncompressedNode} {parent child : Nat}
    {parentNode : UncompressedNode} (hparent : nodes[parent]? = some parentNode)
    (hchild : child < nodes.length) (hlast : ∀ c, parentNode.lastChild = some c → c < nodes.length) :
    ∃ result, appendChild nodes parent child = .ok result ∧
      Relinked nodes child parentNode.lastChild parentNode.lastChild parent child 1 result := by
  have hlt : parent < nodes.length := (List.getElem?_eq_some_iff.mp hparent).1
  unfold appendChild
  simp only [hparent, Fallible.unwrap, Fallible.bind_ok]
  exact relinked_of_writes child parent hchild hlt hlast parentNode.lastChild child 1

/-- The node at an index, with its data, in the nodes that follow a list. -/
theorem getElem?_append_leaf {nodes : List UncompressedNode} {leaf : UncompressedNode} {j : Nat}
    {node : UncompressedNode} (h : (nodes ++ [leaf])[j]? = some node) :
    (j < nodes.length ∧ nodes[j]? = some node) ∨ (j = nodes.length ∧ node = leaf) := by
  rw [List.getElem?_append] at h
  split at h
  · rename_i hj
    exact .inl ⟨hj, h⟩
  · rename_i hj
    have hzero : j - nodes.length = 0 := by
      by_contra hne
      rw [List.getElem?_eq_none (by simp; omega)] at h
      cases h
    rw [hzero] at h
    exact .inr ⟨by omega, (by simpa using h : leaf = node).symm⟩

section Append

variable {nodes result : List UncompressedNode} {kids : Nat → List Nat} {parent : Nat}
  {parentNode leaf : UncompressedNode}

/-- The children after a new node became the last child of a node. -/
def appendKid (kids : Nat → List Nat) (parent child : Nat) : Nat → List Nat :=
  Function.update kids parent (kids parent ++ [child])

theorem mem_appendKid {child p c : Nat} :
    c ∈ appendKid kids parent child p ↔ c ∈ kids p ∨ p = parent ∧ c = child := by
  unfold appendKid
  by_cases hp : p = parent
  · subst hp
    simp
  · simp [hp]

theorem Linked.appendKid_ends (h : Linked nodes kids) (hparent : nodes[parent]? = some parentNode)
    (hleaf : Unlinked leaf)
    (happ : Relinked (nodes ++ [leaf]) nodes.length parentNode.lastChild parentNode.lastChild parent
      nodes.length 1 result)
    {p : Nat} {n : UncompressedNode} (hn : result[p]? = some n) :
    n.firstChild = (appendKid kids parent nodes.length p).head? ∧
      n.lastChild = (appendKid kids parent nodes.length p).getLast? ∧
      n.numChildren = (appendKid kids parent nodes.length p).length := by
  obtain ⟨old, hold, hfirst, hlast, -, -, hnum⟩ := happ.fields p n hn
  have hlt := (List.getElem?_eq_some_iff.mp hparent).1
  have hends := h.ends parent parentNode hparent
  rw [hfirst, hlast, hnum]
  rcases getElem?_append_leaf hold with ⟨-, hold⟩ | ⟨rfl, rfl⟩
  · have hold' := h.ends p old hold
    by_cases hp : p = parent
    · subst hp
      obtain rfl : parentNode = old := by simpa [hparent] using hold
      unfold appendKid
      rw [Function.update_self]
      refine ⟨?_, by simp, by simp [hold'.2.2]⟩
      rw [hends.2.1, hold'.1]
      cases kids p <;> simp
    · unfold appendKid
      simpa [hp] using hold'
  · have hne : nodes.length ≠ parent := by omega
    unfold appendKid
    simp [hne, h.kids_of_le le_rfl, hleaf.firstChild, hleaf.lastChild, hleaf.numChildren]

theorem Linked.appendKid_siblings (h : Linked nodes kids)
    (hparent : nodes[parent]? = some parentNode) (hleaf : Unlinked leaf)
    (happ : Relinked (nodes ++ [leaf]) nodes.length parentNode.lastChild parentNode.lastChild parent
      nodes.length 1 result)
    {p c : Nat} {before after : List Nat} {n : UncompressedNode}
    (hkids : appendKid kids parent nodes.length p = before ++ c :: after)
    (hn : result[c]? = some n) :
    n.previousSibling = before.getLast? ∧ n.nextSibling = after.head? := by
  obtain ⟨old, hold, -, -, hprev, hnext, -⟩ := happ.fields c n hn
  have hlast := (h.ends parent parentNode hparent).2.1
  rw [hprev, hnext, hlast]
  by_cases hp : p = parent
  · subst hp
    unfold appendKid at hkids
    rw [Function.update_self] at hkids
    obtain rfl | ⟨after', d, rfl⟩ := after.eq_nil_or_concat
    · -- the new child itself
      obtain ⟨rfl, hc⟩ := List.append_inj' hkids rfl
      obtain rfl : nodes.length = c := by simpa using hc
      rcases getElem?_append_leaf hold with ⟨hlt, -⟩ | ⟨-, rfl⟩
      · omega
      · have hno : (kids p).getLast? ≠ some nodes.length := by
          intro hc
          have := (h.inside p _ (Linked.last_mem hc)).2
          omega
        simp [hno, hleaf.nextSibling]
    · rw [List.concat_eq_append, ← List.cons_append, ← List.append_assoc] at hkids
      obtain ⟨hrest, hd⟩ := List.append_inj' hkids rfl
      obtain rfl : nodes.length = d := by simpa using hd
      have hc := (h.inside p c (by simp [hrest])).2
      rcases getElem?_append_leaf hold with ⟨-, hold⟩ | ⟨rfl, -⟩
      · have hsib := h.siblings p before c after' old hrest hold
        have hnodup := h.nodup p
        rw [hrest] at hnodup ⊢
        rw [if_neg (by omega), hsib.1, hsib.2, List.concat_eq_append]
        refine ⟨rfl, ?_⟩
        cases after' with
        | nil => simp
        | cons e after' =>
            rw [if_neg (Lists.getLast?_ne_of_nodup hnodup)]
            rfl
      · omega
  · have hkids : kids p = before ++ c :: after := by simpa [appendKid, hp] using hkids
    have hmem : c ∈ kids p := by simp [hkids]
    have hc := (h.inside p c hmem).2
    have hno : (kids parent).getLast? ≠ some c := by
      intro hc
      exact hp (h.parent p parent c hmem (Linked.last_mem hc))
    rcases getElem?_append_leaf hold with ⟨-, hold⟩ | ⟨rfl, -⟩
    · rw [if_neg (by omega), if_neg hno]
      exact h.siblings p before c after old hkids hold
    · omega

theorem Linked.appendKid (h : Linked nodes kids) (hparent : nodes[parent]? = some parentNode)
    (hleaf : Unlinked leaf)
    (happ : Relinked (nodes ++ [leaf]) nodes.length parentNode.lastChild parentNode.lastChild parent
      nodes.length 1 result) :
    Linked result (appendKid kids parent nodes.length) where
  inside p c hc := by
    have hlt := (List.getElem?_eq_some_iff.mp hparent).1
    rw [happ.length, List.length_append, List.length_singleton]
    rcases mem_appendKid.mp hc with hc | ⟨rfl, rfl⟩
    · have := h.inside p c hc
      omega
    · omega
  ends _ _ hn := h.appendKid_ends hparent hleaf happ hn
  siblings _ _ _ _ _ hkids hn := h.appendKid_siblings hparent hleaf happ hkids hn
  parent p q c hp hq := by
    rcases mem_appendKid.mp hp with hp | ⟨hp, hc⟩ <;>
      rcases mem_appendKid.mp hq with hq | ⟨hq, hc'⟩
    · exact h.parent p q c hp hq
    · have := (h.inside p c hp).2
      omega
    · have := (h.inside q c hq).2
      omega
    · rw [hp, hq]
  nodup p := by
    by_cases hp : p = parent
    · subst hp
      unfold Trie.appendKid
      rw [Function.update_self]
      refine List.nodup_append.mpr ⟨h.nodup p, List.nodup_singleton _, ?_⟩
      intro a ha b hb
      have := (h.inside p a ha).2
      have : b = nodes.length := by simpa using hb
      omega
    · simpa [Trie.appendKid, hp] using h.nodup p

end Append

/-! ### Splitting an edge -/

section Split

variable {nodes result : List UncompressedNode} {kids : Nat → List Nat} {parent child : Nat}
  {init : List Nat} {parentNode branch : UncompressedNode}

/-- The children after a new node was put between a node and its last child. -/
def splitKid (kids : Nat → List Nat) (parent child branch : Nat) : Nat → List Nat :=
  Function.update (Function.update kids parent ((kids parent).dropLast ++ [branch])) branch [child]

/-- A node that is linked between a node and its last child. -/
structure Between (branch : UncompressedNode) (child : Nat) (sibling : Option Nat) : Prop where
  firstChild : branch.firstChild = some child
  lastChild : branch.lastChild = some child
  previousSibling : branch.previousSibling = sibling
  nextSibling : branch.nextSibling = none
  numChildren : branch.numChildren = 1

theorem splitKid_branch (kids : Nat → List Nat) (parent child branch : Nat) :
    splitKid kids parent child branch branch = [child] := Function.update_self ..

theorem splitKid_parent {branch : Nat} (hkids : kids parent = init ++ [child])
    (hne : parent ≠ branch) : splitKid kids parent child branch parent = init ++ [branch] := by
  unfold splitKid
  rw [Function.update_of_ne hne, Function.update_self, hkids, List.dropLast_concat]

theorem splitKid_other {p branch : Nat} (hbranch : p ≠ branch) (hparent : p ≠ parent) :
    splitKid kids parent child branch p = kids p := by
  unfold splitKid
  rw [Function.update_of_ne hbranch, Function.update_of_ne hparent]

/-- Where a child is after the split. -/
theorem mem_splitKid {branch p c : Nat} (hkids : kids parent = init ++ [child])
    (hne : parent ≠ branch) (hc : c ∈ splitKid kids parent child branch p) :
    (p = branch ∧ c = child) ∨ (p = parent ∧ c = branch) ∨
      (p ≠ branch ∧ c ∈ kids p ∧ (p = parent → c ∈ init)) := by
  by_cases hb : p = branch
  · subst hb
    rw [splitKid_branch] at hc
    exact .inl ⟨rfl, by simpa using hc⟩
  · by_cases hp : p = parent
    · subst hp
      rw [splitKid_parent hkids hne] at hc
      rcases List.mem_append.mp hc with hc | hc
      · exact .inr (.inr ⟨hb, by simp [hkids, hc], fun _ => hc⟩)
      · exact .inr (.inl ⟨rfl, by simpa using hc⟩)
    · rw [splitKid_other hb hp] at hc
      exact .inr (.inr ⟨hb, hc, fun h => absurd h hp⟩)

theorem Linked.splitKid_ends (h : Linked nodes kids) (hlt : parent < nodes.length)
    (hkids : kids parent = init ++ [child]) (hbranch : Between branch child init.getLast?)
    (hrel : Relinked (nodes ++ [branch]) child none init.getLast? parent nodes.length 0 result)
    {p : Nat} {n : UncompressedNode} (hn : result[p]? = some n) :
    n.firstChild = (splitKid kids parent child nodes.length p).head? ∧
      n.lastChild = (splitKid kids parent child nodes.length p).getLast? ∧
      n.numChildren = (splitKid kids parent child nodes.length p).length := by
  obtain ⟨old, hold, hfirst, hlast, -, -, hnum⟩ := hrel.fields p n hn
  rw [hfirst, hlast, hnum]
  rcases getElem?_append_leaf hold with ⟨hp, hold⟩ | ⟨rfl, rfl⟩
  · have hold' := h.ends p old hold
    by_cases hparent : p = parent
    · subst hparent
      rw [splitKid_parent hkids (by omega), if_pos rfl, if_pos rfl, hold'.1, hold'.2.2, hkids]
      refine ⟨?_, by simp, by simp⟩
      cases init <;> simp
    · rw [splitKid_other (by omega) hparent]
      simpa [hparent] using hold'
  · have hne : nodes.length ≠ parent := by omega
    rw [splitKid_branch]
    simp [hne, hbranch.firstChild, hbranch.lastChild, hbranch.numChildren]

theorem Linked.splitKid_siblings (h : Linked nodes kids) (hlt : parent < nodes.length)
    (hkids : kids parent = init ++ [child]) (hbranch : Between branch child init.getLast?)
    (hrel : Relinked (nodes ++ [branch]) child none init.getLast? parent nodes.length 0 result)
    {p c : Nat} {before after : List Nat} {n : UncompressedNode}
    (hsplit : splitKid kids parent child nodes.length p = before ++ c :: after)
    (hn : result[c]? = some n) :
    n.previousSibling = before.getLast? ∧ n.nextSibling = after.head? := by
  obtain ⟨old, hold, -, -, hprev, hnext, -⟩ := hrel.fields c n hn
  rw [hprev, hnext]
  have hchild := (h.inside parent child (by simp [hkids])).2
  have hnodup : (init ++ [child]).Nodup := hkids ▸ h.nodup parent
  have hinit : ∀ a ∈ init, a ∈ kids parent ∧ a ≠ child := by
    intro a ha
    refine ⟨by simp [hkids, ha], ?_⟩
    rintro rfl
    exact (List.nodup_append.mp hnodup).2.2 a ha a (by simp) rfl
  have hmem : c ∈ splitKid kids parent child nodes.length p := by simp [hsplit]
  rcases mem_splitKid hkids (by omega) hmem with ⟨rfl, rfl⟩ | ⟨rfl, rfl⟩ | ⟨hp, hc, hparent⟩
  · -- the child below the branch has no siblings left
    rw [splitKid_branch] at hsplit
    obtain ⟨rfl, rfl⟩ : before = [] ∧ after = [] := by
      cases before with
      | nil => simpa using hsplit
      | cons a before => simp at hsplit
    rw [if_pos rfl, if_neg (fun hc => (hinit c (List.mem_of_getLast? hc)).2 rfl)]
    rcases getElem?_append_leaf hold with ⟨-, hold⟩ | ⟨rfl, -⟩
    · exact ⟨rfl, (h.siblings parent init c [] old hkids hold).2⟩
    · omega
  · -- the branch takes the child's place
    rw [splitKid_parent hkids (by omega)] at hsplit
    have hno : nodes.length ∉ init := by
      intro hc
      have := (h.inside p _ (hinit _ hc).1).2
      omega
    obtain ⟨rfl, rfl⟩ : init = before ∧ after = [] := by
      obtain rfl | ⟨after', d, rfl⟩ := after.eq_nil_or_concat
      · exact ⟨(List.append_inj' hsplit rfl).1, rfl⟩
      · rw [List.concat_eq_append, ← List.cons_append, ← List.append_assoc] at hsplit
        exact absurd (by simp [(List.append_inj' hsplit rfl).1]) hno
    rcases getElem?_append_leaf hold with ⟨hc, -⟩ | ⟨-, rfl⟩
    · omega
    · rw [if_neg (by omega), if_neg (fun hc => hno (List.mem_of_getLast? hc)),
        hbranch.previousSibling, hbranch.nextSibling]
      exact ⟨rfl, rfl⟩
  · have hlt' := (h.inside p c hc).2
    rcases getElem?_append_leaf hold with ⟨-, hold⟩ | ⟨rfl, -⟩
    · by_cases hpp : p = parent
      · subst hpp
        rw [splitKid_parent hkids hp] at hsplit
        obtain rfl | ⟨after', d, rfl⟩ := after.eq_nil_or_concat
        · have hd := (List.append_inj' hsplit rfl).2
          have : nodes.length = c := by simpa using hd
          omega
        · rw [List.concat_eq_append, ← List.cons_append, ← List.append_assoc] at hsplit
          obtain ⟨hrest, hd⟩ := List.append_inj' hsplit rfl
          obtain rfl : nodes.length = d := by simpa using hd
          have hsib := h.siblings p before c (after' ++ [child]) old (by simp [hkids, hrest]) hold
          rw [if_neg (hinit c (hparent rfl)).2, hsib.1, hsib.2, List.concat_eq_append]
          refine ⟨rfl, ?_⟩
          cases after' with
          | nil => simp [hrest]
          | cons e after' =>
              have hsub : init.Nodup := (List.nodup_append.mp hnodup).1
              rw [hrest] at hsub ⊢
              rw [if_neg (Lists.getLast?_ne_of_nodup hsub)]
              rfl
      · rw [splitKid_other hp hpp] at hsplit
        have hne : ∀ a ∈ kids parent, c ≠ a := by
          rintro a ha rfl
          exact hpp (h.parent p parent c hc ha)
        rw [if_neg (hne child (by simp [hkids])),
          if_neg (fun hlast => hne c (hinit c (List.mem_of_getLast? hlast)).1 rfl)]
        exact h.siblings p before c after old hsplit hold
    · omega

theorem Linked.splitKid (h : Linked nodes kids) (hlt : parent < nodes.length)
    (hkids : kids parent = init ++ [child]) (hbranch : Between branch child init.getLast?)
    (hrel : Relinked (nodes ++ [branch]) child none init.getLast? parent nodes.length 0 result) :
    Linked result (splitKid kids parent child nodes.length) where
  inside p c hc := by
    have hchild := (h.inside parent child (by simp [hkids])).2
    rw [hrel.length, List.length_append, List.length_singleton]
    rcases mem_splitKid hkids (by omega) hc with ⟨rfl, rfl⟩ | ⟨rfl, rfl⟩ | ⟨-, hc, -⟩
    · omega
    · omega
    · have := h.inside p c hc
      omega
  ends _ _ hn := h.splitKid_ends hlt hkids hbranch hrel hn
  siblings _ _ _ _ _ hsplit hn := h.splitKid_siblings hlt hkids hbranch hrel hsplit hn
  parent p q c hp hq := by
    have hchild : child ∈ kids parent := by simp [hkids]
    have hnotin : child ∉ init := by
      have hnodup : (init ++ [child]).Nodup := hkids ▸ h.nodup parent
      intro hc
      exact (List.nodup_append.mp hnodup).2.2 child hc child (by simp) rfl
    rcases mem_splitKid hkids (by omega) hp with ⟨hp, hc⟩ | ⟨hp, hc⟩ | ⟨hp, hc, hinit⟩ <;>
      rcases mem_splitKid hkids (by omega) hq with ⟨hq, hc'⟩ | ⟨hq, hc'⟩ | ⟨hq, hc', hinit'⟩
    · rw [hp, hq]
    · have := (h.inside parent child hchild).2
      omega
    · have := h.parent q parent c hc' (hc ▸ hchild)
      exact absurd (hc ▸ hinit' this) hnotin
    · have := (h.inside parent child hchild).2
      omega
    · rw [hp, hq]
    · have := (h.inside q c hc').2
      omega
    · have := h.parent p parent c hc (hc' ▸ hchild)
      exact absurd (hc' ▸ hinit this) hnotin
    · have := (h.inside p c hc).2
      omega
    · exact h.parent p q c hc hc'
  nodup p := by
    by_cases hb : p = nodes.length
    · subst hb
      rw [splitKid_branch]
      exact List.nodup_singleton _
    · by_cases hp : p = parent
      · subst hp
        rw [splitKid_parent hkids hb]
        have hnodup : (init ++ [child]).Nodup := hkids ▸ h.nodup p
        refine List.nodup_append.mpr ⟨(List.nodup_append.mp hnodup).1, List.nodup_singleton _, ?_⟩
        intro a ha b hb'
        have := (h.inside p a (by simp [hkids, ha])).2
        have : b = nodes.length := by simpa using hb'
        omega
      · rw [splitKid_other hb hp]
        exact h.nodup p

/-- `splitEdge` puts the branch, with its two data, between a node and its last child. -/
theorem splitEdge_eq_ok (h : Linked nodes kids) (hlt : parent < nodes.length)
    (hkids : kids parent = init ++ [child]) (symbolIndex commonPrefix : Nat) :
    ∃ result, splitEdge nodes parent symbolIndex commonPrefix = .ok result ∧
      Linked result (Trie.splitKid kids parent child nodes.length) ∧
      result.map UncompressedNode.data = nodes.map UncompressedNode.data ++ [{
        symbol := none
        representative := symbolIndex - 1
        depth := commonPrefix }] := by
  have hchild := (h.inside parent child (by simp [hkids])).2
  obtain ⟨parentNode, hparent⟩ : ∃ n, nodes[parent]? = some n := ⟨_, List.getElem?_eq_getElem hlt⟩
  obtain ⟨childNode, hchildNode⟩ : ∃ n, nodes[child]? = some n :=
    ⟨_, List.getElem?_eq_getElem hchild⟩
  have hlast : parentNode.lastChild = some child := by
    rw [(h.ends parent parentNode hparent).2.1, hkids, List.getLast?_concat]
  have hsibling : childNode.previousSibling = init.getLast? :=
    (h.siblings parent init child [] childNode hkids hchildNode).1
  have hinit : ∀ c, init.getLast? = some c → c < (nodes ++ [(
      { representative := symbolIndex - 1
        depth := commonPrefix
        firstChild := some child
        lastChild := some child
        previousSibling := init.getLast?
        numChildren := 1 } : UncompressedNode)]).length := by
    intro c hc
    have := (h.inside parent c (by simp [hkids, List.mem_of_getLast? hc])).2
    rw [List.length_append, List.length_singleton]
    omega
  obtain ⟨result, hresult, hrel⟩ := relinked_of_writes child parent (by simp; omega)
    (by simp; omega) hinit none nodes.length 0
  refine ⟨result, ?_, h.splitKid hlt hkids ⟨rfl, rfl, rfl, rfl, rfl⟩ hrel, ?_⟩
  · unfold splitEdge
    simp only [hparent, hlast, hchildNode, hsibling, Fallible.unwrap, Fallible.bind_ok]
    exact hresult
  · rw [hrel.data, List.map_append]
    rfl

end Split

/-- Appending a new node links it in as the last child. -/
theorem appendChild_linked {nodes : List UncompressedNode} {kids : Nat → List Nat} {parent : Nat}
    (leaf : UncompressedNode) (h : Linked nodes kids) (hlt : parent < nodes.length)
    (hleaf : Unlinked leaf) :
    ∃ result, appendChild (nodes ++ [leaf]) parent nodes.length = .ok result ∧
      Linked result (appendKid kids parent nodes.length) ∧
      result.map UncompressedNode.data = nodes.map UncompressedNode.data ++ [leaf.data] := by
  obtain ⟨parentNode, hparent⟩ : ∃ n, nodes[parent]? = some n := ⟨_, List.getElem?_eq_getElem hlt⟩
  have hlast : ∀ c, parentNode.lastChild = some c → c < (nodes ++ [leaf]).length := by
    intro c hc
    rw [(h.ends parent parentNode hparent).2.1] at hc
    have := (h.inside parent c (List.mem_of_getLast? hc)).2
    rw [List.length_append, List.length_singleton]
    omega
  have hparent' : (nodes ++ [leaf])[parent]? = some parentNode := by
    rw [List.getElem?_append_left hlt, hparent]
  have hchild : nodes.length < (nodes ++ [leaf]).length := by simp
  obtain ⟨result, hresult, hrel⟩ := appendChild_eq_ok hparent' hchild hlast
  refine ⟨result, hresult, h.appendKid hparent hleaf hrel, ?_⟩
  rw [hrel.data, List.map_append]
  rfl

/-- A write of a symbol leaves the links as they are. -/
theorem Linked.modify_symbol {nodes : List UncompressedNode} {kids : Nat → List Nat}
    (h : Linked nodes kids) (index : Nat) (symbol : Option Nat) :
    Linked (nodes.modify index fun node => { node with symbol := symbol }) kids := by
  have hfields : ∀ (j : Nat) (new : UncompressedNode), (nodes.modify index fun node => { node with symbol := symbol })[j]?
      = some new → ∃ old : UncompressedNode, nodes[j]? = some old ∧ new.firstChild = old.firstChild ∧
        new.lastChild = old.lastChild ∧ new.previousSibling = old.previousSibling ∧
        new.nextSibling = old.nextSibling ∧ new.numChildren = old.numChildren := by
    intro j new hnew
    rw [List.getElem?_modify] at hnew
    obtain ⟨old, hold, rfl⟩ := Option.map_eq_some_iff.mp hnew
    refine ⟨old, hold, ?_⟩
    split <;> simp
  refine ⟨fun p c hc => by simpa using h.inside p c hc, ?_, ?_, h.parent, h.nodup⟩
  · intro p n hn
    obtain ⟨old, hold, hfirst, hlast, -, -, hnum⟩ := hfields p n hn
    rw [hfirst, hlast, hnum]
    exact h.ends p old hold
  · intro p before c after n hkids hn
    obtain ⟨old, hold, -, -, hprev, hnext, -⟩ := hfields c n hn
    rw [hprev, hnext]
    exact h.siblings p before c after old hkids hold

end JdxLinker.Trie
