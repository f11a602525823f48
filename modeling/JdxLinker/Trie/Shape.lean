import JdxLinker.Trie.Links

/-!
# What the pass over the names builds

Every node stands for a string: the start of the name of the symbol it represents. A node's children
extend its string, and they are told apart by the next byte, which grows along the list. The nodes
with a symbol stand for the names that were inserted.
-/

namespace JdxLinker.Trie

open Names

/-- The string that a node stands for. -/
def NodeData.text (symbols : List Symbol) (data : NodeData) : List UInt8 :=
  match symbols[data.representative]? with
  | some symbol => symbol.name.take data.depth
  | none => []

/-- The string that the node at an index stands for. -/
def text (symbols : List Symbol) (datas : List NodeData) (i : Nat) : List UInt8 :=
  match datas[i]? with
  | some data => data.text symbols
  | none => []

section Text

variable {symbols : List Symbol} {datas : List NodeData}

theorem text_of_getElem? {i : Nat} {data : NodeData} (h : datas[i]? = some data) :
    text symbols datas i = data.text symbols := by
  unfold text
  rw [h]

theorem text_append {i : Nat} (h : i < datas.length) (data : NodeData) :
    text symbols (datas ++ [data]) i = text symbols datas i := by
  unfold text
  rw [List.getElem?_append_left h]

theorem text_last (data : NodeData) :
    text symbols (datas ++ [data]) datas.length = data.text symbols :=
  text_of_getElem? List.getElem?_concat_length

end Text

/-- The nodes stand for strings of the length of their depths, the first for the empty one, and the
symbols of nodes are the first `k`, each at a node that stands for its name. -/
structure Labelled (symbols : List Symbol) (k : Nat) (datas : List NodeData) : Prop where
  root : 0 < datas.length ∧ text symbols datas 0 = []
  measured : ∀ i data, datas[i]? = some data → data.depth = (text symbols datas i).length
  named : ∀ (i : Nat) (data : NodeData) (s : Nat), datas[i]? = some data → data.symbol = some s →
    s < k ∧ ∃ symbol, symbols[s]? = some symbol ∧ symbol.name = text symbols datas i
  complete : ∀ s, s < k → ∃ (i : Nat) (data : NodeData), datas[i]? = some data ∧
    data.symbol = some s

/-- Children extend the string of their node, in the order of their next bytes, and every node but
the first is the child of one. -/
structure Branching (symbols : List Symbol) (datas : List NodeData) (kids : Nat → List Nat) :
    Prop where
  inside : ∀ p c, c ∈ kids p → p < datas.length ∧ c < datas.length
  below : ∀ p c, c ∈ kids p → text symbols datas p <+: text symbols datas c ∧
    (text symbols datas p).length < (text symbols datas c).length
  heads : ∀ p, (kids p).Pairwise fun c c' =>
    Precedes (text symbols datas p).length (text symbols datas c) (text symbols datas c')
  connected : ∀ i, i < datas.length → i ≠ 0 → ∃ p, i ∈ kids p

/-- A path along last children up to the root, the deepest node first. -/
inductive Spine (kids : Nat → List Nat) : List Nat → Prop where
  | root : Spine kids [0]
  | child {c p : Nat} {path : List Nat} (hlast : (kids p).getLast? = some c)
      (hpath : Spine kids (p :: path)) : Spine kids (c :: p :: path)

/-- A path stays one when the children of its upper nodes do. -/
theorem Spine.congr {kids kids' : Nat → List Nat} {c : Nat} {path : List Nat}
    (hspine : Spine kids (c :: path)) (hkids : ∀ q ∈ path, kids' q = kids q) :
    Spine kids' (c :: path) := by
  induction path generalizing c with
  | nil =>
      cases hspine
      exact .root
  | cons p path ih =>
      cases hspine with
      | child hlast hpath =>
          refine .child ?_ (ih hpath fun q hq => hkids q (List.mem_cons_of_mem _ hq))
          rw [hkids _ List.mem_cons_self, hlast]

/-- The nodes of a path above its deepest node exist, and stand for shorter strings. -/
theorem Branching.above {symbols : List Symbol} {datas : List NodeData} {kids : Nat → List Nat}
    (h : Branching symbols datas kids) {c : Nat} {path : List Nat} (hspine : Spine kids (c :: path))
    {q : Nat} (hq : q ∈ path) : q < datas.length ∧
      (text symbols datas q).length < (text symbols datas c).length := by
  induction path generalizing c with
  | nil => cases hq
  | cons p path ih =>
      cases hspine with
      | child hlast hpath =>
          have hmem := List.mem_of_getLast? hlast
          have hbelow := (h.below p c hmem).2
          cases hq with
          | head => exact ⟨(h.inside _ c hmem).1, hbelow⟩
          | tail _ hq => exact ⟨(ih hpath hq).1, (ih hpath hq).2.trans hbelow⟩

/-! ### Cutting the path back to the common prefix -/

/-- The path after the pass popped it: its end lies within the first `depth` bytes of `previous`,
and whatever hangs below the end lies on the way to `previous`, beyond these bytes. -/
structure Truncated (symbols : List Symbol) (datas : List NodeData) (kids : Nat → List Nat)
    (previous : List UInt8) (depth parent : Nat) (path : List Nat) : Prop where
  spine : Spine kids (parent :: path)
  starts_previous : text symbols datas parent <+: previous
  length_le : (text symbols datas parent).length ≤ depth
  parent_lt : parent < datas.length
  last : (kids parent = [] ∧ text symbols datas parent = previous) ∨
    ∃ c, (kids parent).getLast? = some c ∧ text symbols datas c <+: previous ∧
      depth < (text symbols datas c).length

theorem truncatePath_eq_ok {symbols : List Symbol} {k : Nat} {nodes : List UncompressedNode}
    {kids : Nat → List Nat} {previous : List UInt8} (depth : Nat) {top : Nat} {path : List Nat}
    (hlabelled : Labelled symbols k (nodes.map UncompressedNode.data))
    (hbranching : Branching symbols (nodes.map UncompressedNode.data) kids)
    (hspine : Spine kids (top :: path))
    (hstarts : text symbols (nodes.map UncompressedNode.data) top <+: previous)
    (htop : top < nodes.length)
    (hlast : (kids top = [] ∧ text symbols (nodes.map UncompressedNode.data) top = previous) ∨
      ∃ c, (kids top).getLast? = some c ∧
        text symbols (nodes.map UncompressedNode.data) c <+: previous ∧
        depth < (text symbols (nodes.map UncompressedNode.data) c).length) :
    ∃ parent rest, truncatePath nodes depth (top :: path) = .ok (parent :: rest) ∧
      Truncated symbols (nodes.map UncompressedNode.data) kids previous depth parent rest := by
  have hnode : nodes[top]? = some nodes[top] := List.getElem?_eq_getElem htop
  have hmeasured : nodes[top].depth = (text symbols (nodes.map UncompressedNode.data) top).length :=
    hlabelled.measured top nodes[top].data (by simp [hnode])
  induction path generalizing top with
  | nil =>
      cases hspine
      have hroot : (text symbols (nodes.map UncompressedNode.data) 0).length = 0 := by
        rw [hlabelled.root.2, List.length_nil]
      refine ⟨0, [], ?_, .root, hstarts, by omega, by simpa using htop, hlast⟩
      rw [truncatePath, hnode, Fallible.unwrap, Fallible.bind_ok, if_neg (by omega)]
      rfl
  | cons p path ih =>
      by_cases hdeep : depth < nodes[top].depth
      · cases hspine with
        | child hchild hpath =>
            have hmem := List.mem_of_getLast? hchild
            have hp : p < nodes.length := by simpa using (hbranching.inside p top hmem).1
            have hbelow := (hbranching.below p top hmem).1
            obtain ⟨parent, rest, hok, htruncated⟩ := ih hpath (hbelow.trans hstarts) hp
              (.inr ⟨top, hchild, hstarts, by omega⟩) (List.getElem?_eq_getElem hp)
              (hlabelled.measured p nodes[p].data (by simp [List.getElem?_eq_getElem hp]))
            refine ⟨parent, rest, ?_, htruncated⟩
            rw [truncatePath, hnode, Fallible.unwrap, Fallible.bind_ok, if_pos hdeep, hok]
      · refine ⟨top, p :: path, ?_, hspine, hstarts, by omega, by simpa using htop, hlast⟩
        rw [truncatePath, hnode, Fallible.unwrap, Fallible.bind_ok, if_neg hdeep]
        rfl

/-! ### A node at the common prefix -/

/-- The end of the path stands for the first `depth` bytes of a name, and what hangs below it comes
before the name. -/
structure Attachable (symbols : List Symbol) (datas : List NodeData) (kids : Nat → List Nat)
    (name : List UInt8) (depth parent : Nat) (path : List Nat) : Prop where
  spine : Spine kids (parent :: path)
  text_eq : text symbols datas parent = name.take depth
  parent_lt : parent < datas.length
  before : ∀ c ∈ kids parent, Precedes depth (text symbols datas c) name

section Branch

variable {symbols : List Symbol} {k : Nat} {datas : List NodeData} {kids : Nat → List Nat}
  {previous name : List UInt8} {depth parent c : Nat} {init path : List Nat}

/-- Where the end of the path is deep enough already, the name can hang below it. -/
theorem Truncated.attachable (h : Truncated symbols datas kids previous depth parent path)
    (hbranching : Branching symbols datas kids) (htake : previous.take depth = name.take depth)
    (hdepth : (text symbols datas parent).length = depth)
    (hprecedes : depth < previous.length → Precedes depth previous name) :
    Attachable symbols datas kids name depth parent path where
  spine := h.spine
  text_eq := by
    rw [← htake, List.prefix_iff_eq_take.mp h.starts_previous, hdepth]
  parent_lt := h.parent_lt
  before e he := by
    rcases h.last with ⟨hnil, -⟩ | ⟨c, hc, hstarts, hlt⟩
    · rw [hnil] at he
      cases he
    · have hlen : depth < previous.length := hlt.trans_le hstarts.length_le
      have hlast : Precedes depth (text symbols datas c) name :=
        (hprecedes hlen).shorten_left hstarts hlt
      obtain ⟨init, hkids⟩ := List.getLast?_eq_some_iff.mp hc
      have hheads := hbranching.heads parent
      rw [hkids] at hheads he
      rcases List.mem_append.mp he with he | he
      · have := (List.pairwise_append.mp hheads).2.2 e he c (by simp)
        rw [hdepth] at this
        exact this.trans hlast
      · obtain rfl : e = c := by simpa using he
        exact hlast

/-- A new node keeps the strings of the others. -/
theorem Labelled.append (h : Labelled symbols k datas) {leaf : NodeData} {k' : Nat}
    (hmeasured : (leaf.text symbols).length = leaf.depth)
    (hsymbol : (leaf.symbol = none ∧ k' = k) ∨ (leaf.symbol = some k ∧ k' = k + 1 ∧
      ∃ symbol, symbols[k]? = some symbol ∧ symbol.name = leaf.text symbols)) :
    Labelled symbols k' (datas ++ [leaf]) := by
  have hcases : ∀ i data, (datas ++ [leaf])[i]? = some data →
      (datas[i]? = some data ∧ text symbols (datas ++ [leaf]) i = text symbols datas i) ∨
        (data = leaf ∧ text symbols (datas ++ [leaf]) i = leaf.text symbols) := by
    intro i data hi
    by_cases hlt : i < datas.length
    · rw [List.getElem?_append_left hlt] at hi
      exact .inl ⟨hi, text_append hlt leaf⟩
    · obtain rfl : i = datas.length := by
        have := (List.getElem?_eq_some_iff.mp hi).1
        rw [List.length_append, List.length_singleton] at this
        omega
      rw [List.getElem?_concat_length] at hi
      exact .inr ⟨(Option.some.inj hi).symm, text_last leaf⟩
  refine ⟨⟨?_, ?_⟩, ?_, ?_, ?_⟩
  · rw [List.length_append]
    exact Nat.add_pos_left h.root.1 _
  · rw [text_append h.root.1, h.root.2]
  · intro i data hi
    rcases hcases i data hi with ⟨hi, htext⟩ | ⟨rfl, htext⟩
    · rw [htext]
      exact h.measured i data hi
    · rw [htext, hmeasured]
  · intro i data s hi hs
    rcases hcases i data hi with ⟨hi, htext⟩ | ⟨rfl, htext⟩
    · rw [htext]
      have := h.named i data s hi hs
      exact ⟨by omega, this.2⟩
    · rcases hsymbol with ⟨hnone, -⟩ | ⟨hsome, rfl, hnamed⟩
      · rw [hnone] at hs
        cases hs
      · obtain rfl : k = s := Option.some.inj (hsome.symm.trans hs)
        rw [htext]
        exact ⟨Nat.lt_succ_self k, hnamed⟩
  · intro s hs
    by_cases hlt : s < k
    · obtain ⟨i, data, hi, hdata⟩ := h.complete s hlt
      refine ⟨i, data, ?_, hdata⟩
      rw [List.getElem?_append_left (List.getElem?_eq_some_iff.mp hi).1, hi]
    · rcases hsymbol with ⟨-, rfl⟩ | ⟨hsome, rfl, -⟩
      · omega
      · exact ⟨datas.length, leaf, List.getElem?_concat_length, by rw [hsome]; congr 1; omega⟩

/-- A new node keeps the order among the children that there are. -/
theorem Branching.heads_append (h : Branching symbols datas kids) (leaf : NodeData) (p : Nat) :
    (kids p).Pairwise fun a b => Precedes (text symbols (datas ++ [leaf]) p).length
      (text symbols (datas ++ [leaf]) a) (text symbols (datas ++ [leaf]) b) := by
  refine (h.heads p).imp_of_mem fun {a b} ha hb hab => ?_
  rw [text_append (h.inside p a ha).1, text_append (h.inside p a ha).2,
    text_append (h.inside p b hb).2]
  exact hab

/-- A branch on the edge to the last child of a node. -/
theorem Branching.split (h : Branching symbols datas kids) {branch : NodeData}
    (hkids : kids parent = init ++ [c]) (hbranch : branch.text symbols <+: text symbols datas c)
    (hlow : (text symbols datas parent).length < (branch.text symbols).length)
    (hhigh : (branch.text symbols).length < (text symbols datas c).length) :
    Branching symbols (datas ++ [branch]) (splitKid kids parent c datas.length) := by
  have hc : c ∈ kids parent := by simp [hkids]
  have hparent := (h.inside parent c hc).1
  have hbelow := (h.below parent c hc).1
  have hcases := fun p e => @mem_splitKid kids parent c init datas.length p e hkids hparent.ne
  have hnew : text symbols (datas ++ [branch]) datas.length = branch.text symbols := text_last branch
  refine ⟨?_, ?_, ?_, ?_⟩
  · intro p e he
    rw [List.length_append, List.length_singleton]
    have hinside := h.inside parent c hc
    rcases hcases p e he with ⟨rfl, rfl⟩ | ⟨rfl, rfl⟩ | ⟨-, he, -⟩
    · omega
    · omega
    · have := h.inside p e he
      omega
  · intro p e he
    rcases hcases p e he with ⟨rfl, rfl⟩ | ⟨rfl, rfl⟩ | ⟨-, he, -⟩
    · rw [hnew, text_append (h.inside parent e hc).2]
      exact ⟨hbranch, hhigh⟩
    · rw [hnew, text_append hparent]
      exact ⟨List.prefix_of_prefix_length_le hbelow hbranch hlow.le, hlow⟩
    · rw [text_append (h.inside p e he).1, text_append (h.inside p e he).2]
      exact h.below p e he
  · intro p
    by_cases hb : p = datas.length
    · subst hb
      rw [splitKid_branch]
      exact List.pairwise_singleton _ _
    · by_cases hp : p = parent
      · subst hp
        have hheads := h.heads_append branch p
        rw [splitKid_parent hkids hb]
        rw [hkids, List.pairwise_append, text_append hparent] at hheads
        rw [text_append hparent]
        refine List.pairwise_append.mpr ⟨hheads.1, List.pairwise_singleton _ _, ?_⟩
        intro a ha b hb'
        obtain rfl : b = datas.length := by simpa using hb'
        have hac := hheads.2.2 a ha c (by simp)
        rw [text_append (h.inside p c hc).2] at hac
        rw [hnew]
        exact hac.shorten_right hbranch hlow
      · rw [splitKid_other hb hp]
        exact h.heads_append branch p
  · intro i hi hne
    by_cases hib : i = datas.length
    · exact ⟨parent, by rw [splitKid_parent hkids hparent.ne]; simp [hib]⟩
    · rw [List.length_append, List.length_singleton] at hi
      obtain ⟨p, hp⟩ := h.connected i (by omega) hne
      have hlt := (h.inside p i hp).1
      by_cases hpp : p = parent
      · subst hpp
        rw [hkids] at hp
        rcases List.mem_append.mp hp with hp | hp
        · exact ⟨p, by rw [splitKid_parent hkids hparent.ne]; simp [hp]⟩
        · exact ⟨datas.length, by rw [splitKid_branch]; exact hp⟩
      · exact ⟨p, by rw [splitKid_other hlt.ne hpp]; exact hp⟩

/-- A new last child. -/
theorem Branching.append (h : Branching symbols datas kids) {leaf : NodeData}
    (hparent : parent < datas.length)
    (hstarts : text symbols datas parent <+: leaf.text symbols)
    (hlow : (text symbols datas parent).length < (leaf.text symbols).length)
    (hbefore : ∀ c ∈ kids parent,
      Precedes (text symbols datas parent).length (text symbols datas c) (leaf.text symbols)) :
    Branching symbols (datas ++ [leaf]) (appendKid kids parent datas.length) := by
  have hnew : text symbols (datas ++ [leaf]) datas.length = leaf.text symbols := text_last leaf
  refine ⟨?_, ?_, ?_, ?_⟩
  · intro p e he
    rw [List.length_append, List.length_singleton]
    rcases mem_appendKid.mp he with he | ⟨rfl, rfl⟩
    · have := h.inside p e he
      omega
    · omega
  · intro p e he
    rcases mem_appendKid.mp he with he | ⟨rfl, rfl⟩
    · rw [text_append (h.inside p e he).1, text_append (h.inside p e he).2]
      exact h.below p e he
    · rw [hnew, text_append hparent]
      exact ⟨hstarts, hlow⟩
  · intro p
    have hold := h.heads_append leaf p
    unfold appendKid
    by_cases hp : p = parent
    · subst hp
      rw [Function.update_self]
      refine List.pairwise_append.mpr ⟨hold, List.pairwise_singleton _ _, ?_⟩
      intro a ha b hb
      obtain rfl : b = datas.length := by simpa using hb
      rw [hnew, text_append hparent, text_append (h.inside p a ha).2]
      exact hbefore a ha
    · rw [Function.update_of_ne hp]
      exact hold
  · intro i hi hne
    by_cases hib : i = datas.length
    · exact ⟨parent, mem_appendKid.mpr (.inr ⟨rfl, hib⟩)⟩
    · rw [List.length_append, List.length_singleton] at hi
      obtain ⟨p, hp⟩ := h.connected i (by omega) hne
      exact ⟨p, mem_appendKid.mpr (.inl hp)⟩

end Branch

end JdxLinker.Trie
