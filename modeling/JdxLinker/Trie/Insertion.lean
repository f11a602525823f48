import JdxLinker.Trie.Shape

/-!
# Inserting the symbols

One step of the pass, and the whole of it: sorted names build a trie of all the symbols, and no step
of the pass fails.
-/

namespace JdxLinker.Trie

open Names

/-- The nodes are linked into a trie of the first `k` symbols. -/
structure TrieOf (symbols : List Symbol) (k : Nat) (nodes : List UncompressedNode)
    (kids : Nat → List Nat) : Prop where
  linked : Linked nodes kids
  labelled : Labelled symbols k (nodes.map UncompressedNode.data)
  branching : Branching symbols (nodes.map UncompressedNode.data) kids

/-- The node at the end of a path is the leaf that stands for a name. -/
structure EndsAt (symbols : List Symbol) (nodes : List UncompressedNode) (kids : Nat → List Nat)
    (name : List UInt8) (top : Nat) (path : List Nat) : Prop where
  spine : Spine kids (top :: path)
  text_eq : text symbols (nodes.map UncompressedNode.data) top = name
  leaf : kids top = []
  top_lt : top < nodes.length

/-! ### A node that is given a symbol -/

section GiveSymbol

variable {symbols : List Symbol} {nodes : List UncompressedNode} {kids : Nat → List Nat}

/-- The data of the nodes after a node was given a symbol. -/
theorem getElem?_giveSymbol {index i s : Nat} {data : NodeData}
    (h : ((nodes.modify index fun node => { node with symbol := some s }).map
      UncompressedNode.data)[i]? = some data) :
    ∃ node, nodes[i]? = some node ∧
      data = { node.data with symbol := if index = i then some s else node.symbol } := by
  rw [List.getElem?_map, List.getElem?_modify] at h
  obtain ⟨changed, hchanged, rfl⟩ := Option.map_eq_some_iff.mp h
  obtain ⟨node, hnode, rfl⟩ := Option.map_eq_some_iff.mp hchanged
  refine ⟨node, hnode, ?_⟩
  split <;> rfl

theorem text_giveSymbol (symbols : List Symbol) (index s i : Nat) :
    text symbols ((nodes.modify index fun node => { node with symbol := some s }).map
      UncompressedNode.data) i = text symbols (nodes.map UncompressedNode.data) i := by
  unfold text
  rw [List.getElem?_map, List.getElem?_map, List.getElem?_modify]
  cases nodes[i]? with
  | none => rfl
  | some node => by_cases hi : index = i <;> simp [hi, NodeData.text, UncompressedNode.data]

/-- The first symbol of all, put at a node that stands for its name. -/
theorem TrieOf.giveSymbol (h : TrieOf symbols 0 nodes kids) {index : Nat} {symbol : Symbol}
    (hindex : index < nodes.length) (hsymbol : symbols[0]? = some symbol)
    (htext : text symbols (nodes.map UncompressedNode.data) index = symbol.name) :
    TrieOf symbols 1 (nodes.modify index fun node => { node with symbol := some 0 }) kids where
  linked := h.linked.modify_symbol index (some 0)
  labelled := by
    refine ⟨⟨by simpa using h.labelled.root.1, ?_⟩, ?_, ?_, ?_⟩
    · rw [text_giveSymbol, h.labelled.root.2]
    · intro i data hi
      obtain ⟨node, hnode, rfl⟩ := getElem?_giveSymbol hi
      rw [text_giveSymbol]
      exact h.labelled.measured i node.data (by simp [hnode])
    · intro i data s hi hs
      obtain ⟨node, hnode, rfl⟩ := getElem?_giveSymbol hi
      rw [text_giveSymbol]
      by_cases hii : index = i
      · subst hii
        obtain rfl : 0 = s := by simpa using hs
        exact ⟨Nat.one_pos, symbol, hsymbol, htext.symm⟩
      · have hs : node.symbol = some s := by simpa [hii] using hs
        have := (h.labelled.named i node.data s (by simp [hnode]) hs).1
        omega
    · intro s hs
      obtain rfl : s = 0 := by omega
      refine ⟨index, { nodes[index].data with symbol := some 0 }, ?_, rfl⟩
      rw [List.getElem?_map, List.getElem?_modify, List.getElem?_eq_getElem hindex]
      simp [UncompressedNode.data]
  branching := by
    refine ⟨?_, ?_, ?_, ?_⟩
    · simpa using h.branching.inside
    · simpa only [text_giveSymbol] using h.branching.below
    · simpa only [text_giveSymbol] using h.branching.heads
    · simpa using h.branching.connected

end GiveSymbol

/-! ### The two halves of a step -/

section Steps

variable {symbols : List Symbol} {k depth parent : Nat} {nodes : List UncompressedNode}
  {kids : Nat → List Nat} {path : List Nat} {previous : List UInt8} {symbol : Symbol}

theorem branchAt_eq_ok (h : TrieOf symbols k nodes kids)
    (htruncated : Truncated symbols (nodes.map UncompressedNode.data) kids previous depth parent path)
    (hdepth : depth ≤ previous.length)
    (htake : previous.take depth = symbol.name.take depth)
    (hprecedes : depth < previous.length → Precedes depth previous symbol.name)
    (hprevious : 0 < depth → ∃ last, symbols[k - 1]? = some last ∧ last.name = previous) :
    ∃ nodes' kids' parent' path', branchAt nodes (parent :: path) k depth
        = .ok (nodes', parent' :: path') ∧ TrieOf symbols k nodes' kids' ∧
      Attachable symbols (nodes'.map UncompressedNode.data) kids' symbol.name depth parent' path' := by
  have hparent : parent < nodes.length := by simpa using htruncated.parent_lt
  have hnode : nodes[parent]? = some nodes[parent] := List.getElem?_eq_getElem hparent
  have hmeasured : nodes[parent].depth
      = (text symbols (nodes.map UncompressedNode.data) parent).length :=
    h.labelled.measured parent nodes[parent].data (by simp [hnode])
  unfold branchAt
  simp only [List.head?_cons, Fallible.unwrap, hnode, Fallible.bind_ok]
  by_cases hlow : nodes[parent].depth < depth
  · -- the path was cut inside the edge to the last child
    rw [if_pos hlow]
    rcases htruncated.last with ⟨-, htext⟩ | ⟨c, hc, hstarts, hdeep⟩
    · rw [htext] at hmeasured
      omega
    · obtain ⟨init, hkids⟩ := List.getLast?_eq_some_iff.mp hc
      obtain ⟨last, hlast, hname⟩ := hprevious (by omega)
      obtain ⟨result, hok, hlinked, hdata⟩ := splitEdge_eq_ok h.linked hparent hkids k depth
      have hbranch : NodeData.text symbols ⟨none, k - 1, depth⟩ = previous.take depth := by
        simp [NodeData.text, hlast, hname]
      have hlength : (previous.take depth).length = depth := by
        rw [List.length_take, Nat.min_eq_left hdepth]
      have hbelow : previous.take depth <+: text symbols (nodes.map UncompressedNode.data) c := by
        refine List.prefix_of_prefix_length_le (List.take_prefix _ _) hstarts ?_
        omega
      have hlen : (nodes.map UncompressedNode.data).length = nodes.length := List.length_map _
      refine ⟨result, _, nodes.length, parent :: path, ?_, ⟨hlinked, ?_, ?_⟩, ?_⟩
      · rw [hok]
        rfl
      · rw [hdata]
        exact h.labelled.append (by rw [hbranch, hlength]) (.inl ⟨rfl, rfl⟩)
      · rw [hdata, ← hlen]
        exact h.branching.split hkids (by rw [hbranch]; exact hbelow)
          (by rw [hbranch, hlength]; omega) (by rw [hbranch, hlength]; exact hdeep)
      · refine ⟨.child ?_ (htruncated.spine.congr fun q hq => ?_), ?_, ?_, ?_⟩
        · rw [splitKid_parent hkids hparent.ne, List.getLast?_concat]
        · have habove := h.branching.above htruncated.spine hq
          refine splitKid_other (by omega) ?_
          rintro rfl
          omega
        · rw [hdata, ← hlen, text_last, hbranch, htake]
        · simp [hdata]
        · intro e he
          rw [splitKid_branch] at he
          obtain rfl : e = c := by simpa using he
          rw [hdata, text_append (h.branching.inside parent e (by simp [hkids])).2]
          exact (hprecedes (hdeep.trans_le hstarts.length_le)).shorten_left hstarts hdeep
  · rw [if_neg hlow]
    have hlength := htruncated.length_le
    exact ⟨nodes, kids, parent, path, rfl, h,
      htruncated.attachable h.branching htake (by omega) hprecedes⟩

/-- Only the empty name, first of all, ends at a node that is there already. -/
theorem placeSymbol_eq_ok (h : TrieOf symbols k nodes kids)
    (hattach : Attachable symbols (nodes.map UncompressedNode.data) kids symbol.name depth parent
      path)
    (hsymbol : symbols[k]? = some symbol) (hdepth : depth ≤ symbol.name.length)
    (hnew : k ≠ 0 → depth < symbol.name.length) :
    ∃ nodes' kids' top path', placeSymbol nodes (parent :: path) k symbol
        = .ok (nodes', top :: path') ∧ TrieOf symbols (k + 1) nodes' kids' ∧
      EndsAt symbols nodes' kids' symbol.name top path' := by
  have hparent : parent < nodes.length := by simpa using hattach.parent_lt
  have hnode : nodes[parent]? = some nodes[parent] := List.getElem?_eq_getElem hparent
  have hmeasured : nodes[parent].depth
      = (text symbols (nodes.map UncompressedNode.data) parent).length :=
    h.labelled.measured parent nodes[parent].data (by simp [hnode])
  have hlength : (text symbols (nodes.map UncompressedNode.data) parent).length = depth := by
    rw [hattach.text_eq, List.length_take, Nat.min_eq_left hdepth]
  have hlen : (nodes.map UncompressedNode.data).length = nodes.length := List.length_map _
  unfold placeSymbol
  simp only [List.head?_cons, Fallible.unwrap, hnode, Fallible.bind_ok]
  by_cases hends : nodes[parent].depth = symbol.name.length
  · rw [if_pos hends]
    obtain rfl : k = 0 := by
      by_contra hk
      have := hnew hk
      omega
    have htext : text symbols (nodes.map UncompressedNode.data) parent = symbol.name := by
      rw [hattach.text_eq, List.take_of_length_le (by omega)]
    have hleaf : kids parent = [] := by
      apply List.eq_nil_iff_forall_not_mem.mpr
      intro c hc
      obtain ⟨-, -, y, -, hy, -⟩ := hattach.before c hc
      have := (List.getElem?_eq_some_iff.mp hy).1
      omega
    refine ⟨_, kids, parent, path, ?_, h.giveSymbol hparent hsymbol htext,
      ⟨hattach.spine, ?_, hleaf, by simpa using hparent⟩⟩
    · rw [updateNode_of_lt hparent]
      rfl
    · rw [text_giveSymbol, htext]
  · rw [if_neg hends]
    obtain ⟨result, hok, hlinked, hdata⟩ := appendChild_linked
      { symbol := some k, representative := k, depth := symbol.name.length } h.linked hparent
      ⟨rfl, rfl, rfl, rfl, rfl⟩
    have hleaf : NodeData.text symbols ⟨some k, k, symbol.name.length⟩ = symbol.name := by
      simp [NodeData.text, hsymbol]
    have hleafNil : kids nodes.length = [] := h.linked.kids_of_le le_rfl
    refine ⟨result, _, nodes.length, parent :: path, ?_, ⟨hlinked, ?_, ?_⟩, ?_⟩
    · rw [hok]
      rfl
    · rw [hdata]
      exact h.labelled.append (by rw [UncompressedNode.data, hleaf])
        (.inr ⟨rfl, rfl, symbol, hsymbol, hleaf.symm⟩)
    · rw [hdata, ← hlen]
      refine h.branching.append hattach.parent_lt ?_ ?_ ?_
      · rw [hattach.text_eq, UncompressedNode.data, hleaf]
        exact List.take_prefix _ _
      · rw [UncompressedNode.data, hleaf]
        omega
      · rw [hlength, UncompressedNode.data, hleaf]
        exact hattach.before
    · refine ⟨.child ?_ (hattach.spine.congr fun q hq => ?_), ?_, ?_, ?_⟩
      · unfold appendKid
        rw [Function.update_self, List.getLast?_concat]
      · have habove := h.branching.above hattach.spine hq
        unfold appendKid
        refine Function.update_of_ne ?_ _ _
        rintro rfl
        omega
      · rw [hdata, ← hlen, text_last, UncompressedNode.data, hleaf]
      · unfold appendKid
        rw [Function.update_of_ne hparent.ne', hleafNil]
      · have := congrArg List.length hdata
        simp at this
        omega

end Steps

/-! ### The pass -/

/-- The state of the pass after `k` symbols. -/
structure Inserted (symbols : List Symbol) (k : Nat) (state : InsertState)
    (kids : Nat → List Nat) : Prop where
  trie : TrieOf symbols k state.nodes kids
  ends : ∃ top path, state.previousPath = top :: path ∧
    EndsAt symbols state.nodes kids state.previousName top path
  start : k = 0 → state.previousName = []
  previous : k ≠ 0 → ∃ last, symbols[k - 1]? = some last ∧ last.name = state.previousName

theorem eq_of_getElem?_singleton {α : Type} {a b : α} {i : Nat} (h : [a][i]? = some b) :
    i = 0 ∧ b = a := by
  rw [List.getElem?_singleton] at h
  split at h
  · rename_i hi
    exact ⟨hi, (Option.some.inj h).symm⟩
  · cases h

theorem inserted_start (symbols : List Symbol) : Inserted symbols 0 .start fun _ => [] where
  trie := by
    have htext : text symbols [⟨none, 0, 0⟩] 0 = [] := by
      unfold text NodeData.text
      simp only [List.getElem?_cons_zero]
      split <;> simp
    refine ⟨⟨?_, ?_, ?_, ?_, ?_⟩, ⟨⟨Nat.one_pos, htext⟩, ?_, ?_, ?_⟩, ⟨?_, ?_, ?_, ?_⟩⟩
    · intro p c hc
      cases hc
    · intro p n hn
      obtain ⟨rfl, rfl⟩ := eq_of_getElem?_singleton hn
      exact ⟨rfl, rfl, rfl⟩
    · intro p before c after n hkids
      simp at hkids
    · intro p q c hc
      cases hc
    · exact fun _ => List.nodup_nil
    · intro i data hi
      obtain ⟨rfl, rfl⟩ := eq_of_getElem?_singleton hi
      exact (congrArg List.length htext).symm
    · intro i data s hi hs
      obtain ⟨rfl, rfl⟩ := eq_of_getElem?_singleton hi
      cases hs
    · intro s hs
      exact absurd hs (Nat.not_lt_zero s)
    · intro p c hc
      cases hc
    · intro p c hc
      cases hc
    · exact fun _ => .nil
    · intro i hi hne
      have : i < 1 := by simpa [InsertState.start] using hi
      omega
  ends := by
    refine ⟨0, [], rfl, .root, ?_, rfl, Nat.one_pos⟩
    unfold text NodeData.text
    simp only [InsertState.start, List.map_cons, List.getElem?_cons_zero]
    split <;> simp [UncompressedNode.data]
  start _ := rfl
  previous h := absurd rfl h

theorem insertSymbol_eq_ok {symbols : List Symbol} {k : Nat} {state : InsertState}
    {kids : Nat → List Nat} {symbol : Symbol} (h : Inserted symbols k state kids)
    (hsymbol : symbols[k]? = some symbol) (hlt : k ≠ 0 → state.previousName < symbol.name) :
    ∃ state' kids', insertSymbol state k symbol = .ok state' ∧
      Inserted symbols (k + 1) state' kids' := by
  obtain ⟨top, path, hpath, hends⟩ := h.ends
  have hle := commonPrefixLength_le state.previousName symbol.name
  have htake := take_commonPrefixLength state.previousName symbol.name
  have hprevious : 0 < commonPrefixLength state.previousName symbol.name → k ≠ 0 := by
    rintro hpos rfl
    have hnil := congrArg List.length (h.start rfl)
    rw [List.length_nil] at hnil
    omega
  have hprecedes : commonPrefixLength state.previousName symbol.name < state.previousName.length →
      Precedes (commonPrefixLength state.previousName symbol.name) state.previousName
        symbol.name := by
    intro hlen
    have hk : k ≠ 0 := by
      rintro rfl
      rw [h.start rfl] at hlen
      cases hlen
    exact (commonPrefixLength_of_lt (hlt hk)).2 hlen
  obtain ⟨parent, rest, htruncate, htruncated⟩ := truncatePath_eq_ok
    (commonPrefixLength state.previousName symbol.name) h.trie.labelled h.trie.branching
    hends.spine (by rw [hends.text_eq]) hends.top_lt (.inl ⟨hends.leaf, hends.text_eq⟩)
  obtain ⟨nodes, kids', parent', rest', hbranch, htrie, hattach⟩ := branchAt_eq_ok h.trie htruncated
    hle.1 htake hprecedes fun hpos => h.previous (hprevious hpos)
  obtain ⟨nodes', kids'', top', path', hplace, htrie', hends'⟩ := placeSymbol_eq_ok htrie hattach
    hsymbol hle.2 fun hk => (commonPrefixLength_of_lt (hlt hk)).1
  refine ⟨⟨nodes', symbol.name, top' :: path'⟩, kids'', ?_, htrie', ⟨top', path', rfl, hends'⟩,
    fun hk => absurd hk (Nat.succ_ne_zero k), fun _ => ⟨symbol, hsymbol, rfl⟩⟩
  unfold insertSymbol
  simp only [hpath, htruncate, hbranch, hplace, Fallible.bind_ok]
  rfl

theorem insertSymbols_eq_ok {symbols : List Symbol} {state : InsertState} {kids : Nat → List Nat}
    (hsorted : namesSorted symbols) (done : List Symbol) {rest : List Symbol}
    (hsplit : symbols = done ++ rest)
    (h : Inserted symbols done.length state kids) :
    ∃ state' kids', insertSymbols state done.length rest = .ok state' ∧
      Inserted symbols symbols.length state' kids' := by
  induction rest generalizing done state kids with
  | nil =>
      rw [List.append_nil] at hsplit
      exact ⟨state, kids, rfl, hsplit ▸ h⟩
  | cons symbol rest ih =>
      have hsymbol : symbols[done.length]? = some symbol := by simp [hsplit]
      have hlt : done.length ≠ 0 → state.previousName < symbol.name := by
        intro hne
        obtain ⟨last, hlast, hname⟩ := h.previous hne
        rw [← hname]
        have hpair := List.isChain_iff_getElem.mp hsorted (done.length - 1)
          (by rw [hsplit, List.length_append, List.length_cons]; omega)
        have hlast' := List.getElem?_eq_some_iff.mp hlast
        have hsymbol' := List.getElem?_eq_some_iff.mp hsymbol
        simpa [Nat.sub_add_cancel (Nat.pos_of_ne_zero hne), hlast'.2, hsymbol'.2] using hpair
      obtain ⟨next, kids', hstep, hnext⟩ := insertSymbol_eq_ok h hsymbol hlt
      obtain ⟨state', kids'', hrest, hstate'⟩ := ih (done ++ [symbol]) (by simp [hsplit])
        (by simpa using hnext)
      refine ⟨state', kids'', ?_, hstate'⟩
      rw [insertSymbols, hstep, Fallible.bind_ok]
      simpa using hrest

/-- Sorted names build a trie of all the symbols. -/
theorem topology_new_eq_ok {symbols : List Symbol} (hsorted : namesSorted symbols) :
    ∃ topology kids, Topology.new symbols = .ok topology ∧
      TrieOf symbols symbols.length topology.nodes kids := by
  obtain ⟨state, kids, hok, h⟩ := insertSymbols_eq_ok hsorted [] rfl
    (inserted_start symbols)
  refine ⟨⟨state.nodes⟩, kids, ?_, h.trie⟩
  unfold Topology.new
  rw [Fallible.assert, if_pos hsorted, Fallible.bind_ok]
  exact hok ▸ rfl

end JdxLinker.Trie
