import JdxLinker.Trie.Encoding

/-!
# The round trip of an exports trie

The reader walks the written nodes as the children are linked, and finds the symbols in the order of
their names, which is the order they were given in.
-/

namespace JdxLinker.Trie

open Names

/-- A builder that is ready to be written, with the trie that it was built from. -/
structure Written (symbols : List Symbol) (nodes : List UncompressedNode) (kids : Nat → List Nat)
    (builder : Builder) : Prop where
  trie : TrieOf symbols symbols.length nodes kids
  bounded : Bounded builder
  stable : Stable builder
  length : builder.nodes.length = nodes.length
  node : ∀ i source, nodes[i]? = some source → ∃ node, builder.nodes[i]? = some node ∧
    node.address = (symbolAt symbols source).map Symbol.address ∧
    node.flags = ((symbolAt symbols source).map Symbol.flags).getD 0 ∧
    node.numEdges = (kids i).length ∧
    (ownEdges builder.edges node).map Edge.stripped
      = kidEdges symbols (nodes.map UncompressedNode.data) kids i

theorem BuiltNodes.bounded {symbols : List Symbol} {nodes : List UncompressedNode}
    {kids : Nat → List Nat} {builder : Builder}
    (h : BuiltNodes symbols nodes kids nodes.length builder) : Bounded builder where
  inside node hnode := by
    obtain ⟨i, hi, rfl⟩ := List.mem_iff_getElem.mp hnode
    have hlt : i < nodes.length := h.length ▸ hi
    obtain ⟨node, hget, hof⟩ := h.node i nodes[i] hlt (List.getElem?_eq_getElem hlt)
    rw [List.getElem?_eq_getElem hi] at hget
    exact Option.some.inj hget ▸ hof.inside
  child edge hedge := by
    rw [h.length]
    exact (h.edge edge hedge).1

theorem Edge.stripped_of_one {edge : Edge} (h : edge.childOffsetSize = 1) : edge.stripped = edge := by
  cases edge
  cases h
  rfl

/-- The layout leaves what was built. -/
theorem BuiltNodes.written {symbols : List Symbol} {nodes : List UncompressedNode}
    {kids : Nat → List Nat} {built laid : Builder}
    (h : BuiltNodes symbols nodes kids nodes.length built)
    (htrie : TrieOf symbols symbols.length nodes kids) (hshape : SameShape built laid)
    (hstable : Stable laid) : Written symbols nodes kids laid where
  trie := htrie
  bounded := hshape.bounded h.bounded
  stable := hstable
  length := by
    have := congrArg List.length hshape.nodes
    simp only [List.length_map] at this
    rw [← this, h.length]
  node i source hsource := by
    have hlt := (List.getElem?_eq_some_iff.mp hsource).1
    obtain ⟨node, hnode, hof⟩ := h.node i source hlt hsource
    have hget := congrArg (fun nodes : List Node => nodes[i]?) hshape.nodes
    simp only [List.getElem?_map, hnode, Option.map_some] at hget
    obtain ⟨node', hnode', hsame⟩ := Option.map_eq_some_iff.mp hget.symm
    have hfirst : node'.firstEdge = node.firstEdge :=
      (congrArg Node.firstEdge hsame : node'.stripped.firstEdge = node.stripped.firstEdge)
    have hnum : node'.numEdges = node.numEdges :=
      (congrArg Node.numEdges hsame : node'.stripped.numEdges = node.stripped.numEdges)
    refine ⟨node', hnode', ?_, ?_, hnum.trans hof.numEdges, ?_⟩
    · rw [← hof.address]
      exact (congrArg Node.address hsame : node'.stripped.address = node.stripped.address)
    · rw [← hof.flags]
      exact (congrArg Node.flags hsame : node'.stripped.flags = node.stripped.flags)
    · have hown := hof.edges
      unfold ownEdges
      rw [hfirst, hnum, List.map_take, List.map_drop, ← hshape.edges, ← List.map_drop,
        ← List.map_take, hown]
      refine (List.map_congr_left fun edge hedge => ?_).trans (List.map_id _)
      obtain ⟨c, -, rfl⟩ := List.mem_map.mp hedge
      rfl

/-! ### The walk over the children -/

/-- The symbols of a node and of those below it, down to a number of levels. -/
def walk (symbols : List Symbol) (nodes : List UncompressedNode) (kids : Nat → List Nat) :
    Nat → Nat → List Symbol
  | 0, _ => []
  | levels + 1, i => (nodes[i]?.bind (symbolAt symbols)).toList
      ++ ((kids i).map (walk symbols nodes kids levels)).flatten

/-- The number of nodes with longer strings. -/
def rank (symbols : List Symbol) (datas : List NodeData) (i : Nat) : Nat :=
  ((Finset.range datas.length).filter fun j =>
    (text symbols datas i).length < (text symbols datas j).length).card

theorem Branching.rank_lt {symbols : List Symbol} {datas : List NodeData} {kids : Nat → List Nat}
    (h : Branching symbols datas kids) {p c : Nat} (hc : c ∈ kids p) :
    rank symbols datas c < rank symbols datas p := by
  have hbelow := (h.below p c hc).2
  refine Finset.card_lt_card (Finset.ssubset_iff_of_subset ?_ |>.mpr ⟨c, ?_, ?_⟩)
  · intro j hj
    rw [Finset.mem_filter] at hj ⊢
    exact ⟨hj.1, hbelow.trans hj.2⟩
  · exact Finset.mem_filter.mpr ⟨Finset.mem_range.mpr (h.inside p c hc).2, hbelow⟩
  · simp

theorem rank_lt_length {symbols : List Symbol} {datas : List NodeData} {i : Nat}
    (hi : i < datas.length) : rank symbols datas i < datas.length := by
  have hlt := Finset.card_lt_card (Finset.filter_ssubset (s := Finset.range datas.length)
    (p := fun j => (text symbols datas i).length < (text symbols datas j).length) |>.mpr
      ⟨i, Finset.mem_range.mpr hi, lt_irrefl _⟩)
  rwa [Finset.card_range] at hlt

section Walk

variable {symbols : List Symbol} {nodes : List UncompressedNode} {kids : Nat → List Nat}

/-- A symbol at a node has the name that the node stands for. -/
theorem TrieOf.symbolAt_name {k : Nat} (h : TrieOf symbols k nodes kids) {i : Nat}
    {symbol : Symbol} (hsymbol : nodes[i]?.bind (symbolAt symbols) = some symbol) :
    symbol.name = text symbols (nodes.map UncompressedNode.data) i ∧ symbol ∈ symbols := by
  obtain ⟨source, hsource, hat⟩ := Option.bind_eq_some_iff.mp hsymbol
  obtain ⟨s, hs, hget⟩ := Option.bind_eq_some_iff.mp hat
  obtain ⟨-, symbol', hget', hname⟩ := h.labelled.named i source.data s (by simp [hsource]) hs
  obtain rfl : symbol' = symbol := Option.some.inj (hget'.symm.trans hget)
  exact ⟨hname, List.mem_of_getElem? hget⟩

theorem TrieOf.mem_walk {k : Nat} (h : TrieOf symbols k nodes kids) {levels i : Nat}
    {symbol : Symbol} (hsymbol : symbol ∈ walk symbols nodes kids levels i) :
    text symbols (nodes.map UncompressedNode.data) i <+: symbol.name ∧ symbol ∈ symbols := by
  induction levels generalizing i with
  | zero => cases hsymbol
  | succ levels ih =>
      rcases List.mem_append.mp hsymbol with hhere | hbelow
      · obtain ⟨hname, hmem⟩ := h.symbolAt_name (Option.mem_toList.mp hhere)
        exact ⟨hname ▸ List.prefix_rfl, hmem⟩
      · obtain ⟨below, hbelow', hmem⟩ := List.mem_flatten.mp hbelow
        obtain ⟨c, hc, rfl⟩ := List.mem_map.mp hbelow'
        obtain ⟨hstarts, hmem⟩ := ih hmem
        exact ⟨(h.branching.below i c hc).1.trans hstarts, hmem⟩

/-- The walk meets the symbols in the order of their names. -/
theorem TrieOf.walk_pairwise {k : Nat} (h : TrieOf symbols k nodes kids) (levels i : Nat) :
    (walk symbols nodes kids levels i).Pairwise fun a b => a.name < b.name := by
  induction levels generalizing i with
  | zero => exact .nil
  | succ levels ih =>
      refine List.pairwise_append.mpr ⟨?_, ?_, ?_⟩
      · cases nodes[i]?.bind (symbolAt symbols) <;> simp
      · refine List.pairwise_flatten.mpr ⟨?_, ?_⟩
        · intro below hbelow
          obtain ⟨c, -, rfl⟩ := List.mem_map.mp hbelow
          exact ih c
        · refine List.pairwise_map.mpr ((h.branching.heads i).imp fun {c c'} hcc => ?_)
          intro a ha b hb
          exact (hcc.extend (h.mem_walk ha).1 (h.mem_walk hb).1).lt
      · intro a ha b hb
        obtain ⟨hname, -⟩ := h.symbolAt_name (Option.mem_toList.mp ha)
        obtain ⟨below, hbelow, hmem⟩ := List.mem_flatten.mp hb
        obtain ⟨c, hc, rfl⟩ := List.mem_map.mp hbelow
        obtain ⟨hstarts, hlt⟩ := h.branching.below i c hc
        have hb := (h.mem_walk hmem).1
        rw [← hname] at hstarts hlt
        exact lt_of_isPrefix (hstarts.trans hb) (hlt.trans_le hb.length_le)

theorem walk_mono {levels levels' i : Nat} (hle : levels ≤ levels') :
    walk symbols nodes kids levels i ⊆ walk symbols nodes kids levels' i := by
  induction levels generalizing levels' i with
  | zero => exact List.nil_subset _
  | succ levels ih =>
      obtain ⟨levels', rfl⟩ : ∃ n, levels' = n + 1 := ⟨levels' - 1, by omega⟩
      intro symbol hsymbol
      rcases List.mem_append.mp hsymbol with hhere | hbelow
      · exact List.mem_append_left _ hhere
      · obtain ⟨below, hbelow', hmem⟩ := List.mem_flatten.mp hbelow
        obtain ⟨c, hc, rfl⟩ := List.mem_map.mp hbelow'
        exact List.mem_append_right _ (List.mem_flatten.mpr ⟨_, List.mem_map_of_mem hc,
          ih (by omega) hmem⟩)

/-- What a node's walk meets, the root's walk meets. -/
theorem TrieOf.walk_root {k : Nat} (h : TrieOf symbols k nodes kids) {i : Nat}
    (hi : i < nodes.length) {symbol : Symbol}
    (hsymbol : symbol ∈ walk symbols nodes kids
      (rank symbols (nodes.map UncompressedNode.data) i + 1) i) :
    symbol ∈ walk symbols nodes kids (rank symbols (nodes.map UncompressedNode.data) 0 + 1) 0 := by
  induction hlen : (text symbols (nodes.map UncompressedNode.data) i).length using
    Nat.strong_induction_on generalizing i with
  | _ n ih =>
      by_cases hzero : i = 0
      · exact hzero ▸ hsymbol
      · obtain ⟨p, hp⟩ := h.branching.connected i (by simpa using hi) hzero
        have hrank := h.branching.rank_lt hp
        refine ih _ (hlen ▸ (h.branching.below p i hp).2) (by
          simpa using (h.branching.inside p i hp).1) ?_ rfl
        exact List.mem_append_right _ (List.mem_flatten.mpr ⟨_, List.mem_map_of_mem hp,
          walk_mono (by omega) hsymbol⟩)

/-- The walk from the root meets the symbols, and nothing else. -/
theorem TrieOf.walk_eq (h : TrieOf symbols symbols.length nodes kids) (hsorted : namesSorted symbols)
    {levels : Nat} (hlevels : nodes.length ≤ levels) : walk symbols nodes kids levels 0 = symbols := by
  have hirrefl : Std.Irrefl fun a b : Symbol => a.name < b.name := ⟨fun a => List.lt_irrefl a.name⟩
  have hantisymm : Std.Antisymm fun a b : Symbol => a.name < b.name :=
    ⟨fun a b hab hba => absurd (List.lt_trans hab hba) (List.lt_irrefl a.name)⟩
  have htrans : IsTrans Symbol fun a b : Symbol => a.name < b.name :=
    ⟨fun a b c hab hbc => List.lt_trans hab hbc⟩
  refine (h.walk_pairwise levels 0).eq_of_mem_iff (List.isChain_iff_pairwise.mp hsorted)
    fun symbol => ⟨fun hmem => (h.mem_walk hmem).2, fun hmem => ?_⟩
  obtain ⟨s, hs, hget⟩ := List.mem_iff_getElem.mp hmem
  obtain ⟨i, data, hdata, hsymbol⟩ := h.labelled.complete s hs
  rw [List.getElem?_map] at hdata
  obtain ⟨source, hsource, rfl⟩ := Option.map_eq_some_iff.mp hdata
  have hi := (List.getElem?_eq_some_iff.mp hsource).1
  have hat : nodes[i]?.bind (symbolAt symbols) = some symbol := by
    have hsome : source.symbol = some s := hsymbol
    rw [hsource, Option.bind_some, symbolAt, hsome, Option.bind_some, List.getElem?_eq_getElem hs,
      hget]
  have hroot := h.labelled.root.1
  refine walk_mono ?_ (h.walk_root hi (List.mem_append_left _ (Option.mem_toList.mpr hat)))
  have hrank : rank symbols (nodes.map UncompressedNode.data) 0
      < (nodes.map UncompressedNode.data).length := rank_lt_length hroot
  rw [List.length_map] at hrank
  omega

end Walk

/-! ### Reading a written trie -/

theorem mapM_some {α β : Type} {f : α → Option β} {g : α → β} {as : List α}
    (h : ∀ a ∈ as, f a = some (g a)) : as.mapM f = some (as.map g) := by
  induction as with
  | nil => rfl
  | cons a as ih =>
      rw [List.mapM_cons, h a List.mem_cons_self, ih fun b hb => h b (List.mem_cons_of_mem _ hb)]
      rfl

section Read

variable {symbols : List Symbol} {nodes : List UncompressedNode} {kids : Nat → List Nat}
  {builder : Builder}

/-- The edges of a node, as the reader sees them. -/
theorem edges_read {i : Nat} {node : Node}
    (hown : (ownEdges builder.edges node).map Edge.stripped
      = kidEdges symbols (nodes.map UncompressedNode.data) kids i) :
    ((ownEdges builder.edges node).map fun edge =>
        (edge.label, offsetOf builder.nodes edge.child))
      = (kids i).map fun c =>
          ((text symbols (nodes.map UncompressedNode.data) c).drop
            (text symbols (nodes.map UncompressedNode.data) i).length, offsetOf builder.nodes c) := by
  have hmap := congrArg (List.map fun edge : Edge =>
    (edge.label, offsetOf builder.nodes edge.child)) hown
  simpa [kidEdges, Function.comp_def, Edge.stripped] using hmap

theorem Written.label_nulFree (h : Written symbols nodes kids builder) (hnul : NulFree symbols) {i : Nat} {node : Node}
    (hown : (ownEdges builder.edges node).map Edge.stripped
      = kidEdges symbols (nodes.map UncompressedNode.data) kids i) :
    ∀ edge ∈ ownEdges builder.edges node, 0 ∉ edge.label := by
  intro edge hedge hzero
  have hmem := List.mem_map_of_mem (f := Edge.stripped) hedge
  rw [hown] at hmem
  obtain ⟨c, hc, heq⟩ := List.mem_map.mp hmem
  have hlt := (h.trie.linked.inside i c hc).2
  obtain ⟨symbol, hsymbol, -, htext⟩ := h.trie.text_child hc (List.getElem?_eq_getElem hlt)
  have hlabel : (text symbols (nodes.map UncompressedNode.data) c).drop
      (text symbols (nodes.map UncompressedNode.data) i).length = edge.label :=
    (congrArg Edge.label heq : _ = edge.stripped.label)
  rw [← hlabel, htext] at hzero
  exact hnul symbol (List.mem_of_getElem? hsymbol)
    (List.mem_of_mem_take (List.mem_of_mem_drop hzero))

theorem Written.readNode_eq (h : Written symbols nodes kids builder) (hnul : NulFree symbols)
    {levels i : Nat} (hi : i < nodes.length)
    (hrank : rank symbols (nodes.map UncompressedNode.data) i < levels) :
    readNode (builder.nodes.map (nodeBytes builder)).flatten levels
      (text symbols (nodes.map UncompressedNode.data) i) (offsetOf builder.nodes i)
        = some (walk symbols nodes kids levels i) := by
  induction levels generalizing i with
  | zero => omega
  | succ levels ih =>
      have hsource : nodes[i]? = some nodes[i] := List.getElem?_eq_getElem hi
      obtain ⟨node, hnode, haddress, hflags, hnum, hown⟩ := h.node i nodes[i] hsource
      have hlength : (ownEdges builder.edges node).length = node.numEdges := by
        have := congrArg List.length hown
        simpa [kidEdges, hnum] using this
      have hoffset : offsetOf builder.nodes i = node.offset := by
        unfold offsetOf
        rw [hnode]
        rfl
      have hstarts := (nodeBytes_isPrefix h.stable h.stable.nodes hnode).2
      rw [Nat.sub_zero, ← hoffset] at hstarts
      rw [readNode_nodeBytes hstarts hlength (h.label_nulFree hnul hown)
        (hnum ▸ h.trie.kids_length_lt hnul i), edges_read hown]
      have hbelow : ((kids i).map fun c =>
          ((text symbols (nodes.map UncompressedNode.data) c).drop
            (text symbols (nodes.map UncompressedNode.data) i).length,
            offsetOf builder.nodes c)).mapM (fun edge =>
              readNode (builder.nodes.map (nodeBytes builder)).flatten levels
                (text symbols (nodes.map UncompressedNode.data) i ++ edge.1) edge.2)
          = some ((kids i).map (walk symbols nodes kids levels)) := by
        rw [List.mapM_map]
        refine mapM_some fun c hc => ?_
        have hrank' := h.trie.branching.rank_lt hc
        have hname : text symbols (nodes.map UncompressedNode.data) i
            ++ (text symbols (nodes.map UncompressedNode.data) c).drop
              (text symbols (nodes.map UncompressedNode.data) i).length
            = text symbols (nodes.map UncompressedNode.data) c := by
          obtain ⟨suffix, hsuffix⟩ := (h.trie.branching.below i c hc).1
          rw [← hsuffix, List.drop_left]
        rw [Function.comp_apply, hname]
        exact ih (h.trie.linked.inside i c hc).2 (by omega)
      have hhere : node.symbol (text symbols (nodes.map UncompressedNode.data) i)
          = (nodes[i]?.bind (symbolAt symbols)).toList := by
        unfold Node.symbol
        rw [haddress, hflags, hsource, Option.bind_some]
        cases hat : symbolAt symbols nodes[i] with
        | none => rfl
        | some symbol =>
            have hname := (h.trie.symbolAt_name (i := i) (by rw [hsource]; exact hat)).1
            simp [← hname]
      rw [hbelow, hhere]
      rfl

/-- The bytes of a trie are at least as many as its nodes. -/
theorem Written.length_le (h : Written symbols nodes kids builder) :
    nodes.length ≤ (builder.nodes.map (nodeBytes builder)).flatten.length := by
  have hsum : ∀ ns : List Node, ns.length ≤ (ns.map (sizeOf builder.edges)).sum := by
    intro ns
    induction ns with
    | nil => exact le_rfl
    | cons node ns ih =>
        have : 1 ≤ sizeOf builder.edges node := by
          unfold sizeOf
          omega
        rw [List.length_cons, List.map_cons, List.sum_cons]
        omega
  rw [flatten_length_eq h.stable, ← h.length]
  exact hsum builder.nodes

theorem Written.readTrie_eq (h : Written symbols nodes kids builder) (hnul : NulFree symbols)
    (hsorted : namesSorted symbols) :
    readTrie (builder.nodes.map (nodeBytes builder)).flatten = some symbols := by
  have hroot : 0 < nodes.length := by simpa using h.trie.labelled.root.1
  have hlength := h.length_le
  have hoffset : offsetOf builder.nodes 0 = 0 := by
    have hplace := h.stable.nodes
    unfold offsetOf
    cases hnodes : builder.nodes with
    | nil => rfl
    | cons node rest =>
        rw [hnodes, place, List.cons.injEq] at hplace
        exact (congrArg Node.offset hplace.1).symm
  have hrank : rank symbols (nodes.map UncompressedNode.data) 0
      < (nodes.map UncompressedNode.data).length := rank_lt_length h.trie.labelled.root.1
  rw [List.length_map] at hrank
  have hread := h.readNode_eq hnul hroot (hrank.trans_le hlength)
  rw [h.trie.labelled.root.2, hoffset, h.trie.walk_eq hsorted hlength] at hread
  unfold readTrie
  rw [if_neg, hread]
  intro hnil
  rw [hnil, List.length_nil] at hlength
  omega

end Read

/-! ### The trie of sorted symbols -/

/-- Building, laying out and writing sorted symbols succeeds. -/
theorem buildWithTopology_eq_ok {symbols : List Symbol} {topology : Topology}
    {kids : Nat → List Nat} (hne : symbols ≠ []) (hsorted : namesSorted symbols)
    (hfew : ∀ p, (kids p).length < 256) (htrie : TrieOf symbols symbols.length topology.nodes kids) :
    ∃ built laid, buildNodesFromTopology symbols topology = .ok built ∧
      layoutUntilStable built = .ok laid ∧ Written symbols topology.nodes kids laid ∧
      buildWithTopology symbols topology
        = .ok (laid.nodes.map (nodeBytes laid)).flatten := by
  obtain ⟨built, hbuilt, hnodes⟩ := buildNodesFromTopology_eq_ok htrie hfew
  obtain ⟨laid, hlaid, hshape, hstable, -⟩ := layoutUntilStable_eq_ok hnodes.bounded
    fun edge hedge => (hnodes.edge edge hedge).2
  have hwritten := hnodes.written htrie hshape hstable
  refine ⟨built, laid, hbuilt, hlaid, hwritten, ?_⟩
  unfold buildWithTopology
  rw [if_neg hne, Fallible.assert, if_pos hsorted, Fallible.bind_ok, hbuilt, Fallible.bind_ok, hlaid,
    Fallible.bind_ok]
  exact (encode_eq_ok hwritten.bounded hstable).1

/-- An edge as it is written leads to the bytes of its child. -/
theorem Written.edge_child {symbols : List Symbol} {nodes : List UncompressedNode}
    {kids : Nat → List Nat} {builder : Builder} (h : Written symbols nodes kids builder)
    {edge : Edge} (hedge : edge ∈ builder.edges) :
    ∃ child bytes, builder.nodes[edge.child]? = some child ∧
      encodeEdge builder.nodes edge = .ok (edge.label ++ [0] ++ Uleb.encode child.offset) ∧
      encodeNode builder child = .ok bytes ∧
      bytes <+: (builder.nodes.map (nodeBytes builder)).flatten.drop child.offset := by
  have hlt := h.bounded.child edge hedge
  have hchild : builder.nodes[edge.child]? = some builder.nodes[edge.child] :=
    List.getElem?_eq_getElem hlt
  refine ⟨builder.nodes[edge.child], nodeBytes builder builder.nodes[edge.child], hchild, ?_,
    encodeNode_eq_ok h.bounded (List.getElem_mem hlt), ?_⟩
  · unfold encodeEdge
    rw [hchild]
    rfl
  · have := (nodeBytes_isPrefix h.stable h.stable.nodes hchild).2
    rwa [Nat.sub_zero] at this

/-- The bytes of `build_sorted` decode to the symbols, and every child offset that was written is
where the child's bytes begin. -/
theorem exports_trie_round_trip (symbols : List Symbol) (hsorted : namesSorted symbols)
    (hnul : NulFree symbols) :
    ∃ bytes, buildSorted symbols = .ok bytes ∧ readTrie bytes = some symbols ∧
      (symbols ≠ [] → ∃ topology built laid, Topology.new symbols = .ok topology ∧
        buildNodesFromTopology symbols topology = .ok built ∧ layoutUntilStable built = .ok laid ∧
        encode laid = .ok bytes ∧ ∀ edge ∈ laid.edges, ∃ child childBytes,
          laid.nodes[edge.child]? = some child ∧
          encodeEdge laid.nodes edge = .ok (edge.label ++ [0] ++ Uleb.encode child.offset) ∧
          encodeNode laid child = .ok childBytes ∧ childBytes <+: bytes.drop child.offset) := by
  obtain ⟨topology, kids, htopology, htrie⟩ := topology_new_eq_ok hsorted
  by_cases hne : symbols = []
  · subst hne
    refine ⟨[], ?_, rfl, fun h => absurd rfl h⟩
    unfold buildSorted
    rw [htopology]
    rfl
  · obtain ⟨built, laid, hbuilt, hlaid, hwritten, hbytes⟩ :=
      buildWithTopology_eq_ok hne hsorted (htrie.kids_length_lt hnul) htrie
    refine ⟨(laid.nodes.map (nodeBytes laid)).flatten, ?_, hwritten.readTrie_eq hnul hsorted,
      fun _ => ⟨topology, built, laid, htopology, hbuilt, hlaid,
        (encode_eq_ok hwritten.bounded hwritten.stable).1, fun edge => hwritten.edge_child⟩⟩
    unfold buildSorted
    rw [htopology]
    exact hbytes

theorem exports_trie_round_trip_two :
    ∃ bytes, buildSorted [⟨[97], 1, 0⟩, ⟨[97, 98], 300, 4⟩] = .ok bytes ∧
      readTrie bytes = some [⟨[97], 1, 0⟩, ⟨[97, 98], 300, 4⟩] := by
  obtain ⟨bytes, hbytes, hread, -⟩ := exports_trie_round_trip [⟨[97], 1, 0⟩, ⟨[97, 98], 300, 4⟩]
    (by decide) (by unfold NulFree; decide)
  exact ⟨bytes, hbytes, hread⟩

end JdxLinker.Trie
