import JdxLinker.Trie.Topology
import JdxLinker.Trie.Insertion

/-!
# The nodes and edges of the builder

The builder has the nodes of the topology in their order, each with the export of its symbol, and
for every node a run of edges: one to each child, labelled with what the child's string adds.
-/

namespace JdxLinker.Trie

open Names

/-- No name has a NUL byte. -/
def NulFree (symbols : List Symbol) : Prop := ∀ symbol ∈ symbols, 0 ∉ symbol.name

/-- The edges from a node to its children. -/
def kidEdges (symbols : List Symbol) (datas : List NodeData) (kids : Nat → List Nat) (p : Nat) :
    List Edge :=
  (kids p).map fun c =>
    { label := (text symbols datas c).drop (text symbols datas p).length
      child := c
      childOffsetSize := 1 }

section Children

variable {symbols : List Symbol} {k : Nat} {nodes : List UncompressedNode} {kids : Nat → List Nat}

theorem TrieOf.kids_length_le (h : TrieOf symbols k nodes kids) (p : Nat) :
    (kids p).length ≤ nodes.length := by
  have hsub : kids p ⊆ List.range nodes.length := fun c hc =>
    List.mem_range.mpr (h.linked.inside p c hc).2
  simpa using ((h.linked.nodup p).subperm hsub).length_le

/-- A child's string is the start of a name that is long enough. -/
theorem TrieOf.text_child (h : TrieOf symbols k nodes kids) {p c : Nat} (hc : c ∈ kids p)
    {node : UncompressedNode} (hnode : nodes[c]? = some node) :
    ∃ symbol, symbols[node.representative]? = some symbol ∧ node.depth ≤ symbol.name.length ∧
      text symbols (nodes.map UncompressedNode.data) c = symbol.name.take node.depth := by
  have hdata : (nodes.map UncompressedNode.data)[c]? = some node.data := by simp [hnode]
  have hmeasured := h.labelled.measured c node.data hdata
  have hbelow := (h.branching.below p c hc).2
  rw [text_of_getElem? hdata] at hmeasured hbelow ⊢
  unfold NodeData.text at hmeasured hbelow ⊢
  simp only [UncompressedNode.data] at hmeasured hbelow ⊢
  cases hsymbol : symbols[node.representative]? with
  | none => simp [hsymbol] at hbelow
  | some symbol =>
      refine ⟨symbol, rfl, ?_, rfl⟩
      simp only [hsymbol, List.length_take] at hmeasured
      omega

theorem TrieOf.childEdges_eq_ok (h : TrieOf symbols k nodes kids) {p : Nat}
    {source : UncompressedNode} (hsource : nodes[p]? = some source) (before : List Nat)
    {after : List Nat} (hkids : kids p = before ++ after) {steps : Nat} (hsteps : after.length ≤ steps) :
    childEdges symbols nodes source steps after.head? = .ok (after.map fun c =>
      { label := (text symbols (nodes.map UncompressedNode.data) c).drop
          (text symbols (nodes.map UncompressedNode.data) p).length
        child := c
        childOffsetSize := 1 }) := by
  induction after generalizing before steps with
  | nil => cases steps <;> rfl
  | cons c after ih =>
      obtain ⟨steps, rfl⟩ : ∃ n, steps = n + 1 := ⟨steps - 1, by simp at hsteps; omega⟩
      have hc : c ∈ kids p := by simp [hkids]
      have hlt := (h.linked.inside p c hc).2
      have hnode : nodes[c]? = some nodes[c] := List.getElem?_eq_getElem hlt
      obtain ⟨symbol, hsymbol, hdepth, htext⟩ := h.text_child hc hnode
      have hbelow := (h.branching.below p c hc).2
      have hmeasured : source.depth = (text symbols (nodes.map UncompressedNode.data) p).length :=
        h.labelled.measured p source.data (by simp [hsource])
      have hnext := (h.linked.siblings p before c after nodes[c] hkids hnode).2
      have hslice : sliceRange symbol.name source.depth nodes[c].depth
          = .ok ((text symbols (nodes.map UncompressedNode.data) c).drop
              (text symbols (nodes.map UncompressedNode.data) p).length) := by
        unfold sliceRange
        rw [htext, List.length_take] at hbelow
        rw [Fallible.assert, if_pos ⟨by omega, hdepth⟩, htext, hmeasured]
        rfl
      rw [List.head?_cons, childEdges]
      simp only [hnode, hsymbol, hslice, hnext, Fallible.unwrap, Fallible.bind_ok,
        ih (before ++ [c]) (by simp [hkids]) (Nat.le_of_succ_le_succ hsteps)]
      rfl

/-- The next bytes of the children of a node are distinct, so there are fewer than 256 of them. -/
theorem TrieOf.kids_length_lt (h : TrieOf symbols k nodes kids) (hnul : NulFree symbols) (p : Nat) :
    (kids p).length < 256 := by
  have hbytes : ∀ c ∈ kids p, ∃ x, (text symbols (nodes.map UncompressedNode.data) c)[
      (text symbols (nodes.map UncompressedNode.data) p).length]? = some x ∧ x ≠ 0 := by
    intro c hc
    have hlt := (h.linked.inside p c hc).2
    have hbelow := (h.branching.below p c hc).2
    obtain ⟨symbol, hsymbol, -, htext⟩ := h.text_child hc (List.getElem?_eq_getElem hlt)
    refine ⟨_, List.getElem?_eq_getElem hbelow, ?_⟩
    intro hzero
    refine hnul symbol (List.mem_of_getElem? hsymbol) ?_
    have hmem : (text symbols (nodes.map UncompressedNode.data) c)[
        (text symbols (nodes.map UncompressedNode.data) p).length]
          ∈ symbol.name.take nodes[c].depth := by
      rw [← htext]
      exact List.getElem_mem hbelow
    rw [← hzero]
    exact List.mem_of_mem_take hmem
  let byte := fun c => (text symbols (nodes.map UncompressedNode.data) c).getD
    (text symbols (nodes.map UncompressedNode.data) p).length 0
  have hbyte : ∀ c ∈ kids p, byte c ≠ 0 := by
    intro c hc
    obtain ⟨x, hx, hne⟩ := hbytes c hc
    simpa [byte, List.getD, hx] using hne
  have hnodup : ((kids p).map fun c => (byte c).toNat).Nodup := by
    refine List.pairwise_map.mpr ((h.branching.heads p).imp fun {a b} hab => ?_)
    obtain ⟨-, x, y, hx, hy, hxy⟩ := hab
    have hlt := UInt8.lt_iff_toNat_lt.mp hxy
    simp only [byte, List.getD, hx, hy, Option.getD_some]
    omega
  have hsub : ((kids p).map fun c => (byte c).toNat) ⊆ (List.range 256).erase 0 := by
    intro n hn
    obtain ⟨c, hc, rfl⟩ := List.mem_map.mp hn
    refine (List.mem_erase_of_ne ?_).mpr (List.mem_range.mpr (byte c).toNat_lt)
    intro hzero
    exact hbyte c hc (UInt8.toNat_inj.mp hzero)
  have hle := (hnodup.subperm hsub).length_le
  rw [List.length_map, List.length_erase_of_mem (by simp), List.length_range] at hle
  omega

end Children

/-! ### The runs of edges -/

/-- The symbol at a node. -/
def symbolAt (symbols : List Symbol) (source : UncompressedNode) : Option Symbol :=
  source.symbol.bind fun i => symbols[i]?

/-- The builder's node for a node of the topology. -/
structure NodeOf (symbols : List Symbol) (datas : List NodeData) (kids : Nat → List Nat)
    (edges : List Edge) (i : Nat) (source : UncompressedNode) (node : Node) : Prop where
  address : node.address = (symbolAt symbols source).map Symbol.address
  flags : node.flags = ((symbolAt symbols source).map Symbol.flags).getD 0
  numEdges : node.numEdges = (kids i).length
  inside : node.firstEdge + node.numEdges ≤ edges.length
  edges : (edges.drop node.firstEdge).take node.numEdges = kidEdges symbols datas kids i

/-- The builder after the first `n` nodes of the topology. -/
structure BuiltNodes (symbols : List Symbol) (nodes : List UncompressedNode)
    (kids : Nat → List Nat) (n : Nat) (builder : Builder) : Prop where
  length : builder.nodes.length = n
  node : ∀ i source, i < n → nodes[i]? = some source → ∃ node, builder.nodes[i]? = some node ∧
    NodeOf symbols (nodes.map UncompressedNode.data) kids builder.edges i source node
  edge : ∀ e ∈ builder.edges, e.child < nodes.length ∧ e.childOffsetSize = 1

section Build

variable {symbols : List Symbol} {nodes : List UncompressedNode} {kids : Nat → List Nat}

theorem NodeOf.append {datas : List NodeData} {edges : List Edge} {i : Nat}
    {source : UncompressedNode} {node : Node} (h : NodeOf symbols datas kids edges i source node)
    (more : List Edge) : NodeOf symbols datas kids (edges ++ more) i source node where
  address := h.address
  flags := h.flags
  numEdges := h.numEdges
  inside := by
    have := h.inside
    rw [List.length_append]
    omega
  edges := by
    have := h.inside
    rw [← h.edges, List.drop_append_of_le_length (by omega), List.take_append_of_le_length]
    rw [List.length_drop]
    omega

theorem TrieOf.exportOf_eq_ok {k : Nat} (h : TrieOf symbols k nodes kids) {i : Nat}
    {source : UncompressedNode} (hsource : nodes[i]? = some source) :
    exportOf symbols source = .ok ((symbolAt symbols source).map Symbol.address,
      ((symbolAt symbols source).map Symbol.flags).getD 0) := by
  unfold exportOf symbolAt
  cases hs : source.symbol with
  | none => rfl
  | some s =>
      obtain ⟨-, symbol, hsymbol, -⟩ := h.labelled.named i source.data s (by simp [hsource]) hs
      simp only [Option.bind_some, hsymbol, Fallible.unwrap]
      rfl

theorem TrieOf.buildNode_step {k : Nat} (h : TrieOf symbols k nodes kids) {i : Nat}
    {source : UncompressedNode} (hsource : nodes[i]? = some source) {builder : Builder}
    (hbuilt : BuiltNodes symbols nodes kids i builder) {node : Node}
    (hnode : node = {
      address := (symbolAt symbols source).map Symbol.address
      flags := ((symbolAt symbols source).map Symbol.flags).getD 0
      firstEdge := builder.edges.length
      numEdges := source.numChildren
      offset := 0
      size := 0 }) :
    BuiltNodes symbols nodes kids (i + 1) {
      nodes := builder.nodes ++ [node]
      edges := builder.edges ++ kidEdges symbols (nodes.map UncompressedNode.data) kids i } where
  length := by rw [List.length_append, hbuilt.length, List.length_singleton]
  node j source' hj hsource' := by
    by_cases hji : j < i
    · obtain ⟨node', hnode', hof⟩ := hbuilt.node j source' hji hsource'
      refine ⟨node', ?_, hof.append _⟩
      rw [List.getElem?_append_left (by rw [hbuilt.length]; exact hji), hnode']
    · obtain rfl : j = i := by omega
      obtain rfl : source = source' := Option.some.inj (hsource.symm.trans hsource')
      have hnum := (h.linked.ends j source hsource).2.2
      refine ⟨node, ?_, ?_⟩
      · have hlen := hbuilt.length
        simp [← hlen]
      · subst hnode
        refine ⟨rfl, rfl, hnum, ?_, ?_⟩
        · simp [kidEdges, hnum]
        · simp [kidEdges, hnum]
  edge e he := by
    rcases List.mem_append.mp he with he | he
    · exact hbuilt.edge e he
    · obtain ⟨c, hc, rfl⟩ := List.mem_map.mp he
      exact ⟨(h.linked.inside i c hc).2, rfl⟩

theorem TrieOf.buildNodes_eq_ok {k : Nat} (h : TrieOf symbols k nodes kids)
    (hfew : ∀ p, (kids p).length < 256) (done : List UncompressedNode) {rest : List UncompressedNode}
    (hsplit : nodes = done ++ rest) {builder : Builder} (hbuilt : BuiltNodes symbols nodes kids done.length builder) :
    ∃ result, buildNodes symbols nodes builder rest = .ok result ∧
      BuiltNodes symbols nodes kids nodes.length result := by
  induction rest generalizing done builder with
  | nil =>
      rw [List.append_nil] at hsplit
      exact ⟨builder, rfl, hsplit ▸ hbuilt⟩
  | cons source rest ih =>
      have hsource : nodes[done.length]? = some source := by simp [hsplit]
      obtain ⟨hfirst, -, hnum⟩ := h.linked.ends done.length source hsource
      have hedges := h.childEdges_eq_ok hsource [] (List.nil_append (kids done.length)).symm
        (h.kids_length_le done.length)
      have hstep := h.buildNode_step hsource hbuilt rfl
      obtain ⟨result, hok, hresult⟩ := ih (done ++ [source]) (by simp [hsplit])
        (by simpa using hstep)
      refine ⟨result, ?_, hresult⟩
      rw [buildNodes, h.exportOf_eq_ok hsource]
      simp only [Fallible.bind_ok]
      rw [Fallible.assert, if_pos (hnum ▸ hfew done.length), hfirst, hedges]
      exact hok

theorem buildNodesFromTopology_eq_ok {k : Nat} {topology : Topology}
    (h : TrieOf symbols k topology.nodes kids) (hfew : ∀ p, (kids p).length < 256) :
    ∃ builder, buildNodesFromTopology symbols topology = .ok builder ∧
      BuiltNodes symbols topology.nodes kids topology.nodes.length builder := by
  refine h.buildNodes_eq_ok hfew [] rfl ⟨rfl, ?_, ?_⟩
  · intro i source hi
    exact absurd hi (Nat.not_lt_zero i)
  · intro e he
    cases he

end Build

end JdxLinker.Trie
