import JdxLinker.Trie.Sizes
import JdxLinker.Trie.Nodes

/-!
# The bytes of a trie

A stable layout is written without a failed assertion, and every node's bytes begin at its offset.
-/

namespace JdxLinker.Trie

def edgeBytes (nodes : List Node) (edge : Edge) : List UInt8 :=
  edge.label ++ [0] ++ Uleb.encode (offsetOf nodes edge.child)

def nodeBytes (builder : Builder) (node : Node) : List UInt8 :=
  encodeTerminal node ++ [UInt8.ofNat node.numEdges]
    ++ ((ownEdges builder.edges node).map (edgeBytes builder.nodes)).flatten

theorem encodeTerminal_length (node : Node) :
    (encodeTerminal node).length = Uleb.size node.terminalSize + node.terminalSize := by
  unfold encodeTerminal Node.terminalSize writeRegularExport
  cases node.address with
  | none => exact Uleb.encode_length 0
  | some address => simp [regularExportSize]

section Encode

variable {builder : Builder}

theorem nodeBytes_length (hstable : Stable builder) (node : Node) :
    (nodeBytes builder node).length = sizeOf builder.edges node := by
  have hedges : ((ownEdges builder.edges node).map (edgeBytes builder.nodes)).flatten.length
      = ((ownEdges builder.edges node).map Edge.size).sum := by
    rw [List.length_flatten, List.map_map]
    congr 1
    refine List.map_congr_left fun edge hedge => ?_
    have := hstable.childOffsetSize (List.mem_of_mem_drop (List.mem_of_mem_take hedge))
    simp [edgeBytes, Edge.size, this]
    omega
  unfold nodeBytes sizeOf
  rw [List.length_append, List.length_append, encodeTerminal_length, hedges,
    List.length_singleton]

theorem encodeNode_eq_ok (hbounded : Bounded builder) {node : Node} (hnode : node ∈ builder.nodes) :
    encodeNode builder node = .ok (nodeBytes builder node) := by
  have hedges : (ownEdges builder.edges node).mapM (encodeEdge builder.nodes)
      = .ok ((ownEdges builder.edges node).map (edgeBytes builder.nodes)) := by
    refine Fallible.mapM_eq_ok_map fun edge hedge => ?_
    have hchild := hbounded.child edge (List.mem_of_mem_drop (List.mem_of_mem_take hedge))
    unfold encodeEdge edgeBytes offsetOf
    rw [List.getElem?_eq_getElem hchild]
    rfl
  unfold encodeNode
  rw [nodeEdges_eq_ok (hbounded.inside node hnode), Fallible.bind_ok, hedges]
  rfl

theorem encodeNodes_eq_ok (hbounded : Bounded builder) (hstable : Stable builder)
    {nodes : List Node} (hsub : nodes ⊆ builder.nodes) {out : List UInt8}
    (hplace : place builder.edges out.length nodes = nodes) :
    encodeNodes builder out nodes = .ok (out ++ (nodes.map (nodeBytes builder)).flatten) := by
  induction nodes generalizing out with
  | nil => simp [encodeNodes, pure, Except.pure]
  | cons node nodes ih =>
      rw [place, List.cons.injEq] at hplace
      have hoffset : out.length = node.offset := congrArg Node.offset hplace.1
      have hlength := nodeBytes_length hstable node
      rw [encodeNodes, Fallible.assert, if_pos hoffset, Fallible.bind_ok,
        encodeNode_eq_ok hbounded (hsub List.mem_cons_self), Fallible.bind_ok,
        ih (fun n hn => hsub (List.mem_cons_of_mem _ hn)) (by
          rw [List.length_append, hlength]
          exact hplace.2)]
      simp

theorem place_last {edges : List Edge} {start : Nat} {nodes : List Node} {node : Node}
    (hplace : place edges start nodes = nodes) (hlast : nodes.getLast? = some node) :
    node.offset + node.size = start + (nodes.map (sizeOf edges)).sum := by
  induction nodes generalizing start with
  | nil => cases hlast
  | cons first nodes ih =>
      rw [place, List.cons.injEq] at hplace
      have hoffset : start = first.offset := congrArg Node.offset hplace.1
      have hsize : sizeOf edges first = first.size := congrArg Node.size hplace.1
      cases nodes with
      | nil =>
          obtain rfl : first = node := by simpa using hlast
          rw [List.map_cons, List.map_nil, List.sum_singleton, hsize, hoffset]
      | cons second nodes =>
          have := ih hplace.2 (by simpa [List.getLast?_cons_cons] using hlast)
          rw [List.map_cons, List.sum_cons, this]
          omega

theorem flatten_length_eq (hstable : Stable builder) (nodes : List Node) :
    ((nodes.map (nodeBytes builder)).flatten).length
      = (nodes.map (sizeOf builder.edges)).sum := by
  rw [List.length_flatten, List.map_map]
  congr 1
  exact List.map_congr_left fun node _ => nodeBytes_length hstable node

theorem encodedSize_eq (hstable : Stable builder) :
    encodedSize builder = (builder.nodes.map (sizeOf builder.edges)).sum := by
  unfold encodedSize
  cases hlast : builder.nodes.getLast? with
  | none => rw [List.getLast?_eq_none_iff.mp hlast]; rfl
  | some node =>
      have := place_last hstable.nodes hlast
      simpa using this

/-- A stable layout is written, and takes as many bytes as it says. -/
theorem encode_eq_ok (hbounded : Bounded builder) (hstable : Stable builder) :
    encode builder = .ok (builder.nodes.map (nodeBytes builder)).flatten ∧
      (builder.nodes.map (nodeBytes builder)).flatten.length = encodedSize builder := by
  have hlength : (builder.nodes.map (nodeBytes builder)).flatten.length = encodedSize builder := by
    rw [flatten_length_eq hstable, encodedSize_eq hstable]
  refine ⟨?_, hlength⟩
  unfold encode
  have hplace : place builder.edges ([] : List UInt8).length builder.nodes = builder.nodes :=
    hstable.nodes
  rw [encodeNodes_eq_ok hbounded hstable (List.Subset.refl _) hplace, List.nil_append,
    Fallible.bind_ok, Fallible.assert, if_pos hlength]
  rfl

/-- The bytes of a node begin at its offset. -/
theorem nodeBytes_isPrefix (hstable : Stable builder) {nodes : List Node} {start : Nat}
    (hplace : place builder.edges start nodes = nodes) {i : Nat} {node : Node}
    (hnode : nodes[i]? = some node) :
    start ≤ node.offset ∧
      nodeBytes builder node <+: (nodes.map (nodeBytes builder)).flatten.drop (node.offset - start) := by
  induction nodes generalizing start i with
  | nil => cases hnode
  | cons first nodes ih =>
      rw [place, List.cons.injEq] at hplace
      have hoffset : start = first.offset := congrArg Node.offset hplace.1
      rw [List.map_cons, List.flatten_cons]
      cases i with
      | zero =>
          obtain rfl : first = node := by simpa using hnode
          rw [hoffset, Nat.sub_self, List.drop_zero]
          exact ⟨le_rfl, List.prefix_append _ _⟩
      | succ i =>
          obtain ⟨hle, hstarts⟩ := ih hplace.2 (by simpa using hnode)
          have hlength := nodeBytes_length hstable first
          have hdrop : node.offset - start
              = (nodeBytes builder first).length + (node.offset - (start + sizeOf builder.edges first))
              := by omega
          refine ⟨by omega, ?_⟩
          rw [hdrop, ← List.drop_drop, List.drop_left]
          exact hstarts

end Encode

end JdxLinker.Trie

/-!
## Reading an exports trie

The reader of the format: a node is the size of what it says about its symbol, that many bytes with
the flags and the address, the number of children, and for each child a label that ends with a NUL
and the offset of the child from the start of the trie.
-/

namespace JdxLinker.Trie

/-- The label at the start of the bytes, and the bytes after its NUL. -/
def readLabel : List UInt8 → Option (List UInt8 × List UInt8)
  | [] => none
  | byte :: bytes =>
      if byte = 0 then
        some ([], bytes)
      else
        (readLabel bytes).map fun read => (byte :: read.1, read.2)

/-- The labels and offsets of children. -/
def readEdges : Nat → List UInt8 → Option (List (List UInt8 × Nat))
  | 0, _ => some []
  | count + 1, bytes => do
      let (label, bytes) ← readLabel bytes
      let (offset, bytes) ← Uleb.decode bytes
      let edges ← readEdges count bytes
      some ((label, offset) :: edges)

/-- A number that has to fit in 64 bits. -/
def readU64 (bytes : List UInt8) : Option (UInt64 × List UInt8) := do
  let (value, bytes) ← Uleb.decode bytes
  if value < UInt64.size then
    some (UInt64.ofNat value, bytes)
  else
    none

/-- The symbol at a node, from the bytes that the node has for it. -/
def readTerminal (name bytes : List UInt8) : Option (List Symbol) :=
  if bytes = [] then
    some []
  else do
    let (flags, bytes) ← readU64 bytes
    let (address, _) ← readU64 bytes
    some [{ name := name, address := address, flags := flags }]

/-- The symbols of the node at an offset and of those below it, down to a number of levels. -/
def readNode (data : List UInt8) : Nat → List UInt8 → Nat → Option (List Symbol)
  | 0, _, _ => none
  | levels + 1, name, offset => do
      let (terminalSize, bytes) ← Uleb.decode (data.drop offset)
      let here ← readTerminal name (bytes.take terminalSize)
      let count ← (bytes.drop terminalSize).head?
      let edges ← readEdges count.toNat (bytes.drop terminalSize).tail
      let below ← edges.mapM fun edge => readNode data levels (name ++ edge.1) edge.2
      some (here ++ below.flatten)

/-- The symbols of a trie; it has no more levels than bytes. -/
def readTrie (data : List UInt8) : Option (List Symbol) :=
  if data = [] then some [] else readNode data data.length [] 0

/-! ### Reading what was written -/

theorem readLabel_append {label : List UInt8} (h : 0 ∉ label) (rest : List UInt8) :
    readLabel (label ++ [0] ++ rest) = some (label, rest) := by
  induction label with
  | nil => rfl
  | cons byte label ih =>
      have hbyte : byte ≠ 0 := fun hzero => h (hzero ▸ List.mem_cons_self)
      have hlabel : 0 ∉ label := fun hmem => h (List.mem_cons_of_mem _ hmem)
      rw [List.cons_append, List.cons_append, readLabel, if_neg hbyte, ih hlabel]
      rfl

theorem readEdges_append (nodes : List Node) {edges : List Edge}
    (h : ∀ edge ∈ edges, 0 ∉ edge.label) (rest : List UInt8) :
    readEdges edges.length ((edges.map (edgeBytes nodes)).flatten ++ rest)
      = some (edges.map fun edge => (edge.label, offsetOf nodes edge.child)) := by
  induction edges with
  | nil => rfl
  | cons edge edges ih =>
      rw [List.length_cons, List.map_cons, List.flatten_cons, readEdges, edgeBytes,
        List.append_assoc, List.append_assoc, List.append_assoc, ← List.append_assoc edge.label,
        readLabel_append (h edge List.mem_cons_self)]
      simp only [Option.bind_eq_bind, Option.bind_some, Uleb.decode_encode]
      rw [ih fun e he => h e (List.mem_cons_of_mem _ he)]
      rfl

theorem readU64_encode (value : UInt64) (rest : List UInt8) :
    readU64 (Uleb.encode value.toNat ++ rest) = some (value, rest) := by
  unfold readU64
  rw [Uleb.decode_encode]
  simp [value.toNat_lt]

/-- What a node says about a symbol is read back. -/
theorem readTerminal_writeRegularExport (name : List UInt8) (flags address : UInt64) :
    readTerminal name (writeRegularExport flags address)
      = some [{ name := name, address := address, flags := flags }] := by
  have hne : writeRegularExport flags address ≠ [] := by
    intro hnil
    have hlength := congrArg List.length hnil
    have := Uleb.size_pos flags.toNat
    simp [writeRegularExport] at hlength
    omega
  have haddress : readU64 (Uleb.encode address.toNat) = some (address, []) := by
    simpa using readU64_encode address []
  unfold readTerminal
  rw [if_neg hne, writeRegularExport, readU64_encode]
  simp only [Option.bind_eq_bind, Option.bind_some, haddress]

/-- The symbol that a node has, under a name. -/
def Node.symbol (node : Node) (name : List UInt8) : List Symbol :=
  match node.address with
  | some address => [{ name := name, address := address, flags := node.flags }]
  | none => []

theorem decode_encodeTerminal (node : Node) (name tail : List UInt8) :
    ∃ payload, Uleb.decode (encodeTerminal node ++ tail) = some (node.terminalSize, payload ++ tail) ∧
      payload.length = node.terminalSize ∧ readTerminal name payload = some (node.symbol name) := by
  unfold encodeTerminal Node.terminalSize Node.symbol
  cases node.address with
  | none => exact ⟨[], Uleb.decode_encode 0 tail, rfl, rfl⟩
  | some address =>
      refine ⟨writeRegularExport node.flags address, ?_, ?_,
        readTerminal_writeRegularExport name node.flags address⟩
      · simp only [List.append_assoc, Uleb.decode_encode]
      · simp [writeRegularExport, regularExportSize]

/-- One node of a written trie is read as its symbol and what its edges lead to. -/
theorem readNode_nodeBytes {builder : Builder} {node : Node} {data : List UInt8} {offset : Nat}
    (hdata : nodeBytes builder node <+: data.drop offset)
    (hedges : (ownEdges builder.edges node).length = node.numEdges)
    (hlabel : ∀ edge ∈ ownEdges builder.edges node, 0 ∉ edge.label) (hcount : node.numEdges < 256)
    (levels : Nat) (name : List UInt8) :
    readNode data (levels + 1) name offset = (do
      let below ← ((ownEdges builder.edges node).map fun edge =>
        (edge.label, offsetOf builder.nodes edge.child)).mapM fun edge =>
          readNode data levels (name ++ edge.1) edge.2
      some (node.symbol name ++ below.flatten)) := by
  obtain ⟨rest, hrest⟩ := hdata
  have hbyte : (UInt8.ofNat node.numEdges).toNat = node.numEdges := UInt8.toNat_ofNat_of_lt' hcount
  obtain ⟨payload, hdecode, hlength, hterminal⟩ := decode_encodeTerminal node name
    ([UInt8.ofNat node.numEdges]
      ++ (((ownEdges builder.edges node).map (edgeBytes builder.nodes)).flatten ++ rest))
  have hread := readEdges_append builder.nodes hlabel rest
  rw [hedges] at hread
  rw [readNode, ← hrest, nodeBytes, List.append_assoc, List.append_assoc, hdecode]
  simp only [Option.bind_eq_bind, Option.bind_some, ← hlength, List.take_left, List.drop_left,
    hterminal, List.singleton_append, List.head?_cons, List.tail_cons, hbyte, hread]

end JdxLinker.Trie
