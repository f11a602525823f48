import Mathlib
import JdxLinker.Lib.Failure
import JdxLinker.Lib.Names
import JdxLinker.Lib.Uleb

/-!
# The shape of an exports trie

The nodes of a trie over symbols sorted by name, found in one pass over the names. A node keeps its
children as a linked list, in the order of their first bytes. The label of the edge to a child is
not stored: the child names a symbol below it and its depth in bytes, and the label is the part of
that symbol's name between the depths of the two nodes.
-/

namespace JdxLinker.Trie

structure Symbol where
  name : List UInt8
  address : UInt64
  flags : UInt64
  deriving Repr, DecidableEq

structure UncompressedNode where
  symbol : Option Nat := none
  representative : Nat := 0
  depth : Nat := 0
  firstChild : Option Nat := none
  lastChild : Option Nat := none
  previousSibling : Option Nat := none
  nextSibling : Option Nat := none
  numChildren : Nat := 0
  deriving Repr, DecidableEq

structure Topology where
  nodes : List UncompressedNode
  deriving Repr, DecidableEq

/-- `symbols.windows(2).all(|w| w[0].name < w[1].name)` -/
def namesSorted (symbols : List Symbol) : Prop := symbols.IsChain fun a b => a.name < b.name

instance (symbols : List Symbol) : Decidable (namesSorted symbols) :=
  inferInstanceAs (Decidable (symbols.IsChain fun a b => a.name < b.name))

/-- Changes the node at an index, which has to exist. -/
def updateNode (nodes : List UncompressedNode) (index : Nat)
    (change : UncompressedNode → UncompressedNode) : Fallible (List UncompressedNode) := do
  Fallible.assert (index < nodes.length)
  pure (nodes.modify index change)

/-- Makes `child` the next after its previous sibling, or else the first child of `parent`. -/
def linkAfter (nodes : List UncompressedNode) (previousSibling : Option Nat)
    (parent child : Nat) : Fallible (List UncompressedNode) :=
  match previousSibling with
  | some previousSibling =>
      updateNode nodes previousSibling fun node => { node with nextSibling := some child }
  | none => updateNode nodes parent fun node => { node with firstChild := some child }

def appendChild (nodes : List UncompressedNode) (parent child : Nat) :
    Fallible (List UncompressedNode) := do
  let parentNode ← Fallible.unwrap nodes[parent]?
  let previousSibling := parentNode.lastChild
  let nodes ← updateNode nodes child fun node => { node with previousSibling := previousSibling }
  let nodes ← linkAfter nodes previousSibling parent child
  updateNode nodes parent fun node =>
    { node with lastChild := some child, numChildren := node.numChildren + 1 }

/-- Puts a branch at depth `commonPrefix` on the edge from `parent` to its last child. -/
def splitEdge (nodes : List UncompressedNode) (parent symbolIndex commonPrefix : Nat) :
    Fallible (List UncompressedNode) := do
  let parentNode ← Fallible.unwrap nodes[parent]?
  let previousChild ← Fallible.unwrap parentNode.lastChild
  let previousChildNode ← Fallible.unwrap nodes[previousChild]?
  let previousSibling := previousChildNode.previousSibling
  let branch := nodes.length
  let nodes := nodes ++ [{
    representative := symbolIndex - 1
    depth := commonPrefix
    firstChild := some previousChild
    lastChild := some previousChild
    previousSibling := previousSibling
    numChildren := 1 }]
  let nodes ← updateNode nodes previousChild fun node => { node with previousSibling := none }
  let nodes ← linkAfter nodes previousSibling parent branch
  updateNode nodes parent fun node => { node with lastChild := some branch }

/-- The state of the pass; the path to the node of the previous name has its last node first. -/
structure InsertState where
  nodes : List UncompressedNode
  previousName : List UInt8
  previousPath : List Nat
  deriving Repr, DecidableEq

/-- Pops the nodes that lie deeper than the common prefix. -/
def truncatePath (nodes : List UncompressedNode) (commonPrefix : Nat) :
    List Nat → Fallible (List Nat)
  | [] => .error .panic
  | top :: path => do
      let node ← Fallible.unwrap nodes[top]?
      if node.depth > commonPrefix then
        truncatePath nodes commonPrefix path
      else
        pure (top :: path)

/-- Makes the end of the path a node at depth `commonPrefix`. -/
def branchAt (nodes : List UncompressedNode) (path : List Nat) (symbolIndex commonPrefix : Nat) :
    Fallible (List UncompressedNode × List Nat) := do
  let parent ← Fallible.unwrap path.head?
  let parentNode ← Fallible.unwrap nodes[parent]?
  if parentNode.depth < commonPrefix then do
    let split ← splitEdge nodes parent symbolIndex commonPrefix
    pure (split, nodes.length :: path)
  else
    pure (nodes, path)

/-- Gives the node at the end of the path the symbol, or a new child that has it. -/
def placeSymbol (nodes : List UncompressedNode) (path : List Nat) (symbolIndex : Nat)
    (symbol : Symbol) : Fallible (List UncompressedNode × List Nat) := do
  let parent ← Fallible.unwrap path.head?
  let parentNode ← Fallible.unwrap nodes[parent]?
  if parentNode.depth = symbol.name.length then do
    let nodes ← updateNode nodes parent fun node => { node with symbol := some symbolIndex }
    pure (nodes, path)
  else do
    let child := nodes.length
    let nodes := nodes ++ [{
      symbol := some symbolIndex
      representative := symbolIndex
      depth := symbol.name.length }]
    let nodes ← appendChild nodes parent child
    pure (nodes, child :: path)

def insertSymbol (state : InsertState) (symbolIndex : Nat) (symbol : Symbol) :
    Fallible InsertState := do
  let commonPrefix := Names.commonPrefixLength state.previousName symbol.name
  let path ← truncatePath state.nodes commonPrefix state.previousPath
  let (nodes, path) ← branchAt state.nodes path symbolIndex commonPrefix
  let (nodes, path) ← placeSymbol nodes path symbolIndex symbol
  pure { nodes := nodes, previousName := symbol.name, previousPath := path }

def insertSymbols (state : InsertState) : Nat → List Symbol → Fallible InsertState
  | _, [] => pure state
  | symbolIndex, symbol :: symbols => do
      let state ← insertSymbol state symbolIndex symbol
      insertSymbols state (symbolIndex + 1) symbols

/-- The pass starts at a root without children. -/
def InsertState.start : InsertState := { nodes := [{}], previousName := [], previousPath := [0] }

def Topology.new (symbols : List Symbol) : Fallible Topology := do
  Fallible.assert (namesSorted symbols)
  let state ← insertSymbols .start 0 symbols
  pure { nodes := state.nodes }

end JdxLinker.Trie

/-!
## Laying out and writing an exports trie

The nodes are written in the order of the topology. Where a child begins depends on how many bytes
the offsets in the nodes before it take, which depends on where children begin: the offsets are
recomputed until no size changes.
-/

namespace JdxLinker.Trie

structure Node where
  address : Option UInt64
  flags : UInt64
  firstEdge : Nat
  numEdges : Nat
  offset : Nat
  size : Nat
  deriving Repr, DecidableEq

structure Edge where
  label : List UInt8
  child : Nat
  childOffsetSize : Nat
  deriving Repr, DecidableEq

structure Builder where
  nodes : List Node
  edges : List Edge
  deriving Repr, DecidableEq

/-! ### Nodes and edges -/

/-- `name[start..end]` -/
def sliceRange (name : List UInt8) (start stop : Nat) : Fallible (List UInt8) := do
  Fallible.assert (start ≤ stop ∧ stop ≤ name.length)
  pure ((name.take stop).drop start)

/-- The edges to a child and the siblings after it. There are no more children than nodes, which
bounds the steps along the list. -/
def childEdges (symbols : List Symbol) (uncompressed : List UncompressedNode)
    (source : UncompressedNode) : Nat → Option Nat → Fallible (List Edge)
  | _, none => pure []
  | 0, some _ => .error .panic
  | steps + 1, some childIndex => do
      let childNode ← Fallible.unwrap uncompressed[childIndex]?
      let representative ← Fallible.unwrap symbols[childNode.representative]?
      let label ← sliceRange representative.name source.depth childNode.depth
      let edges ← childEdges symbols uncompressed source steps childNode.nextSibling
      pure ({ label := label, child := childIndex, childOffsetSize := 1 } :: edges)

/-- The address and the flags of the symbol at a node. -/
def exportOf (symbols : List Symbol) (source : UncompressedNode) :
    Fallible (Option UInt64 × UInt64) :=
  match source.symbol with
  | none => pure (none, 0)
  | some i => do
      let symbol ← Fallible.unwrap symbols[i]?
      pure (some symbol.address, symbol.flags)

def buildNodes (symbols : List Symbol) (uncompressed : List UncompressedNode) :
    Builder → List UncompressedNode → Fallible Builder
  | builder, [] => pure builder
  | builder, source :: sources => do
      let (address, flags) ← exportOf symbols source
      Fallible.assert (source.numChildren < 256)
      let edges ← childEdges symbols uncompressed source uncompressed.length source.firstChild
      let node : Node := {
        address := address
        flags := flags
        firstEdge := builder.edges.length
        numEdges := source.numChildren
        offset := 0
        size := 0 }
      buildNodes symbols uncompressed
        { nodes := builder.nodes ++ [node], edges := builder.edges ++ edges } sources

def buildNodesFromTopology (symbols : List Symbol) (topology : Topology) : Fallible Builder :=
  buildNodes symbols topology.nodes { nodes := [], edges := [] } topology.nodes

/-! ### Sizes and offsets -/

def regularExportSize (flags address : UInt64) : Nat :=
  Uleb.size flags.toNat + Uleb.size address.toNat

/-- The size of what a node says about its symbol. -/
def Node.terminalSize (node : Node) : Nat :=
  match node.address with
  | some address => regularExportSize node.flags address
  | none => 0

def nodeEdges (edges : List Edge) (node : Node) : Fallible (List Edge) := do
  Fallible.assert (node.firstEdge + node.numEdges ≤ edges.length)
  pure ((edges.drop node.firstEdge).take node.numEdges)

/-- The bytes of an edge: its label with a NUL, and the child's offset. -/
def Edge.size (edge : Edge) : Nat := edge.label.length + 1 + edge.childOffsetSize

def nodeSize (edges : List Edge) (node : Node) : Fallible Nat := do
  let own ← nodeEdges edges node
  pure (Uleb.size node.terminalSize + node.terminalSize + 1 + (own.map Edge.size).sum)

def placeNodes (edges : List Edge) : Nat → List Node → Fallible (List Node)
  | _, [] => pure []
  | offset, node :: nodes => do
      let size ← nodeSize edges node
      let placed ← placeNodes edges (offset + size) nodes
      pure ({ node with offset := offset, size := size } :: placed)

def resizeEdge (nodes : List Node) (edge : Edge) : Fallible Edge := do
  let child ← Fallible.unwrap nodes[edge.child]?
  pure { edge with childOffsetSize := Uleb.size child.offset }

/-- At most the given number of rounds of the loop; what needs more of them ends in a panic. -/
def layoutRounds : Nat → Builder → Fallible Builder
  | 0, _ => .error .panic
  | rounds + 1, builder => do
      let nodes ← placeNodes builder.edges 0 builder.nodes
      let edges ← builder.edges.mapM (resizeEdge nodes)
      if edges = builder.edges then
        pure { nodes := nodes, edges := edges }
      else
        layoutRounds rounds { nodes := nodes, edges := edges }

/-- The bytes of a trie without those of the offsets. -/
def Builder.baseSize (builder : Builder) : Nat :=
  (builder.nodes.map fun node => Uleb.size node.terminalSize + node.terminalSize + 1
    + (((builder.edges.drop node.firstEdge).take node.numEdges).map
        fun edge => edge.label.length + 1).sum).sum

/-- More bytes than any offset takes. -/
def Builder.offsetSizeBound (builder : Builder) : Nat :=
  builder.baseSize + (builder.nodes.map Node.numEdges).sum + 1

/-- More rounds than the loop takes: every round but the last makes an offset longer. -/
def Builder.roundBound (builder : Builder) : Nat :=
  builder.edges.length * builder.offsetSizeBound + 1

def layoutUntilStable (builder : Builder) : Fallible Builder :=
  layoutRounds builder.roundBound builder

/-! ### Writing -/

def writeRegularExport (flags address : UInt64) : List UInt8 :=
  Uleb.encode flags.toNat ++ Uleb.encode address.toNat

def encodeTerminal (node : Node) : List UInt8 :=
  match node.address with
  | some address =>
      Uleb.encode (regularExportSize node.flags address) ++ writeRegularExport node.flags address
  | none => Uleb.encode 0

def encodeEdge (nodes : List Node) (edge : Edge) : Fallible (List UInt8) := do
  let child ← Fallible.unwrap nodes[edge.child]?
  pure (edge.label ++ [0] ++ Uleb.encode child.offset)

def encodeNode (builder : Builder) (node : Node) : Fallible (List UInt8) := do
  let own ← nodeEdges builder.edges node
  let edges ← own.mapM (encodeEdge builder.nodes)
  pure (encodeTerminal node ++ [UInt8.ofNat node.numEdges] ++ edges.flatten)

def encodeNodes (builder : Builder) : List UInt8 → List Node → Fallible (List UInt8)
  | out, [] => pure out
  | out, node :: nodes => do
      Fallible.assert (out.length = node.offset)
      let bytes ← encodeNode builder node
      encodeNodes builder (out ++ bytes) nodes

def encodedSize (builder : Builder) : Nat :=
  match builder.nodes.getLast? with
  | some node => node.offset + node.size
  | none => 0

def encode (builder : Builder) : Fallible (List UInt8) := do
  let out ← encodeNodes builder [] builder.nodes
  Fallible.assert (out.length = encodedSize builder)
  pure out

/-! ### The trie of a list of symbols -/

def buildWithTopology (symbols : List Symbol) (topology : Topology) : Fallible (List UInt8) :=
  if symbols = [] then
    pure []
  else do
    Fallible.assert (namesSorted symbols)
    let builder ← buildNodesFromTopology symbols topology
    let builder ← layoutUntilStable builder
    encode builder

def buildSorted (symbols : List Symbol) : Fallible (List UInt8) := do
  let topology ← Topology.new symbols
  buildWithTopology symbols topology

def sizeWithTopology (symbols : List Symbol) (topology : Topology) : Fallible Nat :=
  if symbols = [] then
    pure 0
  else do
    let builder ← buildNodesFromTopology symbols topology
    let builder ← layoutUntilStable builder
    pure (encodedSize builder)

end JdxLinker.Trie
