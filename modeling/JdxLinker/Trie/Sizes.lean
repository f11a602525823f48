import JdxLinker.Trie.Topology

/-!
# The rounds of the layout

A round as a function of the builder, for builders whose indices are in range. A round keeps the
order of builders by size, so rounds from the smallest offset sizes only ever make offsets longer,
and they end at sizes that fit the offsets.
-/

namespace JdxLinker.Trie

/-- The edges and children that the nodes and edges name are there. -/
structure Bounded (builder : Builder) : Prop where
  inside : ∀ node ∈ builder.nodes, node.firstEdge + node.numEdges ≤ builder.edges.length
  child : ∀ edge ∈ builder.edges, edge.child < builder.nodes.length

/-- The run of edges of a node. -/
def ownEdges (edges : List Edge) (node : Node) : List Edge :=
  (edges.drop node.firstEdge).take node.numEdges

def sizeOf (edges : List Edge) (node : Node) : Nat :=
  Uleb.size node.terminalSize + node.terminalSize + 1 + ((ownEdges edges node).map Edge.size).sum

/-- The nodes one after another from an offset. -/
def place (edges : List Edge) : Nat → List Node → List Node
  | _, [] => []
  | offset, node :: nodes =>
      { node with offset := offset, size := sizeOf edges node }
        :: place edges (offset + sizeOf edges node) nodes

def offsetOf (nodes : List Node) (i : Nat) : Nat := (nodes[i]?.map Node.offset).getD 0

def resize (nodes : List Node) (edge : Edge) : Edge :=
  { edge with childOffsetSize := Uleb.size (offsetOf nodes edge.child) }

/-- The builder after a round. -/
def relaid (builder : Builder) : Builder where
  nodes := place builder.edges 0 builder.nodes
  edges := builder.edges.map (resize (place builder.edges 0 builder.nodes))

theorem nodeEdges_eq_ok {edges : List Edge} {node : Node}
    (h : node.firstEdge + node.numEdges ≤ edges.length) :
    nodeEdges edges node = .ok (ownEdges edges node) := by
  unfold nodeEdges
  rw [Fallible.assert, if_pos h]
  rfl

theorem place_length (edges : List Edge) (offset : Nat) (nodes : List Node) :
    (place edges offset nodes).length = nodes.length := by
  induction nodes generalizing offset with
  | nil => rfl
  | cons node nodes ih => rw [place, List.length_cons, ih, List.length_cons]

theorem placeNodes_eq_ok {edges : List Edge} {nodes : List Node}
    (h : ∀ node ∈ nodes, node.firstEdge + node.numEdges ≤ edges.length) (offset : Nat) :
    placeNodes edges offset nodes = .ok (place edges offset nodes) := by
  induction nodes generalizing offset with
  | nil => rfl
  | cons node nodes ih =>
      have hsize : nodeSize edges node = .ok (sizeOf edges node) := by
        unfold nodeSize
        rw [nodeEdges_eq_ok (h node List.mem_cons_self)]
        rfl
      rw [placeNodes, hsize, Fallible.bind_ok, ih fun n hn => h n (List.mem_cons_of_mem _ hn)]
      rfl

theorem resizeEdge_eq_ok {nodes : List Node} {edge : Edge} (h : edge.child < nodes.length) :
    resizeEdge nodes edge = .ok (resize nodes edge) := by
  unfold resizeEdge resize offsetOf
  rw [List.getElem?_eq_getElem h]
  rfl

theorem layoutRounds_succ {builder : Builder} (h : Bounded builder) (rounds : Nat) :
    layoutRounds (rounds + 1) builder
      = if (relaid builder).edges = builder.edges then .ok (relaid builder)
        else layoutRounds rounds (relaid builder) := by
  have hedges : builder.edges.mapM (resizeEdge (place builder.edges 0 builder.nodes))
      = .ok (relaid builder).edges :=
    Fallible.mapM_eq_ok_map fun edge hedge => resizeEdge_eq_ok (by
      rw [place_length]
      exact h.child edge hedge)
  rw [layoutRounds, placeNodes_eq_ok h.inside, Fallible.bind_ok, hedges, Fallible.bind_ok]
  rfl

/-! ### What a round keeps -/

/-- A node without what the layout sets. -/
def Node.stripped (node : Node) : Node := { node with offset := 0, size := 0 }

/-- An edge without what the layout sets. -/
def Edge.stripped (edge : Edge) : Edge := { edge with childOffsetSize := 1 }

/-- Builders that differ only in what the layout sets. -/
structure SameShape (a b : Builder) : Prop where
  nodes : a.nodes.map Node.stripped = b.nodes.map Node.stripped
  edges : a.edges.map Edge.stripped = b.edges.map Edge.stripped

theorem place_stripped (edges : List Edge) (offset : Nat) (nodes : List Node) :
    (place edges offset nodes).map Node.stripped = nodes.map Node.stripped := by
  induction nodes generalizing offset with
  | nil => rfl
  | cons node nodes ih => rw [place, List.map_cons, ih, List.map_cons]; rfl

theorem sameShape_relaid (builder : Builder) : SameShape builder (relaid builder) where
  nodes := (place_stripped _ _ _).symm
  edges := by
    unfold relaid
    rw [List.map_map]
    rfl

theorem SameShape.trans {a b c : Builder} (hab : SameShape a b) (hbc : SameShape b c) :
    SameShape a c where
  nodes := hab.nodes.trans hbc.nodes
  edges := hab.edges.trans hbc.edges

theorem SameShape.bounded {a b : Builder} (h : SameShape a b) (ha : Bounded a) : Bounded b where
  inside node hnode := by
    have hlength : a.edges.length = b.edges.length := by simpa using congrArg List.length h.edges
    obtain ⟨node', hnode', heq⟩ := List.mem_map.mp (h.nodes ▸ List.mem_map_of_mem hnode)
    have := ha.inside node' hnode'
    have hfirst : node'.firstEdge = node.firstEdge :=
      (congrArg Node.firstEdge heq : node'.stripped.firstEdge = node.stripped.firstEdge)
    have hnum : node'.numEdges = node.numEdges :=
      (congrArg Node.numEdges heq : node'.stripped.numEdges = node.stripped.numEdges)
    omega
  child edge hedge := by
    have hlength : a.nodes.length = b.nodes.length := by simpa using congrArg List.length h.nodes
    obtain ⟨edge', hedge', heq⟩ := List.mem_map.mp (h.edges ▸ List.mem_map_of_mem hedge)
    have := ha.child edge' hedge'
    have hchild : edge'.child = edge.child :=
      (congrArg Edge.child heq : edge'.stripped.child = edge.stripped.child)
    omega

/-! ### The order of builders by size -/

/-- The same nodes and edges with labels of the same lengths, and nothing larger than there. -/
structure NoLarger (a b : Builder) : Prop where
  nodes : List.Forall₂ (fun n m : Node => n.firstEdge = m.firstEdge ∧ n.numEdges = m.numEdges ∧
    n.terminalSize ≤ m.terminalSize) a.nodes b.nodes
  edges : List.Forall₂ (fun e f : Edge => e.label.length = f.label.length ∧ e.child = f.child ∧
    e.childOffsetSize ≤ f.childOffsetSize) a.edges b.edges

/-- The nodes lie no further on, and are no longer, than there. -/
def NoFurther (ns ms : List Node) : Prop :=
  List.Forall₂ (fun n m : Node => n.offset ≤ m.offset ∧ n.size ≤ m.size) ns ms

theorem forall₂_trans {α : Type} {R : α → α → Prop} (hR : ∀ a b c, R a b → R b c → R a c)
    {as bs cs : List α} (hab : List.Forall₂ R as bs) (hbc : List.Forall₂ R bs cs) :
    List.Forall₂ R as cs := by
  induction hab generalizing cs with
  | nil => exact hbc
  | cons hab _ ih =>
      cases hbc with
      | cons hbc htail => exact .cons (hR _ _ _ hab hbc) (ih htail)

theorem NoLarger.trans {a b c : Builder} (hab : NoLarger a b) (hbc : NoLarger b c) :
    NoLarger a c where
  nodes := forall₂_trans (fun _ _ _ h h' => ⟨h.1.trans h'.1, h.2.1.trans h'.2.1,
    h.2.2.trans h'.2.2⟩) hab.nodes hbc.nodes
  edges := forall₂_trans (fun _ _ _ h h' => ⟨h.1.trans h'.1, h.2.1.trans h'.2.1,
    h.2.2.trans h'.2.2⟩) hab.edges hbc.edges

theorem sizeOf_le {a b : Builder} (h : NoLarger a b) {n m : Node}
    (hfirst : n.firstEdge = m.firstEdge) (hnum : n.numEdges = m.numEdges)
    (hterminal : n.terminalSize ≤ m.terminalSize) : sizeOf a.edges n ≤ sizeOf b.edges m := by
  have hown : List.Forall₂ (· ≤ ·) ((ownEdges a.edges n).map Edge.size)
      ((ownEdges b.edges m).map Edge.size) := by
    unfold ownEdges
    rw [hfirst, hnum, List.forall₂_map_left_iff, List.forall₂_map_right_iff]
    refine (List.forall₂_take _ (List.forall₂_drop _ h.edges)).imp fun e f hef => ?_
    unfold Edge.size
    omega
  have hsum := hown.sum_le_sum
  have hsize := Uleb.size_mono hterminal
  unfold sizeOf
  omega

theorem place_noFurther {a b : Builder} (h : NoLarger a b) {ns ms : List Node}
    (hnodes : List.Forall₂ (fun n m : Node => n.firstEdge = m.firstEdge ∧ n.numEdges = m.numEdges ∧
      n.terminalSize ≤ m.terminalSize) ns ms) {i j : Nat} (hij : i ≤ j) :
    NoFurther (place a.edges i ns) (place b.edges j ms) := by
  induction hnodes generalizing i j with
  | nil => exact .nil
  | cons hnm _ ih =>
      have hsize := sizeOf_le h hnm.1 hnm.2.1 hnm.2.2
      exact .cons ⟨hij, hsize⟩ (ih (Nat.add_le_add hij hsize))

theorem offsetOf_le {ns ms : List Node} (h : NoFurther ns ms) (i : Nat) :
    offsetOf ns i ≤ offsetOf ms i := by
  induction h generalizing i with
  | nil => exact le_rfl
  | cons hnm _ ih =>
      cases i with
      | zero => exact hnm.1
      | succ i => exact ih i

/-- Rounds keep the order. -/
theorem relaid_noLarger {a b : Builder} (h : NoLarger a b) : NoLarger (relaid a) (relaid b) where
  nodes := by
    have hplace : ∀ (edges edges' : List Edge) (i j : Nat) {ns ms : List Node},
        List.Forall₂ (fun n m : Node => n.firstEdge = m.firstEdge ∧ n.numEdges = m.numEdges ∧
          n.terminalSize ≤ m.terminalSize) ns ms →
        List.Forall₂ (fun n m : Node => n.firstEdge = m.firstEdge ∧ n.numEdges = m.numEdges ∧
          n.terminalSize ≤ m.terminalSize) (place edges i ns) (place edges' j ms) := by
      intro edges edges' i j ns ms hnodes
      induction hnodes generalizing i j with
      | nil => exact .nil
      | cons hnm _ ih => exact .cons hnm (ih _ _)
    exact hplace _ _ _ _ h.nodes
  edges := by
    have hoffset := offsetOf_le (place_noFurther h h.nodes (Nat.le_refl 0))
    unfold relaid
    simp only [List.forall₂_map_left_iff, List.forall₂_map_right_iff]
    refine h.edges.imp fun e f hef => ⟨hef.1, hef.2.1, ?_⟩
    unfold resize
    rw [hef.2.1]
    exact Uleb.size_mono (hoffset f.child)

/-! ### The rounds end -/

/-- The bytes that the offsets in all the nodes take. -/
def Builder.offsetBytes (builder : Builder) : Nat :=
  (builder.edges.map Edge.childOffsetSize).sum

/-- No offset takes more bytes than a bound. -/
def Narrow (builder : Builder) (bound : Nat) : Prop :=
  ∀ edge ∈ builder.edges, edge.childOffsetSize ≤ bound

/-- The base size and the number of edges, as the layout leaves them. -/
theorem SameShape.offsetSizeBound {a b : Builder} (h : SameShape a b) :
    a.offsetSizeBound = b.offsetSizeBound := by
  have hnodes : ∀ f : Node → Nat, (∀ node, f node.stripped = f node) →
      (a.nodes.map f).sum = (b.nodes.map f).sum := by
    intro f hf
    have := congrArg (List.map f) h.nodes
    simpa [Function.comp_def, hf] using congrArg List.sum this
  have hown : ∀ node : Node, (((a.edges.drop node.firstEdge).take node.numEdges).map
      fun edge => edge.label.length + 1) = (((b.edges.drop node.firstEdge).take node.numEdges).map
        fun edge => edge.label.length + 1) := by
    intro node
    have := congrArg (fun edges : List Edge => ((edges.drop node.firstEdge).take node.numEdges).map
      fun edge => edge.label.length + 1) h.edges
    simpa [← List.map_drop, ← List.map_take, Function.comp_def, Edge.stripped] using this
  unfold Builder.offsetSizeBound Builder.baseSize
  simp only [hown]
  rw [hnodes _ fun _ => rfl, hnodes Node.numEdges fun _ => rfl]

theorem sizeOf_le_base {builder : Builder} {bound : Nat} (h : Narrow builder bound) (node : Node) :
    sizeOf builder.edges node ≤ Uleb.size node.terminalSize + node.terminalSize + 1
      + ((ownEdges builder.edges node).map fun edge => edge.label.length + 1).sum
      + node.numEdges * bound := by
  have hown : ∀ edges : List Edge, (∀ edge ∈ edges, edge.childOffsetSize ≤ bound) →
      (edges.map Edge.size).sum
        ≤ (edges.map fun edge => edge.label.length + 1).sum + edges.length * bound := by
    intro edges hedges
    induction edges with
    | nil => simp
    | cons edge edges ih =>
        have hedge := hedges edge List.mem_cons_self
        have := ih fun e he => hedges e (List.mem_cons_of_mem _ he)
        simp only [List.map_cons, List.sum_cons, List.length_cons, Nat.succ_mul, Edge.size]
        omega
  have hle := hown (ownEdges builder.edges node) fun edge hedge =>
    h edge (List.mem_of_mem_drop (List.mem_of_mem_take hedge))
  have hlength : (ownEdges builder.edges node).length ≤ node.numEdges := List.length_take_le _ _
  have := Nat.mul_le_mul_right bound hlength
  unfold sizeOf
  omega

theorem offsetOf_place_le (edges : List Edge) (start : Nat) (nodes : List Node) (i : Nat) :
    offsetOf (place edges start nodes) i ≤ start + (nodes.map (sizeOf edges)).sum := by
  induction nodes generalizing start i with
  | nil => exact Nat.zero_le _
  | cons node nodes ih =>
      rw [List.map_cons, List.sum_cons]
      cases i with
      | zero => exact Nat.le_add_right _ _
      | succ i =>
          have := ih (start + sizeOf edges node) i
          unfold offsetOf at this ⊢
          rw [place, List.getElem?_cons_succ]
          omega

/-- A number of bytes and as many offsets make a trie that is addressed in few bytes. -/
theorem lt_pow_bound (base count : Nat) :
    base + count * (base + count + 1) < 128 ^ (base + count + 1) := by
  have hpow : base + count + 1 < 2 ^ (base + count + 1) := Nat.lt_two_pow_self
  calc base + count * (base + count + 1)
      ≤ (base + count + 1) * (base + count + 1) := by
        have : (base + count + 1) * (base + count + 1)
            = base * (base + count + 1) + count * (base + count + 1) + (base + count + 1) := by ring
        omega
    _ < 2 ^ (base + count + 1) * 2 ^ (base + count + 1) := Nat.mul_lt_mul'' hpow hpow
    _ = 4 ^ (base + count + 1) := by rw [← Nat.mul_pow]
    _ ≤ 128 ^ (base + count + 1) := Nat.pow_le_pow_left (by decide) _

/-- Offsets never take more bytes than the bound. -/
theorem relaid_narrow {builder : Builder} (h : Narrow builder builder.offsetSizeBound) :
    Narrow (relaid builder) builder.offsetSizeBound := by
  intro edge hedge
  obtain ⟨edge, -, rfl⟩ := List.mem_map.mp hedge
  have hsum : ∀ nodes : List Node, (nodes.map (sizeOf builder.edges)).sum
      ≤ (nodes.map fun node => Uleb.size node.terminalSize + node.terminalSize + 1
          + ((ownEdges builder.edges node).map fun edge => edge.label.length + 1).sum).sum
        + (nodes.map Node.numEdges).sum * builder.offsetSizeBound := by
    intro nodes
    induction nodes with
    | nil => simp
    | cons node nodes ih =>
        have := sizeOf_le_base h node
        simp only [List.map_cons, List.sum_cons, Nat.add_mul]
        omega
  have hoffset := (offsetOf_place_le builder.edges 0 builder.nodes edge.child).trans
    (Nat.add_le_add_left (hsum builder.nodes) 0)
  refine Uleb.size_le_of_lt (Nat.succ_pos _) (lt_of_le_of_lt hoffset ?_)
  rw [Nat.zero_add]
  exact lt_pow_bound _ _

theorem offsetBytes_le {builder : Builder} {bound : Nat} (h : Narrow builder bound) :
    builder.offsetBytes ≤ builder.edges.length * bound := by
  have := List.sum_le_card_nsmul (builder.edges.map Edge.childOffsetSize) bound (by
    intro n hn
    obtain ⟨edge, hedge, rfl⟩ := List.mem_map.mp hn
    exact h edge hedge)
  simpa [Builder.offsetBytes] using this

/-- A round that changes an offset's size, and shortens none, lengthens some. -/
theorem offsetBytes_lt {builder : Builder} (hgrow : NoLarger builder (relaid builder))
    (hne : (relaid builder).edges ≠ builder.edges) :
    builder.offsetBytes < (relaid builder).offsetBytes := by
  have hmap : ∀ edges : List Edge, (∀ edge ∈ edges,
      edge.childOffsetSize ≤ (resize (relaid builder).nodes edge).childOffsetSize) →
      (edges.map Edge.childOffsetSize).sum
        ≤ ((edges.map (resize (relaid builder).nodes)).map Edge.childOffsetSize).sum ∧
      (edges.map (resize (relaid builder).nodes) ≠ edges →
        (edges.map Edge.childOffsetSize).sum
          < ((edges.map (resize (relaid builder).nodes)).map Edge.childOffsetSize).sum) := by
    intro edges hedges
    induction edges with
    | nil => simp
    | cons edge edges ih =>
        have hedge := hedges edge List.mem_cons_self
        obtain ⟨hle, hlt⟩ := ih fun e he => hedges e (List.mem_cons_of_mem _ he)
        simp only [List.map_cons, List.sum_cons]
        refine ⟨by omega, fun hne => ?_⟩
        by_cases hsame : resize (relaid builder).nodes edge = edge
        · have := hlt fun heq => hne (by rw [hsame, heq])
          rw [hsame]
          omega
        · have hdiff : edge.childOffsetSize
              ≠ (resize (relaid builder).nodes edge).childOffsetSize := by
            intro heq
            exact hsame
              (congrArg (fun size => ({ edge with childOffsetSize := size } : Edge)) heq.symm)
          omega
  refine (hmap builder.edges ?_).2 hne
  have hforall := hgrow.edges
  unfold relaid at hforall
  rw [List.forall₂_map_right_iff] at hforall
  intro edge hedge
  exact (List.forall₂_same.mp hforall edge hedge).2.2

/-- The layout no longer changes anything. -/
def Stable (builder : Builder) : Prop := relaid builder = builder

theorem place_place (edges : List Edge) (offset : Nat) (nodes : List Node) :
    place edges offset (place edges offset nodes) = place edges offset nodes := by
  induction nodes generalizing offset with
  | nil => rfl
  | cons node nodes ih =>
      rw [place, place]
      have hsize : sizeOf edges { node with offset := offset, size := sizeOf edges node }
          = sizeOf edges node := rfl
      rw [hsize, ih]

theorem stable_relaid {builder : Builder} (h : (relaid builder).edges = builder.edges) :
    Stable (relaid builder) := by
  have hnodes : (relaid builder).nodes = place builder.edges 0 builder.nodes := rfl
  have hedges : builder.edges.map (resize (place builder.edges 0 builder.nodes))
      = builder.edges := h
  unfold Stable
  rw [relaid, h, hnodes, place_place, hedges]
  rw [relaid, hedges]

theorem layoutRounds_eq_ok {builder : Builder} (hbounded : Bounded builder)
    (hnarrow : Narrow builder builder.offsetSizeBound) (hgrow : NoLarger builder (relaid builder))
    {rounds : Nat} (hrounds : builder.edges.length * builder.offsetSizeBound
      < rounds + builder.offsetBytes) :
    ∃ result, layoutRounds rounds builder = .ok result ∧ SameShape builder result ∧
      Stable result ∧ NoLarger builder result := by
  induction rounds generalizing builder with
  | zero =>
      have := offsetBytes_le hnarrow
      omega
  | succ rounds ih =>
      rw [layoutRounds_succ hbounded]
      have hshape := sameShape_relaid builder
      by_cases hsame : (relaid builder).edges = builder.edges
      · rw [if_pos hsame]
        exact ⟨_, rfl, hshape, stable_relaid hsame, hgrow⟩
      · rw [if_neg hsame]
        have hlt := offsetBytes_lt hgrow hsame
        have hbound := hshape.offsetSizeBound
        have hlength : (relaid builder).edges.length = builder.edges.length := List.length_map _
        obtain ⟨result, hok, hresult, hstable, hlarger⟩ := ih (hshape.bounded hbounded)
          (hbound ▸ relaid_narrow hnarrow) (relaid_noLarger hgrow) (by rw [hlength, ← hbound]; omega)
        exact ⟨result, hok, hshape.trans hresult, hstable, hgrow.trans hlarger⟩

/-- From offsets of one byte, the layout ends, at offsets that fit. -/
theorem layoutUntilStable_eq_ok {builder : Builder} (hbounded : Bounded builder)
    (hone : ∀ edge ∈ builder.edges, edge.childOffsetSize = 1) :
    ∃ result, layoutUntilStable builder = .ok result ∧ SameShape builder result ∧
      Stable result ∧ NoLarger builder result := by
  refine layoutRounds_eq_ok hbounded ?_ ⟨?_, ?_⟩ ?_
  · intro edge hedge
    rw [hone edge hedge]
    exact Nat.succ_pos _
  · have hplace : ∀ (nodes : List Node) (i : Nat),
        List.Forall₂ (fun n m : Node => n.firstEdge = m.firstEdge ∧ n.numEdges = m.numEdges ∧
          n.terminalSize ≤ m.terminalSize) nodes (place builder.edges i nodes) := by
      intro nodes
      induction nodes with
      | nil => exact fun _ => .nil
      | cons node nodes ih => exact fun i => .cons ⟨rfl, rfl, le_rfl⟩ (ih _)
    exact hplace _ _
  · unfold relaid
    rw [List.forall₂_map_right_iff]
    refine List.forall₂_same.mpr fun edge hedge => ⟨rfl, rfl, ?_⟩
    rw [hone edge hedge]
    exact Uleb.size_pos _
  · unfold Builder.roundBound
    omega

/-! ### What a stable layout says -/

theorem Stable.nodes {builder : Builder} (h : Stable builder) :
    place builder.edges 0 builder.nodes = builder.nodes := congrArg Builder.nodes h

theorem Stable.childOffsetSize {builder : Builder} (h : Stable builder) {edge : Edge}
    (hedge : edge ∈ builder.edges) :
    edge.childOffsetSize = Uleb.size (offsetOf builder.nodes edge.child) := by
  have hedges : builder.edges.map (resize (place builder.edges 0 builder.nodes))
      = builder.edges.map id := by
    rw [List.map_id]
    exact congrArg Builder.edges h
  rw [h.nodes] at hedges
  exact (congrArg Edge.childOffsetSize (List.map_inj_left.mp hedges edge hedge)).symm

/-- A layout that starts no larger than a stable one ends no larger. -/
theorem layoutRounds_noFurther {a b : Builder} (hbounded : Bounded a) (h : NoLarger a b)
    (hstable : Stable b) {rounds : Nat} {result : Builder}
    (hok : layoutRounds rounds a = .ok result) : NoFurther result.nodes b.nodes := by
  induction rounds generalizing a with
  | zero => cases hok
  | succ rounds ih =>
      rw [layoutRounds_succ hbounded] at hok
      split at hok
      · cases hok
        have := place_noFurther h h.nodes (Nat.le_refl 0)
        rw [hstable.nodes] at this
        exact this
      · have hround := relaid_noLarger h
        rw [hstable] at hround
        exact ih ((sameShape_relaid a).bounded hbounded) hround hok

end JdxLinker.Trie
