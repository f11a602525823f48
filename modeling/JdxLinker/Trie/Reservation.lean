import JdxLinker.Trie.RoundTrip

/-!
# Space for the exports trie

Space is reserved before addresses are known, for the trie of all dynamic symbol definitions with the
largest address. What is written is the trie of the definitions that have an address by then. When
all have one, the topology is that of the reservation, and what is written fits.
-/

namespace JdxLinker.Trie

/-! ### Reserving and writing -/

def maximumAddress : UInt64 := 0xffffffffffffffff

def EXPORT_SYMBOL_FLAGS_KIND_ABSOLUTE : UInt64 := 2

def EXPORT_SYMBOL_FLAGS_WEAK_DEFINITION : UInt64 := 4

/-- The symbols that `finalise_sizes_epilogue` measures. -/
def maximumExports (names : List (List UInt8)) : List Symbol :=
  names.map fun name => { name := name, address := maximumAddress, flags := 0 }

/-- The topology that is kept and the bytes that are reserved. -/
def reserveExportsTrie (names : List (List UInt8)) : Fallible (Topology × Nat) := do
  let topology ← Topology.new (maximumExports names)
  let size ← sizeWithTopology (maximumExports names) topology
  pure (topology, size)

/-- A dynamic symbol definition with its resolution. -/
structure ExportDefinition where
  name : List UInt8
  isAbsolute : Bool
  rawValue : UInt64
  isWeak : Bool
  deriving Repr, DecidableEq

def exportFlags (isAbsolute isWeak : Bool) : UInt64 :=
  (if isAbsolute then EXPORT_SYMBOL_FLAGS_KIND_ABSOLUTE else 0)
    ||| (if isWeak then EXPORT_SYMBOL_FLAGS_WEAK_DEFINITION else 0)

/-- Definitions in sections that were not selected have no address, and are not exported. -/
def exportSymbol (imageBase : UInt64) (definition : ExportDefinition) : Option Symbol :=
  if !definition.isAbsolute && decide (definition.rawValue < imageBase) then
    none
  else
    some {
      name := definition.name
      address :=
        if definition.isAbsolute then definition.rawValue else definition.rawValue - imageBase
      flags := exportFlags definition.isAbsolute definition.isWeak }

/-- The trie of the symbols that are left of a number of definitions. -/
def writeExportsTrie (numDefinitions : Nat) (topology : Topology) (symbols : List Symbol) :
    Fallible (List UInt8) :=
  if symbols.length = numDefinitions then
    buildWithTopology symbols topology
  else
    buildSorted symbols

def buildExportsTrie (imageBase : UInt64) (definitions : List ExportDefinition)
    (topology : Topology) : Fallible (List UInt8) :=
  writeExportsTrie definitions.length topology (definitions.filterMap (exportSymbol imageBase))

/-! ### Only the names shape a trie -/

section SameNames

variable {symbols symbols' : List Symbol}

theorem insertSymbols_congr (hnames : symbols.map Symbol.name = symbols'.map Symbol.name)
    (state : InsertState) (i : Nat) :
    insertSymbols state i symbols = insertSymbols state i symbols' := by
  induction symbols generalizing symbols' state i with
  | nil =>
      cases symbols' with
      | nil => rfl
      | cons symbol' symbols' => cases hnames
  | cons symbol symbols ih =>
      cases symbols' with
      | nil => cases hnames
      | cons symbol' symbols' =>
          rw [List.map_cons, List.map_cons, List.cons.injEq] at hnames
          have hstep : insertSymbol state i symbol = insertSymbol state i symbol' := by
            unfold insertSymbol placeSymbol
            simp only [hnames.1]
          rw [insertSymbols, insertSymbols, hstep]
          exact congrArg _ (funext fun state => ih hnames.2 state (i + 1))

theorem namesSorted_iff (symbols : List Symbol) :
    namesSorted symbols ↔ (symbols.map Symbol.name).IsChain (· < ·) :=
  (List.isChain_map Symbol.name).symm

theorem topology_new_congr (hnames : symbols.map Symbol.name = symbols'.map Symbol.name) :
    Topology.new symbols = Topology.new symbols' := by
  unfold Topology.new
  simp only [namesSorted_iff, hnames, insertSymbols_congr hnames]

theorem getElem?_name (hnames : symbols.map Symbol.name = symbols'.map Symbol.name) (i : Nat) :
    symbols[i]?.map Symbol.name = symbols'[i]?.map Symbol.name := by
  rw [← List.getElem?_map, ← List.getElem?_map, hnames]

theorem childEdges_congr (hnames : symbols.map Symbol.name = symbols'.map Symbol.name)
    (nodes : List UncompressedNode) (source : UncompressedNode) (steps : Nat)
    (child : Option Nat) :
    childEdges symbols nodes source steps child = childEdges symbols' nodes source steps child := by
  induction steps generalizing child with
  | zero => cases child <;> rfl
  | succ steps ih =>
      cases child with
      | none => rfl
      | some c =>
          rw [childEdges, childEdges]
          refine congrArg _ (funext fun node => ?_)
          have hname := getElem?_name hnames node.representative
          cases hs : symbols[node.representative]? with
          | none =>
              have hs' : symbols'[node.representative]? = none := by simpa [hs] using hname.symm
              rw [hs']
              rfl
          | some symbol =>
              obtain ⟨symbol', hs', hname'⟩ := Option.map_eq_some_iff.mp (by simpa [hs] using hname.symm)
              rw [hs']
              simp only [Fallible.unwrap, Fallible.bind_ok, hname', ih]

/-- No export of the first symbols takes more bytes than its counterpart. -/
def SmallerExports (symbols symbols' : List Symbol) : Prop :=
  ∀ (i : Nat) (symbol symbol' : Symbol), symbols[i]? = some symbol → symbols'[i]? = some symbol' →
    regularExportSize symbol.flags symbol.address ≤ regularExportSize symbol'.flags symbol'.address

theorem exportOf_terminalSize (hsize : SmallerExports symbols symbols')
    {source : UncompressedNode} {address address' : Option UInt64} {flags flags' : UInt64}
    (h : exportOf symbols source = .ok (address, flags))
    (h' : exportOf symbols' source = .ok (address', flags')) (firstEdge numEdges : Nat) :
    (Node.mk address flags firstEdge numEdges 0 0).terminalSize
      ≤ (Node.mk address' flags' firstEdge numEdges 0 0).terminalSize := by
  unfold exportOf at h h'
  cases hs : source.symbol with
  | none =>
      rw [hs] at h h'
      cases h
      cases h'
      exact le_rfl
  | some i =>
      rw [hs] at h h'
      obtain ⟨symbol, hsymbol, h⟩ := Fallible.bind_eq_ok.mp h
      obtain ⟨symbol', hsymbol', h'⟩ := Fallible.bind_eq_ok.mp h'
      cases h
      cases h'
      exact hsize i symbol symbol' (Fallible.unwrap_eq_ok.mp hsymbol)
        (Fallible.unwrap_eq_ok.mp hsymbol')

/-- Two builds of one topology differ in what the nodes say about their symbols. -/
theorem buildNodes_noLarger (hnames : symbols.map Symbol.name = symbols'.map Symbol.name)
    (hsize : SmallerExports symbols symbols')
    {nodes sources : List UncompressedNode} {builder builder' result result' : Builder}
    (hle : NoLarger builder builder') (hok : buildNodes symbols nodes builder sources = .ok result)
    (hok' : buildNodes symbols' nodes builder' sources = .ok result') : NoLarger result result' := by
  induction sources generalizing builder builder' with
  | nil =>
      cases hok
      cases hok'
      exact hle
  | cons source sources ih =>
      obtain ⟨⟨address, flags⟩, hexport, hok⟩ := Fallible.bind_eq_ok.mp hok
      obtain ⟨⟨address', flags'⟩, hexport', hok'⟩ := Fallible.bind_eq_ok.mp hok'
      obtain ⟨⟨⟩, -, hok⟩ := Fallible.bind_eq_ok.mp hok
      obtain ⟨⟨⟩, -, hok'⟩ := Fallible.bind_eq_ok.mp hok'
      obtain ⟨edges, hedges, hok⟩ := Fallible.bind_eq_ok.mp hok
      obtain ⟨edges', hedges', hok'⟩ := Fallible.bind_eq_ok.mp hok'
      have hsame : edges = edges' := by
        rw [childEdges_congr hnames] at hedges
        exact Except.ok.inj (hedges.symm.trans hedges')
      have hlength := hle.edges.length_eq
      refine ih ⟨?_, ?_⟩ hok hok'
      · refine List.rel_append hle.nodes (.cons ⟨hlength, rfl, ?_⟩ .nil)
        exact exportOf_terminalSize hsize hexport hexport' _ _
      · exact List.rel_append hle.edges (hsame ▸ List.forall₂_same.mpr fun _ _ => ⟨rfl, rfl, le_rfl⟩)

end SameNames

/-! ### Fitting into the reservation -/

theorem encodedSize_le {a b : Builder} (h : NoFurther a.nodes b.nodes) :
    encodedSize a ≤ encodedSize b := by
  unfold encodedSize
  revert h
  generalize a.nodes = ns
  generalize b.nodes = ms
  intro h
  induction h with
  | nil => exact le_rfl
  | @cons n m ns ms hnm htail ih =>
      cases htail with
      | nil => exact Nat.add_le_add hnm.1 hnm.2
      | cons hnm' htail' => simpa [List.getLast?_cons_cons] using ih

/-- No node of a topology that could be built has too many children. -/
theorem buildNodes_numChildren {symbols : List Symbol} {nodes sources : List UncompressedNode}
    {builder result : Builder} (hok : buildNodes symbols nodes builder sources = .ok result) :
    ∀ source ∈ sources, source.numChildren < 256 := by
  induction sources generalizing builder with
  | nil => simp
  | cons source sources ih =>
      obtain ⟨⟨address, flags⟩, -, hok⟩ := Fallible.bind_eq_ok.mp hok
      obtain ⟨⟨⟩, hfew, hok⟩ := Fallible.bind_eq_ok.mp hok
      obtain ⟨edges, -, hok⟩ := Fallible.bind_eq_ok.mp hok
      intro source' hsource'
      cases hsource' with
      | head => exact Fallible.assert_eq_ok.mp hfew
      | tail _ hsource' => exact ih hok source' hsource'

theorem TrieOf.kids_length_lt_of_built {symbols symbols' : List Symbol} {k : Nat}
    {topology : Topology} {kids : Nat → List Nat} (h : TrieOf symbols k topology.nodes kids)
    {builder : Builder} (hok : buildNodesFromTopology symbols' topology = .ok builder) (p : Nat) :
    (kids p).length < 256 := by
  by_cases hp : p < topology.nodes.length
  · rw [← (h.linked.ends p topology.nodes[p] (List.getElem?_eq_getElem hp)).2.2]
    exact buildNodes_numChildren hok _ (List.getElem_mem hp)
  · rw [h.linked.kids_of_le (by omega)]
    exact Nat.succ_pos _

/-- The symbols of the same names with larger exports take no less space, on the same topology. -/
theorem length_le_sizeWithTopology {symbols symbols' : List Symbol} (hsorted : namesSorted symbols)
    (hnames : symbols.map Symbol.name = symbols'.map Symbol.name)
    (hsize : SmallerExports symbols symbols')
    {topology : Topology} (htopology : Topology.new symbols' = .ok topology) {size : Nat}
    (hreserve : sizeWithTopology symbols' topology = .ok size) {bytes : List UInt8}
    (hwrite : buildWithTopology symbols topology = .ok bytes) : bytes.length ≤ size := by
  have hsorted' : namesSorted symbols' := by
    rw [namesSorted_iff, ← hnames, ← namesSorted_iff]
    exact hsorted
  by_cases hne : symbols = []
  · unfold buildWithTopology at hwrite
    rw [if_pos hne] at hwrite
    cases hwrite
    exact Nat.zero_le _
  · have hne' : symbols' ≠ [] := by
      rintro rfl
      simp at hnames
      exact hne hnames
    unfold buildWithTopology at hwrite
    unfold sizeWithTopology at hreserve
    rw [if_neg hne] at hwrite
    rw [if_neg hne'] at hreserve
    obtain ⟨⟨⟩, -, hwrite⟩ := Fallible.bind_eq_ok.mp hwrite
    obtain ⟨built, hbuilt, hwrite⟩ := Fallible.bind_eq_ok.mp hwrite
    obtain ⟨laid, hlaid, hwrite⟩ := Fallible.bind_eq_ok.mp hwrite
    obtain ⟨built', hbuilt', hreserve⟩ := Fallible.bind_eq_ok.mp hreserve
    obtain ⟨laid', hlaid', hreserve⟩ := Fallible.bind_eq_ok.mp hreserve
    obtain ⟨out, -, hwrite⟩ := Fallible.bind_eq_ok.mp hwrite
    obtain ⟨⟨⟩, hlength, hwrite⟩ := Fallible.bind_eq_ok.mp hwrite
    cases hreserve
    cases hwrite
    rw [Fallible.assert_eq_ok.mp hlength]
    -- both tries are built on the topology of the names
    obtain ⟨topology', kids', htopology', htrie'⟩ := topology_new_eq_ok hsorted'
    obtain rfl : topology' = topology := Except.ok.inj (htopology'.symm.trans htopology)
    obtain ⟨topology'', kids, htopology'', htrie⟩ := topology_new_eq_ok hsorted
    obtain rfl : topology'' = topology' := by
      rw [topology_new_congr hnames] at htopology''
      exact Except.ok.inj (htopology''.symm.trans htopology')
    obtain ⟨built₁, hbuilt₁, hnodes⟩ := buildNodesFromTopology_eq_ok htrie
      (htrie.kids_length_lt_of_built hbuilt)
    obtain rfl : built₁ = built := Except.ok.inj (hbuilt₁.symm.trans hbuilt)
    obtain ⟨built₂, hbuilt₂, hnodes'⟩ := buildNodesFromTopology_eq_ok htrie'
      (htrie'.kids_length_lt_of_built hbuilt)
    obtain rfl : built₂ = built' := Except.ok.inj (hbuilt₂.symm.trans hbuilt')
    obtain ⟨laid₂, hlaid₂, -, hstable, hgrown⟩ := layoutUntilStable_eq_ok hnodes'.bounded
      fun edge hedge => (hnodes'.edge edge hedge).2
    obtain rfl : laid₂ = laid' := Except.ok.inj (hlaid₂.symm.trans hlaid')
    have hle : NoLarger built₁ built₂ := buildNodes_noLarger hnames hsize ⟨.nil, .nil⟩ hbuilt hbuilt'
    exact encodedSize_le (layoutRounds_noFurther hnodes.bounded (hle.trans hgrown) hstable hlaid)

theorem exportFlags_size (isAbsolute isWeak : Bool) :
    Uleb.size (exportFlags isAbsolute isWeak).toNat = 1 := by
  cases isAbsolute <;> cases isWeak <;> decide

/-- No export takes more bytes than one with the largest address. -/
theorem regularExportSize_le_maximum {flags : UInt64} (address : UInt64)
    (hflags : ∃ isAbsolute isWeak, flags = exportFlags isAbsolute isWeak) :
    regularExportSize flags address ≤ regularExportSize 0 maximumAddress := by
  obtain ⟨isAbsolute, isWeak, rfl⟩ := hflags
  have hzero : Uleb.size (0 : UInt64).toNat = 1 := by decide
  have haddress : Uleb.size address.toNat ≤ Uleb.size maximumAddress.toNat := by
    refine Uleb.size_mono ?_
    have := address.toNat_lt
    have hmaximum : maximumAddress.toNat = 2 ^ 64 - 1 := by decide
    omega
  unfold regularExportSize
  rw [exportFlags_size, hzero]
  omega

theorem maximumExports_names (names : List (List UInt8)) :
    (maximumExports names).map Symbol.name = names := by
  unfold maximumExports
  rw [List.map_map]
  exact List.map_id _

/-- The trie of sorted names without NULs is built, with the size that it is measured to have. -/
theorem buildSorted_eq_ok {symbols : List Symbol} (hsorted : namesSorted symbols)
    (hnul : NulFree symbols) :
    ∃ topology bytes, Topology.new symbols = .ok topology ∧
      buildWithTopology symbols topology = .ok bytes ∧
      sizeWithTopology symbols topology = .ok bytes.length := by
  obtain ⟨topology, kids, htopology, htrie⟩ := topology_new_eq_ok hsorted
  by_cases hne : symbols = []
  · subst hne
    exact ⟨topology, [], htopology, rfl, rfl⟩
  · obtain ⟨built, laid, hbuilt, hlaid, hwritten, hbytes⟩ :=
      buildWithTopology_eq_ok hne hsorted (htrie.kids_length_lt hnul) htrie
    refine ⟨topology, _, htopology, hbytes, ?_⟩
    unfold sizeWithTopology
    rw [if_neg hne, hbuilt, Fallible.bind_ok, hlaid, Fallible.bind_ok,
      (encode_eq_ok hwritten.bounded hwritten.stable).2]
    rfl

/-- When no definition was filtered out, the trie fits into what was reserved for it, whatever the
addresses are. -/
theorem exports_trie_fits (names : List (List UInt8)) (hsorted : names.IsChain (· < ·))
    (symbols : List Symbol) (hsub : (symbols.map Symbol.name).Sublist names)
    (hflags : ∀ symbol ∈ symbols, ∃ isAbsolute isWeak,
      symbol.flags = exportFlags isAbsolute isWeak)
    (hall : symbols.length = names.length) :
    (∀ topology reserved bytes, reserveExportsTrie names = .ok (topology, reserved) →
      writeExportsTrie names.length topology symbols = .ok bytes → bytes.length ≤ reserved) ∧
    ((∀ name ∈ names, 0 ∉ name) → ∃ topology reserved bytes,
      reserveExportsTrie names = .ok (topology, reserved) ∧
      writeExportsTrie names.length topology symbols = .ok bytes) := by
  have hnames : symbols.map Symbol.name = (maximumExports names).map Symbol.name := by
    rw [maximumExports_names]
    exact hsub.eq_of_length (by rw [List.length_map, hall])
  have hsorted' : namesSorted symbols := by
    rw [namesSorted_iff, hnames, maximumExports_names]
    exact hsorted
  refine ⟨?_, ?_⟩
  · intro topology reserved bytes hreserve hwrite
    obtain ⟨topology', htopology, hreserve⟩ := Fallible.bind_eq_ok.mp hreserve
    obtain ⟨size, hsize, hreserve⟩ := Fallible.bind_eq_ok.mp hreserve
    cases hreserve
    unfold writeExportsTrie at hwrite
    rw [if_pos hall] at hwrite
    refine length_le_sizeWithTopology hsorted' hnames ?_ htopology hsize hwrite
    intro i symbol symbol' hsymbol hsymbol'
    obtain ⟨name, -, rfl⟩ := List.mem_map.mp (List.mem_of_getElem? hsymbol')
    exact regularExportSize_le_maximum symbol.address
      (hflags symbol (List.mem_of_getElem? hsymbol))
  · intro hnul
    have hmem : ∀ (list : List Symbol), list.map Symbol.name = names → NulFree list := by
      intro list hlist symbol hsymbol
      exact hnul symbol.name (hlist ▸ List.mem_map_of_mem hsymbol)
    have hmaximum : namesSorted (maximumExports names) := by
      rw [namesSorted_iff, maximumExports_names]
      exact hsorted
    obtain ⟨topology, bytes, htopology, -, hsize⟩ := buildSorted_eq_ok hmaximum
      (hmem _ (maximumExports_names names))
    obtain ⟨topology', bytes', htopology', hbytes', -⟩ := buildSorted_eq_ok hsorted'
      (hmem symbols (by rw [hnames, maximumExports_names]))
    obtain rfl : topology' = topology := by
      rw [topology_new_congr hnames] at htopology'
      exact Except.ok.inj (htopology'.symm.trans htopology)
    refine ⟨topology', bytes.length, bytes', ?_, ?_⟩
    · unfold reserveExportsTrie
      rw [htopology, Fallible.bind_ok, hsize]
      rfl
    · unfold writeExportsTrie
      rw [if_pos hall]
      exact hbytes'

theorem exports_trie_fits_two :
    (∀ topology reserved bytes, reserveExportsTrie [[97], [97, 98]] = .ok (topology, reserved) →
      writeExportsTrie 2 topology [⟨[97], 1, 0⟩, ⟨[97, 98], 300, 4⟩] = .ok bytes →
        bytes.length ≤ reserved) ∧
    ((∀ name ∈ [[97], [97, 98]], (0 : UInt8) ∉ name) → ∃ topology reserved bytes,
      reserveExportsTrie [[97], [97, 98]] = .ok (topology, reserved) ∧
      writeExportsTrie 2 topology [⟨[97], 1, 0⟩, ⟨[97, 98], 300, 4⟩] = .ok bytes) :=
  exports_trie_fits [[97], [97, 98]] (by decide) [⟨[97], 1, 0⟩, ⟨[97, 98], 300, 4⟩] (by simp)
    (by
      intro symbol hsymbol
      simp only [List.mem_cons, List.not_mem_nil, or_false] at hsymbol
      obtain rfl | rfl := hsymbol
      · exact ⟨false, false, by decide⟩
      · exact ⟨false, true, by decide⟩) rfl

/-! ### Where a filtered list does not fit -/

/-- Symbols with long names, whose leaves lie right below the last offset of two bytes. -/
def longExports : List ExportDefinition :=
  (List.range 24).map fun i => {
    name := UInt8.ofNat (i + 1) :: List.replicate 660 1
    isAbsolute := true
    rawValue := maximumAddress
    isWeak := false }

/-- A symbol whose section was not selected, between the edge to it and that to the next. -/
def shortExport : ExportDefinition where
  name := [200]
  isAbsolute := false
  rawValue := 0
  isWeak := false

def lastExport : ExportDefinition where
  name := 200 :: List.replicate 620 1
  isAbsolute := true
  rawValue := maximumAddress
  isWeak := false

/-- What is left when the short symbol was filtered out. -/
def survivingExports : List Symbol :=
  (longExports ++ [lastExport]).map fun definition : ExportDefinition => {
    name := definition.name
    address := maximumAddress
    flags := EXPORT_SYMBOL_FLAGS_KIND_ABSOLUTE }

/-- Without the short symbol, the label to the last one moves from its node into the root, and
pushes all the leaves to offsets of three bytes. -/
theorem exports_trie_reservation_counterexample :
    ((longExports ++ [shortExport, lastExport]).map ExportDefinition.name).IsChain (· < ·) ∧
    ∃ topology reserved bytes,
      reserveExportsTrie ((longExports ++ [shortExport, lastExport]).map ExportDefinition.name)
        = .ok (topology, reserved) ∧
      buildExportsTrie 0x100000000 (longExports ++ [shortExport, lastExport]) topology
        = .ok bytes ∧ reserved < bytes.length := by
  have hfilter : (longExports ++ [shortExport, lastExport]).filterMap (exportSymbol 0x100000000)
      = survivingExports := by decide +kernel
  have hreserve : (reserveExportsTrie
      ((longExports ++ [shortExport, lastExport]).map ExportDefinition.name)).map Prod.snd
        = .ok 16904 := by decide +kernel
  have hwritten : (Topology.new survivingExports >>= sizeWithTopology survivingExports)
      = .ok 16912 := by decide +kernel
  have hsorted : namesSorted survivingExports := by decide +kernel
  have hnul : NulFree survivingExports := by
    unfold NulFree
    decide +kernel
  refine ⟨by decide +kernel, ?_⟩
  obtain ⟨topology, bytes, htopology, hbytes, hsize⟩ := buildSorted_eq_ok hsorted hnul
  rw [htopology, Fallible.bind_ok, hsize] at hwritten
  have hlength : bytes.length = 16912 := Except.ok.inj hwritten
  cases hok : reserveExportsTrie
      ((longExports ++ [shortExport, lastExport]).map ExportDefinition.name) with
  | error e =>
      rw [hok] at hreserve
      cases hreserve
  | ok reserved =>
      rw [hok] at hreserve
      have hreserved : reserved.2 = 16904 := Except.ok.inj hreserve
      refine ⟨reserved.1, reserved.2, bytes, rfl, ?_, by omega⟩
      unfold buildExportsTrie writeExportsTrie
      rw [hfilter, if_neg (by decide)]
      unfold buildSorted
      rw [htopology]
      exact hbytes

end JdxLinker.Trie
