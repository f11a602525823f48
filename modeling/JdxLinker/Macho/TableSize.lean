import JdxLinker.Macho.FixupTable
import Mathlib

/-!
# The reservation for the chained-fixup table

Whatever the writer needs for a table does not depend on how long the table is. The parts that it
computes before it looks at the length form a plan, and the table is written exactly when the plan
and the names fit. The plan has at most one record for each segment, and both checks of the writer
bound what a record can take, so the reservation is always enough.
-/

namespace JdxLinker.Macho

/-! ### The order of the fixups -/

theorem pushFixup_sublist {deduplicated rest result : List ChainedFixup} {fixup : ChainedFixup}
    (h : pushFixup deduplicated fixup = .ok result) :
    (result ++ rest).Sublist (deduplicated ++ fixup :: rest) := by
  unfold pushFixup at h
  split at h
  · rename_i hlast
    obtain rfl := List.getLast?_eq_none_iff.mp hlast
    cases h
    exact List.Sublist.refl _
  · split at h
    · obtain ⟨-, -, h⟩ := Fallible.bind_eq_ok.mp h
      cases h
      exact (List.Sublist.refl _).append (List.sublist_cons_self _ _)
    · cases h
      rw [List.append_assoc]
      exact List.Sublist.refl _

theorem pushFixups_sublist {fixups deduplicated result : List ChainedFixup}
    (h : fixups.foldlM pushFixup deduplicated = .ok result) :
    result.Sublist (deduplicated ++ fixups) := by
  induction fixups generalizing deduplicated with
  | nil =>
      cases h
      rw [List.append_nil]
  | cons fixup fixups ih =>
      rw [List.foldlM_cons] at h
      obtain ⟨next, hnext, h⟩ := Fallible.bind_eq_ok.mp h
      exact (ih h).trans (pushFixup_sublist hnext)

theorem ChainedFixup.before_trans (a b c : ChainedFixup) (hab : a.before b = true)
    (hbc : b.before c = true) : a.before c = true := by
  simp only [ChainedFixup.before, decide_eq_true_eq, UInt64.le_iff_toNat_le] at hab hbc ⊢
  omega

theorem ChainedFixup.before_total (a b : ChainedFixup) :
    (a.before b || b.before a) = true := by
  simp only [ChainedFixup.before, Bool.or_eq_true, decide_eq_true_eq, UInt64.le_iff_toNat_le]
  omega

/-- The writer visits the fixups by segment. -/
theorem sortChainedFixups_sorted {raw fixups : List ChainedFixup}
    (h : sortChainedFixups raw = .ok fixups) :
    fixups.Pairwise fun a b => a.before b = true := by
  have hsorted := List.pairwise_mergeSort ChainedFixup.before_trans ChainedFixup.before_total raw
  exact hsorted.sublist (pushFixups_sublist h)

theorem sortChainedFixups_segments {raw fixups : List ChainedFixup}
    (h : sortChainedFixups raw = .ok fixups) :
    fixups.Pairwise fun a b => a.segmentIndex ≤ b.segmentIndex := by
  refine (sortChainedFixups_sorted h).imp fun {a b} hab => ?_
  simp only [ChainedFixup.before, decide_eq_true_eq] at hab
  omega

/-! ### The records -/

namespace MachOLayout

variable {layout : MachOLayout}

theorem fixupSegment_eq_ok {chunk : List ChainedFixup} {segment : FixupSegment}
    (h : layout.fixupSegment chunk = .ok segment) :
    segment.fixups = chunk ∧ (∃ last ∈ chunk, last.segmentIndex = segment.segmentIndex)
    ∧ segment.segmentIndex < layout.segments.length
    ∧ segment.pageCount ≤ MAX_CHAINED_FIXUP_PAGES_PER_SEGMENT := by
  obtain ⟨last, hlast, h⟩ := Fallible.bind_eq_ok.mp h
  obtain ⟨place, hplace, h⟩ := Fallible.bind_eq_ok.mp h
  obtain ⟨⟨⟩, hpages, h⟩ := Fallible.bind_eq_ok.mp h
  cases h
  have hmem := List.mem_of_getLast? (Fallible.unwrap_eq_ok.mp hlast)
  have hlt := (List.getElem?_eq_some_iff.mp (Fallible.unwrap_eq_ok.mp hplace)).1
  exact ⟨rfl, ⟨last, hmem, rfl⟩, hlt, Fallible.ensure_eq_ok.mp hpages⟩

theorem fixupSegments_forall {fixups : List ChainedFixup} {segments : List FixupSegment}
    (h : layout.fixupSegments fixups = .ok segments) :
    ∀ segment ∈ segments, segment.segmentIndex < layout.segments.length
      ∧ segment.pageCount ≤ MAX_CHAINED_FIXUP_PAGES_PER_SEGMENT := by
  intro segment hsegment
  obtain ⟨chunk, -, hchunk⟩ := Fallible.mapM_mem h hsegment
  exact (fixupSegment_eq_ok hchunk).2.2

/-- The records are in the order of their segments. -/
theorem fixupSegments_sorted {fixups : List ChainedFixup} {segments : List FixupSegment}
    (hsorted : fixups.Pairwise fun a b => a.segmentIndex ≤ b.segmentIndex)
    (h : layout.fixupSegments fixups = .ok segments) :
    (segments.map (·.segmentIndex)).Pairwise (· < ·) := by
  rw [List.pairwise_map]
  refine Fallible.mapM_pairwise ?_ h (Chunks.chunkBy_keys_lt ChainedFixup.segmentIndex hsorted)
  intro chunk chunk' segment segment' hchunk hchunk' hlt
  obtain ⟨-, ⟨last, hlast, hkey⟩, -⟩ := fixupSegment_eq_ok hchunk
  obtain ⟨-, ⟨last', hlast', hkey'⟩, -⟩ := fixupSegment_eq_ok hchunk'
  rw [← hkey, ← hkey']
  exact hlt last hlast last' hlast'

/-- No segment has two records. -/
theorem fixupSegments_length {fixups : List ChainedFixup} {segments : List FixupSegment}
    (hsorted : fixups.Pairwise fun a b => a.segmentIndex ≤ b.segmentIndex)
    (h : layout.fixupSegments fixups = .ok segments) :
    segments.length ≤ layout.segments.length := by
  have hnodup : (segments.map (·.segmentIndex)).Nodup :=
    (fixupSegments_sorted hsorted h).imp fun hlt => Nat.ne_of_lt hlt
  have hsubset : segments.map (·.segmentIndex) ⊆ List.range layout.segments.length := by
    intro index hindex
    obtain ⟨segment, hsegment, rfl⟩ := List.mem_map.mp hindex
    exact List.mem_range.mpr (fixupSegments_forall h segment hsegment).1
  have hle := (List.subperm_of_subset hnodup hsubset).length_le
  rwa [List.length_map, List.length_range] at hle

end MachOLayout

/-- The bytes of the records. -/
def startsInSegmentsLen (segments : List FixupSegment) : Nat :=
  (segments.map fun segment => recordLen segment.pageCount).sum

namespace MachOLayout

variable {layout : MachOLayout}

theorem startsInSegmentsLen_le {fixups : List ChainedFixup} {segments : List FixupSegment}
    (hsorted : fixups.Pairwise fun a b => a.segmentIndex ≤ b.segmentIndex)
    (h : layout.fixupSegments fixups = .ok segments) :
    startsInSegmentsLen segments
      ≤ layout.segments.length * recordLen MAX_CHAINED_FIXUP_PAGES_PER_SEGMENT := by
  have hbound : ∀ len ∈ segments.map fun segment => recordLen segment.pageCount,
      len ≤ recordLen MAX_CHAINED_FIXUP_PAGES_PER_SEGMENT := by
    intro len hlen
    obtain ⟨segment, hsegment, rfl⟩ := List.mem_map.mp hlen
    exact Nat.add_le_add_left
      (Nat.mul_le_mul_left _ (fixupSegments_forall h segment hsegment).2) _
  have hsum := List.sum_le_card_nsmul _ _ hbound
  rw [List.length_map, smul_eq_mul] at hsum
  exact hsum.trans (Nat.mul_le_mul_right _ (fixupSegments_length hsorted h))

theorem setPageStart_length {place : SegmentLayout} {pageStarts next : List UInt16}
    {fixup : ChainedFixup} (h : setPageStart place pageStarts fixup = .ok next) :
    next.length = pageStarts.length := by
  obtain ⟨start, -, h⟩ := Fallible.bind_eq_ok.mp h
  split at h
  · cases h
    exact List.length_set
  · cases h
    rfl

theorem setPageStarts_length {place : SegmentLayout} {fixups : List ChainedFixup}
    {pageStarts result : List UInt16}
    (h : fixups.foldlM (setPageStart place) pageStarts = .ok result) :
    result.length = pageStarts.length := by
  induction fixups generalizing pageStarts with
  | nil =>
      cases h
      rfl
  | cons fixup fixups ih =>
      rw [List.foldlM_cons] at h
      obtain ⟨next, hnext, h⟩ := Fallible.bind_eq_ok.mp h
      rw [ih h, setPageStart_length hnext]

/-- A record has an entry for each of its pages. -/
theorem writeStartsInSegment_eq_ok {imageBase : UInt64} {writer next : StartsWriter}
    {segment : FixupSegment} (h : layout.writeStartsInSegment imageBase writer segment = .ok next) :
    next.startsInImage.length = writer.startsInImage.length
    ∧ next.startsInSegments.map (·.pageStarts.length)
        = writer.startsInSegments.map (·.pageStarts.length) ++ [segment.pageCount] := by
  obtain ⟨-, -, h⟩ := Fallible.bind_eq_ok.mp h
  obtain ⟨⟨⟩, -, h⟩ := Fallible.bind_eq_ok.mp h
  obtain ⟨place, -, h⟩ := Fallible.bind_eq_ok.mp h
  obtain ⟨⟨⟩, -, h⟩ := Fallible.bind_eq_ok.mp h
  obtain ⟨pageStarts, hstarts, h⟩ := Fallible.bind_eq_ok.mp h
  cases h
  have hlen := setPageStarts_length hstarts
  rw [List.length_replicate] at hlen
  constructor
  · exact List.length_set
  · rw [List.map_append, List.map_singleton, hlen]

theorem writeStartsInSegments_eq_ok {imageBase : UInt64} {segments : List FixupSegment}
    {writer result : StartsWriter}
    (h : segments.foldlM (layout.writeStartsInSegment imageBase) writer = .ok result) :
    result.startsInImage.length = writer.startsInImage.length
    ∧ result.startsInSegments.map (·.pageStarts.length)
        = writer.startsInSegments.map (·.pageStarts.length) ++ segments.map (·.pageCount) := by
  induction segments generalizing writer with
  | nil =>
      cases h
      exact ⟨rfl, (List.append_nil _).symm⟩
  | cons segment segments ih =>
      rw [List.foldlM_cons] at h
      obtain ⟨next, hnext, h⟩ := Fallible.bind_eq_ok.mp h
      obtain ⟨himage, hrecords⟩ := ih h
      obtain ⟨himage', hrecords'⟩ := writeStartsInSegment_eq_ok hnext
      refine ⟨himage.trans himage', ?_⟩
      rw [hrecords, hrecords', List.map_cons, List.append_assoc, List.singleton_append]

end MachOLayout

/-! ### The names -/

/-- The names of a pool, each with its terminator. -/
def poolBytes (names : List SymbolName) : Bytes := names.flatMap fun name => name.bytes ++ [0]

/-- Where the names of a pool start. -/
def nameOffsets (start : Nat) : List SymbolName → List Nat
  | [] => []
  | name :: names => start :: nameOffsets (start + name.bytes.length + 1) names

theorem poolBytes_cons (name : SymbolName) (names : List SymbolName) :
    poolBytes (name :: names) = name.bytes ++ 0 :: poolBytes names := by
  simp [poolBytes]

theorem writeSymbolNames (poolLen : Nat) (names : List SymbolName) (writer : PoolWriter)
    (hroom : writer.pool.length ≤ poolLen) :
    names.foldlM (writeSymbolName poolLen) writer =
      if writer.pool.length + (poolBytes names).length ≤ poolLen then
        .ok ⟨writer.pool ++ poolBytes names,
          writer.symbolOffsets ++ nameOffsets writer.pool.length names⟩
      else .error .panic := by
  induction names generalizing writer with
  | nil => simp [poolBytes, nameOffsets, hroom, pure, Except.pure]
  | cons name names ih =>
      rw [List.foldlM_cons, poolBytes_cons, nameOffsets]
      by_cases hfits : writer.pool.length + name.bytes.length + 1 ≤ poolLen
      · rw [writeSymbolName, if_pos hfits, Fallible.bind_ok, ih]
        · have hlen : (writer.pool ++ name.bytes ++ [0]).length
              = writer.pool.length + name.bytes.length + 1 := by
            simp only [List.length_append, List.length_cons, List.length_nil]
          have htotal : writer.pool.length + (name.bytes ++ 0 :: poolBytes names).length
              = writer.pool.length + name.bytes.length + 1 + (poolBytes names).length := by
            simp only [List.length_append, List.length_cons]
            omega
          rw [hlen, htotal]
          simp only [List.append_assoc, List.cons_append, List.nil_append]
        · simp only [List.length_append, List.length_cons, List.length_nil]
          omega
      · rw [writeSymbolName, if_neg hfits, if_neg]
        · rfl
        · simp only [List.length_append, List.length_cons]
          omega

/-! ### The plan of a table -/

namespace MachOLayout

variable (layout : MachOLayout)

/-- The names of the imports, in the order of the table. -/
def importNames : List SymbolName :=
  layout.formatSpecific.importedSymbols.map fun symbol => layout.db.symbolName symbol.symbolId

/-- Where the records, the imports and the names of a table start. -/
def importsOffset (segments : List FixupSegment) : Nat :=
  sizeOfChainedFixupsHeader + sizeOfU32 * (layout.segments.length + 1 + 1)
    + startsInSegmentsLen segments

def symbolsOffset (segments : List FixupSegment) : Nat :=
  layout.importsOffset segments + sizeOfU32 * layout.formatSpecific.importedSymbols.length

def tableHeader (segments : List FixupSegment) : ChainedFixupsHeader where
  fixupsVersion := 0
  startsOffset := UInt32.ofNat sizeOfChainedFixupsHeader
  importsOffset := UInt32.ofNat (layout.importsOffset segments)
  symbolsOffset := UInt32.ofNat (layout.symbolsOffset segments)
  importsCount := UInt32.ofNat layout.formatSpecific.importedSymbols.length
  importsFormat := DYLD_CHAINED_IMPORT
  symbolsFormat := 0

/-- The parts of a table that its length plays no role in. -/
structure TablePlan (fixups : List ChainedFixup) where
  segments : List FixupSegment
  imageBase : UInt64
  starts : StartsWriter
  imports : List UInt32
  few : layout.segments.length + 1 ≤ MAX_SEGMENT_COUNT
  segments_eq : layout.fixupSegments fixups = .ok segments
  imageBase_eq : layout.imageBase = some imageBase
  starts_eq : segments.foldlM (layout.writeStartsInSegment imageBase) {
      startsInImage := UInt32.ofNat (layout.segments.length + 1)
        :: List.replicate (layout.segments.length + 1) 0
      startsInSegments := []
      segmentBytes := startsInSegmentsLen segments
      segmentInfoOffset := sizeOfU32 * (layout.segments.length + 1 + 1) } = .ok starts
  used : starts.segmentBytes = 0
  imports_eq : (layout.formatSpecific.importedSymbols.zip (nameOffsets 0 layout.importNames)).mapM
    (fun entry => layout.writeImport entry.1 entry.2) = .ok imports

namespace TablePlan

variable {layout} {fixups : List ChainedFixup}

/-- The bytes of a planned table before the padding of its pool. -/
def byteLength (plan : layout.TablePlan fixups) : Nat :=
  layout.symbolsOffset plan.segments + (poolBytes layout.importNames).length

def table (plan : layout.TablePlan fixups) (tableLen : Nat) : ChainedFixupTable where
  header := layout.tableHeader plan.segments
  startsInImage := plan.starts.startsInImage
  startsInSegments := plan.starts.startsInSegments
  imports := plan.imports
  stringPool := poolBytes layout.importNames
    ++ List.replicate (tableLen - plan.byteLength) 0

/-- A table is written from a plan that fits. -/
theorem of_written {tableLen : Nat} {table : ChainedFixupTable}
    (h : layout.writeChainedFixupTable fixups tableLen = .ok table) :
    ∃ plan : layout.TablePlan fixups, plan.byteLength ≤ tableLen ∧ table = plan.table tableLen := by
  obtain ⟨⟨⟩, hfew, h⟩ := Fallible.bind_eq_ok.mp h
  obtain ⟨segments, hsegments, h⟩ := Fallible.bind_eq_ok.mp h
  obtain ⟨⟨⟩, hlen, h⟩ := Fallible.bind_eq_ok.mp h
  obtain ⟨imageBase, himage, h⟩ := Fallible.bind_eq_ok.mp h
  obtain ⟨starts, hstarts, h⟩ := Fallible.bind_eq_ok.mp h
  obtain ⟨⟨⟩, hused, h⟩ := Fallible.bind_eq_ok.mp h
  obtain ⟨names, hnames, h⟩ := Fallible.bind_eq_ok.mp h
  obtain ⟨imports, himports, h⟩ := Fallible.bind_eq_ok.mp h
  rw [writeSymbolNames _ _ _ (Nat.zero_le _)] at hnames
  split at hnames
  · rename_i hfits
    cases hnames
    cases h
    let plan : layout.TablePlan fixups := {
      segments, imageBase, starts, imports
      few := Fallible.ensure_eq_ok.mp hfew
      segments_eq := hsegments
      imageBase_eq := Fallible.context_eq_ok.mp himage
      starts_eq := hstarts
      used := Fallible.ensure_eq_ok.mp hused
      imports_eq := himports }
    have hlen' : layout.symbolsOffset segments ≤ tableLen := Fallible.ensure_eq_ok.mp hlen
    have hpool : 0 + (poolBytes layout.importNames).length
        ≤ tableLen - layout.symbolsOffset segments := hfits
    have hbytes : plan.byteLength
        = layout.symbolsOffset segments + (poolBytes layout.importNames).length := rfl
    refine ⟨plan, by omega, ?_⟩
    have hpad : tableLen - plan.byteLength
        = tableLen - layout.symbolsOffset segments - (poolBytes layout.importNames).length := by
      omega
    unfold table
    rw [hpad]
    rfl
  · cases hnames

/-- A plan that fits is written. -/
theorem written (plan : layout.TablePlan fixups) {tableLen : Nat}
    (h : plan.byteLength ≤ tableLen) :
    layout.writeChainedFixupTable fixups tableLen = .ok (plan.table tableLen) := by
  have hbytes : plan.byteLength
      = layout.symbolsOffset plan.segments + (poolBytes layout.importNames).length := rfl
  have hlen : layout.symbolsOffset plan.segments ≤ tableLen := by omega
  have hpool : 0 + (poolBytes layout.importNames).length
      ≤ tableLen - layout.symbolsOffset plan.segments := by omega
  have hpad : tableLen - plan.byteLength
      = tableLen - layout.symbolsOffset plan.segments - (poolBytes layout.importNames).length := by
    omega
  have hnames : layout.importNames.foldlM
      (writeSymbolName (tableLen - layout.symbolsOffset plan.segments)) ⟨[], []⟩
      = .ok ⟨poolBytes layout.importNames, nameOffsets 0 layout.importNames⟩ := by
    rw [writeSymbolNames _ _ _ (Nat.zero_le _)]
    exact if_pos hpool
  refine Fallible.bind_eq_ok.mpr ⟨(), Fallible.ensure_pos _ plan.few, ?_⟩
  refine Fallible.bind_eq_ok.mpr ⟨_, plan.segments_eq, ?_⟩
  refine Fallible.bind_eq_ok.mpr ⟨(), Fallible.ensure_pos _ hlen, ?_⟩
  refine Fallible.bind_eq_ok.mpr ⟨_, Fallible.context_eq_ok.mpr plan.imageBase_eq, ?_⟩
  refine Fallible.bind_eq_ok.mpr ⟨_, plan.starts_eq, ?_⟩
  refine Fallible.bind_eq_ok.mpr ⟨(), Fallible.ensure_pos _ plan.used, ?_⟩
  refine Fallible.bind_eq_ok.mpr ⟨_, hnames, ?_⟩
  refine Fallible.bind_eq_ok.mpr ⟨_, plan.imports_eq, ?_⟩
  unfold table
  rw [hpad]
  rfl

/-- What a plan needs was reserved. -/
theorem byteLength_le (plan : layout.TablePlan fixups) (hfinal : layout.Finalised)
    (hsorted : fixups.Pairwise fun a b => a.segmentIndex ≤ b.segmentIndex) :
    plan.byteLength ≤ chainedFixupTableReservation layout.db
      layout.finaliseSizesExt.importedSymbols := by
  have hrecords := startsInSegmentsLen_le hsorted plan.segments_eq
  have hfew : layout.segments.length + 1 ≤ 6 := plan.few
  have hperm := (createLayoutExt_symbols hfinal.extended).map (importSize layout.db)
  have hsum := hperm.sum_eq
  rw [List.map_map] at hsum
  have hpool : sizeOfU32 * layout.formatSpecific.importedSymbols.length
      + (poolBytes layout.importNames).length
      = (layout.formatSpecific.importedSymbols.map
          (importSize layout.db ∘ ImportedSymbolWithResolution.symbolId)).sum := by
    unfold importNames
    generalize layout.formatSpecific.importedSymbols = symbols
    induction symbols with
    | nil => rfl
    | cons symbol symbols ih =>
        rw [List.map_cons, List.map_cons, List.sum_cons, ← ih, poolBytes_cons]
        simp only [Function.comp_apply, importSize, CHAINED_FIXUP_IMPORT_SIZE, sizeOfU32,
          List.length_append, List.length_cons]
        omega
  have hle := Alignment.le_alignUp Alignment.USIZE (CHAINED_FIXUP_TABLE_BASE_SIZE
    + (layout.finaliseSizesExt.importedSymbols.map (importSize layout.db)).sum)
  refine le_trans ?_ hle
  rw [← hsum, ← hpool]
  unfold byteLength symbolsOffset importsOffset
  have hmul : layout.segments.length * recordLen MAX_CHAINED_FIXUP_PAGES_PER_SEGMENT
      ≤ 5 * recordLen MAX_CHAINED_FIXUP_PAGES_PER_SEGMENT := Nat.mul_le_mul_right _ (by omega)
  have hbase : CHAINED_FIXUP_TABLE_BASE_SIZE = sizeOfChainedFixupsHeader + sizeOfU32 * 7
      + 6 * recordLen MAX_CHAINED_FIXUP_PAGES_PER_SEGMENT := by
    decide
  have hu32 : sizeOfU32 = 4 := rfl
  rw [hbase, hu32]
  omega

end TablePlan

end MachOLayout

/-! ### The table fits -/

/-- The bytes that the parts of a table take. -/
def ChainedFixupTable.byteLength (table : ChainedFixupTable) : Nat :=
  sizeOfChainedFixupsHeader + sizeOfU32 * table.startsInImage.length
    + (table.startsInSegments.map fun record => recordLen record.pageStarts.length).sum
    + sizeOfU32 * table.imports.length + table.stringPool.length

theorem nameOffsets_length (start : Nat) (names : List SymbolName) :
    (nameOffsets start names).length = names.length := by
  induction names generalizing start with
  | nil => rfl
  | cons name names ih => rw [nameOffsets, List.length_cons, List.length_cons, ih]

namespace MachOLayout.TablePlan

variable {layout : MachOLayout} {fixups : List ChainedFixup}

theorem imports_length (plan : layout.TablePlan fixups) :
    plan.imports.length = layout.formatSpecific.importedSymbols.length := by
  have hlen := (Fallible.mapM_eq_ok plan.imports_eq).length_eq
  rw [List.length_zip, nameOffsets_length, importNames, List.length_map, min_self] at hlen
  exact hlen.symm

/-- The parts of a table take what the writer computed, and the padding. -/
theorem table_byteLength (plan : layout.TablePlan fixups) (tableLen : Nat) :
    (plan.table tableLen).byteLength = plan.byteLength + (tableLen - plan.byteLength) := by
  obtain ⟨himage, hrecords⟩ := writeStartsInSegments_eq_ok plan.starts_eq
  have hsum : (plan.starts.startsInSegments.map
      fun record => recordLen record.pageStarts.length).sum
      = startsInSegmentsLen plan.segments := by
    have hmap := congrArg (fun lens => (lens.map recordLen).sum) hrecords
    simpa [List.map_map, Function.comp_def, startsInSegmentsLen] using hmap
  rw [List.length_cons, List.length_replicate] at himage
  simp only [ChainedFixupTable.byteLength, table, himage, hsum, List.length_append,
    List.length_replicate, plan.imports_length]
  simp only [byteLength, symbolsOffset, importsOffset]
  omega

end MachOLayout.TablePlan

/-- Whatever the length of the table that was written, its parts without the padding fit in the
bytes that were reserved before addresses were known; and a table of exactly that length can be
written. -/
theorem chained_fixup_table_fits (layout : MachOLayout) (hfinal : layout.Finalised)
    {raw fixups : List ChainedFixup} (hsort : sortChainedFixups raw = .ok fixups) {tableLen : Nat}
    {table : ChainedFixupTable} (h : layout.writeChainedFixupTable fixups tableLen = .ok table) :
    let reservation := chainedFixupTableReservation layout.db
      layout.finaliseSizesExt.importedSymbols
    (∃ padding, table.stringPool = poolBytes layout.importNames ++ List.replicate padding 0
      ∧ table.byteLength ≤ reservation + padding)
    ∧ ∃ fitted, layout.writeChainedFixupTable fixups reservation = .ok fitted
      ∧ fitted.byteLength = reservation := by
  intro reservation
  obtain ⟨plan, -, rfl⟩ := MachOLayout.TablePlan.of_written h
  have hle := plan.byteLength_le hfinal (sortChainedFixups_segments hsort)
  constructor
  · refine ⟨tableLen - plan.byteLength, rfl, ?_⟩
    rw [plan.table_byteLength]
    exact Nat.add_le_add_right hle _
  · refine ⟨plan.table reservation, plan.written hle, ?_⟩
    rw [plan.table_byteLength]
    exact Nat.add_sub_of_le hle

/-- The fixup of the GOT slot of an image that imports one symbol. -/
def gotFixup : ChainedFixup := ⟨1, 0x100004000, 0x4000, .bind 0 0⟩

def gotFixupPlan : (stubLayout 0).TablePlan [gotFixup] where
  segments := [⟨1, 1, [gotFixup]⟩]
  imageBase := 0x100000000
  starts := ⟨[3, 0, 0, 16], [⟨24, 0x4000, 6, 0x4000, 0, 1, [0]⟩], 0, 40⟩
  imports := [1]
  few := by decide
  segments_eq := by decide
  imageBase_eq := by decide
  starts_eq := by decide
  used := rfl
  imports_eq := by decide

/-- The theorem for the table with that fixup. -/
theorem chained_fixup_table_fits_one :
    ∃ table, (stubLayout 0).writeChainedFixupTable [gotFixup] 98608 = .ok table
      ∧ (∃ padding, table.stringPool
            = poolBytes (stubLayout 0).importNames ++ List.replicate padding 0
          ∧ table.byteLength ≤ chainedFixupTableReservation (stubLayout 0).db
            (stubLayout 0).finaliseSizesExt.importedSymbols + padding)
      ∧ ∃ fitted, (stubLayout 0).writeChainedFixupTable [gotFixup]
            (chainedFixupTableReservation (stubLayout 0).db
              (stubLayout 0).finaliseSizesExt.importedSymbols) = .ok fitted
          ∧ fitted.byteLength = chainedFixupTableReservation (stubLayout 0).db
            (stubLayout 0).finaliseSizesExt.importedSymbols := by
  have hsort : sortChainedFixups [gotFixup] = .ok [gotFixup] := by
    simp [sortChainedFixups, pushFixup]
  have hwrite := gotFixupPlan.written (show gotFixupPlan.byteLength ≤ 98608 by decide)
  exact ⟨_, hwrite, chained_fixup_table_fits (stubLayout 0)
    (stubLayout_finalised (by decide)) hsort hwrite⟩

end JdxLinker.Macho
