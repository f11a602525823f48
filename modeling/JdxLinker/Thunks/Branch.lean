import JdxLinker.Thunks.Arrival

/-!
# The addend of a branch

A linked branch arrives at the address that its relocation stands for, if and only if its addend makes
up for what separates that address from the target of the thunk.
-/

namespace JdxLinker.Thunks

open A64 (Address State run step decode page)

/-! ### The thunks of a block -/

/-- The symbols with consecutive addresses. -/
def placeThunks : Address → List SymbolId → List (SymbolId × Address)
  | _, [] => []
  | address, symbol :: symbols => (symbol, address) :: placeThunks (address + thunkSize) symbols

theorem foldl_insert_entries (map : SortedMap SymbolId Address) (address : Address)
    {symbols : List SymbolId} (hsorted : symbols.Pairwise (· < ·))
    (hlt : ∀ entry ∈ map.entries, ∀ symbol ∈ symbols, entry.1 < symbol) :
    (symbols.foldl
      (fun (state : SortedMap SymbolId Address × Address) symbol =>
        (state.1.insert symbol state.2, state.2 + thunkSize)) (map, address)).1.entries
      = map.entries ++ placeThunks address symbols := by
  induction symbols generalizing map address with
  | nil => exact (List.append_nil _).symm
  | cons symbol symbols ih =>
      obtain ⟨hfirst, hrest⟩ := List.pairwise_cons.mp hsorted
      have hinsert : (map.insert symbol address).entries = map.entries ++ [(symbol, address)] :=
        SortedMap.insertEntry_of_lt fun entry hentry => hlt entry hentry symbol List.mem_cons_self
      rw [List.foldl_cons, ih _ _ hrest, hinsert, List.append_assoc]
      · rfl
      · rw [hinsert]
        intro entry hentry other hother
        rcases List.mem_append.mp hentry with hentry | hentry
        · exact hlt entry hentry other (List.mem_cons_of_mem _ hother)
        · obtain rfl := List.mem_singleton.mp hentry
          exact hfirst other hother

theorem thunkAddresses_entries (block : PlacedBlock) :
    block.thunkAddresses.entries = placeThunks block.address block.symbols :=
  foldl_insert_entries SortedMap.empty block.address block.sorted fun _ hentry => by cases hentry

/-- A thunk is written at the address that its symbol was given. -/
theorem mem_writeThunks {layout : ThunkLayout} {position : Address} {symbols : List SymbolId}
    {written : List (Address × List (BitVec 32))}
    (h : layout.writeThunks position (placeThunks position symbols) = .ok written)
    {symbol : SymbolId} {thunkAddress : Address}
    (hmem : (symbol, thunkAddress) ∈ placeThunks position symbols) :
    ∃ target, layout.thunkTarget symbol = .ok target ∧
      (thunkAddress, writeThunk thunkAddress target) ∈ written := by
  induction symbols generalizing position written with
  | nil => cases hmem
  | cons first symbols ih =>
      rw [placeThunks, ThunkLayout.writeThunks] at h
      obtain ⟨target, htarget, h⟩ := Fallible.bind_eq_ok.mp h
      obtain ⟨rest, hrest, h⟩ := Fallible.bind_eq_ok.mp h
      obtain rfl := Except.ok.inj h
      rcases List.mem_cons.mp hmem with heq | hmem
      · obtain ⟨rfl, rfl⟩ := Prod.mk.inj heq
        exact ⟨target, htarget, List.mem_cons_self⟩
      · obtain ⟨found, hfound, hwritten⟩ := ih hrest hmem
        exact ⟨found, hfound, List.mem_cons_of_mem _ hwritten⟩

/-! ### The rewritten branch -/

section Branch

variable {layout : ThunkLayout} {site : BranchSite} {memory : Address → Option (BitVec 32)}
  {thunk value word : BitVec 64}

/-- A relaxation changes nothing but the kind of a relocation. -/
theorem relocationInfo_eq (layout : ThunkLayout) (site : BranchSite) :
    ∃ kind, layout.relocationInfo site = { relocationFromRaw site.relocation with kind := kind } := by
  unfold ThunkLayout.relocationInfo ThunkLayout.newRelaxation
  dsimp only
  split
  · rename_i relaxation hsome
    obtain ⟨hsome, -⟩ := Option.filter_eq_some_iff.mp hsome
    split at hsome
    · obtain rfl := Option.some.inj hsome
      exact ⟨_, rfl⟩
    · split at hsome
      · cases hsome
      · split at hsome
        · obtain rfl := Option.some.inj hsome
          exact ⟨_, rfl⟩
        · cases hsome
  · exact ⟨.pltRelative, rfl⟩

/-- The value of a branch through a thunk is the distance of the thunk. -/
theorem maybeGetThunk_eq_some {thunked : Address}
    (h : layout.maybeGetThunkForRelocation site value = .ok (some thunked)) :
    ∃ thunk, layout.thunkAddress site = some thunk ∧ thunked = thunk - site.place := by
  obtain ⟨kind, hinfo⟩ := relocationInfo_eq layout site
  unfold ThunkLayout.maybeGetThunkForRelocation at h
  rw [hinfo] at h
  dsimp only at h
  split at h
  · cases h
  · split at h
    · cases h
    · split at h
      · rename_i thunk hthunk
        split at h
        · cases h
        · refine ⟨thunk, hthunk, ?_⟩
          have heq := Option.some.inj (Except.ok.inj h)
          change ((thunk + 0#64) &&& BitVec.allOnes 64) - (site.place &&& BitVec.allOnes 64)
            = thunked at heq
          rw [BitVec.and_allOnes, BitVec.and_allOnes, BitVec.add_zero] at heq
          exact heq.symm
      · cases h

theorem writeToBuffer_eq_ok {thunked : Address} {instruction written : BitVec 32}
    (h : (layout.relocationInfo site).writeToBuffer thunked instruction = .ok written) :
    thunked.toNat % 4 = 0 ∧ -2 ^ 27 ≤ thunked.toInt ∧ thunked.toInt < 2 ^ 27 ∧
      written = instruction ||| (extractBitRange thunked 2 28).setWidth 32 := by
  obtain ⟨kind, hinfo⟩ := relocationInfo_eq layout site
  rw [hinfo] at h
  unfold RelocationKindInfo.writeToBuffer at h
  obtain ⟨_, haligned, h⟩ := Fallible.bind_eq_ok.mp h
  obtain ⟨_, hrange, h⟩ := Fallible.bind_eq_ok.mp h
  have hcontains := Fallible.ensure_eq_ok.mp hrange
  unfold AllowedRange.contains at hcontains
  rw [Bool.and_eq_true, decide_eq_true_eq, decide_eq_true_eq] at hcontains
  exact ⟨Fallible.ensure_eq_ok.mp haligned, hcontains.1, hcontains.2, (Except.ok.inj h).symm⟩

theorem signExtend_injective {a b : BitVec 26}
    (h : (a ++ 0#2).signExtend 64 = (b ++ 0#2).signExtend 64) : a = b := by
  have hint := congrArg BitVec.toInt h
  rw [BitVec.toInt_signExtend_of_le (by decide), BitVec.toInt_signExtend_of_le (by decide),
    BitVec.toInt_append_zero, BitVec.toInt_append_zero] at hint
  exact BitVec.eq_of_toInt_eq (by omega)

/-- The rewritten branch goes as far as its immediate says. -/
theorem step_branch {thunked : Address} {instruction written : BitVec 32}
    (hbranch : instruction.extractLsb' 26 5 = 0b00101#5)
    (hwritten : written = instruction ||| (extractBitRange thunked 2 28).setWidth 32)
    {place : Address} (hmemory : memory place = some written) (x : A64.Register → Address) :
    ∃ s, step memory ⟨place, x⟩ = some s ∧
      s.pc = place + ((instruction.extractLsb' 0 26 ||| thunked.extractLsb' 2 26) ++ 0#2).signExtend
        64 := by
  have hdecode : decode written = some (.branch (written.getLsbD 31)
      (instruction.extractLsb' 0 26 ||| thunked.extractLsb' 2 26)) := by
    unfold A64.decode
    rw [hwritten, if_pos ((extractLsb'_opcode instruction thunked).trans hbranch),
      extractLsb'_branch]
  exact ⟨_, A64.step_eq (s := ⟨place, x⟩) hmemory hdecode, rfl⟩

end Branch

/-! ### Links -/

/-- The output of a link where a branch out of range goes through a thunk: the branch and the thunks
are in memory as they were written. -/
def Linked (layout : ThunkLayout) (site : BranchSite) (memory : Address → Option (BitVec 32)) : Prop :=
  ∃ value thunked word, layout.directValue site = .ok value ∧
    layout.maybeGetThunkForRelocation site value = .ok (some thunked) ∧
    (layout.relocationInfo site).writeToBuffer thunked site.instruction = .ok word ∧
    memory site.place = some word ∧
    ∀ block ∈ layout.blocks, ∃ written,
      layout.writeThunks block.address block.thunkAddresses.entries = .ok written ∧
      ∀ thunk ∈ written, HoldsWords memory thunk.1 thunk.2

/-- Control that takes the branch, and then the thunk, arrives at the address of the symbol or of its
PLT entry, plus the addend. -/
def Arrives (layout : ThunkLayout) (site : BranchSite) (memory : Address → Option (BitVec 32)) :
    Prop :=
  ∃ base thunk, layout.baseAddress site = .ok base ∧ layout.thunkAddress site = some thunk ∧
    ∀ x, ∃ s s', step memory ⟨site.place, x⟩ = some s ∧ s.pc = thunk ∧
      run memory 3 s = some s' ∧ s'.pc = base + BitVec.ofInt 64 site.addend

/-- The immediate of the branch has no bits but those of the distance of the thunk, and the addend
makes up for what separates the address that the relocation adds it to from where the thunk arrives. -/
def AddendFits (layout : ThunkLayout) (site : BranchSite) : Prop :=
  ∃ base thunk target, layout.baseAddress site = .ok base ∧
    layout.thunkAddress site = some thunk ∧
    layout.thunkTarget (layout.definition site.symbol) = .ok target ∧
    site.instruction.extractLsb' 0 26 ||| (thunk - site.place).extractLsb' 2 26
      = (thunk - site.place).extractLsb' 2 26 ∧
    BitVec.ofInt 64 site.addend = target - base - BitVec.ofInt 64 (pageError thunk target)

section Links

variable {layout : ThunkLayout} {site : BranchSite} {memory : Address → Option (BitVec 32)}

/-- The thunk for a site goes to the target of its symbol. -/
theorem thunk_of_blocks {thunk : Address} (hthunk : layout.thunkAddress site = some thunk)
    (hblocks : ∀ block ∈ layout.blocks, ∃ written,
      layout.writeThunks block.address block.thunkAddresses.entries = .ok written ∧
      ∀ thunk ∈ written, HoldsWords memory thunk.1 thunk.2) :
    ∃ target, layout.thunkTarget (layout.definition site.symbol) = .ok target ∧
      HoldsWords memory thunk (writeThunk thunk target) := by
  obtain ⟨block, hblock, hget⟩ := Option.bind_eq_some_iff.mp hthunk
  obtain ⟨written, hwritten, hholds⟩ := hblocks block (List.mem_of_getElem? hblock)
  have hmem := SortedMap.get?_eq_some hget
  rw [thunkAddresses_entries] at hwritten hmem
  obtain ⟨target, htarget, hfound⟩ := mem_writeThunks hwritten hmem
  exact ⟨target, htarget, hholds _ hfound⟩

theorem addendFits_of_arrives (h : Linked layout site memory) (harrives : Arrives layout site memory) :
    AddendFits layout site := by
  obtain ⟨value, thunked, word, -, hthunked, hword, hmemory, hblocks⟩ := h
  obtain ⟨base, thunk, hbase, hthunk, harrives⟩ := harrives
  obtain ⟨thunk', hthunk', rfl⟩ := maybeGetThunk_eq_some hthunked
  obtain rfl := Option.some.inj (hthunk.symm.trans hthunk')
  obtain ⟨haligned, hmin, hmax, hword⟩ := writeToBuffer_eq_ok hword
  obtain ⟨target, htarget, hholds⟩ := thunk_of_blocks hthunk hblocks
  obtain ⟨s, s', hstep, hpc, hrun, hpc'⟩ := harrives fun _ => 0
  refine ⟨base, thunk, target, hbase, hthunk, htarget, ?_, ?_⟩
  · have hfield := A64.signExtend_branch hmin hmax haligned
    obtain ⟨next, hnext, hnextPc⟩ := step_branch site.isBranch hword hmemory fun _ => 0
    obtain rfl := Option.some.inj (hstep.symm.trans hnext)
    refine signExtend_injective (hfield.symm ▸ ?_)
    exact eq_sub_of_add_eq' (hnextPc.symm.trans hpc)
  · obtain ⟨last, hlast, hlastPc⟩ := run_thunk hholds s.x
    have heq : (⟨thunk, s.x⟩ : State) = s := by rw [← hpc]
    rw [heq, hrun] at hlast
    obtain rfl := Option.some.inj hlast
    rw [hpc'] at hlastPc
    rw [← add_sub_cancel_left base (BitVec.ofInt 64 site.addend), hlastPc]
    ring

theorem arrives_of_addendFits (h : Linked layout site memory) (hfits : AddendFits layout site) :
    Arrives layout site memory := by
  obtain ⟨value, thunked, word, -, hthunked, hword, hmemory, hblocks⟩ := h
  obtain ⟨base, thunk, target, hbase, hthunk, htarget, himmediate, haddend⟩ := hfits
  obtain ⟨thunk', hthunk', rfl⟩ := maybeGetThunk_eq_some hthunked
  obtain rfl := Option.some.inj (hthunk.symm.trans hthunk')
  obtain ⟨haligned, hmin, hmax, hword⟩ := writeToBuffer_eq_ok hword
  obtain ⟨target', htarget', hholds⟩ := thunk_of_blocks hthunk hblocks
  obtain rfl := Except.ok.inj (htarget.symm.trans htarget')
  refine ⟨base, thunk, hbase, hthunk, fun x => ?_⟩
  obtain ⟨s, hstep, hpc⟩ := step_branch site.isBranch hword hmemory x
  rw [himmediate, A64.signExtend_branch hmin hmax haligned, add_sub_cancel] at hpc
  obtain ⟨s', hrun, hpc'⟩ := run_thunk hholds s.x
  refine ⟨s, s', hstep, hpc, ?_, ?_⟩
  · rw [← hrun, ← hpc]
  · rw [hpc', haddend]
    ring

/-- Where the thunk is less than 4 GiB from its symbol, and goes to the address that the relocation
adds its addend to, only an addend of zero fits. -/
theorem addendFits_iff_of_near {base thunk : Address} (hbase : layout.baseAddress site = .ok base)
    (hthunk : layout.thunkAddress site = some thunk)
    (htarget : layout.thunkTarget (layout.definition site.symbol) = .ok base)
    (himmediate : site.instruction.extractLsb' 0 26 = 0)
    (hmin : -2 ^ 32 ≤ (page base - page thunk).toInt)
    (hmax : (page base - page thunk).toInt < 2 ^ 32) :
    AddendFits layout site ↔ BitVec.ofInt 64 site.addend = 0 := by
  have hzero : base - base - BitVec.ofInt 64 (pageError thunk base) = 0 := by
    rw [pageError_eq_zero hmin hmax]
    exact (sub_zero _).trans (sub_self _)
  constructor
  · rintro ⟨base', thunk', target, hbase', hthunk', htarget', -, haddend⟩
    obtain rfl := Except.ok.inj (hbase.symm.trans hbase')
    obtain rfl := Option.some.inj (hthunk.symm.trans hthunk')
    obtain rfl := Except.ok.inj (htarget.symm.trans htarget')
    exact haddend.trans hzero
  · intro haddend
    refine ⟨base, thunk, base, hbase, hthunk, htarget, ?_, haddend.trans hzero.symm⟩
    rw [himmediate]
    exact BitVec.zero_or

/-- A linked branch arrives where its relocation says, if and only if its addend fits. -/
theorem arrives_iff_addendFits (h : Linked layout site memory) :
    Arrives layout site memory ↔ AddendFits layout site :=
  ⟨addendFits_of_arrives h, arrives_of_addendFits h⟩

end Links

/-! ### A branch with an addend -/

/-- A function half a gigabyte away, and a thunk for it. -/
def farLayout : ThunkLayout where
  definition := id
  symbolResolutions _ := some ⟨0x20000000, { ValueFlags.empty with nonInterposable := true }, none⟩
  flagsForSymbol _ := { ValueFlags.empty with nonInterposable := true }
  sectionAddress _ := none
  blocks := [⟨0x1000, [0], List.pairwise_singleton _ _⟩]
  relax := true
  isStaticExecutable := false
  symbolName _ := "foo"

/-- `bl foo + addend`. -/
def farBranch (addend : Int) : BranchSite where
  relocation := .call26
  symbol := 0
  addend := addend
  place := 0x100
  instruction := 0x94000000
  isBranch := rfl
  isExecutable := true
  isPrimary := true
  part := ".text"
  thunkBlockId := 0

/-- The branch, and the thunk. -/
def farMemory (address : Address) : Option (BitVec 32) :=
  match address with
  | 0x100#64 => some 0x940003c0
  | 0x1000#64 => some 0xf00ffff0
  | 0x1004#64 => some 0x91000210
  | 0x1008#64 => some 0xd61f0200
  | _ => none

theorem farBranch_linked : Linked farLayout (farBranch 4) farMemory := by
  refine ⟨_, _, _, rfl, rfl, rfl, rfl, ?_⟩
  intro block hblock
  obtain rfl := List.mem_singleton.mp hblock
  refine ⟨_, rfl, ?_⟩
  intro thunk hthunk
  obtain rfl := List.mem_singleton.mp hthunk
  exact ⟨rfl, rfl, rfl, trivial⟩

theorem farBranch_iff : Arrives farLayout (farBranch 4) farMemory ↔ AddendFits farLayout (farBranch 4) :=
  arrives_iff_addendFits farBranch_linked

/-- The branch to four bytes after a function arrives at the function itself. -/
theorem farBranch_counterexample : Linked farLayout (farBranch 4) farMemory ∧
    ¬ Arrives farLayout (farBranch 4) farMemory := by
  refine ⟨farBranch_linked, fun harrives => ?_⟩
  have hfits := (addendFits_iff_of_near rfl rfl rfl rfl (by decide) (by decide)).mp
    (addendFits_of_arrives farBranch_linked harrives)
  exact absurd hfits (by decide)

end JdxLinker.Thunks
