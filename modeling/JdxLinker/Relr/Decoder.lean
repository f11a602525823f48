import JdxLinker.Lib.Bits
import JdxLinker.Relr.Encoder

/-!
# What RELR entries relocate

The loader keeps a position. An even entry relocates its own address and moves the position to the
next word; an odd entry is a bitmap whose bit `i + 1` relocates the `i`-th of the words starting at
the position, which then moves past all of them. The main result is that a run of the encoder decodes to
the addresses it was fed. The invariant that carries it, `Encodes`, says where the loader's position
stands relative to the encoder's bitmap window.
-/

namespace JdxLinker

open U64 Bits

variable (C : ElfClass)

/-- The words that a bitmap entry relocates when the loader is at `position`. -/
def relrBitmapWords (position entry : Nat) : List Nat :=
  (setBits C.relrBitmapSlots (entry >>> 1)).map fun i => wrap (position + i * C.relrEntrySize)

/-- What one entry relocates. -/
def relrDecodeEntry (position entry : Nat) : List Nat :=
  if entry % 2 = 0 then [entry] else relrBitmapWords C position entry

/-- The loader's position after one entry. -/
def relrNextPosition (position entry : Nat) : Nat :=
  if entry % 2 = 0 then wrap (entry + C.relrEntrySize)
  else wrap (position + C.relrBitmapSlots * C.relrEntrySize)

/-- What the loader relocates for `entries`, starting at `position`. -/
def relrDecode (position : Nat) : List Nat → List Nat
  | [] => []
  | entry :: entries =>
      relrDecodeEntry C position entry ++ relrDecode (relrNextPosition C position entry) entries

/-- The loader's position after `entries`. -/
def relrPosition (position : Nat) (entries : List Nat) : Nat :=
  entries.foldl (relrNextPosition C) position

variable {C}

theorem relrDecode_append (position : Nat) (front back : List Nat) :
    relrDecode C position (front ++ back)
      = relrDecode C position front ++ relrDecode C (relrPosition C position front) back := by
  induction front generalizing position with
  | nil => rfl
  | cons entry front ih =>
      simp only [List.cons_append, relrDecode, ih, List.append_assoc, relrPosition,
        List.foldl_cons]

theorem relrPosition_append (position : Nat) (front back : List Nat) :
    relrPosition C position (front ++ back)
      = relrPosition C (relrPosition C position front) back :=
  List.foldl_append

theorem relrDecode_singleton (position entry : Nat) :
    relrDecode C position [entry] = relrDecodeEntry C position entry := by
  simp [relrDecode]

/-! ### One bitmap entry -/

theorem relrBitmapWords_one (position : Nat) : relrBitmapWords C position 1 = [] := by
  have hempty : setBits C.relrBitmapSlots (1 >>> 1) = [] := by
    simp [setBits]
  rw [relrBitmapWords, hempty, List.map_nil]

theorem or_shift_shiftRight_one (e k : Nat) :
    (e ||| 1 <<< (k + 1)) >>> 1 = (e >>> 1) ||| 1 <<< k := by
  refine Nat.eq_of_testBit_eq fun i => ?_
  rw [Nat.testBit_shiftRight, testBit_or_shift, testBit_or_shift, Nat.testBit_shiftRight]
  congr 1
  exact decide_eq_decide.mpr (by omega)

theorem or_shift_mod_two (e k : Nat) : (e ||| 1 <<< (k + 1)) % 2 = e % 2 := by
  have hbit : (e ||| 1 <<< (k + 1)).testBit 0 = e.testBit 0 := by
    rw [testBit_or_shift, decide_eq_false (by omega : ¬ 0 = k + 1), Bool.or_false]
  rw [Nat.testBit_zero, Nat.testBit_zero, decide_eq_decide] at hbit
  omega

/-- Marking a word after every marked one appends it to what the entry relocates. -/
theorem relrBitmapWords_or_shift {position e k : Nat} (hk : k < C.relrBitmapSlots)
    (hclear : ∀ j, k + 1 ≤ j → e.testBit j = false) :
    relrBitmapWords C position (e ||| 1 <<< (k + 1))
      = relrBitmapWords C position e ++ [wrap (position + k * C.relrEntrySize)] := by
  have hshift : ∀ j, k ≤ j → (e >>> 1).testBit j = false := by
    intro j hj
    rw [Nat.testBit_shiftRight]
    exact hclear (1 + j) (by omega)
  rw [relrBitmapWords, or_shift_shiftRight_one, setBits_or_shift hk hshift, List.map_append]
  rfl

theorem relrDecodeEntry_odd {position entry : Nat} (h : entry % 2 = 1) :
    relrDecodeEntry C position entry = relrBitmapWords C position entry := by
  rw [relrDecodeEntry, if_neg (by omega)]

theorem relrDecodeEntry_even {position entry : Nat} (h : entry % 2 = 0) :
    relrDecodeEntry C position entry = [entry] := if_pos h

theorem relrNextPosition_odd {position entry : Nat} (h : entry % 2 = 1) :
    relrNextPosition C position entry = wrap (position + C.relrBitmapSlots * C.relrEntrySize) := by
  rw [relrNextPosition, if_neg (by omega)]

theorem relrNextPosition_even {position entry : Nat} (h : entry % 2 = 0) :
    relrNextPosition C position entry = wrap (entry + C.relrEntrySize) := if_pos h

/-! ### Inserting into a window -/

theorem relrWindow_lt : C.relrBitmapSlots * C.relrEntrySize < size := by
  have hmul := Nat.mul_le_mul C.relrBitmapSlots_le C.relrEntrySize_le
  have := size_eq
  omega

/-- A window whose end did not wrap around ends where it should. -/
theorem window_end {start : Nat} (hstart : start < size)
    (h : start < wrap (start + C.relrBitmapSlots * C.relrEntrySize)) :
    wrap (start + C.relrBitmapSlots * C.relrEntrySize)
      = start + C.relrBitmapSlots * C.relrEntrySize := by
  have hwindow := relrWindow_lt (C := C)
  rcases lt_or_ge (start + C.relrBitmapSlots * C.relrEntrySize) size with hlt | hge
  · exact wrap_of_lt hlt
  · have hwrapped : wrap (start + C.relrBitmapSlots * C.relrEntrySize)
        = start + C.relrBitmapSlots * C.relrEntrySize - size := by
      unfold wrap
      rw [Nat.mod_eq_sub_mod hge, Nat.mod_eq_of_lt (by omega)]
    omega

theorem RelrBitmap.insert_some {b b' : RelrBitmap} {address : Nat} (haddress : address < size)
    (h : b.insert C address = some b') :
    ∃ k, address = b.rangeStart + k * C.relrEntrySize ∧ b.rangeStart < b.rangeEnd
      ∧ address < b.rangeEnd ∧ b'.rangeStart = b.rangeStart ∧ b'.rangeEnd = b.rangeEnd
      ∧ b'.encoded = b.encoded ||| 1 <<< (k + 1) := by
  unfold RelrBitmap.insert at h
  simp only at h
  split at h
  · cases h
  · rename_i hguard
    push Not at hguard
    obtain ⟨⟨hle, hlt⟩, hmod⟩ := hguard
    rw [wrappingSub_of_le hle haddress] at hmod h
    cases h
    have hdiv := Nat.div_add_mod (address - b.rangeStart) C.relrEntrySize
    rw [hmod, Nat.mul_comm] at hdiv
    exact ⟨(address - b.rangeStart) / C.relrEntrySize, by omega, by omega, hlt, rfl, rfl, rfl⟩

/-- The index of an address inside a window is below the number of slots. -/
theorem slot_lt {s k : Nat}
    (h : s + k * C.relrEntrySize < s + C.relrBitmapSlots * C.relrEntrySize) :
    k < C.relrBitmapSlots :=
  Nat.lt_of_mul_lt_mul_right (Nat.lt_of_add_lt_add_left h)

/-! ### The run invariant -/

/-- `entries` relocate exactly `done`, and the loader would continue where the encoder's window
starts. In the bitmap state the last entry is the bitmap, and every bit above the one of the last
address is still clear. -/
def Encodes (C : ElfClass) (position : Nat) : RelrState → List Nat → List Nat → Prop
  | .noRun, entries, done => entries = [] ∧ done = []
  | .addressOnly b, entries, done =>
      relrDecode C position entries = done ∧ relrPosition C position entries = b.rangeStart
        ∧ ∃ last, done.getLast? = some last ∧ b = RelrBitmap.after C last
  | .withBitmap b, entries, done =>
      ∃ front k, entries = front ++ [b.encoded] ∧ relrDecode C position entries = done
        ∧ relrPosition C position front = b.rangeStart
        ∧ b.rangeEnd = b.rangeStart + C.relrBitmapSlots * C.relrEntrySize
        ∧ b.encoded % 2 = 1 ∧ (∀ j, k + 2 ≤ j → b.encoded.testBit j = false)
        ∧ done.getLast? = some (b.rangeStart + k * C.relrEntrySize)

theorem encodes_startRun {position address : Nat} {entries done : List Nat}
    (hdecode : relrDecode C position entries = done) (heven : address % 2 = 0) :
    Encodes C position (.addressOnly (RelrBitmap.after C address)) (entries ++ [address])
      (done ++ [address]) := by
  refine ⟨?_, ?_, address, by simp, rfl⟩
  · rw [relrDecode_append, hdecode, relrDecode_singleton, relrDecodeEntry_even heven]
  · rw [relrPosition_append, relrPosition, List.foldl_cons, List.foldl_nil,
      relrNextPosition_even heven]
    rfl

/-- Appending the first bitmap of a window. -/
theorem encodes_newBitmap {position address : Nat} {entries done : List Nat} {b b' : RelrBitmap}
    (haddress : address < size) (hdecode : relrDecode C position entries = done)
    (hposition : relrPosition C position entries = b.rangeStart)
    (hencoded : b.encoded = 1)
    (hend : b.rangeEnd = wrap (b.rangeStart + C.relrBitmapSlots * C.relrEntrySize))
    (hstart : b.rangeStart < size) (hinsert : b.insert C address = some b') :
    Encodes C position (.withBitmap b') (entries ++ [b'.encoded]) (done ++ [address]) := by
  obtain ⟨k, haddr, hne, hlt, hs, he, henc⟩ := RelrBitmap.insert_some haddress hinsert
  rw [hend, window_end hstart (by rw [← hend]; exact hne)] at hlt
  have hk : k < C.relrBitmapSlots := slot_lt (haddr ▸ hlt)
  have hclear : ∀ j, k + 1 ≤ j → (1 : Nat).testBit j = false := by
    intro j hj
    exact Nat.testBit_lt_two_pow (Nat.one_lt_two_pow (by omega))
  have hodd : b'.encoded % 2 = 1 := by
    rw [henc, or_shift_mod_two, hencoded]
  refine ⟨entries, k, rfl, ?_, by rw [hposition, hs], ?_, hodd, ?_, ?_⟩
  · rw [relrDecode_append, hdecode, relrDecode_singleton, relrDecodeEntry_odd hodd, henc, hencoded,
      relrBitmapWords_or_shift hk hclear, relrBitmapWords_one, hposition, List.nil_append, ← haddr,
      wrap_of_lt haddress]
  · rw [he, hs, hend, window_end hstart (by rw [← hend]; exact hne)]
  · intro j hj
    rw [henc, hencoded, testBit_or_shift, hclear j (by omega),
      decide_eq_false (by omega : ¬ j = k + 1), Bool.or_false]
  · rw [hs, ← haddr]
    simp

/-- Marking one more word of the current window. -/
theorem encodes_updateBitmap {position address : Nat} {entries done : List Nat}
    {b b' : RelrBitmap} (haddress : address < size)
    (hencodes : Encodes C position (.withBitmap b) entries done)
    (hincreasing : ∀ last, done.getLast? = some last → last < address)
    (hinsert : b.insert C address = some b') :
    Encodes C position (.withBitmap b') (entries.dropLast ++ [b'.encoded]) (done ++ [address]) := by
  obtain ⟨front, k, rfl, hdecode, hposition, hend, hodd, hclear, hlast⟩ := hencodes
  obtain ⟨k', haddr, hne, hlt, hs, he, henc⟩ := RelrBitmap.insert_some haddress hinsert
  have hk' : k' < C.relrBitmapSlots := slot_lt (s := b.rangeStart) (by omega)
  have hkk : k < k' := by
    have := hincreasing _ hlast
    have hmul : k * C.relrEntrySize < k' * C.relrEntrySize := by omega
    exact Nat.lt_of_mul_lt_mul_right hmul
  have hodd' : b'.encoded % 2 = 1 := by
    rw [henc, or_shift_mod_two, hodd]
  refine ⟨front, k', by rw [List.dropLast_concat], ?_, by rw [hposition, hs], by rw [he, hs, hend],
    hodd', ?_, ?_⟩
  · rw [relrDecode_append, relrDecode_singleton, relrDecodeEntry_odd hodd, hposition] at hdecode
    rw [List.dropLast_concat, relrDecode_append, relrDecode_singleton, relrDecodeEntry_odd hodd',
      henc, relrBitmapWords_or_shift hk' (fun j hj => hclear j (by omega)), hposition, ← haddr,
      wrap_of_lt haddress, ← List.append_assoc, hdecode]
  · intro j hj
    rw [henc, testBit_or_shift, hclear j (by omega), decide_eq_false (by omega : ¬ j = k' + 1),
      Bool.or_false]
  · rw [hs, ← haddr]
    simp

/-- One call of the encoder keeps the invariant. -/
theorem encodes_step {position address : Nat} {state : RelrState} {entries done : List Nat}
    (hencodes : Encodes C position state entries done) (haddress : address < size)
    (heven : address % 2 = 0) (hincreasing : ∀ last, done.getLast? = some last → last < address) :
    Encodes C position (state.advance C address)
      ((state.emitted C address).2.apply entries (state.emitted C address).1)
      (done ++ [address]) := by
  cases state with
  | noRun =>
      obtain ⟨rfl, rfl⟩ := hencodes
      exact encodes_startRun rfl heven
  | addressOnly b =>
      obtain ⟨hdecode, hposition, last, _, rfl⟩ := hencodes
      simp only [RelrState.advance, RelrState.emitted]
      cases hinsert : (RelrBitmap.after C last).insert C address with
      | none => exact encodes_startRun hdecode heven
      | some b' =>
          exact encodes_newBitmap haddress hdecode hposition rfl rfl (wrap_lt _) hinsert
  | withBitmap b =>
      simp only [RelrState.advance, RelrState.emitted]
      cases hinsert : b.insert C address with
      | some b' => exact encodes_updateBitmap haddress hencodes hincreasing hinsert
      | none =>
          obtain ⟨front, k, rfl, hdecode, hposition, hend, hodd, -, -⟩ := hencodes
          cases hnext : (b.next C).insert C address with
          | none => exact encodes_startRun hdecode heven
          | some b' =>
              refine encodes_newBitmap haddress hdecode ?_ rfl ?_ (wrap_lt _) hnext
              · rw [relrPosition_append, relrPosition, List.foldl_cons, List.foldl_nil,
                  relrNextPosition_odd hodd, hposition]
                rfl
              · simp only [RelrBitmap.next, hend, wrap_wrap_add, Nat.add_assoc]

/-! ### Whole runs -/

/-- The table entries after feeding `addresses`, as a fold. -/
theorem relrRun_eq_foldl (addresses : List Nat) :
    relrRun C addresses = (addresses.foldl (fun (acc : RelrState × List Nat) address =>
      (acc.1.advance C address,
        (acc.1.emitted C address).2.apply acc.2 (acc.1.emitted C address).1))
      (.noRun, [])).2 := by
  suffices h : ∀ (state : RelrState) (entries : List Nat),
      ((state.encodeAll C addresses fun value encoding =>
        modify fun entries => encoding.apply entries value : StateM (List Nat) RelrState).run
          entries) = addresses.foldl (fun (acc : RelrState × List Nat) address =>
        (acc.1.advance C address,
          (acc.1.emitted C address).2.apply acc.2 (acc.1.emitted C address).1))
        (state, entries) by
    rw [relrRun, h]
  induction addresses with
  | nil => intro state entries; rfl
  | cons address addresses ih =>
      intro state entries
      rw [List.foldl_cons, ← ih]
      simp only [RelrState.encodeAll, List.foldlM_cons, RelrState.encode_eq]
      rfl

theorem encodes_foldl {position : Nat} (addresses : List Nat) {state : RelrState}
    {entries done : List Nat} (hencodes : Encodes C position state entries done)
    (hincreasing : (done ++ addresses).Pairwise (· < ·))
    (heven : ∀ address ∈ addresses, address % 2 = 0)
    (hbound : ∀ address ∈ addresses, address < size) :
    ∃ state', Encodes C position state' (addresses.foldl
      (fun (acc : RelrState × List Nat) address => (acc.1.advance C address,
        (acc.1.emitted C address).2.apply acc.2 (acc.1.emitted C address).1))
      (state, entries)).2 (done ++ addresses) := by
  induction addresses generalizing state entries done with
  | nil => exact ⟨state, by simpa using hencodes⟩
  | cons address addresses ih =>
      have hlast : ∀ last, done.getLast? = some last → last < address := by
        intro last hl
        exact (List.pairwise_append.mp hincreasing).2.2 last (List.mem_of_getLast? hl) address
          List.mem_cons_self
      have hstep := encodes_step hencodes (hbound address List.mem_cons_self)
        (heven address List.mem_cons_self) hlast
      have hrest := ih hstep (by simpa using hincreasing)
        (fun a ha => heven a (List.mem_cons_of_mem _ ha))
        (fun a ha => hbound a (List.mem_cons_of_mem _ ha))
      simpa using hrest

theorem Encodes.decode {position : Nat} {state : RelrState} {entries done : List Nat}
    (h : Encodes C position state entries done) : relrDecode C position entries = done := by
  cases state with
  | noRun =>
      obtain ⟨rfl, rfl⟩ := h
      rfl
  | addressOnly b => exact h.1
  | withBitmap b =>
      obtain ⟨_, _, _, hdecode, _⟩ := h
      exact hdecode

/-- The addresses that one run of the encoder may be fed. -/
structure RelrRunInput (addresses : List Nat) : Prop where
  increasing : addresses.Pairwise (· < ·)
  even : ∀ address ∈ addresses, address % 2 = 0
  bound : ∀ address ∈ addresses, address < size

/-- A run relocates the addresses it was fed, wherever the loader was before. -/
theorem relrDecode_relrRun (position : Nat) {addresses : List Nat}
    (h : RelrRunInput addresses) :
    relrDecode C position (relrRun C addresses) = addresses := by
  rw [relrRun_eq_foldl]
  have hfresh : Encodes C position .noRun [] [] := ⟨rfl, rfl⟩
  obtain ⟨_, hencodes⟩ := encodes_foldl addresses hfresh (by simpa using h.increasing) h.even
    h.bound
  exact hencodes.decode

/-- Runs need no knowledge of each other: an address entry starts each of them. -/
theorem relrDecode_flatMap_relrRun (position : Nat) {runs : List (List Nat)}
    (h : ∀ run ∈ runs, RelrRunInput run) :
    relrDecode C position (runs.flatMap (relrRun C)) = runs.flatten := by
  induction runs generalizing position with
  | nil => rfl
  | cons run runs ih =>
      rw [List.flatMap_cons, relrDecode_append, relrDecode_relrRun _ (h run List.mem_cons_self),
        ih _ (fun r hr => h r (List.mem_cons_of_mem _ hr)), List.flatten_cons]

end JdxLinker
