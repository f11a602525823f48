import JdxLinker.Riscv.Resolutions

/-!
# Applying relocations

The relocations of a section are applied one after the other. A high part is remembered by the
offset of its instruction in the output, for the low parts that name that place.
-/

namespace JdxLinker.Riscv

open Fallible

/-- The types that matter here by name, and any other by its number. -/
inductive RelocationType where
  | hi20
  | pcrelHi20
  | gotHi20
  | tlsGotHi20
  | tlsGdHi20
  | tprelHi20
  | pcrelLo12I
  | pcrelLo12S
  | other (raw : Nat)
  deriving DecidableEq, Repr

inductive RelocationKind where
  | absolute
  | relative
  | relativeRiscVLow12
  | gotRelative
  | gotTpOff
  | tlsGd
  | tlsLd
  | tpOff
  | other
  deriving DecidableEq, Repr

structure PageMaskValue where
  symbolPlusAddend : UInt64 := -1
  gotEntry : UInt64 := -1
  place : UInt64 := -1

structure RelocationKindInfo where
  kind : RelocationKind
  mask : PageMaskValue := {}
  bias : UInt64 := 0

def relocationFromRaw : RelocationType → RelocationKindInfo
  | .hi20 => { kind := .absolute }
  | .pcrelHi20 => { kind := .relative }
  | .gotHi20 => { kind := .gotRelative }
  | .tlsGotHi20 => { kind := .gotTpOff }
  | .tlsGdHi20 => { kind := .tlsGd }
  | .tprelHi20 => { kind := .tpOff }
  | .pcrelLo12I => { kind := .relativeRiscVLow12 }
  | .pcrelLo12S => { kind := .relativeRiscVLow12 }
  | .other _ => { kind := .other }

def highPartRelocations : List RelocationType :=
  [.hi20, .pcrelHi20, .gotHi20, .tlsGotHi20, .tlsGdHi20, .tprelHi20]

abbrev ElfRelocation := Relocation RelocationType

def Relocation.isHighPart (rel : ElfRelocation) : Bool := highPartRelocations.contains rel.rawType

/-- What is done for the relocations of other kinds: the value, and whether the relocation that
follows is skipped because of a relaxation. -/
structure OtherRelocations where
  value : ElfRelocation → UInt64 → Fallible UInt64
  skipNext : ElfRelocation → UInt64 → Bool

/-- A section whose relocations are applied. -/
structure RelocatedSection where
  layout : ElfLayout
  object : ObjectLayout
  sectionIndex : Nat
  sectionAddress : UInt64
  others : OtherRelocations
  loaded : object.sectionResolutions[sectionIndex]? = some (some sectionAddress)
  notMerged : object.sections[sectionIndex]? = some .other

/-- High parts by the offset of their instruction in the output, the last inserted one first. -/
abbrev HighPartSymbols := List (UInt64 × ElfRelocation)

namespace RelocatedSection

variable {M : OffsetMap} (sec : RelocatedSection) (strings : MergedStrings M)

def relaxDeltas : Option SectionRelaxDeltas := sec.object.sectionRelaxDeltas sec.sectionIndex

/-- Where the instruction of a relocation is in the output section. -/
def outputOffset (rel : ElfRelocation) : UInt64 := optInputToOutput sec.relaxDeltas rel.offset

/-- The high part at a place: one that was applied, or else one that follows. -/
def findHighPart (highPartSymbols : HighPartSymbols) (following : List ElfRelocation)
    (hiOffsetInSection : UInt64) : Option ElfRelocation :=
  (highPartSymbols.lookup hiOffsetInSection).or
    (following.find? fun r => r.isHighPart && sec.outputOffset r == hiOffsetInSection)

/-- The value that a low part takes from a high part at `place`. -/
def connectedValue (sectionPartIds : List PartId) (bias : UInt64) (hiRel : ElfRelocation)
    (place : UInt64) : Fallible UInt64 := do
  let addend := hiRel.addend
  let (resolution, symbolIndex) ← getResolution sec.object hiRel
  match (relocationFromRaw hiRel.rawType).kind with
  | .relative =>
      let value ← resolution.valueWithAddend sec.layout strings sec.object addend symbolIndex
        sectionPartIds
      .ok (value + bias - place)
  | .gotRelative =>
      let gotAddress ← resolution.gotAddressForRelocation
      .ok (gotAddress + addend.toUInt64 + bias - place)
  | .tlsGd =>
      let gotAddress ← resolution.tlsgdGotAddress
      .ok (gotAddress + addend.toUInt64 + bias - place)
  | .tlsLd =>
      let gotAddress ← unwrap sec.layout.tlsldGotEntry
      .ok (gotAddress + addend.toUInt64 + bias - place)
  | .gotTpOff =>
      let gotAddress ← resolution.gotAddressOf
      .ok (gotAddress + addend.toUInt64 + bias - place)
  | _ => .error (.error "Unsupported high part relocation connected with R_RISCV_PCREL_LO12")

/-- The value of a low part, which is that of the high part at the label that it names. Only the
object's own entries of the table of parts are passed on. -/
def lowPart (highPartSymbols : HighPartSymbols) (following : List ElfRelocation)
    (rel : ElfRelocation) : Fallible UInt64 := do
  let (resolution, symbolIndex) ← getResolution sec.object rel
  let bias := (relocationFromRaw rel.rawType).bias
  ensure (rel.addend = 0) "Unexpected addend for R_RISCV_PCREL_LO12 relocation"
  let label ← resolution.valueWithAddend sec.layout strings sec.object rel.addend symbolIndex
    sec.layout.sectionPartIds
  let hiOffsetInSection := label - sec.sectionAddress
  let hiRel ← context (sec.findHighPart highPartSymbols following hiOffsetInSection)
    "Missing High relocation connected with R_RISCV_PCREL_LO12"
  sec.connectedValue strings (sec.object.sectionIdRange.slice sec.layout.sectionPartIds) bias hiRel
    (sec.sectionAddress + hiOffsetInSection)

/-- The value that a relocation writes at an offset of the output section. -/
def applyRelocation (highPartSymbols : HighPartSymbols) (following : List ElfRelocation)
    (rel : ElfRelocation) (offsetInSection : UInt64) : Fallible UInt64 :=
  let info := relocationFromRaw rel.rawType
  let place := sec.sectionAddress + offsetInSection
  let addend := rel.addend
  match info.kind with
  | .relative =>
      if rel.symbol = none then do
        ensure (sec.layout.positionIndependent = false)
          "relocation to absolute address cannot be used in position-independent output"
        .ok (addend.toUInt64 - place)
      else do
        let (resolution, symbolIndex) ← getResolution sec.object rel
        let value ← resolution.valueWithAddend sec.layout strings sec.object addend symbolIndex
          sec.layout.sectionPartIds
        .ok (((value + info.bias) &&& info.mask.symbolPlusAddend) - (place &&& info.mask.place))
  | .relativeRiscVLow12 => sec.lowPart strings highPartSymbols following rel
  | .gotRelative => do
      let (resolution, _) ← getResolution sec.object rel
      let gotAddress ← resolution.gotAddressForRelocation
      .ok (((gotAddress + info.bias + addend.toUInt64) &&& info.mask.gotEntry)
        - (place &&& info.mask.place))
  | .tlsGd => do
      let (resolution, _) ← getResolution sec.object rel
      let gotAddress ← resolution.tlsgdGotAddress
      .ok (((gotAddress + addend.toUInt64 + info.bias) &&& info.mask.gotEntry)
        - (place &&& info.mask.place))
  | .tlsLd => do
      let _ ← getResolution sec.object rel
      let gotAddress ← unwrap sec.layout.tlsldGotEntry
      .ok (((gotAddress + addend.toUInt64 + info.bias) &&& info.mask.gotEntry)
        - (place &&& info.mask.place))
  | .gotTpOff => do
      let (resolution, _) ← getResolution sec.object rel
      let gotAddress ← resolution.gotAddressOf
      .ok (((gotAddress + addend.toUInt64 + info.bias) &&& info.mask.gotEntry)
        - (place &&& info.mask.place))
  | .absolute | .tpOff | .other => sec.others.value rel offsetInSection

/-! ### The loop -/

structure LoopState where
  skipNext : Bool
  highPartSymbols : HighPartSymbols
  relaxCursor : Option RelaxCursor

def startState : LoopState := ⟨false, [], sec.relaxDeltas.map RelaxCursor.start⟩

/-- Remembers a high part. -/
def LoopState.remember (s : LoopState) (rel : ElfRelocation) : LoopState :=
  if rel.isHighPart then
    { s with highPartSymbols := (sec.outputOffset rel, rel) :: s.highPartSymbols }
  else
    s

/-- The offset at which a relocation is applied, and where the cursor is then. -/
def LoopState.translate (s : LoopState) (rel : ElfRelocation) : UInt64 × Option RelaxCursor :=
  match s.relaxCursor with
  | some cursor => ((cursor.translate rel.offset).1, some (cursor.translate rel.offset).2)
  | none => (rel.offset, none)

/-- The state after a relocation. -/
def LoopState.next (s : LoopState) (rel : ElfRelocation) : LoopState :=
  let s := s.remember sec rel
  if s.skipNext then
    { s with skipNext := false }
  else
    { s with
      skipNext := sec.others.skipNext rel (s.translate rel).1
      relaxCursor := (s.translate rel).2 }

/-- What is written for one relocation, unless it is skipped. -/
def applyOne (s : LoopState) (rel : ElfRelocation) (following : List ElfRelocation) :
    Fallible (Option UInt64) :=
  if s.skipNext then
    .ok none
  else do
    let value ← sec.applyRelocation strings (s.remember sec rel).highPartSymbols following rel
      (s.translate rel).1
    .ok (some value)

/-- The values that are written for the relocations that are not skipped. -/
def applyRelocations (s : LoopState) : List ElfRelocation → Fallible (List (Option UInt64))
  | [] => .ok []
  | rel :: following => do
      let value ← sec.applyOne strings s rel following
      let values ← applyRelocations (s.next sec rel) following
      .ok (value :: values)

/-- The state in which the loop comes to what follows. -/
def stateAfter (before : List ElfRelocation) : LoopState :=
  before.foldl (LoopState.next sec) sec.startState

/-- What is written for a relocation that others come before and after. -/
def valueAt (before : List ElfRelocation) (rel : ElfRelocation) (following : List ElfRelocation) :
    Fallible UInt64 :=
  sec.applyRelocation strings ((sec.stateAfter before).remember sec rel).highPartSymbols following
    rel ((sec.stateAfter before).translate rel).1

theorem stateAfter_concat (before : List ElfRelocation) (rel : ElfRelocation) :
    sec.stateAfter (before ++ [rel]) = (sec.stateAfter before).next sec rel := by
  rw [stateAfter, List.foldl_append]
  rfl

/-- A run that succeeds has written the value of every relocation that it did not skip. -/
theorem applyRelocations_eq_ok {relocations : List ElfRelocation} {values : List (Option UInt64)}
    (h : sec.applyRelocations strings sec.startState relocations = .ok values)
    {before : List ElfRelocation} {rel : ElfRelocation} {following : List ElfRelocation}
    (hrelocations : relocations = before ++ rel :: following)
    (happlied : (sec.stateAfter before).skipNext = false) :
    ∃ value, values[before.length]? = some (some value)
      ∧ sec.valueAt strings before rel following = .ok value := by
  suffices hrest : ∀ (visited rest : List ElfRelocation) (values : List (Option UInt64)),
      sec.applyRelocations strings (sec.stateAfter visited) (rest ++ rel :: following) =
        .ok values →
      (sec.stateAfter (visited ++ rest)).skipNext = false →
      ∃ value, values[rest.length]? = some (some value)
        ∧ sec.valueAt strings (visited ++ rest) rel following = .ok value by
    subst hrelocations
    exact hrest [] before values h happlied
  intro visited rest
  induction rest generalizing visited with
  | nil =>
      intro values h happlied
      rw [List.append_nil] at happlied ⊢
      rw [List.nil_append, applyRelocations] at h
      obtain ⟨value, hvalue, h⟩ := bind_eq_ok.mp h
      obtain ⟨rest, -, h⟩ := bind_eq_ok.mp h
      obtain ⟨value, hvalue', rfl⟩ : ∃ v, sec.valueAt strings visited rel following = .ok v
          ∧ some v = value := by
        rw [applyOne, happlied] at hvalue
        obtain ⟨v, hv, heq⟩ := bind_eq_ok.mp hvalue
        exact ⟨v, hv, Except.ok.inj heq⟩
      cases h
      exact ⟨value, rfl, hvalue'⟩
  | cons next rest ih =>
      intro values h happlied
      rw [List.cons_append, applyRelocations] at h
      obtain ⟨value, -, h⟩ := bind_eq_ok.mp h
      obtain ⟨rest', hrest, h⟩ := bind_eq_ok.mp h
      cases h
      rw [← stateAfter_concat] at hrest
      rw [List.append_cons] at happlied ⊢
      exact ih (visited ++ [next]) rest' hrest happlied

/-! ### What the loop remembers -/

theorem highPartSymbols_next (s : LoopState) (rel : ElfRelocation) :
    (s.next sec rel).highPartSymbols = (s.remember sec rel).highPartSymbols := by
  rw [LoopState.next]
  cases hskip : (s.remember sec rel).skipNext <;> simp

/-- A place has the last high part before it that was inserted for it. -/
theorem lookup_highPartSymbols (before : List ElfRelocation) (offset : UInt64) :
    (sec.stateAfter before).highPartSymbols.lookup offset =
      before.reverse.find? fun r => r.isHighPart && sec.outputOffset r == offset := by
  induction before using List.reverseRecOn with
  | nil => rfl
  | append_singleton before rel ih =>
      rw [stateAfter_concat, highPartSymbols_next, List.reverse_append, List.reverse_singleton,
        List.singleton_append, List.find?_cons, LoopState.remember]
      cases hhigh : rel.isHighPart with
      | false => simpa using ih
      | true =>
          rw [if_pos rfl, List.lookup_cons, ih, Bool.true_and, Bool.beq_comm]

/-! ### The place of a relocation -/

theorem relaxCursor_next (s : LoopState) (rel : ElfRelocation) :
    (s.next sec rel).relaxCursor = s.relaxCursor ∨
      (s.next sec rel).relaxCursor = (s.translate rel).2 := by
  have hremember : (s.remember sec rel).relaxCursor = s.relaxCursor ∧
      (s.remember sec rel).translate rel = s.translate rel := by
    rw [LoopState.remember]
    cases rel.isHighPart <;> exact ⟨rfl, rfl⟩
  rw [LoopState.next]
  cases (s.remember sec rel).skipNext
  · right
    simp [hremember.2]
  · left
    simp [hremember.1]

/-- The cursor has passed what comes before one of the relocations so far. -/
theorem exists_passed {before : List ElfRelocation}
    (hsorted : before.Pairwise fun r r' => r.offset ≤ r'.offset) :
    ∃ m, (sec.stateAfter before).relaxCursor =
        sec.relaxDeltas.map (fun deltas => RelaxCursor.passed deltas.deltas m) ∧
      (m = 0 ∨ ∃ r ∈ before, m = r.offset) := by
  induction before using List.reverseRecOn with
  | nil =>
      refine ⟨0, ?_, Or.inl rfl⟩
      change sec.relaxDeltas.map RelaxCursor.start = _
      cases sec.relaxDeltas with
      | none => rfl
      | some deltas => rw [Option.map_some, Option.map_some, RelaxCursor.start_eq_passed]
  | append_singleton before rel ih =>
      obtain ⟨hbefore, -, hrel⟩ := List.pairwise_append.mp hsorted
      obtain ⟨m, hcursor, hm⟩ := ih hbefore
      have hle : m ≤ rel.offset := by
        rcases hm with rfl | ⟨r, hr, rfl⟩
        · exact UInt64.zero_le
        · exact hrel r hr rel (List.mem_singleton_self rel)
      rw [stateAfter_concat]
      rcases sec.relaxCursor_next (sec.stateAfter before) rel with h | h
      · refine ⟨m, h.trans hcursor, hm.imp_right ?_⟩
        rintro ⟨r, hr, hoffset⟩
        exact ⟨r, List.mem_append_left _ hr, hoffset⟩
      · refine ⟨rel.offset, h.trans ?_, Or.inr ⟨rel, by simp, rfl⟩⟩
        rw [LoopState.translate, hcursor]
        cases sec.relaxDeltas with
        | none => rfl
        | some deltas => simp [RelaxCursor.translate_passed deltas.deltas hle]

/-- Relocations that come in order of their offsets are applied where their instructions are. -/
theorem translate_eq_outputOffset {before : List ElfRelocation} {rel : ElfRelocation}
    (hsorted : (before ++ [rel]).Pairwise fun r r' => r.offset ≤ r'.offset) :
    ((sec.stateAfter before).translate rel).1 = sec.outputOffset rel := by
  obtain ⟨hbefore, -, hrel⟩ := List.pairwise_append.mp hsorted
  obtain ⟨m, hcursor, hm⟩ := sec.exists_passed hbefore
  have hle : m ≤ rel.offset := by
    rcases hm with rfl | ⟨r, hr, rfl⟩
    · exact UInt64.zero_le
    · exact hrel r hr rel (List.mem_singleton_self rel)
  rw [LoopState.translate, hcursor, outputOffset]
  cases sec.relaxDeltas with
  | none => rfl
  | some deltas =>
      simp [RelaxCursor.translate_passed deltas.deltas hle, optInputToOutput,
        SectionRelaxDeltas.inputToOutputOffset]

end RelocatedSection

end JdxLinker.Riscv
