import JdxLinker.StringMerge.Inputs

/-!
# The strings of the input

What the group tasks find, told without them: every section is a sequence of pieces, and a group
inserts exactly the pieces that start in its range.
-/

namespace JdxLinker

/-- The linear offset and the bytes of a string, or of a whole section without strings. -/
abbrev Piece := Nat × Bytes

/-! ### Null terminators -/

theorem findIdx?_zero_append {body : Bytes} (rest : Bytes) (h : 0 ∉ body) :
    (body ++ 0 :: rest).findIdx? (· == 0) = some body.length := by
  rw [List.findIdx?_append, List.findIdx?_eq_none_iff.mpr]
  · simp [List.findIdx?_cons]
  · intro x hx
    simp only [beq_eq_false_iff_ne]
    rintro rfl
    exact h hx

theorem findIdx?_zero_none {data : Bytes} (h : 0 ∉ data) : data.findIdx? (· == 0) = none := by
  refine List.findIdx?_eq_none_iff.mpr fun x hx => ?_
  simp only [beq_eq_false_iff_ne]
  rintro rfl
  exact h hx

theorem takeString_append {body : Bytes} (rest : Bytes) (h : 0 ∉ body) :
    takeString (body ++ 0 :: rest) = .ok (body ++ [0], rest) := by
  have hsplit : body ++ 0 :: rest = (body ++ [0]) ++ rest := by simp
  have hlen : body.length + 1 = (body ++ [0]).length := by simp
  rw [takeString, findIdx?_zero_append rest h]
  simp only [List.splitAt_eq]
  rw [hsplit, hlen, List.take_left, List.drop_left]

theorem takeString_none {data : Bytes} (h : 0 ∉ data) :
    takeString data = .error "String in merge-string section is not null-terminated" := by
  rw [takeString, findIdx?_zero_none h]

/-- Data is free of terminators, or a string followed by the rest. -/
theorem string_cases (data : Bytes) :
    0 ∉ data ∨ ∃ body rest, 0 ∉ body ∧ data = body ++ 0 :: rest := by
  by_cases h : (0 : UInt8) ∈ data
  · obtain ⟨body, rest, rfl, hbody⟩ := List.eq_append_cons_of_mem h
    exact Or.inr ⟨body, rest, hbody, rfl⟩
  · exact Or.inl h

/-! ### Pieces of a section -/

/-- The strings of a section of strings, without an unterminated rest. -/
def stringPieces (data : Bytes) (offset : Nat) : List Piece :=
  match _h : takeString data with
  | .error _ => []
  | .ok (string, rest) => (offset, string) :: stringPieces rest (offset + string.length)
termination_by data.length
decreasing_by exact takeString_length _h

def sectionPieces (sec : StringMergeInputSection) : List Piece :=
  if sec.isString then
    stringPieces sec.sectionData sec.startInputOffset
  else
    [(sec.startInputOffset, sec.sectionData)]

theorem stringPieces_none {data : Bytes} (h : 0 ∉ data) (offset : Nat) :
    stringPieces data offset = [] := by
  rw [stringPieces]
  split
  · rfl
  · rename_i heq
    rw [takeString_none h] at heq
    cases heq

theorem stringPieces_append {body : Bytes} (rest : Bytes) (h : 0 ∉ body) (offset : Nat) :
    stringPieces (body ++ 0 :: rest) offset
      = (offset, body ++ [0]) :: stringPieces rest (offset + (body.length + 1)) := by
  rw [stringPieces]
  split
  · rename_i heq
    rw [takeString_append rest h] at heq
    cases heq
  · rename_i heq
    rw [takeString_append rest h] at heq
    cases heq
    simp

/-- Induction over the strings of some data. -/
theorem string_induction {P : Bytes → Prop} (none : ∀ data, 0 ∉ data → P data)
    (string : ∀ body rest, 0 ∉ body → P rest → P (body ++ 0 :: rest)) (data : Bytes) : P data := by
  induction hn : data.length using Nat.strong_induction_on generalizing data with
  | _ n ih =>
      rcases string_cases data with h | ⟨body, rest, hbody, rfl⟩
      · exact none data h
      · exact string body rest hbody (ih rest.length (by simp at hn; omega) rest rfl)

theorem stringPieces_bounds {data : Bytes} {offset : Nat} {p : Piece}
    (hp : p ∈ stringPieces data offset) :
    offset ≤ p.1 ∧ p.1 + p.2.length ≤ offset + data.length ∧ p.2 ≠ [] := by
  induction data using string_induction generalizing offset with
  | none data h => simp [stringPieces_none h] at hp
  | string body rest hbody ih =>
      rw [stringPieces_append rest hbody, List.mem_cons] at hp
      simp only [List.length_append, List.length_cons]
      rcases hp with rfl | hp
      · simp
      · obtain ⟨hstart, hend, hne⟩ := ih hp
        exact ⟨by omega, by omega, hne⟩

theorem stringPieces_disjoint (data : Bytes) (offset : Nat) :
    (stringPieces data offset).Pairwise fun p q => p.1 + p.2.length ≤ q.1 := by
  induction data using string_induction generalizing offset with
  | none data h => simp [stringPieces_none h]
  | string body rest hbody ih =>
      rw [stringPieces_append rest hbody, List.pairwise_cons]
      refine ⟨fun p hp => ?_, ih _⟩
      have hbounds := stringPieces_bounds hp
      simp only [List.length_append, List.length_cons, List.length_nil]
      omega

/-- A range that starts inside the data continues with the strings that start in it. -/
theorem advanceToString_pieces {data : Bytes} {n a : Nat} (start : Nat) (hn : 0 < n)
    (h : advanceToString data n = .ok a) :
    stringPieces (data.drop a) (start + a)
      = (stringPieces data start).filter fun p => decide (start + n ≤ p.1) := by
  induction data using string_induction generalizing n a start with
  | none data hnone =>
      have hdrop : 0 ∉ data.drop a := fun hmem => hnone (List.mem_of_mem_drop hmem)
      simp [stringPieces_none hnone, stringPieces_none hdrop]
  | string body rest hbody ih =>
      have hrest : ∀ n', n' ≤ body.length + 1 →
          (stringPieces rest (start + (body.length + 1))).filter
            (fun p => decide (start + n' ≤ p.1))
            = stringPieces rest (start + (body.length + 1)) := by
        intro n' hn'
        refine List.filter_eq_self.mpr fun p hp => ?_
        have hbounds := stringPieces_bounds hp
        simp only [decide_eq_true_eq]
        omega
      have hdropBody : (body ++ 0 :: rest).drop (body.length + 1) = rest := by
        have hsplit : body ++ 0 :: rest = (body ++ [0]) ++ rest := by simp
        rw [hsplit, List.drop_left' (by simp)]
      rw [stringPieces_append rest hbody]
      have hskip : decide (start + n ≤ start) = false := by
        rw [decide_eq_false_iff_not]
        omega
      rw [List.filter_cons]
      simp only [hskip, Bool.false_eq_true, if_false]
      unfold advanceToString at h
      rcases Nat.lt_trichotomy n (body.length + 1) with hlt | rfl | hgt
      · -- The range starts inside the first string and goes on after it.
        have hget : (body ++ 0 :: rest)[n - 1]? = some body[n - 1] := by
          rw [List.getElem?_append_left (by omega), List.getElem?_eq_getElem]
        have hne : body[n - 1] ≠ 0 := fun heq => hbody (heq ▸ List.getElem_mem _)
        have hdrop : (body ++ 0 :: rest).drop n = body.drop n ++ 0 :: rest :=
          List.drop_append_of_le_length (by omega)
        have hnot : 0 ∉ body.drop n := fun hmem => hbody (List.mem_of_mem_drop hmem)
        rw [hget, hdrop, findIdx?_zero_append rest hnot] at h
        split at h
        · cases ‹_›
        · rename_i heq
          exact absurd (Option.some.inj heq) hne
        · simp only [Option.elim_some, List.length_drop, Except.ok.injEq] at h
          obtain rfl : a = body.length + 1 := by omega
          rw [hdropBody, hrest n hlt.le]
      · -- The range starts after the terminator of the first string.
        have hget : (body ++ 0 :: rest)[body.length + 1 - 1]? = some 0 := by simp
        rw [hget] at h
        simp only [Except.ok.injEq] at h
        subst h
        rw [hdropBody, hrest _ (Nat.le_refl _)]
      · -- The range starts among the later strings.
        obtain ⟨n', rfl⟩ : ∃ n', n = body.length + 1 + n' :=
          ⟨n - (body.length + 1), by omega⟩
        have hn' : 0 < n' := by omega
        have hsplit : body ++ 0 :: rest = (body ++ [0]) ++ rest := by simp
        have hlen : (body ++ [0]).length = body.length + 1 := by simp
        have hdrop : ∀ k, (body ++ 0 :: rest).drop (body.length + 1 + k) = rest.drop k := by
          intro k
          rw [hsplit, ← hlen, List.drop_append, List.drop_eq_nil_of_le (by omega)]
          simp
        have hget : (body ++ 0 :: rest)[body.length + 1 + n' - 1]? = rest[n' - 1]? := by
          rw [hsplit, List.getElem?_append_right (by omega), hlen]
          congr 1
          omega
        have hrec : ∃ a', advanceToString rest n' = .ok a' ∧ a = body.length + 1 + a' := by
          rw [hget, hdrop] at h
          unfold advanceToString
          split at h
          · cases h
          · cases h
            exact ⟨n', rfl, rfl⟩
          · cases h
            refine ⟨_, rfl, ?_⟩
            cases (rest.drop n').findIdx? (· == 0) <;> simp <;> omega
        obtain ⟨a', ha', rfl⟩ := hrec
        rw [hdrop]
        have hpieces := ih (start + (body.length + 1)) hn' ha'
        rw [Nat.add_assoc start, Nat.add_assoc start] at hpieces
        exact hpieces

/-! ### Pieces of a group -/

variable {M : OffsetMap} {hashBytes : Bytes → Nat}

variable (M hashBytes) in
/-- Inserts pieces one after the other. -/
def insertAll (st : SplitState M) (pieces : List Piece) : SplitState M :=
  pieces.foldl (fun st p => insertData M hashBytes st p.2 p.1) st

theorem insertAll_append (st : SplitState M) (pieces pieces' : List Piece) :
    insertAll M hashBytes st (pieces ++ pieces')
      = insertAll M hashBytes (insertAll M hashBytes st pieces) pieces' :=
  List.foldl_append

theorem stringPieces_filter_of_le {data : Bytes} {offset rangeEnd : Nat}
    (h : rangeEnd ≤ offset) :
    ((stringPieces data offset).filter fun p => decide (p.1 < rangeEnd)) = [] := by
  refine List.filter_eq_nil_iff.mpr fun p hp => ?_
  have hbounds := stringPieces_bounds hp
  simp only [decide_eq_true_eq]
  omega

/-- Without an error, splitting inserts the strings that start before the end of the range. -/
theorem splitStrings_eq {rangeEnd : Nat} {st st' : SplitState M} {data : Bytes} {offset : Nat}
    (h : splitStrings M hashBytes rangeEnd st data offset = .ok st') :
    st' = insertAll M hashBytes st
      ((stringPieces data offset).filter fun p => decide (p.1 < rangeEnd)) := by
  induction data using string_induction generalizing st offset with
  | none data hnone =>
      rw [splitStrings] at h
      split at h
      · split at h
        · cases h
        · rename_i heq
          rw [takeString_none hnone] at heq
          cases heq
      · cases h
        rw [stringPieces_none hnone]
        rfl
  | string body rest hbody ih =>
      rw [splitStrings] at h
      split at h
      · rename_i hcond
        split at h
        · cases h
        · rename_i heq
          rw [takeString_append rest hbody] at heq
          cases heq
          rw [stringPieces_append rest hbody, List.filter_cons_of_pos (by simpa using hcond.2),
            ih h]
          simp [insertAll]
      · rename_i hcond
        cases h
        have hle : rangeEnd ≤ offset := by
          by_contra hlt
          exact hcond ⟨by simp, Nat.lt_of_not_le hlt⟩
        rw [stringPieces_filter_of_le hle]
        rfl

/-- Data that ends in a terminator, or is empty. -/
def Terminated (data : Bytes) : Prop := data = [] ∨ data.getLast? = some 0

theorem Terminated.of_append {body rest : Bytes} (h : Terminated (body ++ 0 :: rest)) :
    Terminated rest := by
  cases rest with
  | nil => exact Or.inl rfl
  | cons x rest =>
      rcases h with h | h
      · simp at h
      · exact Or.inr (by simpa [List.getLast?_append, List.getLast?_cons] using h)

theorem Terminated.mem {data : Bytes} (h : Terminated data) (hne : data ≠ []) : 0 ∈ data := by
  rcases h with rfl | h
  · exact absurd rfl hne
  · exact List.mem_of_getLast? h

theorem Terminated.drop {data : Bytes} (h : Terminated data) (n : Nat) :
    Terminated (data.drop n) := by
  rcases h with rfl | h
  · exact Or.inl (by simp)
  · by_cases hlt : n < data.length
    · exact Or.inr (by rw [List.getLast?_drop, if_neg (by omega), h])
    · exact Or.inl (List.drop_eq_nil_of_le (by omega))

/-- Terminated data is split without an error. -/
theorem splitStrings_ok (rangeEnd : Nat) (st : SplitState M) {data : Bytes} (offset : Nat)
    (hterminated : Terminated data) :
    ∃ st', splitStrings M hashBytes rangeEnd st data offset = .ok st' := by
  induction data using string_induction generalizing st offset with
  | none data hnone =>
      obtain rfl : data = [] := by
        by_contra hne
        exact hnone (hterminated.mem hne)
      rw [splitStrings, if_neg (by simp)]
      exact ⟨st, rfl⟩
  | string body rest hbody ih =>
      rw [splitStrings]
      split
      · split
        · rename_i heq
          rw [takeString_append rest hbody] at heq
          cases heq
        · rename_i heq
          rw [takeString_append rest hbody] at heq
          cases heq
          exact ih _ _ hterminated.of_append
      · exact ⟨st, rfl⟩

/-- The pieces that start in a group's range. -/
def SectionGroup.inRange (group : SectionGroup) (p : Piece) : Bool :=
  group.rangeStart ≤ p.1 && p.1 < group.rangeEnd

theorem sectionPieces_bounds {sec : StringMergeInputSection} (hne : sec.sectionData ≠ []) {p : Piece}
    (hp : p ∈ sectionPieces sec) : sec.startInputOffset ≤ p.1
      ∧ p.1 + p.2.length ≤ sec.startInputOffset + sec.sectionData.length ∧ p.2 ≠ [] := by
  unfold sectionPieces at hp
  split at hp
  · exact stringPieces_bounds hp
  · obtain rfl := List.mem_singleton.mp hp
    exact ⟨Nat.le_refl _, Nat.le_refl _, hne⟩

theorem sectionPieces_disjoint (sec : StringMergeInputSection) :
    (sectionPieces sec).Pairwise fun p q => p.1 + p.2.length ≤ q.1 := by
  unfold sectionPieces
  split
  · exact stringPieces_disjoint _ _
  · simp

/-- A section that a group may have: the range starts at a block of it, and if it is not a section
of strings it lies in the range. -/
structure GroupSection (group : SectionGroup) (sec : StringMergeInputSection) : Prop where
  nonempty : sec.sectionData ≠ []
  start_lt : group.rangeStart < sec.startInputOffset + sec.sectionData.length
  lt_end : sec.startInputOffset < group.rangeEnd
  whole : sec.isString = false → group.rangeStart ≤ sec.startInputOffset

theorem processInputSection_eq {group : SectionGroup} {st st' : SplitState M}
    {sec : StringMergeInputSection} (hsec : GroupSection group sec)
    (h : processInputSection M hashBytes group st sec = .ok st') :
    st' = insertAll M hashBytes st ((sectionPieces sec).filter group.inRange) := by
  have hfilter : ∀ (data : Bytes) (offset : Nat), group.rangeStart ≤ offset →
      (stringPieces data offset).filter group.inRange
        = (stringPieces data offset).filter fun p => decide (p.1 < group.rangeEnd) := by
    intro data offset hle
    refine List.filter_congr fun p hp => ?_
    have hbounds := stringPieces_bounds hp
    have hge : group.rangeStart ≤ p.1 := by omega
    simp [SectionGroup.inRange, hge]
  unfold processInputSection at h
  unfold sectionPieces
  cases hstring : sec.isString with
  | false =>
      have hle := hsec.whole hstring
      simp only [if_neg (Nat.not_lt_of_le hle), hstring, Bool.false_eq_true, if_false] at h
      have hin : group.inRange (sec.startInputOffset, sec.sectionData) = true := by
        simp [SectionGroup.inRange, hle, hsec.lt_end]
      simp only [Bool.false_eq_true, if_false, List.filter_cons, hin, if_true, List.filter_nil]
      cases h
      simp [insertAll]
  | true =>
      simp only [if_true, hstring] at h ⊢
      by_cases hcut : sec.startInputOffset < group.rangeStart
      · simp only [if_pos hcut] at h
        cases hadvance : advanceToString sec.sectionData
            (group.rangeStart - sec.startInputOffset) with
        | error e =>
            rw [hadvance] at h
            cases h
        | ok a =>
            rw [hadvance] at h
            have hpieces := advanceToString_pieces sec.startInputOffset (by omega) hadvance
            rw [splitStrings_eq h, hpieces, List.filter_filter]
            congr 1
            refine List.filter_congr fun p _ => ?_
            have hstart : sec.startInputOffset + (group.rangeStart - sec.startInputOffset)
                = group.rangeStart := by omega
            rw [hstart, SectionGroup.inRange, Bool.and_comm]
      · simp only [if_neg hcut] at h
        have hst := splitStrings_eq h
        rw [hfilter _ _ (by omega)]
        simpa using hst

theorem processInputSection_ok (hashBytes : Bytes → Nat) {group : SectionGroup} (st : SplitState M)
    {sec : StringMergeInputSection} (hsec : GroupSection group sec)
    (hterminated : Terminated sec.sectionData) :
    ∃ st', processInputSection M hashBytes group st sec = .ok st' := by
  unfold processInputSection
  cases hstring : sec.isString with
  | false =>
      have hle := hsec.whole hstring
      simp only [if_neg (Nat.not_lt_of_le hle)]
      exact ⟨_, rfl⟩
  | true =>
      by_cases hcut : sec.startInputOffset < group.rangeStart
      · have hlt : group.rangeStart - sec.startInputOffset - 1 < sec.sectionData.length := by
          have hbound := hsec.start_lt
          omega
        have hadvance : ∃ a, advanceToString sec.sectionData
            (group.rangeStart - sec.startInputOffset) = .ok a := by
          unfold advanceToString
          rw [List.getElem?_eq_getElem hlt]
          split
          · cases ‹_›
          · exact ⟨_, rfl⟩
          · exact ⟨_, rfl⟩
        obtain ⟨a, ha⟩ := hadvance
        simp only [if_pos hcut, ha]
        exact splitStrings_ok _ _ _ (hterminated.drop a)
      · simp only [if_neg hcut]
        exact splitStrings_ok _ _ _ (hterminated.drop 0)

variable {sections : List StringMergeInputSection}

theorem BlockGroup.groupSection {group : SectionGroup} (h : BlockGroup sections group)
    (hplaced : PlacedFrom 0 sections) {sec : StringMergeInputSection}
    (hsec : sec ∈ group.sections) : GroupSection group sec := by
  have hmem := hsec
  rw [h.sections_eq, List.mem_filter] at hmem
  obtain ⟨hmem, hoverlaps⟩ := hmem
  have hne := hplaced.nonempty sec hmem
  simp only [SectionGroup.overlaps, Bool.and_eq_true, decide_eq_true_eq] at hoverlaps
  refine ⟨hne, ?_, hoverlaps.1, fun hstring => (h.whole sec hsec hstring).1⟩
  have hbounds := paddedLen_bounds sec
  have hpos := List.length_pos_of_ne_nil hne
  obtain ⟨r, hr⟩ := h.aligned
  obtain ⟨k, hk⟩ := hplaced.dvd_start (Nat.dvd_zero _) sec hmem
  obtain ⟨l, hl⟩ := dvd_paddedLen sec
  simp only [mapBlockSize] at *
  omega

/-- The pieces of all sections. -/
def allPieces (sections : List StringMergeInputSection) : List Piece :=
  sections.flatMap sectionPieces

variable (M) in
/-- A group's shard and buckets before the first section. -/
def emptySplit (group : SectionGroup) : SplitState M :=
  ⟨fun _ => [], M.takeShard group.shardBase group.shardLen⟩

theorem foldlM_processInputSection_eq {group : SectionGroup}
    {list : List StringMergeInputSection} {st st' : SplitState M}
    (hlist : ∀ sec ∈ list, GroupSection group sec)
    (h : list.foldlM (processInputSection M hashBytes group) st = .ok st') :
    st' = insertAll M hashBytes st (list.flatMap fun sec =>
      (sectionPieces sec).filter group.inRange) := by
  induction list generalizing st with
  | nil =>
      cases h
      rfl
  | cons sec list ih =>
      rw [List.foldlM_cons] at h
      cases hfirst : processInputSection M hashBytes group st sec with
      | error e =>
          rw [hfirst] at h
          cases h
      | ok st₁ =>
          rw [hfirst] at h
          rw [List.flatMap_cons, insertAll_append,
            ← processInputSection_eq (hlist sec List.mem_cons_self) hfirst]
          exact ih (fun s hs => hlist s (List.mem_cons_of_mem _ hs)) h

theorem foldlM_processInputSection_ok (hashBytes : Bytes → Nat) {group : SectionGroup}
    {list : List StringMergeInputSection} (st : SplitState M)
    (hlist : ∀ sec ∈ list, GroupSection group sec)
    (hterminated : ∀ sec ∈ list, Terminated sec.sectionData) :
    ∃ st', list.foldlM (processInputSection M hashBytes group) st = .ok st' := by
  induction list generalizing st with
  | nil => exact ⟨st, rfl⟩
  | cons sec list ih =>
      obtain ⟨st₁, hfirst⟩ := processInputSection_ok hashBytes st
        (hlist sec List.mem_cons_self) (hterminated sec List.mem_cons_self)
      rw [List.foldlM_cons, hfirst]
      exact ih st₁ (fun s hs => hlist s (List.mem_cons_of_mem _ hs))
        (fun s hs => hterminated s (List.mem_cons_of_mem _ hs))

/-- Sections that a group does not reach have no piece in its range. -/
theorem flatMap_filter_overlaps (group : SectionGroup)
    (hne : ∀ sec ∈ sections, sec.sectionData ≠ []) :
    ((sections.filter group.overlaps).flatMap fun sec => (sectionPieces sec).filter group.inRange)
      = (allPieces sections).filter group.inRange := by
  induction sections with
  | nil => rfl
  | cons sec sections ih =>
      have ih := ih fun s hs => hne s (List.mem_cons_of_mem _ hs)
      rw [allPieces, List.flatMap_cons, List.filter_append, List.filter_cons]
      cases hoverlaps : group.overlaps sec with
      | true =>
          simp only [if_true, List.flatMap_cons, ih]
          rfl
      | false =>
          have hnone : (sectionPieces sec).filter group.inRange = [] := by
            refine List.filter_eq_nil_iff.mpr fun p hp => ?_
            have hpiece := sectionPieces_bounds (hne sec List.mem_cons_self) hp
            have hpos := List.length_pos_of_ne_nil hpiece.2.2
            have hpadded := (paddedLen_bounds sec).1
            simp only [SectionGroup.overlaps, Bool.and_eq_false_iff, decide_eq_false_iff_not]
              at hoverlaps
            simp only [SectionGroup.inRange, Bool.and_eq_true, decide_eq_true_eq]
            omega
          simp only [Bool.false_eq_true, if_false, hnone, List.nil_append, ih]
          rfl

/-- A group inserts exactly the pieces that start in its range, in order. -/
theorem splitGroup_eq {group : SectionGroup} {st : SplitState M} (hgroup : BlockGroup sections group)
    (hplaced : PlacedFrom 0 sections) (h : splitGroup M hashBytes group = .ok st) :
    st = insertAll M hashBytes (emptySplit M group)
      ((allPieces sections).filter group.inRange) := by
  rw [← flatMap_filter_overlaps group hplaced.nonempty, ← hgroup.sections_eq]
  exact foldlM_processInputSection_eq (fun sec hsec => hgroup.groupSection hplaced hsec) h

theorem splitGroup_ok (hashBytes : Bytes → Nat) {group : SectionGroup} (hgroup : BlockGroup sections group)
    (hplaced : PlacedFrom 0 sections) (hterminated : ∀ sec ∈ sections, Terminated sec.sectionData) :
    ∃ st, splitGroup M hashBytes group = .ok st := by
  refine foldlM_processInputSection_ok _ _ (fun sec hsec => hgroup.groupSection hplaced hsec) ?_
  intro sec hsec
  rw [hgroup.sections_eq] at hsec
  exact hterminated sec (List.mem_filter.mp hsec).1

theorem allPieces_disjoint {start : Nat} (hplaced : PlacedFrom start sections) :
    (allPieces sections).Pairwise fun p q => p.1 + p.2.length ≤ q.1 := by
  induction sections generalizing start with
  | nil => exact List.Pairwise.nil
  | cons sec sections ih =>
      obtain ⟨hstart, hne, hrest⟩ := hplaced
      rw [allPieces, List.flatMap_cons, List.pairwise_append]
      refine ⟨sectionPieces_disjoint sec, ih hrest, fun p hp q hq => ?_⟩
      obtain ⟨sec', hsec', hq⟩ := List.mem_flatMap.mp hq
      have hp := sectionPieces_bounds hne hp
      have hq := sectionPieces_bounds (hrest.nonempty sec' hsec') hq
      have hle := hrest.le_start sec' hsec'
      have hpadded := (paddedLen_bounds sec).1
      omega

theorem allPieces_ne_nil {start : Nat} (hplaced : PlacedFrom start sections) {p : Piece}
    (hp : p ∈ allPieces sections) : p.2 ≠ [] := by
  obtain ⟨sec, hsec, hp⟩ := List.mem_flatMap.mp hp
  exact (sectionPieces_bounds (hplaced.nonempty sec hsec) hp).2.2

theorem allPieces_increasing {start : Nat} (hplaced : PlacedFrom start sections) :
    (allPieces sections).Pairwise (·.1 < ·.1) := by
  refine (allPieces_disjoint hplaced).imp_of_mem fun {p q} hp _ hle => ?_
  have hpos := List.length_pos_of_ne_nil (allPieces_ne_nil hplaced hp)
  omega

/-! ### What the insertions leave -/

variable (M) in
/-- Where the offset of the piece at `k` goes, once all pieces have been inserted. -/
def placeOf (shard : M.Shard) (k : Nat) : OffsetOut :=
  if (M.get shard k).isSome then .inShard k else .overflow k

/-- The strings by bucket and the keys of the shard after the pieces `ps`. -/
structure Inserted (hashBytes : Bytes → Nat) (group : SectionGroup) (ps : List Piece)
    (st : SplitState M) : Prop where
  buckets : ∀ b, st.buckets.at b = (ps.filter fun p => (bucketOf hashBytes p.2 : Nat) = b).map
    fun p => ⟨p.2, placeOf M st.shard p.1⟩
  keys : ∀ k, M.get st.shard k ≠ none → ∃ p ∈ ps, p.1 = k
  base : M.base st.shard = group.shardBase
  len : M.len st.shard = group.shardLen

theorem StringBuckets.at_update (buckets : StringBuckets) (i : Fin mergeStringBuckets)
    (strings : List StringToMerge) (b : Nat) :
    StringBuckets.at (Function.update buckets i strings) b
      = if (i : Nat) = b then strings else buckets.at b := by
  unfold StringBuckets.at
  by_cases hb : b < mergeStringBuckets
  · by_cases hi : (i : Nat) = b
    · subst hi
      simp
    · have hne : (⟨b, hb⟩ : Fin mergeStringBuckets) ≠ i := fun heq => hi (heq ▸ rfl)
      simp [hb, hi, Function.update_of_ne hne]
  · have hi : (i : Nat) ≠ b := fun heq => hb (heq ▸ i.isLt)
    simp [hb, hi]

theorem Inserted.insertData (hM : M.Lawful) {group : SectionGroup} {ps : List Piece} {p : Piece}
    {st : SplitState M} (h : Inserted hashBytes group ps st) (hincreasing : ∀ q ∈ ps, q.1 < p.1)
    (hstart : group.shardBase ≤ p.1) (hend : p.1 < group.shardBase + group.shardLen) :
    Inserted hashBytes group (ps ++ [p]) (insertData M hashBytes st p.2 p.1) := by
  have hnew : M.get st.shard p.1 = none := by
    by_contra hne
    obtain ⟨q, hq, heq⟩ := h.keys _ hne
    have hlt := hincreasing q hq
    omega
  -- The old pieces keep their places, whatever happens at the new one.
  have hbuckets : ∀ (shard : M.Shard) (out : OffsetOut), placeOf M shard p.1 = out →
      (∀ k, k ≠ p.1 → M.get shard k = M.get st.shard k) →
      ∀ b, StringBuckets.at (Function.update st.buckets (bucketOf hashBytes p.2)
          (st.buckets (bucketOf hashBytes p.2) ++ [⟨p.2, out⟩])) b
        = ((ps ++ [p]).filter fun q => (bucketOf hashBytes q.2 : Nat) = b).map
            fun q => ⟨q.2, placeOf M shard q.1⟩ := by
    intro shard out hout hget b
    have hold : ((ps.filter fun q => (bucketOf hashBytes q.2 : Nat) = b).map
        fun q => (⟨q.2, placeOf M shard q.1⟩ : StringToMerge)) = st.buckets.at b := by
      rw [h.buckets]
      refine List.map_congr_left fun q hq => ?_
      have hne : q.1 ≠ p.1 := (hincreasing q (List.mem_filter.mp hq).1).ne
      simp only [placeOf, hget q.1 hne]
    rw [StringBuckets.at_update, List.filter_append, List.map_append, hold]
    split
    · rename_i heq
      have hat : st.buckets (bucketOf hashBytes p.2) = st.buckets.at b := by
        rw [← heq, StringBuckets.at, dif_pos (bucketOf hashBytes p.2).isLt]
      simp [heq, hout, hat]
    · rename_i hne
      simp [hne]
  unfold JdxLinker.insertData
  cases hinsert : M.insert st.shard p.1 ⟨0⟩ with
  | none =>
      have hplace : placeOf M st.shard p.1 = .overflow p.1 := by simp [placeOf, hnew]
      refine ⟨hbuckets st.shard _ hplace fun _ _ => rfl, fun k hk => ?_, h.base, h.len⟩
      obtain ⟨q, hq, heq⟩ := h.keys k hk
      exact ⟨q, List.mem_append_left _ hq, heq⟩
  | some shard =>
      have hget := hM.get_insert st.shard p.1 ⟨0⟩ shard (h.base ▸ hstart)
        (by rw [h.base, h.len]; exact hend)
        (fun k hk => by
          obtain ⟨q, hq, rfl⟩ := h.keys k hk
          exact hincreasing q hq) hinsert
      have hplace : placeOf M shard p.1 = .inShard p.1 := by simp [placeOf, hget]
      refine ⟨hbuckets shard _ hplace fun k hk => by rw [hget, if_neg hk], fun k hk => ?_,
        (hM.base_insert _ _ _ _ hinsert).trans h.base, (hM.len_insert _ _ _ _ hinsert).trans h.len⟩
      rw [hget] at hk
      by_cases heq : k = p.1
      · exact ⟨p, by simp, heq.symm⟩
      · rw [if_neg heq] at hk
        obtain ⟨q, hq, hk⟩ := h.keys k hk
        exact ⟨q, List.mem_append_left _ hq, hk⟩

theorem inserted_insertAll (hM : M.Lawful) (group : SectionGroup) {ps : List Piece}
    (hincreasing : ps.Pairwise (·.1 < ·.1))
    (hrange : ∀ p ∈ ps, group.shardBase ≤ p.1 ∧ p.1 < group.shardBase + group.shardLen) :
    Inserted hashBytes group ps (insertAll M hashBytes (emptySplit M group) ps) := by
  induction ps using List.reverseRecOn with
  | nil =>
      refine ⟨fun b => ?_, fun k hk => ?_, hM.base_takeShard _ _, hM.len_takeShard _ _⟩
      · simp [insertAll, emptySplit, StringBuckets.at]
      · exact absurd (hM.get_takeShard _ _ k) hk
  | append_singleton ps p ih =>
      rw [List.pairwise_append] at hincreasing
      obtain ⟨hps, -, hlast⟩ := hincreasing
      have hinserted := ih hps fun q hq => hrange q (List.mem_append_left _ hq)
      have hp := hrange p (by simp)
      rw [insertAll_append]
      exact hinserted.insertData hM (fun q hq => hlast q hq p (by simp)) hp.1 hp.2

/-- What the task of a group leaves. -/
theorem splitGroup_inserted (hM : M.Lawful) {group : SectionGroup} {st : SplitState M}
    (hgroup : BlockGroup sections group) (hplaced : PlacedFrom 0 sections)
    (h : splitGroup M hashBytes group = .ok st) :
    Inserted hashBytes group ((allPieces sections).filter group.inRange) st := by
  rw [splitGroup_eq hgroup hplaced h]
  refine inserted_insertAll hM group ((allPieces_increasing hplaced).filter _) fun p hp => ?_
  have hin := (List.mem_filter.mp hp).2
  simp only [SectionGroup.inRange, Bool.and_eq_true, decide_eq_true_eq] at hin
  rw [hgroup.shardBase_eq, hgroup.shardLen_eq]
  omega

end JdxLinker
