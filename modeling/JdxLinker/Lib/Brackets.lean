import Mathlib

/-!
# Traces with numbered brackets

A trace of events, some of which open or close a bracket. Brackets are numbered in the order in which
they are opened, each is opened once, and only an open bracket is closed.
-/

namespace JdxLinker.Brackets

/-- What an event does to the brackets of a trace. -/
inductive Mark where
  | opens (id : Nat)
  | closes (id : Nat)
  | neutral
  deriving Repr, DecidableEq

variable {ε : Type} {mark : ε → Mark} {trace trace' before after : List ε} {e : ε} {id n : Nat}

/-- The bracket has been opened, and it has not been closed. -/
def IsOpen (mark : ε → Mark) (trace : List ε) (id : Nat) : Prop :=
  .opens id ∈ trace.map mark ∧ .closes id ∉ trace.map mark

/-- No event of the trace is about the bracket. -/
def Untouched (mark : ε → Mark) (trace : List ε) (id : Nat) : Prop :=
  .opens id ∉ trace.map mark ∧ .closes id ∉ trace.map mark

/-- The bracket is opened at one place of the trace and closed at one later place. -/
def OpenedAndClosed (mark : ε → Mark) (trace : List ε) (id : Nat) : Prop :=
  ∃ before opening between closing after,
    trace = before ++ opening :: between ++ closing :: after ∧
      mark opening = .opens id ∧ mark closing = .closes id ∧
      Untouched mark before id ∧ Untouched mark between id ∧ Untouched mark after id

/-- The bracket is opened, and no event from there to the end of the trace is a barrier. -/
def OpenedSince (mark : ε → Mark) (barrier : ε → Prop) (trace : List ε) (id : Nat) : Prop :=
  ∃ before opening between, trace = before ++ opening :: between ∧ mark opening = .opens id ∧
    ∀ e ∈ between, ¬ barrier e

/-- Traces that have opened the brackets below `n`. -/
inductive Numbered (mark : ε → Mark) : Nat → List ε → Prop
  | nil : Numbered mark 0 []
  | neutral {n : Nat} {trace : List ε} {e : ε} (h : Numbered mark n trace) (hmark : mark e = .neutral) :
      Numbered mark n (trace ++ [e])
  | opens {n : Nat} {trace : List ε} {e : ε} (h : Numbered mark n trace) (hmark : mark e = .opens n) :
      Numbered mark (n + 1) (trace ++ [e])
  | closes {n : Nat} {trace : List ε} {e : ε} {id : Nat} (h : Numbered mark n trace)
      (hopen : IsOpen mark trace id) (hmark : mark e = .closes id) : Numbered mark n (trace ++ [e])

theorem Untouched.append (h : Untouched mark before id) (h' : Untouched mark after id) :
    Untouched mark (before ++ after) id := by
  constructor
  · rw [List.map_append, List.mem_append, not_or]
    exact ⟨h.1, h'.1⟩
  · rw [List.map_append, List.mem_append, not_or]
    exact ⟨h.2, h'.2⟩

theorem untouched_singleton : Untouched mark [e] id ↔ mark e ≠ .opens id ∧ mark e ≠ .closes id := by
  simp [Untouched, eq_comm]

theorem untouched_of_neutral (h : ∀ e ∈ trace, mark e = .neutral) : Untouched mark trace id := by
  constructor
  all_goals
    intro hid
    obtain ⟨e, he, hmark⟩ := List.mem_map.mp hid
    rw [h e he] at hmark
    cases hmark

theorem IsOpen.append_untouched (h : IsOpen mark trace id) (h' : Untouched mark trace' id) :
    IsOpen mark (trace ++ trace') id := by
  refine ⟨?_, ?_⟩
  · rw [List.map_append, List.mem_append]
    exact .inl h.1
  · rw [List.map_append, List.mem_append, not_or]
    exact ⟨h.2, h'.2⟩

theorem isOpen_append_iff (h : Untouched mark trace' id) :
    IsOpen mark (trace ++ trace') id ↔ IsOpen mark trace id := by
  refine ⟨fun hopen => ?_, fun hopen => hopen.append_untouched h⟩
  simp only [IsOpen, List.map_append, List.mem_append, not_or] at hopen
  exact ⟨hopen.1.resolve_right h.1, hopen.2.1⟩

/-! ### Brackets of numbered traces -/

namespace Numbered

theorem lt_of_opens (h : Numbered mark n trace) (hid : .opens id ∈ trace.map mark) : id < n := by
  induction h with
  | nil => simp at hid
  | neutral _ hmark ih => exact ih (by simpa [hmark] using hid)
  | @opens n trace e _ hmark ih =>
      have hcases : .opens id ∈ trace.map mark ∨ id = n := by simpa [hmark] using hid
      rcases hcases with hold | rfl
      · exact Nat.lt_succ_of_lt (ih hold)
      · exact Nat.lt_succ_self _
  | closes _ _ hmark ih => exact ih (by simpa [hmark] using hid)

theorem lt_of_closes (h : Numbered mark n trace) (hid : .closes id ∈ trace.map mark) : id < n := by
  induction h with
  | nil => simp at hid
  | neutral _ hmark ih => exact ih (by simpa [hmark] using hid)
  | opens _ hmark ih => exact Nat.lt_succ_of_lt (ih (by simpa [hmark] using hid))
  | @closes n trace e other h hopen hmark ih =>
      have hcases : .closes id ∈ trace.map mark ∨ id = other := by simpa [hmark] using hid
      rcases hcases with hold | rfl
      · exact ih hold
      · exact h.lt_of_opens hopen.1

theorem untouched (h : Numbered mark n trace) (hid : n ≤ id) : Untouched mark trace id :=
  ⟨fun hopens => absurd (h.lt_of_opens hopens) (Nat.not_lt.mpr hid),
    fun hcloses => absurd (h.lt_of_closes hcloses) (Nat.not_lt.mpr hid)⟩

theorem lt_of_isOpen (h : Numbered mark n trace) (hopen : IsOpen mark trace id) : id < n :=
  h.lt_of_opens hopen.1

/-- An open bracket is opened at one place. -/
theorem opening (h : Numbered mark n trace) (hopen : IsOpen mark trace id) :
    ∃ before e after, trace = before ++ e :: after ∧ mark e = .opens id ∧
      Untouched mark before id ∧ Untouched mark after id := by
  induction h with
  | nil => simp [IsOpen] at hopen
  | @neutral n trace e h hmark ih =>
      have hkeeps : Untouched mark [e] id := by simp [untouched_singleton, hmark]
      obtain ⟨before, opening, after, rfl, hopening, hbefore, hafter⟩ :=
        ih ((isOpen_append_iff hkeeps).mp hopen)
      exact ⟨before, opening, after ++ [e], by simp, hopening, hbefore, hafter.append hkeeps⟩
  | @opens n trace e h hmark ih =>
      by_cases hid : id = n
      · subst hid
        exact ⟨trace, e, [], rfl, hmark, h.untouched (Nat.le_refl _), by simp [Untouched]⟩
      · have hkeeps : Untouched mark [e] id := by simp [untouched_singleton, hmark, Ne.symm hid]
        obtain ⟨before, opening, after, rfl, hopening, hbefore, hafter⟩ :=
          ih ((isOpen_append_iff hkeeps).mp hopen)
        exact ⟨before, opening, after ++ [e], by simp, hopening, hbefore, hafter.append hkeeps⟩
  | @closes n trace e other h hother hmark ih =>
      have hid : id ≠ other := by
        rintro rfl
        exact hopen.2 (by simp [hmark])
      have hkeeps : Untouched mark [e] id := by simp [untouched_singleton, hmark, Ne.symm hid]
      obtain ⟨before, opening, after, rfl, hopening, hbefore, hafter⟩ :=
        ih ((isOpen_append_iff hkeeps).mp hopen)
      exact ⟨before, opening, after ++ [e], by simp, hopening, hbefore, hafter.append hkeeps⟩

/-- A bracket that has been opened is open, or it was closed once. -/
theorem isOpen_or_openedAndClosed (h : Numbered mark n trace) (hid : id < n) :
    IsOpen mark trace id ∨ OpenedAndClosed mark trace id := by
  induction h with
  | nil => omega
  | @neutral n trace e h hmark ih =>
      have hkeeps : Untouched mark [e] id := by simp [untouched_singleton, hmark]
      rcases ih hid with hopen | ⟨before, o, between, c, after, rfl, ho, hc, hb, hm, ha⟩
      · exact .inl (hopen.append_untouched hkeeps)
      · exact .inr ⟨before, o, between, c, after ++ [e], by simp, ho, hc, hb, hm, ha.append hkeeps⟩
  | @opens n trace e h hmark ih =>
      by_cases heq : id = n
      · subst heq
        refine .inl ⟨by simp [hmark], ?_⟩
        simpa [hmark] using (h.untouched (Nat.le_refl _)).2
      · have hkeeps : Untouched mark [e] id := by simp [untouched_singleton, hmark, Ne.symm heq]
        rcases ih (by omega) with hopen | ⟨before, o, between, c, after, rfl, ho, hc, hb, hm, ha⟩
        · exact .inl (hopen.append_untouched hkeeps)
        · exact .inr ⟨before, o, between, c, after ++ [e], by simp, ho, hc, hb, hm,
            ha.append hkeeps⟩
  | @closes n trace e other h hother hmark ih =>
      by_cases heq : id = other
      · subst heq
        obtain ⟨before, o, between, rfl, ho, hb, hm⟩ := h.opening hother
        exact .inr ⟨before, o, between, e, [], by simp, ho, hmark, hb, hm, by simp [Untouched]⟩
      · have hkeeps : Untouched mark [e] id := by simp [untouched_singleton, hmark, Ne.symm heq]
        rcases ih hid with hopen | ⟨before, o, between, c, after, rfl, ho, hc, hb, hm, ha⟩
        · exact .inl (hopen.append_untouched hkeeps)
        · exact .inr ⟨before, o, between, c, after ++ [e], by simp, ho, hc, hb, hm,
            ha.append hkeeps⟩

/-! ### Runs of events of one kind -/

theorem append_neutral {events : List ε} (h : Numbered mark n trace)
    (hevents : ∀ e ∈ events, mark e = .neutral) : Numbered mark n (trace ++ events) := by
  induction events generalizing trace with
  | nil => simpa using h
  | cons e events ih =>
      have hnext := ih (h.neutral (hevents e (by simp))) fun e' he' => hevents e' (by simp [he'])
      simpa using hnext

theorem append_opens {events : List ε} {count : Nat} (h : Numbered mark n trace)
    (hevents : events.map mark = (List.range' n count).map .opens) :
    Numbered mark (n + count) (trace ++ events) := by
  induction count generalizing n trace events with
  | zero =>
      obtain rfl : events = [] := by simpa using hevents
      simpa using h
  | succ count ih =>
      obtain ⟨e, events, rfl⟩ : ∃ e rest, events = e :: rest := by
        cases events with
        | nil => simp [List.range'_succ] at hevents
        | cons e events => exact ⟨e, events, rfl⟩
      rw [List.range'_succ, List.map_cons, List.map_cons, List.cons.injEq] at hevents
      have hnext := ih (h.opens hevents.1) hevents.2
      rw [show n + (count + 1) = n + 1 + count by omega]
      simpa using hnext

theorem append_closes {events : List ε} {ids : List Nat} (h : Numbered mark n trace)
    (hevents : events.map mark = ids.map .closes) (hopen : ∀ id ∈ ids, IsOpen mark trace id)
    (hnodup : ids.Nodup) : Numbered mark n (trace ++ events) := by
  induction ids generalizing trace events with
  | nil =>
      obtain rfl : events = [] := by simpa using hevents
      simpa using h
  | cons id ids ih =>
      obtain ⟨e, events, rfl⟩ : ∃ e rest, events = e :: rest := by
        cases events with
        | nil => simp at hevents
        | cons e events => exact ⟨e, events, rfl⟩
      rw [List.map_cons, List.map_cons, List.cons.injEq] at hevents
      obtain ⟨hnot, hnodup⟩ := List.nodup_cons.mp hnodup
      have hstill : ∀ other ∈ ids, IsOpen mark (trace ++ [e]) other := by
        intro other hother
        have hne : id ≠ other := by
          rintro rfl
          exact hnot hother
        refine (hopen other (by simp [hother])).append_untouched ?_
        simp [untouched_singleton, hevents.1, hne]
      have hnext := ih (h.closes (hopen id (by simp)) hevents.1) hevents.2 hstill hnodup
      simpa using hnext

end Numbered

/-- After some brackets were closed, the others are open. -/
theorem isOpen_append_closes {events : List ε} {ids : List Nat}
    (hevents : events.map mark = ids.map .closes) :
    IsOpen mark (trace ++ events) id ↔ IsOpen mark trace id ∧ id ∉ ids := by
  simp [IsOpen, hevents, and_assoc]

/-- After new brackets were opened, they are open besides those that were. -/
theorem isOpen_append_opens {events : List ε} {ids : List Nat}
    (hevents : events.map mark = ids.map .opens)
    (hnew : ∀ id ∈ ids, .closes id ∉ trace.map mark) :
    IsOpen mark (trace ++ events) id ↔ IsOpen mark trace id ∨ id ∈ ids := by
  simp only [IsOpen, List.map_append, hevents, List.mem_append, List.mem_map, Mark.opens.injEq,
    exists_eq_right, reduceCtorEq, and_false, exists_false, or_false]
  constructor
  · rintro ⟨hold | hid, hopen⟩
    · exact .inl ⟨hold, hopen⟩
    · exact .inr hid
  · rintro (⟨hold, hopen⟩ | hid)
    · exact ⟨.inl hold, hopen⟩
    · exact ⟨.inr hid, by simpa using hnew id hid⟩

end JdxLinker.Brackets
