import Mathlib

/-!
# Deletions

Runs of positions that are deleted from a line of positions, which closes up over them. The positions
that are kept are numbered anew from 0 on, without gaps and in their order.
-/

namespace JdxLinker.Deletions

structure Deletion where
  start : Nat
  length : Nat
  deriving DecidableEq, Repr

def Deletion.stop (d : Deletion) : Nat := d.start + d.length

/-- Deletions in order from `lower` on. Each deletes something, and no two overlap. -/
def Separated : Nat → List Deletion → Prop
  | _, [] => True
  | lower, d :: ds => lower ≤ d.start ∧ 0 < d.length ∧ Separated d.stop ds

/-- A position that is in none of the deletions. -/
def Kept (ds : List Deletion) (x : Nat) : Prop := ∀ d ∈ ds, x < d.start ∨ d.stop ≤ x

def total (ds : List Deletion) : Nat := (ds.map (·.length)).sum

/-- What the deletions before a position delete, on top of `deleted`. -/
def deletedBefore : Nat → List Deletion → Nat → Nat
  | deleted, [], _ => deleted
  | deleted, d :: ds, x => if d.start < x then deletedBefore (deleted + d.length) ds x else deleted

/-- What the deletions delete that come before a new position. -/
def deletedUpTo : Nat → List Deletion → Nat → Nat
  | deleted, [], _ => deleted
  | deleted, d :: ds, y =>
      if d.start - deleted ≤ y then deletedUpTo (deleted + d.length) ds y else deleted

/-- The new position of a kept one. -/
def toOutput (deleted : Nat) (ds : List Deletion) (x : Nat) : Nat := x - deletedBefore deleted ds x

/-- The position that was kept as a new one. -/
def toInput (deleted : Nat) (ds : List Deletion) (y : Nat) : Nat := y + deletedUpTo deleted ds y

@[simp] theorem Kept.nil (x : Nat) : Kept [] x := by
  intro d hd
  cases hd

theorem Kept.head {d : Deletion} {ds : List Deletion} {x : Nat} (h : Kept (d :: ds) x) :
    x < d.start ∨ d.stop ≤ x := h d List.mem_cons_self

theorem Kept.tail {d : Deletion} {ds : List Deletion} {x : Nat} (h : Kept (d :: ds) x) :
    Kept ds x := fun e he => h e (List.mem_cons_of_mem d he)

/-- What comes before all deletions is kept. -/
theorem Separated.kept_of_lt {lower x : Nat} {ds : List Deletion} (h : Separated lower ds)
    (hx : x < lower) : Kept ds x := by
  induction ds generalizing lower with
  | nil => exact Kept.nil x
  | cons d ds ih =>
      obtain ⟨hlower, hlength, hds⟩ := h
      intro e he
      rcases List.mem_cons.mp he with rfl | he
      · exact .inl (by omega)
      · exact ih hds (by rw [Deletion.stop]; omega) e he

theorem separated_iff {lower : Nat} {ds : List Deletion} :
    Separated lower ds ↔ (∀ d ∈ ds, lower ≤ d.start ∧ 0 < d.length) ∧
      ds.Pairwise fun d e => d.stop ≤ e.start := by
  induction ds generalizing lower with
  | nil => simp [Separated]
  | cons d ds ih =>
      rw [Separated, ih, List.pairwise_cons, List.forall_mem_cons]
      constructor
      · intro h
        obtain ⟨hlower, hlength, hall, hpairs⟩ := h
        refine ⟨⟨⟨hlower, hlength⟩, fun e he => ⟨?_, (hall e he).2⟩⟩,
          fun e he => (hall e he).1, hpairs⟩
        have hstart := (hall e he).1
        rw [Deletion.stop] at hstart
        omega
      · intro h
        obtain ⟨⟨hd, hall⟩, hafter, hpairs⟩ := h
        exact ⟨hd.1, hd.2, fun e he => ⟨hafter e he, (hall e he).2⟩, hpairs⟩

/-- Not more is deleted than there is. -/
theorem Separated.total_le {lower deleted size : Nat} {ds : List Deletion} (h : Separated lower ds)
    (hdeleted : deleted ≤ lower) (hlower : lower ≤ size) (hsize : ∀ d ∈ ds, d.stop ≤ size) :
    deleted + total ds ≤ size := by
  induction ds generalizing lower deleted with
  | nil => exact hdeleted.trans hlower
  | cons d ds ih =>
      obtain ⟨hstart, -, hds⟩ := h
      have hdeleted' : deleted + d.length ≤ d.stop := by
        rw [Deletion.stop]
        omega
      have hle := ih hds hdeleted'
        (hsize d List.mem_cons_self) (fun e he => hsize e (List.mem_cons_of_mem d he))
      rw [total, List.map_cons, List.sum_cons]
      rw [total] at hle
      omega

/-! ### Both ways -/

section Maps

variable {lower deleted : Nat} {ds : List Deletion}

/-- Nothing is deleted that does not come before the position. -/
theorem deletedBefore_le (h : Separated lower ds) (hdeleted : deleted ≤ lower) {x : Nat}
    (hlower : lower ≤ x) (hkept : Kept ds x) :
    deletedBefore deleted ds x + lower ≤ x + deleted := by
  induction ds generalizing lower deleted with
  | nil =>
      rw [deletedBefore]
      omega
  | cons d ds ih =>
      obtain ⟨hstart, hlength, hds⟩ := h
      rw [deletedBefore]
      by_cases hx : d.start < x
      · have hstop : d.stop ≤ x := hkept.head.resolve_left (by omega)
        have hdeleted' : deleted + d.length ≤ d.stop := by
          rw [Deletion.stop]
          omega
        have hle := ih hds hdeleted' hstop hkept.tail
        rw [if_pos hx]
        rw [Deletion.stop] at hle
        omega
      · rw [if_neg hx]
        omega

theorem toInput_toOutput (h : Separated lower ds) (hdeleted : deleted ≤ lower) {x : Nat}
    (hlower : lower ≤ x) (hkept : Kept ds x) :
    deletedUpTo deleted ds (toOutput deleted ds x) = deletedBefore deleted ds x := by
  induction ds generalizing lower deleted with
  | nil => rfl
  | cons d ds ih =>
      obtain ⟨hstart, hlength, hds⟩ := h
      have hhead := hkept.head
      rw [toOutput, deletedBefore, deletedUpTo]
      by_cases hx : d.start < x
      · have hstop : d.stop ≤ x := hhead.resolve_left (by omega)
        have hdeleted' : deleted + d.length ≤ d.stop := by
          rw [Deletion.stop]
          omega
        have hle := deletedBefore_le hds hdeleted' hstop hkept.tail
        rw [if_pos hx, if_pos (by rw [Deletion.stop] at hle; omega)]
        exact ih hds hdeleted' hstop hkept.tail
      · have hne : x ≠ d.start := by
          rintro rfl
          rw [Deletion.stop] at hhead
          omega
        rw [if_neg hx, if_neg (by omega)]

/-- A new position has a kept one that became it. -/
theorem toOutput_toInput (h : Separated lower ds) (hdeleted : deleted ≤ lower) {y : Nat}
    (hlower : lower ≤ y + deleted) :
    lower ≤ toInput deleted ds y ∧ Kept ds (toInput deleted ds y) ∧
      deletedBefore deleted ds (toInput deleted ds y) = deletedUpTo deleted ds y := by
  induction ds generalizing lower deleted with
  | nil => exact ⟨hlower, Kept.nil _, rfl⟩
  | cons d ds ih =>
      obtain ⟨hstart, hlength, hds⟩ := h
      rw [toInput, deletedUpTo]
      by_cases hy : d.start - deleted ≤ y
      · have hdeleted' : deleted + d.length ≤ d.stop := by
          rw [Deletion.stop]
          omega
        obtain ⟨hle, hkept, hbefore⟩ := ih hds hdeleted' (by rw [Deletion.stop]; omega)
        rw [if_pos hy]
        rw [toInput] at hle hkept hbefore
        have hstop := hle
        rw [Deletion.stop] at hstop
        refine ⟨by omega, ?_, ?_⟩
        · intro e he
          rcases List.mem_cons.mp he with rfl | he
          · exact .inr hle
          · exact hkept e he
        · rw [deletedBefore, if_pos (by omega), hbefore]
      · rw [if_neg hy]
        refine ⟨by omega, ?_, ?_⟩
        · intro e he
          rcases List.mem_cons.mp he with rfl | he
          · exact .inl (by omega)
          · exact hds.kept_of_lt (by rw [Deletion.stop]; omega) e he
        · rw [deletedBefore, if_neg (by omega)]

theorem deletedUpTo_le_total (deleted : Nat) (ds : List Deletion) (y : Nat) :
    deletedUpTo deleted ds y ≤ deleted + total ds := by
  induction ds generalizing deleted with
  | nil => exact le_rfl
  | cons d ds ih =>
      rw [deletedUpTo, total, List.map_cons, List.sum_cons, ← total]
      have hle := ih (deleted + d.length)
      split <;> omega

theorem deletedBefore_eq_total {x : Nat} (h : ∀ d ∈ ds, d.start < x) :
    deletedBefore deleted ds x = deleted + total ds := by
  induction ds generalizing deleted with
  | nil => rfl
  | cons d ds ih =>
      rw [deletedBefore, if_pos (h d List.mem_cons_self),
        ih fun e he => h e (List.mem_cons_of_mem d he), total, total, List.map_cons, List.sum_cons,
        Nat.add_assoc]

/-- The order of the kept positions stays. -/
theorem toOutput_lt (h : Separated lower ds) (hdeleted : deleted ≤ lower) {x x' : Nat}
    (hlower : lower ≤ x) (hkept : Kept ds x) (hkept' : Kept ds x') (hlt : x < x') :
    toOutput deleted ds x < toOutput deleted ds x' := by
  induction ds generalizing lower deleted with
  | nil =>
      rw [toOutput, toOutput, deletedBefore, deletedBefore]
      omega
  | cons d ds ih =>
      obtain ⟨hstart, hlength, hds⟩ := h
      have hdeleted' : deleted + d.length ≤ d.stop := by
        rw [Deletion.stop]
        omega
      rw [toOutput, toOutput, deletedBefore, deletedBefore]
      by_cases hx : d.start < x
      · have hstop : d.stop ≤ x := hkept.head.resolve_left (by omega)
        rw [if_pos hx, if_pos (by omega)]
        exact ih hds hdeleted' hstop hkept.tail hkept'.tail
      · rw [if_neg hx]
        by_cases hx' : d.start < x'
        · -- The two are on different sides of the deletion.
          have hstop : d.stop ≤ x' := hkept'.head.resolve_left (by omega)
          have hle := deletedBefore_le hds hdeleted' hstop hkept'.tail
          have hhead := hkept.head
          rw [Deletion.stop] at hle hhead
          rw [if_pos hx']
          omega
        · rw [if_neg hx']
          omega

end Maps

/-! ### What is kept of a list -/

section Data

variable {α : Type} (data : List α)

/-- The items of a list from a position on that are kept. -/
def keep : Nat → List Deletion → List α
  | pos, [] => data.drop pos
  | pos, d :: ds => (data.drop pos).take (d.start - pos) ++ keep d.stop ds

/-- Kept items are found at their new positions. -/
theorem keep_getElem? {pos deleted : Nat} {ds : List Deletion} (h : Separated pos ds)
    (hdeleted : deleted ≤ pos) (hsize : ∀ d ∈ ds, d.stop ≤ data.length) {x : Nat} (hpos : pos ≤ x)
    (hkept : Kept ds x) :
    (keep data pos ds)[toOutput deleted ds x - (pos - deleted)]? = data[x]? := by
  induction ds generalizing pos deleted with
  | nil =>
      rw [keep, toOutput, deletedBefore, List.getElem?_drop]
      congr 1
      omega
  | cons d ds ih =>
      obtain ⟨hstart, hlength, hds⟩ := h
      have hstopSize := hsize d List.mem_cons_self
      have hfront : ((data.drop pos).take (d.start - pos)).length = d.start - pos := by
        rw [List.length_take, List.length_drop]
        rw [Deletion.stop] at hstopSize
        omega
      rw [keep, toOutput, deletedBefore]
      by_cases hx : d.start < x
      · have hstop : d.stop ≤ x := hkept.head.resolve_left (by omega)
        have hdeleted' : deleted + d.length ≤ d.stop := by
          rw [Deletion.stop]
          omega
        have hle := deletedBefore_le hds hdeleted' hstop hkept.tail
        have hget := ih hds hdeleted' (fun e he => hsize e (List.mem_cons_of_mem d he)) hstop
          hkept.tail
        rw [Deletion.stop] at hle
        rw [if_pos hx, List.getElem?_append_right (by omega), hfront, ← hget, toOutput,
          Deletion.stop]
        congr 1
        omega
      · have hhead := hkept.head
        rw [Deletion.stop] at hhead
        rw [if_neg hx, List.getElem?_append_left (by omega), List.getElem?_take, if_pos (by omega),
          List.getElem?_drop]
        congr 1
        omega

theorem keep_length {pos : Nat} {ds : List Deletion} (h : Separated pos ds)
    (hpos : pos ≤ data.length) (hsize : ∀ d ∈ ds, d.stop ≤ data.length) :
    (keep data pos ds).length + total ds + pos = data.length := by
  induction ds generalizing pos with
  | nil =>
      rw [keep, List.length_drop, total]
      simp only [List.map_nil, List.sum_nil]
      omega
  | cons d ds ih =>
      obtain ⟨hstart, hlength, hds⟩ := h
      have hstop := hsize d List.mem_cons_self
      have hlen := ih hds hstop (fun e he => hsize e (List.mem_cons_of_mem d he))
      rw [Deletion.stop] at hlen hstop
      rw [keep, List.length_append, List.length_take, List.length_drop, total, List.map_cons,
        List.sum_cons, ← total, Deletion.stop]
      omega

end Data

end JdxLinker.Deletions
