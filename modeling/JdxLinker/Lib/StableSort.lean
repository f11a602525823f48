import Mathlib.Data.List.Sort
import Mathlib.Data.Prod.Lex

/-!
# Stable sorts

Insertion keeps the order of elements that compare alike, so what a sort makes of a list is decided
by how it compares the elements that stand in order. A sort by a key is the concatenation of its
buckets.
-/

namespace JdxLinker.StableSort

variable {α : Type*} {r s : α → α → Prop} [DecidableRel r] [DecidableRel s]

theorem orderedInsert_congr {a : α} {l : List α} (h : ∀ b ∈ l, (r a b ↔ s a b)) :
    l.orderedInsert r a = l.orderedInsert s a := by
  induction l with
  | nil => rfl
  | cons b rest ih =>
    have hb : r a b ↔ s a b := h b List.mem_cons_self
    have hrest := ih fun c hc => h c (List.mem_cons_of_mem b hc)
    simp only [List.orderedInsert_cons, hb, hrest]

theorem insertionSort_congr {l : List α} (h : l.Pairwise fun a b => (r a b ↔ s a b)) :
    l.insertionSort r = l.insertionSort s := by
  induction l with
  | nil => rfl
  | cons a rest ih =>
    obtain ⟨ha, hrest⟩ := List.pairwise_cons.mp h
    rw [List.insertionSort_cons, List.insertionSort_cons, ih hrest]
    apply orderedInsert_congr
    intro b hb
    exact ha b ((List.mem_insertionSort s).mp hb)

/-- An element goes behind those it does not come before. -/
theorem orderedInsert_append {a : α} {l : List α} (h : ∀ b ∈ l, ¬ r a b) (rest : List α) :
    (l ++ rest).orderedInsert r a = l ++ rest.orderedInsert r a := by
  induction l with
  | nil => rfl
  | cons b l ih =>
    have hb : ¬ r a b := h b List.mem_cons_self
    have hl := ih fun c hc => h c (List.mem_cons_of_mem b hc)
    rw [List.cons_append, List.orderedInsert_cons, if_neg hb, hl, List.cons_append]

theorem orderedInsert_eq_cons {a : α} {l : List α} (h : ∀ b ∈ l, r a b) :
    l.orderedInsert r a = a :: l := by
  cases l with
  | nil => rfl
  | cons b l => rw [List.orderedInsert_cons, if_pos (h b List.mem_cons_self)]

section Filter

variable [IsTrans α r] (p : α → Bool)

theorem filter_orderedInsert {a : α} {l : List α} (hl : l.Pairwise r) (ha : p a = true) :
    (l.orderedInsert r a).filter p = (l.filter p).orderedInsert r a := by
  induction l with
  | nil => rw [List.orderedInsert_nil, List.filter_cons_of_pos ha]; rfl
  | cons b l ih =>
    obtain ⟨hb, hl⟩ := List.pairwise_cons.mp hl
    by_cases hab : r a b
    · have hle : ∀ c ∈ (b :: l).filter p, r a c := by
        intro c hc
        rcases List.mem_cons.mp (List.mem_filter.mp hc).1 with rfl | hc
        · exact hab
        · exact IsTrans.trans a b c hab (hb c hc)
      rw [orderedInsert_eq_cons hle, List.orderedInsert_cons, if_pos hab,
        List.filter_cons_of_pos ha]
    · rw [List.orderedInsert_cons, if_neg hab]
      by_cases hp : p b = true
      · rw [List.filter_cons_of_pos hp, List.filter_cons_of_pos hp, List.orderedInsert_cons,
          if_neg hab, ih hl]
      · rw [List.filter_cons_of_neg hp, List.filter_cons_of_neg hp, ih hl]

/-- The elements a sorted list keeps are sorted among themselves. -/
theorem filter_insertionSort [Std.Total r] (l : List α) :
    (l.insertionSort r).filter p = (l.filter p).insertionSort r := by
  induction l with
  | nil => rfl
  | cons a l ih =>
    have hsorted : (l.insertionSort r).Pairwise r := List.pairwise_insertionSort r l
    by_cases ha : p a = true
    · rw [List.insertionSort_cons, filter_orderedInsert p hsorted ha, ih,
        List.filter_cons_of_pos ha, List.insertionSort_cons]
    · rw [List.insertionSort_cons, List.filter_cons_of_neg ha, ← ih]
      have hperm := (List.perm_orderedInsert r a (l.insertionSort r)).filter p
      rw [List.filter_cons_of_neg ha] at hperm
      have hsub := (List.sublist_orderedInsert (r := r) a (l.insertionSort r)).filter p
      exact (hsub.eq_of_length hperm.length_eq.symm).symm

end Filter

section Agree

variable [IsTrans α s] [Std.Total s]

theorem le_of_insertionSort_eq {l : List α} (h : l.insertionSort r = l.insertionSort s) {a b : α}
    (hab : [a, b].Sublist l) (hr : r a b) : s a b := by
  have hpair : [a, b].Sublist (l.insertionSort s) := h ▸ List.pair_sublist_insertionSort hr hab
  exact List.pairwise_iff_forall_sublist.mp (List.pairwise_insertionSort s l) hpair

/-- Two sorts give the same list exactly where they compare the elements that stand in order
alike. -/
theorem insertionSort_eq_iff [IsTrans α r] [Std.Total r] {l : List α} :
    l.insertionSort r = l.insertionSort s ↔ l.Pairwise fun a b => (r a b ↔ s a b) := by
  constructor
  · intro h
    rw [List.pairwise_iff_forall_sublist]
    intro a b hab
    exact ⟨le_of_insertionSort_eq h hab, le_of_insertionSort_eq h.symm hab⟩
  · exact insertionSort_congr

end Agree

section Buckets

variable {κ : Type*} [LinearOrder κ] (key : α → κ)

theorem orderedInsert_buckets {keys : List κ} (hkeys : keys.Pairwise (· < ·)) {a : α}
    (ha : key a ∈ keys) (l : List α) :
    (keys.flatMap fun k => l.filter (key · = k)).orderedInsert (fun a b => key a ≤ key b) a =
      keys.flatMap fun k => (a :: l).filter (key · = k) := by
  obtain ⟨before, after, rfl⟩ := List.append_of_mem ha
  rw [List.pairwise_append] at hkeys
  obtain ⟨-, hafter, hbefore⟩ := hkeys
  have hlow : ∀ k ∈ before, k < key a := fun k hk => hbefore k hk (key a) List.mem_cons_self
  have hhigh : ∀ k ∈ after, key a < k := (List.pairwise_cons.mp hafter).1
  have hskip : ∀ keys : List κ, (∀ k ∈ keys, key a ≠ k) →
      keys.flatMap (fun k => (a :: l).filter (key · = k)) =
        keys.flatMap fun k => l.filter (key · = k) := by
    intro keys hne
    apply List.flatMap_congr
    intro k hk
    exact List.filter_cons_of_neg (by simpa using hne k hk)
  rw [List.flatMap_append, List.flatMap_append, List.flatMap_cons, List.flatMap_cons,
    hskip before fun k hk => (hlow k hk).ne', hskip after fun k hk => (hhigh k hk).ne,
    List.filter_cons_of_pos (by simp), orderedInsert_append, orderedInsert_eq_cons,
    List.cons_append]
  · intro b hb
    rcases List.mem_append.mp hb with hb | hb
    · exact (of_decide_eq_true (List.mem_filter.mp hb).2).ge
    · obtain ⟨k, hk, hb⟩ := List.mem_flatMap.mp hb
      have hkey : key b = k := of_decide_eq_true (List.mem_filter.mp hb).2
      exact hkey ▸ (hhigh k hk).le
  · intro b hb
    obtain ⟨k, hk, hb⟩ := List.mem_flatMap.mp hb
    have hkey : key b = k := of_decide_eq_true (List.mem_filter.mp hb).2
    exact not_le.mpr (hkey ▸ hlow k hk)

theorem insertionSort_eq_buckets {keys : List κ} (hkeys : keys.Pairwise (· < ·)) {l : List α}
    (h : ∀ a ∈ l, key a ∈ keys) :
    l.insertionSort (fun a b => key a ≤ key b) = keys.flatMap fun k => l.filter (key · = k) := by
  induction l with
  | nil => simp
  | cons a l ih =>
    have ha : key a ∈ keys := h a List.mem_cons_self
    have hl := ih fun b hb => h b (List.mem_cons_of_mem a hb)
    rw [List.insertionSort_cons, hl, orderedInsert_buckets key hkeys ha]

end Buckets

section SortBy

variable {κ ν : Type*} [LinearOrder κ] [LinearOrder ν] (key : α → κ)

/-- The stable sort by a key. -/
def sortBy (l : List α) : List α := l.insertionSort fun a b => key a ≤ key b

instance isTrans_key : IsTrans α fun a b => key a ≤ key b := ⟨fun _ _ _ => le_trans⟩

instance total_key : Std.Total fun a b => key a ≤ key b := ⟨fun a b => le_total (key a) (key b)⟩

theorem sortBy_perm (l : List α) : (sortBy key l).Perm l := List.perm_insertionSort _ l

theorem sortBy_sorted (l : List α) : (sortBy key l).Pairwise fun a b => key a ≤ key b :=
  List.pairwise_insertionSort _ l

theorem filter_sortBy (p : α → Bool) (l : List α) :
    (sortBy key l).filter p = sortBy key (l.filter p) := filter_insertionSort p l

theorem sortBy_eq_iff {key : α → κ} {other : α → ν} {l : List α} :
    sortBy key l = sortBy other l ↔
      l.Pairwise fun a b => (key a ≤ key b ↔ other a ≤ other b) := insertionSort_eq_iff

theorem sortBy_eq_buckets {keys : List κ} (hkeys : keys.Pairwise (· < ·)) {l : List α}
    (h : ∀ a ∈ l, key a ∈ keys) :
    sortBy key l = keys.flatMap fun k => l.filter (key · = k) :=
  insertionSort_eq_buckets key hkeys h

/-- The buckets before a key hold what has a smaller key. -/
theorem buckets_perm {before after : List κ} {k : κ} (hkeys : (before ++ k :: after).Pairwise (· < ·))
    {l : List α} (h : ∀ a ∈ l, key a ∈ before ++ k :: after) :
    (before.flatMap fun k => l.filter (key · = k)).Perm (l.filter (key · < k)) := by
  obtain ⟨hbefore, hafter, hlt⟩ := List.pairwise_append.mp hkeys
  have hmem : ∀ a ∈ l.filter (key · < k), key a ∈ before := by
    intro a ha
    obtain ⟨hl, hk⟩ := List.mem_filter.mp ha
    have hk : key a < k := of_decide_eq_true hk
    rcases List.mem_append.mp (h a hl) with hfound | hfound
    · exact hfound
    · rcases List.mem_cons.mp hfound with heq | hfound
      · exact absurd heq hk.ne
      · exact absurd ((List.pairwise_cons.mp hafter).1 _ hfound) hk.not_gt
  have hbuckets := sortBy_eq_buckets key hbefore hmem
  have hsame : before.flatMap (fun k' => (l.filter (key · < k)).filter (key · = k')) =
      before.flatMap fun k' => l.filter (key · = k') := by
    apply List.flatMap_congr
    intro k' hk'
    rw [List.filter_filter]
    apply List.filter_congr
    intro a _
    have hlt' := hlt k' hk' k List.mem_cons_self
    by_cases heq : key a = k'
    · simp [heq, hlt']
    · simp [heq]
  rw [← hsame, ← hbuckets]
  exact sortBy_perm key _

/-- A sort by two keys sorts the buckets of the first by the second. -/
theorem sortBy_lex {key : α → κ} {other : α → ν} {keys : List κ} {others : List ν}
    (hkeys : keys.Pairwise (· < ·)) (hothers : others.Pairwise (· < ·)) {l : List α}
    (hkey : ∀ a ∈ l, key a ∈ keys) (hother : ∀ a ∈ l, other a ∈ others) :
    sortBy (fun a => toLex (key a, other a)) l =
      keys.flatMap fun k => sortBy other (l.filter (key · = k)) := by
  have hpairs : (keys.flatMap fun k => others.map fun o => toLex (k, o)).Pairwise (· < ·) := by
    rw [List.pairwise_flatMap]
    constructor
    · intro k _
      rw [List.pairwise_map]
      apply hothers.imp
      intro o o' hlt
      exact Prod.Lex.right k hlt
    · apply hkeys.imp
      intro k k' hlt pair hpair pair' hpair'
      obtain ⟨o, -, rfl⟩ := List.mem_map.mp hpair
      obtain ⟨o', -, rfl⟩ := List.mem_map.mp hpair'
      exact Prod.Lex.left o o' hlt
  have hmem : ∀ a ∈ l, toLex (key a, other a) ∈
      keys.flatMap fun k => others.map fun o => toLex (k, o) := by
    intro a ha
    apply List.mem_flatMap.mpr
    exact ⟨key a, hkey a ha, List.mem_map_of_mem (hother a ha)⟩
  rw [sortBy_eq_buckets _ hpairs hmem, List.flatMap_assoc]
  apply List.flatMap_congr
  intro k _
  have hbucket : ∀ a ∈ l.filter (key · = k), other a ∈ others :=
    fun a ha => hother a (List.mem_filter.mp ha).1
  rw [sortBy_eq_buckets other hothers hbucket, List.flatMap_map]
  apply List.flatMap_congr
  intro o _
  rw [List.filter_filter]
  apply List.filter_congr
  intro a _
  have hpair : toLex (key a, other a) = toLex (k, o) ↔ other a = o ∧ key a = k := by
    rw [toLex_inj, Prod.mk.injEq, and_comm]
  rw [← Bool.decide_and]
  exact decide_eq_decide.mpr hpair

end SortBy

section SortedFrom

variable {α β κ : Type*} [LinearOrder κ]

/-- A list in the order of its keys, in which equal keys keep the order that they had. -/
structure SortedFrom (key : α → κ) (l l' : List α) : Prop where
  perm : l'.Perm l
  sorted : l'.Pairwise fun a b => key a ≤ key b
  stable : ∀ k, l'.filter (key · = k) = l.filter (key · = k)

theorem sortedFrom_mergeSort (key : α → κ) (l : List α) :
    SortedFrom key l (l.mergeSort fun a b => key a ≤ key b) := by
  have htrans : ∀ a b c : α, decide (key a ≤ key b) = true → decide (key b ≤ key c) = true →
      decide (key a ≤ key c) = true := by
    intro a b c hab hbc
    rw [decide_eq_true_eq] at hab hbc ⊢
    exact hab.trans hbc
  have htotal : ∀ a b : α, (decide (key a ≤ key b) || decide (key b ≤ key a)) = true := by
    intro a b
    rw [Bool.or_eq_true, decide_eq_true_eq, decide_eq_true_eq]
    exact le_total (key a) (key b)
  have hperm := List.mergeSort_perm l fun a b => decide (key a ≤ key b)
  refine ⟨hperm, ?_, fun k => ?_⟩
  · exact (List.pairwise_mergeSort htrans htotal l).imp of_decide_eq_true
  · -- The items of one key are in order, so sorting leaves them as they stand.
    have hbucket : (l.filter (key · = k)).Pairwise fun a b => decide (key a ≤ key b) = true := by
      refine List.pairwise_of_forall_mem_list fun a ha b hb => ?_
      have hka : key a = k := of_decide_eq_true (List.mem_filter.mp ha).2
      have hkb : key b = k := of_decide_eq_true (List.mem_filter.mp hb).2
      rw [hka, hkb]
      exact decide_eq_true le_rfl
    have hsublist := (List.sublist_mergeSort htrans htotal hbucket List.filter_sublist).filter
      (key · = k)
    simp only [List.filter_filter, Bool.and_self] at hsublist
    exact (hsublist.eq_of_length (hperm.filter _).length_eq.symm).symm

/-- Items that match and have equal keys match after sorting. -/
theorem forall₂_mergeSort {R : α → β → Prop} {key : α → κ} {key' : β → κ} {as : List α}
    {bs : List β} (hkey : ∀ a b, R a b → key a = key' b) (h : List.Forall₂ R as bs) :
    List.Forall₂ R (as.mergeSort fun a b => key a ≤ key b)
      (bs.mergeSort fun a b => key' a ≤ key' b) := by
  obtain ⟨hlength, hmem⟩ := List.forall₂_iff_zip.mp h
  have hleft : (as.zip bs).map Prod.fst = as := List.map_fst_zip (by omega)
  have hright : (as.zip bs).map Prod.snd = bs := List.map_snd_zip (by omega)
  have has : ((as.zip bs).mergeSort fun p q => key p.1 ≤ key q.1).map Prod.fst
      = as.mergeSort fun a b => key a ≤ key b := by
    rw [List.map_mergeSort (s := fun a b => decide (key a ≤ key b)) fun _ _ _ _ => rfl, hleft]
  have hbs : ((as.zip bs).mergeSort fun p q => key p.1 ≤ key q.1).map Prod.snd
      = bs.mergeSort fun a b => key' a ≤ key' b := by
    rw [List.map_mergeSort (s := fun a b => decide (key' a ≤ key' b)) fun p hp q hq => ?_, hright]
    rw [hkey p.1 p.2 (hmem hp), hkey q.1 q.2 (hmem hq)]
  rw [← has, ← hbs, List.forall₂_map_left_iff, List.forall₂_map_right_iff]
  exact List.forall₂_same.mpr fun p hp => hmem (List.mem_mergeSort.mp hp)

end SortedFrom

end JdxLinker.StableSort
