import Mathlib

/-!
# Lists without duplicates, and ends of lists

Facts about the last item of a list, for lists that model linked chains: an item is told apart from
the last by what comes after it. An item of a list without duplicates determines its index.
-/

namespace JdxLinker.Lists

variable {α β : Type}

/-- What has a successor in a list without duplicates is not its last. -/
theorem getLast?_ne_of_nodup {before after : List α} {c e : α}
    (h : (before ++ c :: e :: after).Nodup) : (before ++ c :: e :: after).getLast? ≠ some c := by
  intro hlast
  have hmem : c ∈ e :: after := List.mem_of_getLast? (by simpa using hlast)
  have := List.nodup_append.mp h
  exact (List.nodup_cons.mp this.2.1).1 hmem

/-- An item of a list that was extended at its end is the new one, or one that was there. -/
theorem append_singleton_eq {init before after : List α} {new c : α}
    (h : init ++ [new] = before ++ c :: after) :
    (after = [] ∧ c = new ∧ before = init) ∨
      ∃ after', after = after' ++ [new] ∧ init = before ++ c :: after' := by
  obtain rfl | ⟨after', d, rfl⟩ := after.eq_nil_or_concat
  · obtain ⟨hinit, hc⟩ := List.append_inj' h rfl
    exact .inl ⟨rfl, by simpa using hc.symm, hinit.symm⟩
  · rw [List.concat_eq_append, ← List.cons_append, ← List.append_assoc] at h
    obtain ⟨hinit, hd⟩ := List.append_inj' h rfl
    obtain rfl : new = d := by simpa using hd
    exact .inr ⟨after', List.concat_eq_append, hinit⟩

/-- Items with the same key are at the same index, where no key occurs twice. -/
theorem index_eq_of_nodup_map {key : α → β} {l : List α} (h : (l.map key).Nodup) {i j : Nat}
    {a b : α} (ha : l[i]? = some a) (hb : l[j]? = some b) (hkey : key a = key b) : i = j := by
  have hlt := (List.getElem?_eq_some_iff.mp ha).1
  have hsame : (l.map key)[i]? = (l.map key)[j]? := by
    rw [List.getElem?_map, List.getElem?_map, ha, hb, Option.map_some, Option.map_some, hkey]
  exact (List.getElem?_inj (by rwa [List.length_map]) h).mp hsame

/-- A list without duplicates, all of whose numbers are between one and its length, has all of
these. -/
theorem mem_of_nodup_of_le_length {l : List Nat} (h : l.Nodup)
    (hbounds : ∀ n ∈ l, 1 ≤ n ∧ n ≤ l.length) {n : Nat} (hpos : 1 ≤ n) (hle : n ≤ l.length) :
    n ∈ l := by
  have hsub : l ⊆ List.range' 1 l.length := by
    intro m hm
    have := hbounds m hm
    exact List.mem_range'_1.mpr (by omega)
  have hperm : l.Perm (List.range' 1 l.length) :=
    (List.subperm_of_subset h hsub).perm_of_length_le (by rw [List.length_range'])
  exact hperm.mem_iff.mpr (List.mem_range'_1.mpr (by omega))

/-- A list of flags has at most as many set ones as there are places that include theirs. -/
theorem count_true_le {flags : List Bool} {places : List Nat}
    (h : ∀ p, flags[p]? = some true → p ∈ places) : flags.count true ≤ places.length := by
  have hset : flags.count true = ((flags.zipIdx.filter Prod.fst).map Prod.snd).length := by
    conv_lhs => rw [← List.zipIdx_map_fst 0 flags]
    rw [List.count, List.countP_map, List.length_map, ← List.countP_eq_length_filter]
    exact List.countP_congr fun entry _ => by simp
  have hnodup : ((flags.zipIdx.filter Prod.fst).map Prod.snd).Nodup := by
    refine (List.filter_sublist.map Prod.snd).nodup ?_
    rw [List.zipIdx_map_snd]
    exact List.nodup_range'
  rw [hset]
  refine (List.subperm_of_subset hnodup fun p hp => h p ?_).length_le
  obtain ⟨⟨flag, q⟩, hmem, rfl⟩ := List.mem_map.mp hp
  obtain ⟨hmem, hflag⟩ := List.mem_filter.mp hmem
  obtain rfl : flag = true := hflag
  exact List.mem_zipIdx_iff_getElem?.mp hmem

/-- What a list is sorted to does not depend on its order. -/
theorem mergeSort_eq_of_perm [LinearOrder α] {as as' : List α} (h : as.Perm as') :
    as.mergeSort = as'.mergeSort :=
  List.Perm.eq_of_pairwise' (List.pairwise_mergeSort' (· ≤ ·) as)
    (List.pairwise_mergeSort' (· ≤ ·) as')
    ((List.mergeSort_perm ..).trans (h.trans (List.mergeSort_perm ..).symm))

theorem findSome?_congr {f g : α → Option β} {l : List α} (h : ∀ a ∈ l, f a = g a) :
    l.findSome? f = l.findSome? g := by
  induction l with
  | nil => rfl
  | cons a l ih =>
      rw [List.findSome?_cons, List.findSome?_cons, h a List.mem_cons_self,
        ih fun b hb => h b (List.mem_cons_of_mem _ hb)]

/-! ### Prefixes of two predicates -/

section

variable {p q : α → Bool}

/-- What satisfies the weaker predicate starts with what satisfies the stronger one. -/
theorem takeWhile_eq_append (h : ∀ a, p a = true → q a = true) (l : List α) :
    l.takeWhile q = l.takeWhile p ++ (l.dropWhile p).takeWhile q := by
  induction l with
  | nil => rfl
  | cons a l ih =>
      by_cases hp : p a = true
      · rw [List.takeWhile_cons_of_pos (h a hp), List.takeWhile_cons_of_pos hp,
          List.dropWhile_cons_of_pos hp, List.cons_append, ih]
      · rw [List.takeWhile_cons_of_neg hp, List.dropWhile_cons_of_neg hp, List.nil_append]

theorem dropWhile_dropWhile (h : ∀ a, p a = true → q a = true) (l : List α) :
    (l.dropWhile p).dropWhile q = l.dropWhile q := by
  induction l with
  | nil => rfl
  | cons a l ih =>
      by_cases hp : p a = true
      · rw [List.dropWhile_cons_of_pos hp, List.dropWhile_cons_of_pos (h a hp), ih]
      · rw [List.dropWhile_cons_of_neg hp]

end

theorem exists_getElem?_of_forall₂ {R : α → β → Prop} {l : List α} {l' : List β}
    (h : List.Forall₂ R l l') {i : Nat} {a : α} (ha : l[i]? = some a) :
    ∃ b, l'[i]? = some b ∧ R a b := by
  induction h generalizing i with
  | nil => cases ha
  | @cons first b l l' hfirst _ ih =>
      cases i with
      | zero =>
          obtain rfl : first = a := by simpa using ha
          exact ⟨b, rfl, hfirst⟩
      | succ i => exact ih (by simpa using ha)

/-- Where the items of a part are, when parts are put one after the other. -/
theorem getElem?_flatMap (f : α → List β) {l : List α} {o d : Nat} {a : α} (ha : l[o]? = some a)
    (hd : d < (f a).length) :
    (l.flatMap f)[((l.map fun a => (f a).length).take o).sum + d]? = (f a)[d]? := by
  induction l generalizing o with
  | nil => cases ha
  | cons first l ih =>
      rw [List.flatMap_cons]
      cases o with
      | zero =>
          obtain rfl : first = a := by simpa using ha
          rw [List.take_zero, List.sum_nil, Nat.zero_add, List.getElem?_append_left hd]
      | succ o =>
          rw [List.map_cons, List.take_succ_cons, List.sum_cons, Nat.add_assoc,
            List.getElem?_append_right (Nat.le_add_right _ _), Nat.add_sub_cancel_left]
          exact ih (by simpa using ha)

theorem lookup_cons_eq_ite {K V : Type} [BEq K] [LawfulBEq K] [DecidableEq K] (entry : K × V)
    (rest : List (K × V)) (key : K) :
    (entry :: rest).lookup key = if key = entry.1 then some entry.2 else rest.lookup key := by
  rw [List.lookup_cons]
  by_cases h : key = entry.1
  · rw [if_pos h, beq_iff_eq.mpr h]
  · rw [if_neg h, beq_eq_false_iff_ne.mpr h]

end JdxLinker.Lists

/-!
## Packing what is kept of a list

The items that are marked are moved together, and each position gets the place that its item moved
to, or a mark of its own where the item was removed.
-/

namespace JdxLinker.Packing

variable {α : Type*} (dead : Nat)

/-- The items that are marked. -/
def kept : List α → List Bool → List α
  | a :: as, true :: live => a :: kept as live
  | _ :: as, false :: live => kept as live
  | _, _ => []

/-- The new places, from one on. -/
def ordinalsFrom (next : Nat) : List Bool → List Nat
  | [] => []
  | true :: live => next :: ordinalsFrom (next + 1) live
  | false :: live => dead :: ordinalsFrom next live

@[simp] theorem ordinalsFrom_length (next : Nat) (live : List Bool) :
    (ordinalsFrom dead next live).length = live.length := by
  induction live generalizing next with
  | nil => rfl
  | cons marked live ih => cases marked <;> simp [ordinalsFrom, ih]

/-- An item that was kept is found at its new place. -/
theorem kept_getElem? {as : List α} {live : List Bool} (hlength : live.length = as.length)
    {next i d : Nat} (h : (ordinalsFrom dead next live)[i]? = some d) (hd : d ≠ dead) :
    next ≤ d ∧ (kept as live)[d - next]? = as[i]? ∧ live[i]? = some true := by
  induction live generalizing as next i with
  | nil => cases h
  | cons marked live ih =>
      cases as with
      | nil => cases hlength
      | cons a as =>
          have htail : live.length = as.length := Nat.succ.inj hlength
          cases marked with
          | true =>
              cases i with
              | zero =>
                  obtain rfl : next = d := Option.some.inj h
                  exact ⟨Nat.le_refl _, by rw [Nat.sub_self]; rfl, rfl⟩
              | succ i =>
                  obtain ⟨hle, hget, hlive⟩ := ih htail h
                  refine ⟨by omega, ?_, hlive⟩
                  rw [show d - next = d - (next + 1) + 1 by omega]
                  exact hget
          | false =>
              cases i with
              | zero =>
                  obtain rfl : dead = d := Option.some.inj h
                  exact absurd rfl hd
              | succ i => exact ih htail h

/-- What is marked has a new place, among the items that are kept. -/
theorem exists_ordinal {as : List α} {live : List Bool} (hlength : live.length = as.length)
    (next : Nat) {i : Nat} (h : live[i]? = some true) :
    ∃ d, (ordinalsFrom dead next live)[i]? = some d ∧ d < next + (kept as live).length := by
  induction live generalizing as next i with
  | nil => cases h
  | cons marked live ih =>
      cases as with
      | nil => cases hlength
      | cons a as =>
          have htail : live.length = as.length := Nat.succ.inj hlength
          cases i with
          | zero =>
              obtain rfl : marked = true := Option.some.inj h
              refine ⟨next, rfl, ?_⟩
              rw [kept, List.length_cons]
              omega
          | succ i =>
              have hrest : live[i]? = some true := by simpa using h
              cases marked with
              | true =>
                  obtain ⟨d, hd, hlt⟩ := ih htail (next + 1) hrest
                  refine ⟨d, hd, ?_⟩
                  rw [kept, List.length_cons]
                  omega
              | false => exact ih htail next hrest

/-- How many items are kept depends on the marks only. -/
theorem kept_length_eq {β : Type*} {as : List α} {bs : List β} (h : as.length = bs.length)
    (live : List Bool) : (kept as live).length = (kept bs live).length := by
  induction as generalizing bs live with
  | nil =>
      obtain rfl : bs = [] := List.length_eq_zero_iff.mp h.symm
      cases live <;> rfl
  | cons a as ih =>
      cases bs with
      | nil => cases h
      | cons b bs =>
          have htail : as.length = bs.length := Nat.succ.inj h
          match live with
          | [] => rfl
          | true :: live => exact congrArg (· + 1) (ih htail live)
          | false :: live => exact ih htail live

end JdxLinker.Packing
