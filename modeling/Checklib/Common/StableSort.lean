import Mathlib.Data.List.Basic

/-!
# Sorting bottom up

A pass merges neighbouring runs of one length, and sorted runs come out
twice as long. What makes the result *the* sorted list, and not one of
several, is that elements the order cannot tell apart keep their order
among themselves: sorted lists that agree on every such class are one
list. So passes enough give what `List.mergeSort` gives.
-/

namespace Checklib

namespace Common

variable {α : Type*} {le : α → α → Bool} {xs ys : List α} {n : ℕ} {a : α}

/-- The order cannot tell them apart. -/
def ties (le : α → α → Bool) (a b : α) : Bool := le a b && le b a

/-- **A stable rearrangement**: what the order cannot tell apart is in the
same order in both lists. -/
def Stably (le : α → α → Bool) (xs ys : List α) : Prop :=
  ∀ a, xs.filter (ties le a) = ys.filter (ties le a)

theorem Stably.refl (le : α → α → Bool) (xs : List α) : Stably le xs xs := fun _ => rfl

theorem Stably.trans {zs : List α} (h : Stably le xs ys) (h' : Stably le ys zs) :
    Stably le xs zs := fun a => (h a).trans (h' a)

theorem ties_iff {b : α} : ties le a b = true ↔ le a b = true ∧ le b a = true :=
  Bool.and_eq_true_iff

section Order

variable (trans : ∀ a b c, le a b = true → le b c = true → le a c = true)
variable (total : ∀ a b, (le a b || le b a) = true)

include total in
theorem ties_self (a : α) : ties le a a = true := by
  have h := total a a
  rw [Bool.or_self] at h
  rw [ties_iff]
  exact ⟨h, h⟩

include total in
theorem Stably.mem (h : Stably le xs ys) (ha : a ∈ xs) : a ∈ ys := by
  have hmem : a ∈ xs.filter (ties le a) := List.mem_filter.2 ⟨ha, ties_self total a⟩
  rw [h a] at hmem
  exact (List.mem_filter.1 hmem).1

/-- The first of a sorted list is below all of it. -/
theorem le_of_mem_sorted (hself : le a a = true) (h : (a :: xs).Pairwise (le · ·)) {b : α}
    (hb : b ∈ a :: xs) : le a b = true := by
  rcases List.mem_cons.1 hb with rfl | hb
  · exact hself
  · exact List.rel_of_pairwise_cons h hb

include total in
/-- **Sorted lists that are stable rearrangements of each other are one
list**: their first elements tie, so they are the first of one class. -/
theorem Stably.eq_of_sorted (h : Stably le xs ys) (hxs : xs.Pairwise (le · ·))
    (hys : ys.Pairwise (le · ·)) : xs = ys := by
  have hself : ∀ a, le a a = true := fun a => (ties_iff.1 (ties_self total a)).1
  induction xs generalizing ys with
  | nil =>
    cases ys with
    | nil => rfl
    | cons b ys =>
      exact absurd (Stably.mem total (fun c => (h c).symm) List.mem_cons_self) (by simp)
  | cons a xs ih =>
    cases ys with
    | nil => exact absurd (Stably.mem total h List.mem_cons_self) (by simp)
    | cons b ys =>
      have hab : le a b = true := le_of_mem_sorted (hself a) hxs
        (Stably.mem total (fun c => (h c).symm) List.mem_cons_self)
      have hba : le b a = true := le_of_mem_sorted (hself b) hys
        (Stably.mem total h List.mem_cons_self)
      have hfirst := h a
      rw [List.filter_cons_of_pos (ties_self total a),
        List.filter_cons_of_pos (ties_iff.2 ⟨hab, hba⟩)] at hfirst
      obtain rfl := (List.cons.inj hfirst).1
      rw [ih (fun c => ?_) hxs.of_cons hys.of_cons]
      have hc := h c
      rw [List.filter_cons, List.filter_cons] at hc
      split at hc
      · exact (List.cons.inj hc).2
      · exact hc

/-! ## Merging -/

include trans total in
/-- **A merge takes ties from the left first.** -/
theorem filter_merge (hxs : xs.Pairwise (le · ·)) (a : α) :
    (xs.merge ys le).filter (ties le a) = xs.filter (ties le a) ++ ys.filter (ties le a) := by
  induction xs generalizing ys with
  | nil => rw [List.nil_merge, List.filter_nil, List.nil_append]
  | cons x xs ih =>
    induction ys with
    | nil => rw [List.merge_right, List.filter_nil, List.append_nil]
    | cons y ys ihy =>
      rw [List.cons_merge_cons]
      split
      next hxy =>
        rw [List.filter_cons, List.filter_cons (x := x), ih hxs.of_cons]
        split
        · rw [List.cons_append]
        · rfl
      next hxy =>
        rw [List.filter_cons, ihy, List.filter_cons (x := y)]
        split
        next hy =>
          -- what is taken early from the right ties with nothing on the left
          have hnone : (x :: xs).filter (ties le a) = [] := by
            refine List.filter_eq_nil_iff.2 fun z hz htie => hxy ?_
            have hself : le x x = true := (ties_iff.1 (ties_self total x)).1
            have hxz := le_of_mem_sorted hself hxs hz
            exact trans _ _ _ (trans _ _ _ hxz (ties_iff.1 htie).2) (ties_iff.1 hy).1
          rw [hnone, List.nil_append, List.nil_append]
        · rfl

end Order

/-! ## A pass -/

/-- **A pass**: runs of length `n`, merged two by two. -/
def mergePass (le : α → α → Bool) (n : ℕ) (xs : List α) : List α :=
  if 0 < n ∧ xs ≠ [] then
    (xs.take n).merge ((xs.drop n).take n) le ++ mergePass le n (xs.drop (2 * n))
  else xs
termination_by xs.length
decreasing_by
  have hpos : 0 < xs.length := List.length_pos_iff.2 (by tauto)
  rw [List.length_drop]
  omega

theorem mergePass_nil : mergePass le n [] = [] := by
  rw [mergePass, if_neg (fun h => h.2 rfl)]

theorem mergePass_of_ne (hn : 0 < n) (h : xs ≠ []) : mergePass le n xs =
    (xs.take n).merge ((xs.drop n).take n) le ++ mergePass le n (xs.drop (2 * n)) := by
  rw [mergePass, if_pos ⟨hn, h⟩]

/-- The two runs and what is behind them. -/
theorem take_append_take_append_drop (n : ℕ) (xs : List α) :
    xs.take n ++ (xs.drop n).take n ++ xs.drop (2 * n) = xs := by
  have hdrop : xs.drop (2 * n) = (xs.drop n).drop n := by
    rw [List.drop_drop, show n + n = 2 * n by omega]
  rw [hdrop, List.append_assoc, List.take_append_drop, List.take_append_drop]

theorem mergePass_perm (n : ℕ) (xs : List α) : (mergePass le n xs).Perm xs := by
  induction xs using mergePass.induct n with
  | case1 xs h ih =>
    rw [mergePass_of_ne h.1 h.2]
    have hmerge :
        ((xs.take n).merge ((xs.drop n).take n) le).Perm (xs.take n ++ (xs.drop n).take n) :=
      List.merge_perm_append le
    have hperm := hmerge.append ih
    rwa [take_append_take_append_drop] at hperm
  | case2 xs h => rw [mergePass, if_neg h]

theorem length_mergePass (n : ℕ) (xs : List α) : (mergePass le n xs).length = xs.length :=
  (mergePass_perm n xs).length_eq

/-- **Every run of length `n` is sorted.** -/
def RunsSorted (le : α → α → Bool) (n : ℕ) (xs : List α) : Prop :=
  ∀ k, ((xs.drop (k * n)).take n).Pairwise (le · ·)

theorem runsSorted_one (xs : List α) : RunsSorted le 1 xs := by
  intro k
  have hlen : ((xs.drop (k * 1)).take 1).length ≤ 1 := List.length_take_le 1 _
  match (xs.drop (k * 1)).take 1, hlen with
  | [], _ => exact List.Pairwise.nil
  | [a], _ => exact List.pairwise_singleton _ a

theorem RunsSorted.take (h : RunsSorted le n xs) : (xs.take n).Pairwise (le · ·) := by
  have h₀ := h 0
  rwa [Nat.zero_mul, List.drop_zero] at h₀

theorem RunsSorted.drop (h : RunsSorted le n xs) (j : ℕ) : RunsSorted le n (xs.drop (j * n)) := by
  intro k
  rw [List.drop_drop, ← Nat.add_mul]
  exact h (j + k)

theorem RunsSorted.sorted (h : RunsSorted le n xs) (hlen : xs.length ≤ n) :
    xs.Pairwise (le · ·) := by
  rw [← List.take_of_length_le hlen]
  exact h.take

section Order

variable (trans : ∀ a b c, le a b = true → le b c = true → le a c = true)
variable (total : ∀ a b, (le a b || le b a) = true)

include trans total in
/-- **A pass doubles the runs.** -/
theorem RunsSorted.mergePass (hn : 0 < n) (h : RunsSorted le n xs) :
    RunsSorted le (2 * n) (mergePass le n xs) := by
  induction xs using mergePass.induct n with
  | case2 xs hcond =>
    have hnil : xs = [] := by
      by_contra hne
      exact hcond ⟨hn, hne⟩
    rw [hnil, mergePass_nil]
    intro k
    rw [List.drop_nil, List.take_nil]
    exact List.Pairwise.nil
  | case1 xs hcond ih =>
    rw [mergePass_of_ne hcond.1 hcond.2]
    have hright : ((xs.drop n).take n).Pairwise (le · ·) := by
      have h₁ := h 1
      rwa [Nat.one_mul] at h₁
    have hmerged := List.pairwise_merge trans total _ _ h.take hright
    have hlen : ((xs.take n).merge ((xs.drop n).take n) le).length = min (2 * n) xs.length := by
      rw [List.length_merge, List.length_take, List.length_take, List.length_drop]
      omega
    have hrest := ih (h.drop 2)
    intro k
    rcases Nat.lt_or_ge xs.length (2 * n) with hshort | hlong
    · -- the two runs are all there is
      rw [List.drop_of_length_le (show xs.length ≤ 2 * n by omega), mergePass_nil, List.append_nil]
      exact hmerged.sublist ((List.take_sublist _ _).trans (List.drop_sublist _ _))
    · rw [Nat.min_eq_left hlong] at hlen
      cases k with
      | zero =>
        rw [Nat.zero_mul, List.drop_zero, List.take_left' hlen]
        exact hmerged
      | succ k =>
        have hskip : (k + 1) * (2 * n) = 2 * n + k * (2 * n) := by
          rw [Nat.succ_mul, Nat.add_comm]
        rw [hskip, ← List.drop_drop, List.drop_left' hlen]
        exact hrest k

include trans total in
/-- **A pass over sorted runs is stable.** -/
theorem RunsSorted.stably (h : RunsSorted le n xs) : Stably le (Common.mergePass le n xs) xs := by
  intro a
  induction xs using mergePass.induct n with
  | case1 xs hcond ih =>
    rw [mergePass_of_ne hcond.1 hcond.2, List.filter_append, filter_merge trans total h.take,
      ih (h.drop 2), ← List.filter_append, ← List.filter_append, take_append_take_append_drop]
  | case2 xs hcond => rw [Common.mergePass, if_neg hcond]

include trans total in
theorem stably_mergeSort (xs : List α) : Stably le (xs.mergeSort le) xs := by
  intro a
  have hsorted : (xs.filter (ties le a)).Pairwise (le · ·) := by
    refine List.pairwise_of_forall_mem_list fun b hb c hc => ?_
    exact trans b a c (ties_iff.1 (List.mem_filter.1 hb).2).2
      (ties_iff.1 (List.mem_filter.1 hc).2).1
  have hsub := (List.sublist_mergeSort trans total hsorted List.filter_sublist).filter (ties le a)
  rw [List.filter_filter, show (fun b => ties le a b && ties le a b) = ties le a by
    funext b; exact Bool.and_self _] at hsub
  exact (hsub.eq_of_length ((List.mergeSort_perm xs le).filter _).length_eq.symm).symm

include trans total in
/-- **A sorted stable rearrangement is what `List.mergeSort` gives.** -/
theorem Stably.eq_mergeSort (h : Stably le ys xs) (hys : ys.Pairwise (le · ·)) :
    ys = xs.mergeSort le :=
  (h.trans fun a => (stably_mergeSort trans total xs a).symm).eq_of_sorted total hys
    (List.pairwise_mergeSort trans total xs)

end Order

end Common

end Checklib
