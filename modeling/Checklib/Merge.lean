import Checklib.Common.OuterJoin
import Checklib.Model.Utils

/-!
# `merge_sorted` computes the full outer join

A state of the generator stands for the two lists it has still to yield,
a pending element being the head of its list. Read so, one turn of the
loop is one unfolding of `outerJoin`, and the whole run is the join: of
any two lists, sorted or not.
-/

namespace Checklib

open Common

variable {α β κ : Type*} [LinearOrder κ] (keyL : α → κ) (keyR : β → κ)

theorem drain_of_done {s : MergeState α β} {out : List (Option α × Option β)}
    (h : turn keyL keyR s = .done out) : drain keyL keyR s = out := by
  rw [drain]
  split <;> simp_all

theorem drain_of_yield {s s' : MergeState α β} {o : Option α × Option β}
    (h : turn keyL keyR s = .yield o s') : drain keyL keyR s = o :: drain keyL keyR s' := by
  rw [drain]
  split <;> simp_all

/-- **The loop refines the join**, from every state: by induction on what
is left to yield, each turn being one equation of `outerJoin`. -/
theorem drain_eq_outerJoin (s : MergeState α β) :
    drain keyL keyR s = outerJoin keyL keyR s.left s.right := by
  induction hn : s.work using Nat.strong_induction_on generalizing s with
  | _ n ih =>
    rcases turn_cases keyL keyR s with ⟨hr, ht⟩ | ⟨hl, ht⟩ | ⟨l, as, r, bs, hl, hr, hcase⟩
    · rw [drain_of_done keyL keyR ht, hr, outerJoin_nil_right]
    · rw [drain_of_done keyL keyR ht, hl, outerJoin_nil_left]
    · rw [hl, hr]
      -- the element a turn leaves pending is still the head of its list
      rcases hcase with ⟨hk, ht⟩ | ⟨hk, ht⟩ | ⟨hk, ht⟩
      · have hlt := work_lt_of_turn keyL keyR ht
        rw [drain_of_yield keyL keyR ht, outerJoin_cons_of_eq hk, ih _ (hn ▸ hlt) _ rfl]
        rfl
      · have hlt := work_lt_of_turn keyL keyR ht
        rw [drain_of_yield keyL keyR ht, outerJoin_cons_of_lt hk, ih _ (hn ▸ hlt) _ rfl]
        rfl
      · have hlt := work_lt_of_turn keyL keyR ht
        rw [drain_of_yield keyL keyR ht, outerJoin_cons_of_gt hk, ih _ (hn ▸ hlt) _ rfl]
        rfl

/-- **`merge_sorted` is the full outer join.** -/
theorem mergeSorted_eq_outerJoin (it1 : List α) (it2 : List β) :
    mergeSorted keyL keyR it1 it2 = outerJoin keyL keyR it1 it2 :=
  drain_eq_outerJoin keyL keyR ⟨it1, it2, none, none⟩

/-- **Nothing lost, and the same from either side**: of any two lists. With
truth and prediction exchanged, what was missing is superfluous, what was
superfluous is missing, and what was paired is paired. -/
theorem mergeSorted_symmetric (it1 : List α) (it2 : List β) :
    (mergeSorted keyL keyR it1 it2).length ≤ it1.length + it2.length ∧
      (mergeSorted keyL keyR it1 it2).filterMap Prod.fst = it1 ∧
      (mergeSorted keyL keyR it1 it2).filterMap Prod.snd = it2 ∧
      mergeSorted keyR keyL it2 it1 = (mergeSorted keyL keyR it1 it2).map Prod.swap ∧
      leftAlone (mergeSorted keyR keyL it2 it1) = rightAlone (mergeSorted keyL keyR it1 it2) ∧
      rightAlone (mergeSorted keyR keyL it2 it1) = leftAlone (mergeSorted keyL keyR it1 it2) ∧
      paired (mergeSorted keyR keyL it2 it1) =
        (paired (mergeSorted keyL keyR it1 it2)).map Prod.swap := by
  rw [mergeSorted_eq_outerJoin, mergeSorted_eq_outerJoin, ← map_swap_outerJoin it1 it2]
  refine ⟨length_outerJoin_le it1 it2, filterMap_fst_outerJoin it1 it2,
    filterMap_snd_outerJoin it1 it2, rfl, ?_, ?_, ?_⟩
  · exact leftAlone_map_swap _
  · exact rightAlone_map_swap _
  · exact paired_map_swap _

/-- **Of sorted lists it is a full outer join**; where no key repeats, an
element is alone exactly when the other side lacks its key. -/
theorem mergeSorted_isFullOuterJoin {it1 : List α} {it2 : List β} (h1 : Sorted keyL it1)
    (h2 : Sorted keyR it2) :
    IsFullOuterJoin keyL keyR it1 it2 (mergeSorted keyL keyR it1 it2) ∧
      ((it1.map keyL).Nodup → (it2.map keyR).Nodup →
        (∀ l ∈ it1, (some l, none) ∈ mergeSorted keyL keyR it1 it2 ↔
          ∀ r ∈ it2, keyR r ≠ keyL l) ∧
        ∀ r ∈ it2, (none, some r) ∈ mergeSorted keyL keyR it1 it2 ↔
          ∀ l ∈ it1, keyL l ≠ keyR r) := by
  rw [mergeSorted_eq_outerJoin]
  refine ⟨isFullOuterJoin_outerJoin h1 h2, fun hn1 hn2 => ?_⟩
  have ha1 := h1.ascending hn1
  have ha2 := h2.ascending hn2
  constructor
  · intro l hl
    rw [mem_outerJoin_left ha1 ha2, and_iff_right hl]
  · intro r hr
    rw [mem_outerJoin_right ha1 ha2, and_iff_right hr]

theorem mergeSorted_isFullOuterJoin_sample :
    IsFullOuterJoin Prod.fst id [(1, 'a'), (1, 'b'), (2, 'c')] [1, 2, 2, 3]
      (mergeSorted Prod.fst id [(1, 'a'), (1, 'b'), (2, 'c')] [1, 2, 2, 3]) :=
  (mergeSorted_isFullOuterJoin Prod.fst id (by decide) (by decide)).1

end Checklib
