import Checklib.Merge
import Checklib.Model.Tally

/-!
# The loop counts the sets

The loop of `compare_relocations` sees the rows of a join of two sorted
lists. Each row adds to one counter or to none (`Counters.step_eq`), so a
counter is the number of rows of its kind; over ascending lists that is
the number of addresses of its kind, which is how `tally` defines it. The
assertion inside the loop holds of every row (`RowsAgree`).
-/

namespace Checklib

open Common

/-! ## One row, and a run over rows -/

/-- A row that adds to `match`. -/
def isMatch : Option ExecReloc × Option RelReloc → Bool
  | (some t, some p) => t.Counted && accepts t p
  | _ => false

/-- A row that adds to `mismatch`. -/
def isMismatch : Option ExecReloc × Option RelReloc → Bool
  | (some t, some p) => t.Counted && !accepts t p
  | _ => false

/-- A row that adds to `false_negative`. -/
def isMissing : Option ExecReloc × Option RelReloc → Bool
  | (some t, none) => t.Counted
  | _ => false

/-- A row that adds to `false_positive`. -/
def isSuperfluous : Option ExecReloc × Option RelReloc → Bool
  | (none, _) => true
  | _ => false

/-- Every pair is of one address, which is what the loop asserts. -/
def RowsAgree (rows : List (Option ExecReloc × Option RelReloc)) : Prop :=
  ∀ t p, (some t, some p) ∈ rows → t.vaddr = p.vaddr

/-- The counters plus the rows of each kind. -/
def Counters.addRows (c : Counters) (rows : List (Option ExecReloc × Option RelReloc)) :
    Counters where
  match_ := c.match_ + rows.countP isMatch
  falsePositive := c.falsePositive + rows.countP isSuperfluous
  falseNegative := c.falseNegative + rows.countP isMissing
  mismatch := c.mismatch + rows.countP isMismatch

/-- **What one turn of the loop does** to a row it does not trip over. -/
theorem Counters.step_eq {c : Counters} {row : Option ExecReloc × Option RelReloc}
    (h : RowsAgree [row]) : c.step row = .ok (c.addRows [row]) := by
  match row, h with
  | (none, p), _ => rfl
  | (some t, none), _ =>
    by_cases ht : t.type_ = .R_386_RELATIVE <;>
      simp [Counters.step, Counters.addRows, isMatch, isMismatch, isMissing, isSuperfluous,
        ExecReloc.Counted, ht]
  | (some t, some p), h =>
    have hv : t.vaddr = p.vaddr := h t p (List.mem_singleton_self _)
    by_cases ht : t.type_ = .R_386_RELATIVE <;> by_cases ha : accepts t p <;>
      simp [Counters.step, Counters.addRows, isMatch, isMismatch, isMissing, isSuperfluous,
        ExecReloc.Counted, ht, ha, hv]

theorem Counters.addRows_cons (c : Counters) (row : Option ExecReloc × Option RelReloc)
    (rows : List (Option ExecReloc × Option RelReloc)) :
    (c.addRows [row]).addRows rows = c.addRows (row :: rows) := by
  simp only [Counters.addRows, List.countP_cons, List.countP_nil, Counters.mk.injEq]
  omega

/-- **What the loop does** to rows none of which it trips over. -/
theorem foldlM_step_eq {rows : List (Option ExecReloc × Option RelReloc)} (h : RowsAgree rows)
    (c : Counters) : rows.foldlM Counters.step c = .ok (c.addRows rows) := by
  induction rows generalizing c with
  | nil => rfl
  | cons row rows ih =>
    have hrow : RowsAgree [row] := fun t p hm =>
      h t p (List.mem_singleton.1 hm ▸ List.mem_cons_self)
    have hrows : RowsAgree rows := fun t p hm => h t p (List.mem_cons_of_mem _ hm)
    rw [List.foldlM_cons, Counters.step_eq hrow, ← c.addRows_cons row rows]
    exact ih hrows (c.addRows [row])

/-! ## Sorting -/

section Sorting

variable {ρ : Type} {vaddr : ρ → ℕ} {relocs relocs' : List ρ}

instance totalVaddr : Std.Total fun a b : ρ => vaddr a ≤ vaddr b := ⟨fun a b => le_total (vaddr a) (vaddr b)⟩

instance isTransVaddr : IsTrans ρ fun a b => vaddr a ≤ vaddr b := ⟨fun _ _ _ => le_trans⟩

theorem sortByVaddr_perm (vaddr : ρ → ℕ) (relocs : List ρ) :
    (sortByVaddr vaddr relocs).Perm relocs :=
  List.perm_insertionSort _ _

@[simp] theorem mem_sortByVaddr {r : ρ} : r ∈ sortByVaddr vaddr relocs ↔ r ∈ relocs :=
  (sortByVaddr_perm vaddr relocs).mem_iff

/-- **Sorting distinct addresses leaves them strictly increasing.** -/
theorem ascending_sortByVaddr (h : (relocs.map vaddr).Nodup) :
    Ascending vaddr (sortByVaddr vaddr relocs) := by
  have hsorted : (sortByVaddr vaddr relocs).Pairwise fun a b => vaddr a ≤ vaddr b :=
    List.pairwise_insertionSort _ _
  have hnodup : (sortByVaddr vaddr relocs).Pairwise fun a b => vaddr a ≠ vaddr b :=
    List.pairwise_map.1 (((sortByVaddr_perm vaddr relocs).map vaddr).nodup_iff.2 h)
  exact hsorted.imp₂ (fun _ _ hle hne => lt_of_le_of_ne hle hne) hnodup

/-- **The order a file lists its relocations in is forgotten.** -/
theorem sortByVaddr_congr (hp : relocs'.Perm relocs) (h : (relocs.map vaddr).Nodup) :
    sortByVaddr vaddr relocs' = sortByVaddr vaddr relocs := by
  have h' : (relocs'.map vaddr).Nodup := (hp.map vaddr).nodup_iff.2 h
  have hperm : (sortByVaddr vaddr relocs').Perm (sortByVaddr vaddr relocs) :=
    ((sortByVaddr_perm vaddr relocs').trans hp).trans (sortByVaddr_perm vaddr relocs).symm
  exact hperm.eq_of_pairwise (fun a b _ _ hab hba => absurd hab hba.not_gt)
    (ascending_sortByVaddr h') (ascending_sortByVaddr h)

/-- The assertion is that the addresses are distinct. -/
theorem assertDistinct_eq (text : String) :
    assertDistinct vaddr relocs text =
      if (relocs.map vaddr).Nodup then .ok () else .error (.assertion text) := by
  have hiff : relocs.length = (relocs.map vaddr).dedup.length ↔ (relocs.map vaddr).Nodup := by
    have hlen : (relocs.map vaddr).length = relocs.length := List.length_map vaddr
    rw [← hlen, eq_comm]
    constructor
    · intro h
      exact List.dedup_eq_self.1 ((List.dedup_sublist _).eq_of_length h)
    · intro h
      rw [List.dedup_eq_self.2 h]
  simp only [assertDistinct, hiff]

theorem nodup_map_sortByVaddr :
    ((sortByVaddr vaddr relocs).map vaddr).Nodup ↔ (relocs.map vaddr).Nodup :=
  ((sortByVaddr_perm vaddr relocs).map vaddr).nodup_iff

end Sorting

/-! ## The run over two relocation lists -/

section Run

variable {truth : List ExecReloc} {pred : List RelReloc}

/-- The rows the loop sees. -/
def mergedRows (truth : List ExecReloc) (pred : List RelReloc) :
    List (Option ExecReloc × Option RelReloc) :=
  mergeSorted ExecReloc.vaddr RelReloc.vaddr (sortByVaddr ExecReloc.vaddr truth)
    (sortByVaddr RelReloc.vaddr pred)

variable (hT : (truth.map ExecReloc.vaddr).Nodup) (hP : (pred.map RelReloc.vaddr).Nodup)

include hT hP

theorem mem_mergedRows_both {t : ExecReloc} {p : RelReloc} :
    (some t, some p) ∈ mergedRows truth pred ↔ t ∈ truth ∧ p ∈ pred ∧ t.vaddr = p.vaddr := by
  rw [mergedRows, mergeSorted_eq_outerJoin,
    mem_outerJoin_both (ascending_sortByVaddr hT) (ascending_sortByVaddr hP), mem_sortByVaddr,
    mem_sortByVaddr]

theorem mem_mergedRows_left {t : ExecReloc} :
    (some t, none) ∈ mergedRows truth pred ↔ t ∈ truth ∧ ∀ p ∈ pred, p.vaddr ≠ t.vaddr := by
  rw [mergedRows, mergeSorted_eq_outerJoin,
    mem_outerJoin_left (ascending_sortByVaddr hT) (ascending_sortByVaddr hP), mem_sortByVaddr]
  simp only [mem_sortByVaddr]

theorem mem_mergedRows_right {p : RelReloc} :
    (none, some p) ∈ mergedRows truth pred ↔ p ∈ pred ∧ ∀ t ∈ truth, t.vaddr ≠ p.vaddr := by
  rw [mergedRows, mergeSorted_eq_outerJoin,
    mem_outerJoin_right (ascending_sortByVaddr hT) (ascending_sortByVaddr hP), mem_sortByVaddr]
  simp only [mem_sortByVaddr]

/-- **The loop's assertion never fails.** -/
theorem rowsAgree_mergedRows : RowsAgree (mergedRows truth pred) :=
  fun _ _ h => ((mem_mergedRows_both hT hP).1 h).2.2

/-- Counting rows is counting addresses. -/
theorem countP_mergedRows (q : Option ExecReloc × Option RelReloc → Bool) (s : Finset ℕ)
    (hs : ∀ a, a ∈ s ↔ ∃ o ∈ mergedRows truth pred, q o ∧
      a ∈ joinKey ExecReloc.vaddr RelReloc.vaddr o) :
    (mergedRows truth pred).countP q = s.card := by
  rw [mergedRows, mergeSorted_eq_outerJoin] at hs ⊢
  exact countP_outerJoin (ascending_sortByVaddr hT) (ascending_sortByVaddr hP) q s hs

/-- The paired rows of a kind are the addresses whose pair is of it. -/
theorem countP_pairs (q : ExecReloc → RelReloc → Bool)
    (row : Option ExecReloc × Option RelReloc → Bool)
    (hrow : ∀ o, row o = true ↔ ∃ t p, o = (some t, some p) ∧ t.Counted ∧ q t p = true)
    {s : Finset ℕ} (hs : ∀ a, a ∈ s ↔ PairAt (fun t p => q t p = true) truth pred a) :
    (mergedRows truth pred).countP row = s.card := by
  refine countP_mergedRows hT hP row s fun a => ?_
  rw [hs]
  constructor
  · rintro ⟨t, ht, p, hp, rfl, hpa, hc, hq⟩
    exact ⟨(some t, some p), (mem_mergedRows_both hT hP).2 ⟨ht, hp, hpa.symm⟩,
      (hrow _).2 ⟨t, p, rfl, hc, hq⟩, rfl⟩
  · rintro ⟨o, ho, hr, ha⟩
    obtain ⟨t, p, rfl, hc, hq⟩ := (hrow o).1 hr
    obtain ⟨ht, hp, htp⟩ := (mem_mergedRows_both hT hP).1 ho
    obtain rfl : t.vaddr = a := Option.some.inj ha
    exact ⟨t, ht, p, hp, rfl, htp.symm, hc, hq⟩

theorem countP_isMatch : (mergedRows truth pred).countP isMatch = (matched truth pred).card := by
  refine countP_pairs hT hP accepts isMatch (fun o => ?_) fun a => mem_matched
  match o with
  | (some t, some p) => simp [isMatch]
  | (some t, none) | (none, p) => simp [isMatch]

theorem countP_isMismatch :
    (mergedRows truth pred).countP isMismatch = (mismatched truth pred).card := by
  refine countP_pairs hT hP (fun t p => !accepts t p) isMismatch (fun o => ?_) fun a => ?_
  · match o with
    | (some t, some p) => simp [isMismatch]
    | (some t, none) | (none, p) => simp [isMismatch]
  · rw [mem_mismatched]
    simp only [Bool.not_eq_true']

theorem countP_isMissing : (mergedRows truth pred).countP isMissing = (missing truth pred).card := by
  refine countP_mergedRows hT hP isMissing (missing truth pred) fun a => ?_
  rw [mem_missing]
  constructor
  · rintro ⟨⟨t, ht, rfl, hc⟩, hne⟩
    exact ⟨(some t, none), (mem_mergedRows_left hT hP).2 ⟨ht, hne⟩, by simpa [isMissing] using hc,
      rfl⟩
  · rintro ⟨o, ho, hr, ha⟩
    match o, hr with
    | (some t, none), hr =>
      obtain ⟨ht, hne⟩ := (mem_mergedRows_left hT hP).1 ho
      obtain rfl : t.vaddr = a := Option.some.inj ha
      exact ⟨⟨t, ht, rfl, by simpa [isMissing] using hr⟩, hne⟩

theorem countP_isSuperfluous :
    (mergedRows truth pred).countP isSuperfluous = (superfluous truth pred).card := by
  refine countP_mergedRows hT hP isSuperfluous (superfluous truth pred) fun a => ?_
  rw [mem_superfluous]
  constructor
  · rintro ⟨⟨p, hp, rfl⟩, hne⟩
    exact ⟨(none, some p), (mem_mergedRows_right hT hP).2 ⟨hp, hne⟩, rfl, rfl⟩
  · rintro ⟨⟨t, p⟩, ho, hr, ha⟩
    cases t with
    | some t => exact absurd hr (by simp [isSuperfluous])
    | none =>
      cases p with
      | none => cases ha
      | some p =>
        obtain ⟨hp, hne⟩ := (mem_mergedRows_right hT hP).1 ho
        obtain rfl : p.vaddr = a := Option.some.inj ha
        exact ⟨⟨p, hp, rfl⟩, hne⟩

/-- **The loop computes the tally.** -/
theorem countRows_mergedRows : countRows (mergedRows truth pred) = .ok (tally truth pred) := by
  rw [countRows, foldlM_step_eq (rowsAgree_mergedRows hT hP)]
  simp only [Counters.addRows, tally, countP_isMatch hT hP, countP_isMismatch hT hP,
    countP_isMissing hT hP, countP_isSuperfluous hT hP, Nat.zero_add]

/-- **What the comparison returns**, where both assertions hold. -/
theorem compareRelocationLists_eq_iou :
    compareRelocationLists truth pred = (tally truth pred).iou := by
  have hT' := nodup_map_sortByVaddr.2 hT
  have hP' := nodup_map_sortByVaddr.2 hP
  have hcount := countRows_mergedRows hT hP
  rw [mergedRows] at hcount
  simp only [compareRelocationLists, assertDistinct_eq, if_pos hT', if_pos hP', hcount]
  rfl

end Run

end Checklib
