import Checklib.Score
import Mathlib.Algebra.Order.Field.Basic
import Mathlib.Tactic.Linarith

/-!
# The score as a metric

The score divides the matched addresses by all that were counted, a
mismatch once. That places it between intersection over union, whose
union holds both elements of a mismatched pair, and the Dice quotient,
and below recall and precision. The quotient exists exactly when
something was counted.
-/

namespace Checklib

variable {truth : List ExecReloc} {pred : List RelReloc}

/-! ## The quotient -/

theorem Counters.iou_eq_ok_iff {c : Counters} {s : ℚ} :
    c.iou = .ok s ↔ c.total ≠ 0 ∧ s = c.match_ / c.total := by
  unfold Counters.iou
  split
  · next h => simp [h]
  · next h => simp [h, eq_comm]

theorem Counters.match_le_total (c : Counters) : c.match_ ≤ c.total := by
  unfold Counters.total
  omega

theorem Counters.iou_mem_unit {c : Counters} {s : ℚ} (h : c.iou = .ok s) : 0 ≤ s ∧ s ≤ 1 := by
  obtain ⟨hpos, rfl⟩ := Counters.iou_eq_ok_iff.1 h
  have hle : (c.match_ : ℚ) ≤ c.total := by exact_mod_cast c.match_le_total
  exact ⟨by positivity, div_le_one_of_le₀ hle (by positivity)⟩

/-- **The bounds, on four counters.** `t` and `p` are the counted entries
of the two lists; a mismatch is in both, and so twice in `t + p - m`. -/
theorem iou_bounds {m fp fn mm t p d : ℚ} (hm : 0 ≤ m) (hfp : 0 ≤ fp) (hfn : 0 ≤ fn)
    (hmm : 0 ≤ mm) (ht : m + mm + fn = t) (hp : m + mm + fp = p) (hd : m + fp + fn + mm = d)
    (hpos : 0 < d) :
    m / (t + p - m) ≤ m / d ∧ m / d ≤ 2 * m / (t + p) ∧ (0 < t → m / d ≤ m / t) ∧
      (0 < p → m / d ≤ m / p) ∧ (m / d = m / (t + p - m) ↔ m = 0 ∨ mm = 0) := by
  have hunion : 0 < t + p - m := by linarith
  have hsum : 0 < t + p := by linarith
  refine ⟨?_, ?_, fun htpos => ?_, fun hppos => ?_, ?_⟩
  · exact div_le_div_of_nonneg_left hm hpos (by linarith)
  · rw [div_le_div_iff₀ hpos hsum]
    have hle : m * (t + p) ≤ m * (2 * d) := mul_le_mul_of_nonneg_left (by linarith) hm
    linarith
  · exact div_le_div_of_nonneg_left hm htpos (by linarith)
  · exact div_le_div_of_nonneg_left hm hppos (by linarith)
  · rw [div_eq_div_iff hpos.ne' hunion.ne', mul_eq_mul_left_iff, or_comm]
    exact or_congr_right ⟨fun h => by linarith, fun h => by linarith⟩

/-- **The score lies between the documented metric and its laxer
relatives.** Over the matched addresses `m`, the counted truth `t` and the
counted prediction `p` it is at least `m / (t + p - m)`, with equality
exactly where nothing matched or nothing is mismatched, and at most the
Dice quotient, recall and precision. -/
theorem compareRelocations_bounds (truth : List ExecReloc) (pred : List RelReloc)
    (hT : (truth.map ExecReloc.vaddr).Nodup) (hP : (pred.map RelReloc.vaddr).Nodup)
    (hden : (tally truth pred).total ≠ 0) :
    ∃ s : ℚ, compareRelocationLists truth pred = .ok s ∧
      ((matched truth pred).card : ℚ) /
          (countedTruth truth + countedPred truth pred - (matched truth pred).card) ≤ s ∧
      s ≤ 2 * (matched truth pred).card / (countedTruth truth + countedPred truth pred) ∧
      (0 < countedTruth truth → s ≤ (matched truth pred).card / countedTruth truth) ∧
      (0 < countedPred truth pred → s ≤ (matched truth pred).card / countedPred truth pred) ∧
      (s = ((matched truth pred).card : ℚ) /
          (countedTruth truth + countedPred truth pred - (matched truth pred).card) ↔
        (matched truth pred).card = 0 ∨ mismatched truth pred = ∅) := by
  have ht := countedTruth_eq hT hP
  have hp := countedPred_eq hT hP
  have hpos : 0 < (tally truth pred).total := Nat.pos_of_ne_zero hden
  -- the two partitions and the denominator, as equations of rationals
  have htQ : ((tally truth pred).match_ : ℚ) + (tally truth pred).mismatch +
      (tally truth pred).falseNegative = countedTruth truth := by exact_mod_cast ht
  have hpQ : ((tally truth pred).match_ : ℚ) + (tally truth pred).mismatch +
      (tally truth pred).falsePositive = countedPred truth pred := by exact_mod_cast hp
  have hdQ : ((tally truth pred).match_ : ℚ) + (tally truth pred).falsePositive +
      (tally truth pred).falseNegative + (tally truth pred).mismatch =
        (tally truth pred).total := by
    simp [Counters.total]
  have hposQ : (0 : ℚ) < (tally truth pred).total := by exact_mod_cast hpos
  refine ⟨_, (compareRelocationLists_eq_iou hT hP).trans (Counters.iou_of_pos hpos), ?_⟩
  obtain ⟨hunion, hdice, hrecall, hprecision, heq⟩ :=
    iou_bounds (Nat.cast_nonneg _) (Nat.cast_nonneg _) (Nat.cast_nonneg _) (Nat.cast_nonneg _)
      htQ hpQ hdQ hposQ
  refine ⟨hunion, hdice, fun h => hrecall (by exact_mod_cast h),
    fun h => hprecision (by exact_mod_cast h), heq.trans ?_⟩
  rw [Nat.cast_eq_zero, Nat.cast_eq_zero]
  exact or_congr_right (Finset.card_eq_zero (s := mismatched truth pred))

theorem compareRelocations_bounds_sample :
    ∃ s : ℚ, compareRelocationLists sampleTruth samplePred = .ok s ∧
      s ≤ (matched sampleTruth samplePred).card / countedTruth sampleTruth := by
  obtain ⟨s, hs, -, -, hrecall, -⟩ :=
    compareRelocations_bounds sampleTruth samplePred (by decide) (by decide) (by decide)
  exact ⟨s, hs, hrecall (by decide)⟩

/-! ## When there is a quotient -/

/-- Nothing is counted exactly when dropping what lies at the truth's
relative addresses empties both lists. -/
theorem total_eq_zero_iff (hT : (truth.map ExecReloc.vaddr).Nodup)
    (hP : (pred.map RelReloc.vaddr).Nodup) :
    (tally truth pred).total = 0 ↔ countedTruth truth = 0 ∧ countedPred truth pred = 0 := by
  have ht := countedTruth_eq hT hP
  have hp := countedPred_eq hT hP
  unfold Counters.total
  omega

theorem countedTruth_eq_zero_iff :
    countedTruth truth = 0 ↔ ∀ t ∈ truth, t.type_ = .R_386_RELATIVE := by
  simp only [countedTruth, List.countP_eq_zero, decide_eq_true_eq]
  simp only [ExecReloc.Counted, ne_eq, not_not]

theorem countedPred_eq_zero_iff : countedPred truth pred = 0 ↔
    ∀ p ∈ pred, ∃ t ∈ truth, t.vaddr = p.vaddr ∧ t.type_ = .R_386_RELATIVE := by
  simp only [countedPred, List.countP_eq_zero, decide_eq_true_eq]
  simp only [ExecReloc.Counted, ne_eq, not_not]

/-- Something is counted where the truth has an entry that is not relative,
or the prediction one away from the truth's relative entries. -/
theorem total_ne_zero_iff (hT : (truth.map ExecReloc.vaddr).Nodup)
    (hP : (pred.map RelReloc.vaddr).Nodup) : (tally truth pred).total ≠ 0 ↔
      ((∃ t ∈ truth, t.type_ ≠ .R_386_RELATIVE) ∨
        ∃ p ∈ pred, ∀ t ∈ truth, t.vaddr = p.vaddr → t.type_ ≠ .R_386_RELATIVE) := by
  rw [Ne, total_eq_zero_iff hT hP, countedTruth_eq_zero_iff, countedPred_eq_zero_iff]
  constructor
  · intro hne
    by_contra hnone
    push Not at hnone
    exact hne hnone
  · rintro (⟨t, ht, hrel⟩ | ⟨p, hp, hrel⟩) ⟨htruth, hpred⟩
    · exact hrel (htruth t ht)
    · obtain ⟨t, ht, hv, htype⟩ := hpred p hp
      exact hrel t ht hv htype

/-- **The comparison has a score in the unit interval, and full marks for
two empty sets, exactly where some relocation counts.** Where none does
the division is by zero. -/
theorem compareRelocations_unit_iff (truth : List ExecReloc) (pred : List RelReloc)
    (hT : (truth.map ExecReloc.vaddr).Nodup) (hP : (pred.map RelReloc.vaddr).Nodup) :
    ((∃ s : ℚ, compareRelocationLists truth pred = .ok s ∧ 0 ≤ s ∧ s ≤ 1) ∧
      ((∀ t ∈ truth, t.type_ = .R_386_RELATIVE) →
        (∀ p ∈ pred, ∃ t ∈ truth, t.vaddr = p.vaddr ∧ t.type_ = .R_386_RELATIVE) →
        compareRelocationLists truth pred = .ok 1)) ↔
    ((∃ t ∈ truth, t.type_ ≠ .R_386_RELATIVE) ∨
      ∃ p ∈ pred, ∀ t ∈ truth, t.vaddr = p.vaddr → t.type_ ≠ .R_386_RELATIVE) := by
  rw [compareRelocationLists_eq_iou hT hP, ← total_ne_zero_iff hT hP]
  constructor
  · rintro ⟨⟨s, hs, -⟩, -⟩
    exact (Counters.iou_eq_ok_iff.1 hs).1
  · intro hne
    have hiou := Counters.iou_of_pos (Nat.pos_of_ne_zero hne)
    refine ⟨⟨_, hiou, Counters.iou_mem_unit hiou⟩, ?_⟩
    intro ht hp
    -- two empty sets leave nothing to count
    have hzero := (total_eq_zero_iff hT hP).2
      ⟨countedTruth_eq_zero_iff.2 ht, countedPred_eq_zero_iff.2 hp⟩
    exact absurd hzero hne

theorem compareRelocations_unit_iff_sample :
    ∃ s : ℚ, compareRelocationLists sampleTruth samplePred = .ok s ∧ 0 ≤ s ∧ s ≤ 1 :=
  ((compareRelocations_unit_iff sampleTruth samplePred (by decide) (by decide)).2
    (.inl (by decide))).1

/-- **Equal sets, no score**: an executable whose only relocation is
relative, against a file with none. -/
theorem compareRelocations_relative_only :
    ¬ ((∃ s : ℚ, compareRelocationLists
          [⟨0x40030000, 0, .R_386_RELATIVE, ⟨"", 0, .special .SHN_UNDEF, .STT_NOTYPE⟩⟩] [] =
            .ok s ∧ 0 ≤ s ∧ s ≤ 1) ∧
        compareRelocationLists
          [⟨0x40030000, 0, .R_386_RELATIVE, ⟨"", 0, .special .SHN_UNDEF, .STT_NOTYPE⟩⟩] [] =
            .ok 1) := by
  have hzero : compareRelocationLists
      [⟨0x40030000, 0, .R_386_RELATIVE, ⟨"", 0, .special .SHN_UNDEF, .STT_NOTYPE⟩⟩] [] =
        .error .zeroDivision := by
    rw [compareRelocationLists_eq_iou (by decide) (by decide)]
    rfl
  rw [hzero]
  rintro ⟨-, h⟩
  cases h

end Checklib
