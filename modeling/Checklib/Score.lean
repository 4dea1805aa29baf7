import Checklib.Counting

/-!
# The score

The four sets of the tally partition the counted entries of each list:
the truth's into matched, mismatched and missing, the prediction's into
matched, mismatched and superfluous. Everything the score is said to
satisfy is arithmetic over those two equations.
-/

namespace Checklib

open Common

variable {truth : List ExecReloc} {pred : List RelReloc}

/-! ## The two partitions -/

theorem eq_of_vaddr {ρ : Type} {vaddr : ρ → ℕ} {relocs : List ρ} (h : (relocs.map vaddr).Nodup)
    {r r' : ρ} (hr : r ∈ relocs) (hr' : r' ∈ relocs) (he : vaddr r = vaddr r') : r = r' :=
  List.inj_on_of_nodup_map h hr hr' he

theorem card_addrs {ρ : Type} {vaddr : ρ → ℕ} {relocs : List ρ} (h : (relocs.map vaddr).Nodup) :
    (addrs vaddr relocs).card = relocs.length := by
  rw [addrs, List.toFinset_card_of_nodup h, List.length_map]

theorem card_addrs_filter {ρ : Type} {vaddr : ρ → ℕ} {relocs : List ρ}
    (h : (relocs.map vaddr).Nodup) (q : ρ → Bool) :
    (addrs vaddr (relocs.filter q)).card = relocs.countP q := by
  have hsub : ((relocs.filter q).map vaddr).Nodup := h.sublist (List.filter_sublist.map vaddr)
  rw [card_addrs hsub, List.countP_eq_length_filter]

/-- An address is not both matched and mismatched: its pair is one pair. -/
theorem disjoint_matched_mismatched (hT : (truth.map ExecReloc.vaddr).Nodup)
    (hP : (pred.map RelReloc.vaddr).Nodup) :
    Disjoint (matched truth pred) (mismatched truth pred) := by
  rw [Finset.disjoint_left]
  intro a ha ha'
  obtain ⟨t, ht, p, hp, hta, hpa, -, hacc⟩ := mem_matched.1 ha
  obtain ⟨t', ht', p', hp', hta', hpa', -, hrej⟩ := mem_mismatched.1 ha'
  obtain rfl : t = t' := eq_of_vaddr hT ht ht' (hta.trans hta'.symm)
  obtain rfl : p = p' := eq_of_vaddr hP hp hp' (hpa.trans hpa'.symm)
  rw [hacc] at hrej
  exact absurd hrej (by decide)

theorem mem_pairs {a : ℕ} : a ∈ matched truth pred ∪ mismatched truth pred ↔
    PairAt (fun _ _ => True) truth pred a := by
  rw [Finset.mem_union, mem_matched, mem_mismatched]
  constructor
  · rintro (⟨t, ht, p, hp, hta, hpa, hc, -⟩ | ⟨t, ht, p, hp, hta, hpa, hc, -⟩) <;>
      exact ⟨t, ht, p, hp, hta, hpa, hc, trivial⟩
  · rintro ⟨t, ht, p, hp, hta, hpa, hc, -⟩
    cases hacc : accepts t p with
    | true => exact .inl ⟨t, ht, p, hp, hta, hpa, hc, hacc⟩
    | false => exact .inr ⟨t, ht, p, hp, hta, hpa, hc, hacc⟩

/-- **Counting a list by its pairs**: where a list's chosen entries lie at
the addresses of the pairs and at those of a set apart, they are as many
as the pairs and the set. -/
theorem countP_eq_of_pairs {ρ : Type} {vaddr : ρ → ℕ} {relocs : List ρ} {q : ρ → Bool}
    {s : Finset ℕ} (hT : (truth.map ExecReloc.vaddr).Nodup) (hP : (pred.map RelReloc.vaddr).Nodup)
    (hrelocs : (relocs.map vaddr).Nodup)
    (hset : addrs vaddr (relocs.filter q) = (matched truth pred ∪ mismatched truth pred) ∪ s)
    (hapart : ∀ a ∈ s, ¬ PairAt (fun _ _ => True) truth pred a) :
    (tally truth pred).match_ + (tally truth pred).mismatch + s.card = relocs.countP q := by
  have hdisj : Disjoint (matched truth pred ∪ mismatched truth pred) s := by
    rw [Finset.disjoint_left]
    intro a ha has
    exact hapart a has (mem_pairs.1 ha)
  have hcard := congrArg Finset.card hset
  rw [card_addrs_filter hrelocs, Finset.card_union_of_disjoint hdisj,
    Finset.card_union_of_disjoint (disjoint_matched_mismatched hT hP)] at hcard
  exact hcard.symm

/-- **Every counted true entry is matched, mismatched or missing.** -/
theorem countedTruth_eq (hT : (truth.map ExecReloc.vaddr).Nodup)
    (hP : (pred.map RelReloc.vaddr).Nodup) :
    (tally truth pred).match_ + (tally truth pred).mismatch + (tally truth pred).falseNegative
      = countedTruth truth := by
  have hset : addrs ExecReloc.vaddr (truth.filter fun t => t.Counted) =
      (matched truth pred ∪ mismatched truth pred) ∪ missing truth pred := by
    ext a
    simp only [mem_addrs, List.mem_filter, decide_eq_true_eq]
    rw [Finset.mem_union, mem_pairs, mem_missing]
    constructor
    · rintro ⟨t, ⟨ht, hc⟩, hta⟩
      by_cases hp : ∃ p ∈ pred, p.vaddr = a
      · obtain ⟨p, hp, hpa⟩ := hp
        exact .inl ⟨t, ht, p, hp, hta, hpa, hc, trivial⟩
      · exact .inr ⟨⟨t, ht, hta, hc⟩, fun p hpm hpa => hp ⟨p, hpm, hpa⟩⟩
    · rintro (⟨t, ht, -, -, hta, -, hc, -⟩ | ⟨⟨t, ht, hta, hc⟩, -⟩) <;>
        exact ⟨t, ⟨ht, hc⟩, hta⟩
  refine countP_eq_of_pairs hT hP hT hset fun a ha => ?_
  rintro ⟨-, -, p, hp, -, hpa, -⟩
  exact (mem_missing.1 ha).2 p hp hpa

/-- **Every counted prediction is matched, mismatched or superfluous.** -/
theorem countedPred_eq (hT : (truth.map ExecReloc.vaddr).Nodup)
    (hP : (pred.map RelReloc.vaddr).Nodup) :
    (tally truth pred).match_ + (tally truth pred).mismatch + (tally truth pred).falsePositive
      = countedPred truth pred := by
  have hset : addrs RelReloc.vaddr
      (pred.filter fun p => ¬ ∃ t ∈ truth, t.vaddr = p.vaddr ∧ ¬ t.Counted) =
      (matched truth pred ∪ mismatched truth pred) ∪ superfluous truth pred := by
    ext a
    simp only [mem_addrs, List.mem_filter, decide_eq_true_eq]
    rw [Finset.mem_union, mem_pairs, mem_superfluous]
    constructor
    · -- what the truth has at a counted prediction's address is counted too
      rintro ⟨p, ⟨hp, hrel⟩, rfl⟩
      by_cases ht : ∃ t ∈ truth, t.vaddr = p.vaddr
      · obtain ⟨t, ht, hta⟩ := ht
        have hc : t.Counted := by
          by_contra hc
          exact hrel ⟨t, ht, hta, hc⟩
        exact .inl ⟨t, ht, p, hp, hta, rfl, hc, trivial⟩
      · exact .inr ⟨⟨p, hp, rfl⟩, fun t htm hta => ht ⟨t, htm, hta⟩⟩
    · rintro (⟨t, ht, p, hp, hta, hpa, hc, -⟩ | ⟨⟨p, hp, hpa⟩, hne⟩)
      · refine ⟨p, ⟨hp, ?_⟩, hpa⟩
        rintro ⟨t', ht', hta', hrel⟩
        obtain rfl : t' = t := eq_of_vaddr hT ht' ht (hta'.trans (hpa.trans hta.symm))
        exact hrel hc
      · refine ⟨p, ⟨hp, ?_⟩, hpa⟩
        rintro ⟨t, ht, hta, -⟩
        exact hne t ht (hta.trans hpa)
  refine countP_eq_of_pairs hT hP hP hset fun a ha => ?_
  rintro ⟨t, ht, -, -, hta, -⟩
  exact (mem_superfluous.1 ha).2 t ht hta

/-! ## The loop against the sets -/

/-- The comparison does not see the order of either list. -/
theorem compareRelocationLists_congr {truth' : List ExecReloc} {pred' : List RelReloc}
    (hT : (truth.map ExecReloc.vaddr).Nodup) (hP : (pred.map RelReloc.vaddr).Nodup)
    (hT' : truth'.Perm truth) (hP' : pred'.Perm pred) :
    compareRelocationLists truth' pred' = compareRelocationLists truth pred := by
  simp only [compareRelocationLists, sortByVaddr_congr hT' hT, sortByVaddr_congr hP' hP]

theorem Counters.iou_of_pos {c : Counters} (h : 0 < c.total) :
    c.iou = .ok ((c.match_ : ℚ) / (c.total : ℚ)) := by
  rw [Counters.iou, if_neg h.ne']

/-- **The loop ends with the set definitions**: its counters are the
tally, which splits the counted truth into three; the order of the lists
is forgotten, and with no false positive the score is recall. -/
theorem compareRelocations_counts (truth : List ExecReloc) (pred : List RelReloc)
    (hT : (truth.map ExecReloc.vaddr).Nodup) (hP : (pred.map RelReloc.vaddr).Nodup) :
    countRows (mergeSorted ExecReloc.vaddr RelReloc.vaddr (sortByVaddr ExecReloc.vaddr truth)
        (sortByVaddr RelReloc.vaddr pred)) =
      .ok { match_ := (matched truth pred).card
            falsePositive := (superfluous truth pred).card
            falseNegative := (missing truth pred).card
            mismatch := (mismatched truth pred).card } ∧
    (matched truth pred).card + (mismatched truth pred).card + (missing truth pred).card =
      truth.countP (fun t => t.type_ ≠ .R_386_RELATIVE) ∧
    compareRelocationLists truth pred = (tally truth pred).iou ∧
    (∀ truth' pred', truth'.Perm truth → pred'.Perm pred →
      compareRelocationLists truth' pred' = compareRelocationLists truth pred) ∧
    ((superfluous truth pred).card = 0 → (∃ t ∈ truth, t.type_ ≠ .R_386_RELATIVE) →
      compareRelocationLists truth pred =
        .ok ((matched truth pred).card / truth.countP (fun t => t.type_ ≠ .R_386_RELATIVE))) := by
  have hsum := countedTruth_eq hT hP
  refine ⟨countRows_mergedRows hT hP, hsum, compareRelocationLists_eq_iou hT hP,
    fun truth' pred' hT' hP' => compareRelocationLists_congr hT hP hT' hP', ?_⟩
  intro hfp hex
  have hcount : 0 < countedTruth truth := by
    obtain ⟨t, ht, hc⟩ := hex
    exact List.countP_pos_iff.2 ⟨t, ht, decide_eq_true hc⟩
  have htotal : (tally truth pred).total = countedTruth truth := by
    have hzero : (tally truth pred).falsePositive = 0 := hfp
    rw [← hsum, Counters.total]
    omega
  rw [compareRelocationLists_eq_iou hT hP, Counters.iou_of_pos (by omega), htotal]
  rfl

/-- Three true entries, one of them relative, out of order. -/
def sampleTruth : List ExecReloc :=
  [⟨0x40030010, 0x40030200, .R_386_PLT32, ⟨"f", 0x40030200, .index 2, .STT_FUNC⟩⟩,
   ⟨0x40030000, 0xa800a000, .R_386_32, ⟨"d", 0xa800a000, .index 3, .STT_OBJECT⟩⟩,
   ⟨0x40030020, 0, .R_386_RELATIVE, ⟨"", 0, .special .SHN_UNDEF, .STT_NOTYPE⟩⟩]

/-- A prediction that finds one of them and invents another. -/
def samplePred : List RelReloc :=
  [⟨0x40030010, .int 0x40030200, .R_386_PC32, ⟨"x", 0, .index 1, .STT_FUNC⟩⟩,
   ⟨0x40030030, .int 0xa800a000, .R_386_32, ⟨"y", 0, .index 2, .STT_OBJECT⟩⟩]

theorem compareRelocations_counts_sample :
    (matched sampleTruth samplePred).card + (mismatched sampleTruth samplePred).card +
      (missing sampleTruth samplePred).card = 2 ∧
    compareRelocationLists sampleTruth.reverse samplePred.reverse =
      compareRelocationLists sampleTruth samplePred := by
  have h := compareRelocations_counts sampleTruth samplePred (by decide) (by decide)
  exact ⟨h.2.1.trans (by decide), h.2.2.2.1 _ _ (List.reverse_perm _) (List.reverse_perm _)⟩

end Checklib
