import Checklib.Metric

/-!
# One more prediction

What adding a prediction at a new address does to the tally: it is a row
of its own at that address and touches no other, so one counter moves.
Beside a true entry that counts it leaves the missing for the matched or
the mismatched; where the truth has nothing it is superfluous; at a
relative entry nothing moves.
-/

namespace Checklib

variable {truth : List ExecReloc} {pred : List RelReloc} {r : RelReloc}

/-! ## The sets of a longer prediction -/

theorem pairAt_cons {q : ExecReloc → RelReloc → Prop} {a : ℕ} :
    PairAt q truth (r :: pred) a ↔
      (r.vaddr = a ∧ ∃ t ∈ truth, t.vaddr = r.vaddr ∧ t.Counted ∧ q t r) ∨
        PairAt q truth pred a := by
  constructor
  · rintro ⟨t, ht, p, hp, hta, hpa, hc, hq⟩
    rcases List.mem_cons.1 hp with rfl | hp
    · exact .inl ⟨hpa, t, ht, hta.trans hpa.symm, hc, hq⟩
    · exact .inr ⟨t, ht, p, hp, hta, hpa, hc, hq⟩
  · rintro (⟨hra, t, ht, hta, hc, hq⟩ | ⟨t, ht, p, hp, h⟩)
    · exact ⟨t, ht, r, List.mem_cons_self, hta.trans hra, hra, hc, hq⟩
    · exact ⟨t, ht, p, List.mem_cons_of_mem _ hp, h⟩

/-- The new address, where it joins a set, is new to it. -/
theorem not_mem_of_new {q : ExecReloc → RelReloc → Prop} (hr : ∀ p ∈ pred, p.vaddr ≠ r.vaddr) :
    ¬ PairAt q truth pred r.vaddr := by
  rintro ⟨-, -, p, hp, -, hpa, -⟩
  exact hr p hp hpa

theorem card_matched_cons_of_accepted (hr : ∀ p ∈ pred, p.vaddr ≠ r.vaddr)
    (h : ∃ t ∈ truth, t.vaddr = r.vaddr ∧ t.Counted ∧ accepts t r = true) :
    (matched truth (r :: pred)).card = (matched truth pred).card + 1 := by
  have hset : matched truth (r :: pred) = insert r.vaddr (matched truth pred) := by
    ext a
    rw [mem_matched, pairAt_cons, Finset.mem_insert, mem_matched, and_iff_left h, eq_comm]
  rw [hset, Finset.card_insert_of_notMem fun hm => not_mem_of_new hr (mem_matched.1 hm)]

theorem matched_cons_of_not (h : ¬ ∃ t ∈ truth, t.vaddr = r.vaddr ∧ t.Counted ∧ accepts t r = true) :
    matched truth (r :: pred) = matched truth pred := by
  ext a
  rw [mem_matched, pairAt_cons, mem_matched, or_iff_right fun hm => h hm.2]

theorem card_mismatched_cons_of_rejected (hr : ∀ p ∈ pred, p.vaddr ≠ r.vaddr)
    (h : ∃ t ∈ truth, t.vaddr = r.vaddr ∧ t.Counted ∧ accepts t r = false) :
    (mismatched truth (r :: pred)).card = (mismatched truth pred).card + 1 := by
  have hset : mismatched truth (r :: pred) = insert r.vaddr (mismatched truth pred) := by
    ext a
    rw [mem_mismatched, pairAt_cons, Finset.mem_insert, mem_mismatched, and_iff_left h, eq_comm]
  rw [hset, Finset.card_insert_of_notMem fun hm => not_mem_of_new hr (mem_mismatched.1 hm)]

theorem mismatched_cons_of_not
    (h : ¬ ∃ t ∈ truth, t.vaddr = r.vaddr ∧ t.Counted ∧ accepts t r = false) :
    mismatched truth (r :: pred) = mismatched truth pred := by
  ext a
  rw [mem_mismatched, pairAt_cons, mem_mismatched, or_iff_right fun hm => h hm.2]

theorem missing_cons : missing truth (r :: pred) = (missing truth pred).erase r.vaddr := by
  ext a
  rw [mem_missing, Finset.mem_erase, mem_missing, List.forall_mem_cons, ne_comm]
  tauto

theorem superfluous_cons_of_mem (h : ∃ t ∈ truth, t.vaddr = r.vaddr) :
    superfluous truth (r :: pred) = superfluous truth pred := by
  ext a
  rw [mem_superfluous, mem_superfluous]
  refine and_congr_left fun hne => ?_
  simp only [List.mem_cons, exists_eq_or_imp]
  refine or_iff_right ?_
  rintro rfl
  obtain ⟨t, ht, hta⟩ := h
  exact hne t ht hta

theorem card_superfluous_cons (hr : ∀ p ∈ pred, p.vaddr ≠ r.vaddr)
    (h : ∀ t ∈ truth, t.vaddr ≠ r.vaddr) :
    (superfluous truth (r :: pred)).card = (superfluous truth pred).card + 1 := by
  have hset : superfluous truth (r :: pred) = insert r.vaddr (superfluous truth pred) := by
    ext a
    rw [mem_superfluous, Finset.mem_insert, mem_superfluous]
    simp only [List.mem_cons, exists_eq_or_imp]
    constructor
    · rintro ⟨rfl | hp, hne⟩
      exacts [.inl rfl, .inr ⟨hp, hne⟩]
    · rintro (rfl | ⟨hp, hne⟩)
      exacts [⟨.inl rfl, h⟩, ⟨.inr hp, hne⟩]
  have hnew : r.vaddr ∉ superfluous truth pred := by
    intro hm
    obtain ⟨⟨p, hp, hpa⟩, -⟩ := mem_superfluous.1 hm
    exact hr p hp hpa
  rw [hset, Finset.card_insert_of_notMem hnew]

/-! ## The tally of a longer prediction -/

/-- **Where the truth has nothing**, the prediction is superfluous. -/
theorem tally_cons_of_superfluous (hr : ∀ p ∈ pred, p.vaddr ≠ r.vaddr)
    (h : ∀ t ∈ truth, t.vaddr ≠ r.vaddr) :
    (tally truth (r :: pred)).match_ = (tally truth pred).match_ ∧
      (tally truth (r :: pred)).total = (tally truth pred).total + 1 := by
  have hmatch : matched truth (r :: pred) = matched truth pred :=
    matched_cons_of_not fun ⟨t, ht, hta, _⟩ => h t ht hta
  have hmis : mismatched truth (r :: pred) = mismatched truth pred :=
    mismatched_cons_of_not fun ⟨t, ht, hta, _⟩ => h t ht hta
  have hmissing : missing truth (r :: pred) = missing truth pred := by
    rw [missing_cons, Finset.erase_eq_of_notMem]
    intro hm
    obtain ⟨⟨t, ht, hta, -⟩, -⟩ := mem_missing.1 hm
    exact h t ht hta
  have hfp := card_superfluous_cons hr h
  simp only [Counters.total, tally, hmatch, hmis, hmissing, hfp, true_and]
  omega

/-- **At a relative entry**, nothing moves. -/
theorem tally_cons_of_relative (hT : (truth.map ExecReloc.vaddr).Nodup) {t : ExecReloc}
    (ht : t ∈ truth) (hta : t.vaddr = r.vaddr) (hrel : ¬ t.Counted) :
    tally truth (r :: pred) = tally truth pred := by
  have hnone : ∀ q : ExecReloc → Prop, ¬ ∃ t' ∈ truth, t'.vaddr = r.vaddr ∧ t'.Counted ∧ q t' := by
    rintro q ⟨t', ht', hta', hc, -⟩
    obtain rfl : t' = t := eq_of_vaddr hT ht' ht (hta'.trans hta.symm)
    exact hrel hc
  have hmissing : missing truth (r :: pred) = missing truth pred := by
    rw [missing_cons, Finset.erase_eq_of_notMem]
    intro hm
    obtain ⟨⟨t', ht', hta', hc⟩, -⟩ := mem_missing.1 hm
    exact hnone (fun _ => True) ⟨t', ht', hta', hc, trivial⟩
  simp only [tally, matched_cons_of_not (hnone _), mismatched_cons_of_not (hnone _), hmissing,
    superfluous_cons_of_mem ⟨t, ht, hta⟩]

/-- A counted true entry leaves the missing once its address is
predicted. -/
theorem card_missing_cons (hr : ∀ p ∈ pred, p.vaddr ≠ r.vaddr) {t : ExecReloc} (ht : t ∈ truth)
    (hta : t.vaddr = r.vaddr) (hc : t.Counted) :
    (missing truth (r :: pred)).card + 1 = (missing truth pred).card := by
  have hmem : r.vaddr ∈ missing truth pred := mem_missing.2 ⟨⟨t, ht, hta, hc⟩, hr⟩
  rw [missing_cons]
  exact Finset.card_erase_add_one hmem

/-- **Beside a counted entry it matches**, a missing address becomes a
matched one. -/
theorem tally_cons_of_accepted (hT : (truth.map ExecReloc.vaddr).Nodup)
    (hr : ∀ p ∈ pred, p.vaddr ≠ r.vaddr) {t : ExecReloc} (ht : t ∈ truth)
    (hta : t.vaddr = r.vaddr) (hc : t.Counted) (hacc : accepts t r = true) :
    (tally truth (r :: pred)).match_ = (tally truth pred).match_ + 1 ∧
      (tally truth (r :: pred)).total = (tally truth pred).total := by
  have hmatch := card_matched_cons_of_accepted hr ⟨t, ht, hta, hc, hacc⟩
  have hmis : mismatched truth (r :: pred) = mismatched truth pred := by
    refine mismatched_cons_of_not ?_
    rintro ⟨t', ht', hta', -, hrej⟩
    obtain rfl : t' = t := eq_of_vaddr hT ht' ht (hta'.trans hta.symm)
    exact absurd (hacc.symm.trans hrej) (by decide)
  have hmissing := card_missing_cons hr ht hta hc
  simp only [Counters.total, tally, hmatch, hmis, superfluous_cons_of_mem ⟨t, ht, hta⟩, true_and]
  omega

/-- **Beside one it does not match**, a missing address becomes a
mismatched one. -/
theorem tally_cons_of_rejected (hT : (truth.map ExecReloc.vaddr).Nodup)
    (hr : ∀ p ∈ pred, p.vaddr ≠ r.vaddr) {t : ExecReloc} (ht : t ∈ truth)
    (hta : t.vaddr = r.vaddr) (hc : t.Counted) (hrej : accepts t r = false) :
    (tally truth (r :: pred)).match_ = (tally truth pred).match_ ∧
      (tally truth (r :: pred)).total = (tally truth pred).total := by
  have hmis := card_mismatched_cons_of_rejected hr ⟨t, ht, hta, hc, hrej⟩
  have hmatch : matched truth (r :: pred) = matched truth pred := by
    refine matched_cons_of_not ?_
    rintro ⟨t', ht', hta', -, hacc⟩
    obtain rfl : t' = t := eq_of_vaddr hT ht' ht (hta'.trans hta.symm)
    exact absurd (hacc.symm.trans hrej) (by decide)
  have hmissing := card_missing_cons hr ht hta hc
  simp only [Counters.total, tally, hmatch, hmis, superfluous_cons_of_mem ⟨t, ht, hta⟩, true_and]
  omega

/-! ## The score of a longer prediction -/

/-- **The score cannot be gamed by guessing or by withholding.** A new
prediction lowers the score where the truth has nothing, strictly unless
it is zero already; leaves it where the truth is relative or the pair is
rejected; and raises it where the pair is accepted. -/
theorem compareRelocations_insert (truth : List ExecReloc) (pred pred' : List RelReloc)
    (r : RelReloc) (hT : (truth.map ExecReloc.vaddr).Nodup)
    (hP : (pred.map RelReloc.vaddr).Nodup) (hr : ∀ p ∈ pred, p.vaddr ≠ r.vaddr)
    (hden : (tally truth pred).total ≠ 0) (hpred' : pred'.Perm (r :: pred)) :
    ∃ s s' : ℚ, compareRelocationLists truth pred = .ok s ∧
      compareRelocationLists truth pred' = .ok s' ∧
      ((∀ t ∈ truth, t.vaddr ≠ r.vaddr) → s' ≤ s ∧ (0 < s → s' < s)) ∧
      (∀ t ∈ truth, t.vaddr = r.vaddr →
        (t.type_ = .R_386_RELATIVE → s' = s) ∧
        (t.type_ ≠ .R_386_RELATIVE → accepts t r = true → s < s') ∧
        (t.type_ ≠ .R_386_RELATIVE → accepts t r = false → s' = s)) := by
  have hP' : ((r :: pred).map RelReloc.vaddr).Nodup := by
    rw [List.map_cons, List.nodup_cons]
    refine ⟨fun hm => ?_, hP⟩
    obtain ⟨p, hp, hpa⟩ := List.mem_map.1 hm
    exact hr p hp hpa
  have hpos : 0 < (tally truth pred).total := Nat.pos_of_ne_zero hden
  have hposQ : (0 : ℚ) < (tally truth pred).total := by exact_mod_cast hpos
  -- the score of the longer list, from whatever its tally is
  have hscore : ∀ m d : ℕ, (tally truth (r :: pred)).match_ = m ∧
      (tally truth (r :: pred)).total = d → 0 < d →
      compareRelocationLists truth pred' = .ok ((m : ℚ) / d) := by
    rintro m d ⟨rfl, rfl⟩ hd
    rw [compareRelocationLists_congr hT hP' (List.Perm.refl _) hpred',
      compareRelocationLists_eq_iou hT hP', Counters.iou_of_pos hd]
  have hs := (compareRelocationLists_eq_iou hT hP).trans (Counters.iou_of_pos hpos)
  by_cases hex : ∃ t ∈ truth, t.vaddr = r.vaddr
  · obtain ⟨t, ht, hta⟩ := hex
    have huniq : ∀ t' ∈ truth, t'.vaddr = r.vaddr → t' = t :=
      fun t' ht' hta' => eq_of_vaddr hT ht' ht (hta'.trans hta.symm)
    by_cases hc : t.Counted
    · -- the pair takes the place of a missing entry: same denominator
      cases hacc : accepts t r with
      | true =>
        refine ⟨_, _, hs, hscore _ _ (tally_cons_of_accepted hT hr ht hta hc hacc) hpos,
          fun h => absurd hta (h t ht), ?_⟩
        intro t' ht' hta'
        obtain rfl := huniq t' ht' hta'
        refine ⟨fun h => absurd h hc, fun _ _ => ?_, fun _ h => ?_⟩
        · exact div_lt_div_of_pos_right (by push_cast; linarith) hposQ
        · exact absurd (hacc.symm.trans h) (by decide)
      | false =>
        refine ⟨_, _, hs, hscore _ _ (tally_cons_of_rejected hT hr ht hta hc hacc) hpos,
          fun h => absurd hta (h t ht), ?_⟩
        intro t' ht' hta'
        obtain rfl := huniq t' ht' hta'
        exact ⟨fun _ => rfl, fun _ h => absurd (hacc.symm.trans h) (by decide), fun _ _ => rfl⟩
    · have htally : tally truth (r :: pred) = tally truth pred :=
        tally_cons_of_relative hT ht hta hc
      refine ⟨_, _, hs, hscore _ _ ⟨congrArg _ htally, congrArg _ htally⟩ hpos,
        fun h => absurd hta (h t ht), ?_⟩
      intro t' ht' hta'
      obtain rfl := huniq t' ht' hta'
      exact ⟨fun _ => rfl, fun h => absurd h hc, fun h => absurd h hc⟩
  · -- one more in the denominator, for nothing
    have hno : ∀ t ∈ truth, t.vaddr ≠ r.vaddr := fun t ht hta => hex ⟨t, ht, hta⟩
    refine ⟨_, _, hs, hscore _ _ (tally_cons_of_superfluous hr hno) (Nat.succ_pos _), fun _ => ?_,
      fun t ht hta => absurd hta (hno t ht)⟩
    have hlt : ((tally truth pred).total : ℚ) < ((tally truth pred).total + 1 : ℕ) := by
      push_cast
      linarith
    refine ⟨div_le_div_of_nonneg_left (by positivity) hposQ hlt.le, fun hspos => ?_⟩
    have hm : (0 : ℚ) < (tally truth pred).match_ := by
      rwa [div_pos_iff_of_pos_right hposQ] at hspos
    exact div_lt_div_of_pos_left hm hposQ hlt

theorem compareRelocations_insert_sample :
    ∃ s s' : ℚ, compareRelocationLists sampleTruth samplePred = .ok s ∧
      compareRelocationLists sampleTruth (samplePred ++
        [⟨0x40030000, .int 0xa800a000, .R_386_32, ⟨"z", 0, .index 2, .STT_OBJECT⟩⟩]) = .ok s' ∧
      s < s' := by
  obtain ⟨s, s', hs, hs', -, h⟩ := compareRelocations_insert sampleTruth samplePred
    (samplePred ++ [⟨0x40030000, .int 0xa800a000, .R_386_32, ⟨"z", 0, .index 2, .STT_OBJECT⟩⟩])
    ⟨0x40030000, .int 0xa800a000, .R_386_32, ⟨"z", 0, .index 2, .STT_OBJECT⟩⟩
    (by decide) (by decide) (by decide) (by decide) (List.perm_append_singleton _ _)
  refine ⟨s, s', hs, hs', (h ⟨0x40030000, 0xa800a000, .R_386_32,
    ⟨"d", 0xa800a000, .index 3, .STT_OBJECT⟩⟩ (by decide) rfl).2.1 (by decide) (by decide)⟩

end Checklib
