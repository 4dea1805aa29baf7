import Checklib.Entries
import Checklib.Metric

/-!
# Absolute symbols

The if-chain refuses a prediction against an absolute symbol in its first
branch, where value and type agree, and nowhere else. `LaterBranch` names
the pairs that reach an accepting branch further down, and
`noCreditForAbs_iff` says that those are the only way in.
-/

namespace Checklib

open Common

variable {rt : Runtime} {truth : List ExecReloc} {pred : List RelReloc}

/-- A prediction against an absolute symbol. -/
def RelReloc.IsAbs (p : RelReloc) : Prop := p.symbol.stShndx = .special .SHN_ABS

instance : DecidablePred RelReloc.IsAbs := fun _ => inferInstanceAs (Decidable (_ = _))

/-- **No credit for an absolute symbol**: no turn of the loop counts such
a pair as a match, and a prediction of such pairs alone scores nothing. -/
structure NoCreditForAbs (truth : List ExecReloc) (pred : List RelReloc) : Prop where
  uncounted : ∀ t p, (some t, some p) ∈ mergedRows truth pred → p.IsAbs → t.value ≠ 0 →
    ∀ c c' : Counters, c.step (some t, some p) = .ok c' → c'.match_ = c.match_
  scoreless : (∀ p ∈ pred, p.IsAbs) → (∀ t ∈ truth, t.value ≠ 0) → (∃ t ∈ truth, t.Counted) →
    compareRelocationLists truth pred = .ok 0

/-- **The two accepting branches below the check**: a call through the
linkage table predicted as a relative one, and a relocation against a
section, whose value is not compared. -/
def LaterBranch (t : ExecReloc) (p : RelReloc) : Prop :=
  (p.value = .int t.value ∧ t.type_ = .R_386_PLT32 ∧ p.type_ = .R_386_PC32) ∨
  (p.value ≠ .int t.value ∧ t.type_ = p.type_ ∧ t.symbol.stType = .STT_SECTION)

instance (t : ExecReloc) (p : RelReloc) : Decidable (LaterBranch t p) :=
  inferInstanceAs (Decidable (_ ∨ _))

/-- An absolute symbol's target is its value, so it is never `SHN_UNDEF`. -/
theorem value_of_isAbs {elf : ElfFile} (h : iterRelocationsPart rt elf = .ok pred)
    {p : RelReloc} (hp : p ∈ pred) (habs : p.IsAbs) : p.value = .int p.symbol.stValue := by
  obtain ⟨e, -, sec, symtab, symbol, type_, -, -, -, -, hemit⟩ := exists_of_mem_iterRelocations h hp
  unfold relReloc at hemit
  split at hemit
  · obtain ⟨a, -, hemit⟩ := bind_eq_ok_iff.1 hemit
    obtain ⟨v, hv, hemit⟩ := bind_eq_ok_iff.1 hemit
    obtain rfl := Except.ok.inj hemit
    have hshndx : symbol.stShndx = .special .SHN_ABS := habs
    simp only [relTarget, hshndx] at hv
    exact (Except.ok.inj hv).symm
  · cases hemit

/-- **What the chain makes of an absolute symbol** whose address should
not be zero: the first branch refuses, and the second asks for a name. -/
theorem accepts_of_isAbs {t : ExecReloc} {p : RelReloc} {n : ℕ} (habs : p.IsAbs)
    (hvalue : p.value = .int n) (hne : t.value ≠ 0) : accepts t p = true ↔ LaterBranch t p := by
  have hshndx : p.symbol.stShndx = .special .SHN_ABS := habs
  unfold LaterBranch
  rw [hvalue]
  -- with equal values the section branch is out of reach, and with
  -- different ones the two branches on values are
  by_cases hv : t.value = n
  · subst hv
    by_cases htype : t.type_ = p.type_
    · -- the first branch, where no type is two types
      have htwo : p.type_ = .R_386_PLT32 → p.type_ ≠ .R_386_PC32 := by
        intro h
        rw [h]
        decide
      simpa [accepts, hvalue, htype, hshndx, hne] using htwo
    · simp [accepts, hvalue, htype]
  · have hv' : n ≠ t.value := fun h => hv h.symm
    simp [accepts, hvalue, hv, hv']

/-- A pair's turn leaves `match` alone exactly where the pair is relative
or rejected. -/
theorem step_match_eq_iff {t : ExecReloc} {p : RelReloc} (hv : t.vaddr = p.vaddr) :
    (∀ c c' : Counters, c.step (some t, some p) = .ok c' → c'.match_ = c.match_) ↔
      ¬ (t.Counted ∧ accepts t p = true) := by
  have hrow : RowsAgree [(some t, some p)] := by
    intro t' p' hm
    obtain ⟨ht, hp⟩ := Prod.mk.inj (List.mem_singleton.1 hm)
    rw [Option.some.inj ht, Option.some.inj hp]
    exact hv
  have hcount : [(some t, some p)].countP isMatch =
      if t.Counted ∧ accepts t p = true then 1 else 0 := by
    simp [List.countP_singleton, isMatch]
  constructor
  · -- a turn from the start is enough to see it counted
    intro h hacc
    have hmatch := h {} _ (Counters.step_eq hrow)
    simp only [Counters.addRows, hcount, if_pos hacc] at hmatch
    omega
  · intro hnot c c' hstep
    rw [Counters.step_eq hrow] at hstep
    obtain rfl := Except.ok.inj hstep
    simp only [Counters.addRows, hcount, if_neg hnot, Nat.add_zero]

/-- **No marks.** Where a counted true entry asks for a prediction and none
is accepted, the score is zero. -/
theorem compareRelocationLists_eq_zero (hT : (truth.map ExecReloc.vaddr).Nodup)
    (hP : (pred.map RelReloc.vaddr).Nodup) (hex : ∃ t ∈ truth, t.Counted)
    (hnone : ∀ t ∈ truth, ∀ p ∈ pred, t.vaddr = p.vaddr → t.Counted → ¬ accepts t p) :
    compareRelocationLists truth pred = .ok 0 := by
  have hmatched : matched truth pred = ∅ := by
    refine Finset.eq_empty_of_forall_notMem fun a ha => ?_
    obtain ⟨t, ht, p, hp, hta, hpa, hc, hacc⟩ := mem_matched.1 ha
    exact hnone t ht p hp (hta.trans hpa.symm) hc hacc
  have hzero : (tally truth pred).match_ = 0 := by
    simp only [tally, hmatched, Finset.card_empty]
  have hpos : 0 < (tally truth pred).total :=
    Nat.pos_of_ne_zero ((total_ne_zero_iff hT hP).2 (.inl hex))
  rw [compareRelocationLists_eq_iou hT hP, Counters.iou_of_pos hpos, hzero, Nat.cast_zero,
    zero_div]

/-- **Absolute symbols earn nothing exactly where no later branch takes
them**: no counted entry with an address to refer to shares its place
with an absolute prediction that such a branch accepts. -/
theorem noCreditForAbs_iff (rt : Runtime) (part : ElfFile) (truth : List ExecReloc)
    (pred : List RelReloc) (hpred : iterRelocationsPart rt part = .ok pred)
    (hT : (truth.map ExecReloc.vaddr).Nodup) (hP : (pred.map RelReloc.vaddr).Nodup) :
    NoCreditForAbs truth pred ↔
      ∀ t ∈ truth, ∀ p ∈ pred, t.vaddr = p.vaddr → t.Counted → p.IsAbs → t.value ≠ 0 →
        ¬ LaterBranch t p := by
  have hacc : ∀ t p, p ∈ pred → p.IsAbs → t.value ≠ 0 →
      (accepts t p = true ↔ LaterBranch t p) := by
    intro t p hp habs hne
    exact accepts_of_isAbs habs (value_of_isAbs hpred hp habs) hne
  constructor
  · -- such a pair is a row of the merge, and its turn would count it
    intro h t ht p hp hv hc habs hne hlater
    have hrow := (mem_mergedRows_both hT hP).2 ⟨ht, hp, hv⟩
    have hmatch := h.uncounted t p hrow habs hne
    exact (step_match_eq_iff hv).1 hmatch ⟨hc, (hacc t p hp habs hne).2 hlater⟩
  · intro h
    refine ⟨?_, ?_⟩
    · intro t p hrow habs hne
      obtain ⟨ht, hp, hv⟩ := (mem_mergedRows_both hT hP).1 hrow
      refine (step_match_eq_iff hv).2 ?_
      rintro ⟨hc, ha⟩
      exact h t ht p hp hv hc habs hne ((hacc t p hp habs hne).1 ha)
    · intro habs hne hex
      refine compareRelocationLists_eq_zero hT hP hex fun t ht p hp hv hc ha => ?_
      have hlater := (hacc t p hp (habs p hp) (hne t ht)).1 ha
      exact h t ht p hp hv hc (habs p hp) (hne t ht) hlater

/-! ## A call through the linkage table -/

/-- One call through the linkage table. -/
def pltExecutable : ElfFile :=
  .ofSections .ET_EXEC
    [{ name := ".text", shType := .SHT_PROGBITS, shFlags := 6, shAddr := 0x40030000, shSize := 16 },
     { name := ".rel.text", shType := .SHT_REL, shInfo := 1, shLink := 3
       data := [0, 0, 3, 0x40, 4, 1, 0, 0] },
     .ofSymbols [⟨"f", 0x40030008, .index 1, .STT_FUNC⟩]]

/-- A text section with a table of the given bytes, whose one symbol is
absolute. -/
def absPartWith (table : List UInt8) : ElfFile :=
  .ofSections .ET_REL
    [{ name := ".text.40030000f", shType := .SHT_PROGBITS, shFlags := 6, shSize := 16 },
     { name := ".rel.text.40030000f", shType := .SHT_REL, shInfo := 1, shLink := 3
       data := table },
     .ofSymbols [⟨"f", 0x40030008, .special .SHN_ABS, .STT_NOTYPE⟩]]

/-- The call's destination, named by that symbol in a relative relocation. -/
def absPart : ElfFile := absPartWith [0, 0, 0, 0, 2, 1, 0, 0]

/-- What the two files are read as. -/
def pltTruth : List ExecReloc :=
  [⟨0x40030000, 0x40030008, .R_386_PLT32, ⟨"f", 0x40030008, .index 1, .STT_FUNC⟩⟩]

@[inherit_doc pltTruth]
def absPred : List RelReloc :=
  [⟨0x40030000, .int 0x40030008, .R_386_PC32, ⟨"f", 0x40030008, .special .SHN_ABS, .STT_NOTYPE⟩⟩]

/-- **The call earns full credit.** -/
theorem not_noCreditForAbs :
    iterRelocationsElf .ascii pltExecutable = .ok pltTruth ∧
      iterRelocationsPart .ascii absPart = .ok absPred ∧ ¬ NoCreditForAbs pltTruth absPred := by
  refine ⟨by decide, by decide, fun h => ?_⟩
  have hscore := h.scoreless (by decide) (by decide) (by decide)
  have htally : tally pltTruth absPred = { match_ := 1 } := by decide
  rw [compareRelocationLists_eq_iou (by decide) (by decide), Counters.iou_eq_ok_iff, htally]
    at hscore
  simp [Counters.total] at hscore

/-- The same destination in a relocation of the true type. -/
def absPartPlt : ElfFile := absPartWith [0, 0, 0, 0, 4, 1, 0, 0]

theorem noCreditForAbs_iff_sample :
    compareRelocations .ascii pltExecutable absPartPlt = .ok 0 := by
  have hcredit := (noCreditForAbs_iff .ascii absPartPlt pltTruth
    [⟨0x40030000, .int 0x40030008, .R_386_PLT32,
      ⟨"f", 0x40030008, .special .SHN_ABS, .STT_NOTYPE⟩⟩]
    rfl (by decide) (by decide)).2 (by decide)
  exact hcredit.scoreless (by decide) (by decide) (by decide)

end Checklib
