import Checklib.Model.Comparator
import Mathlib.Data.Finset.Card

/-!
# What the comparison is for

The comparison of two relocation lists, stated over addresses: four sets
of addresses, and the counters they come to. Nothing here sorts or
merges; `Counting.lean` proves that the loop computes these numbers.
-/

namespace Checklib

/-- The addresses a list of relocations mentions. -/
def addrs {ρ : Type} (vaddr : ρ → ℕ) (relocs : List ρ) : Finset ℕ := (relocs.map vaddr).toFinset

/-- An executable's relocation that the score counts. -/
def ExecReloc.Counted (t : ExecReloc) : Prop := t.type_ ≠ .R_386_RELATIVE

instance : DecidablePred ExecReloc.Counted := fun _ => inferInstanceAs (Decidable (_ ≠ _))

/-- Address `a` holds a counted true relocation and a prediction, and the
pair satisfies `q`. -/
def PairAt (q : ExecReloc → RelReloc → Prop) (truth : List ExecReloc) (pred : List RelReloc)
    (a : ℕ) : Prop :=
  ∃ t ∈ truth, ∃ p ∈ pred, t.vaddr = a ∧ p.vaddr = a ∧ t.Counted ∧ q t p

instance (q : ExecReloc → RelReloc → Prop) [∀ t p, Decidable (q t p)] (truth : List ExecReloc)
    (pred : List RelReloc) : DecidablePred (PairAt q truth pred) :=
  fun _ => inferInstanceAs (Decidable (∃ _ ∈ _, ∃ _ ∈ _, _))

/-- The addresses in both lists whose pair is accepted. -/
def matched (truth : List ExecReloc) (pred : List RelReloc) : Finset ℕ :=
  (addrs ExecReloc.vaddr truth ∩ addrs RelReloc.vaddr pred).filter
    (PairAt (fun t p => accepts t p = true) truth pred)

/-- The addresses in both lists whose pair is not. -/
def mismatched (truth : List ExecReloc) (pred : List RelReloc) : Finset ℕ :=
  (addrs ExecReloc.vaddr truth ∩ addrs RelReloc.vaddr pred).filter
    (PairAt (fun t p => accepts t p = false) truth pred)

/-- The addresses of counted true relocations that are not predicted. -/
def missing (truth : List ExecReloc) (pred : List RelReloc) : Finset ℕ :=
  addrs ExecReloc.vaddr (truth.filter fun t => t.Counted) \ addrs RelReloc.vaddr pred

/-- The predicted addresses the truth does not mention. -/
def superfluous (truth : List ExecReloc) (pred : List RelReloc) : Finset ℕ :=
  addrs RelReloc.vaddr pred \ addrs ExecReloc.vaddr truth

/-- **The counters, by their set definitions.** -/
def tally (truth : List ExecReloc) (pred : List RelReloc) : Counters where
  match_ := (matched truth pred).card
  falsePositive := (superfluous truth pred).card
  falseNegative := (missing truth pred).card
  mismatch := (mismatched truth pred).card

/-- The entries of the truth that the score counts. -/
def countedTruth (truth : List ExecReloc) : ℕ := truth.countP fun t => t.Counted

/-- The entries of the prediction away from the truth's relative ones. -/
def countedPred (truth : List ExecReloc) (pred : List RelReloc) : ℕ :=
  pred.countP fun p => ¬ ∃ t ∈ truth, t.vaddr = p.vaddr ∧ ¬ t.Counted

/-! ## The sets, by membership -/

section

variable {truth : List ExecReloc} {pred : List RelReloc} {a : ℕ}

@[simp] theorem mem_addrs {ρ : Type} {vaddr : ρ → ℕ} {relocs : List ρ} :
    a ∈ addrs vaddr relocs ↔ ∃ r ∈ relocs, vaddr r = a := by
  simp [addrs]

theorem PairAt.mem_inter {q : ExecReloc → RelReloc → Prop} (h : PairAt q truth pred a) :
    a ∈ addrs ExecReloc.vaddr truth ∩ addrs RelReloc.vaddr pred := by
  obtain ⟨t, ht, p, hp, hta, hpa, -⟩ := h
  exact Finset.mem_inter.2 ⟨mem_addrs.2 ⟨t, ht, hta⟩, mem_addrs.2 ⟨p, hp, hpa⟩⟩

theorem mem_matched :
    a ∈ matched truth pred ↔ PairAt (fun t p => accepts t p = true) truth pred a := by
  rw [matched, Finset.mem_filter]
  exact and_iff_right_of_imp PairAt.mem_inter

theorem mem_mismatched :
    a ∈ mismatched truth pred ↔ PairAt (fun t p => accepts t p = false) truth pred a := by
  rw [mismatched, Finset.mem_filter]
  exact and_iff_right_of_imp PairAt.mem_inter

theorem mem_missing : a ∈ missing truth pred ↔
    (∃ t ∈ truth, t.vaddr = a ∧ t.Counted) ∧ ∀ p ∈ pred, p.vaddr ≠ a := by
  simp only [missing, Finset.mem_sdiff, mem_addrs, List.mem_filter, decide_eq_true_eq, not_exists,
    not_and]
  simp only [and_assoc, and_comm (a := ExecReloc.Counted _)]

theorem mem_superfluous : a ∈ superfluous truth pred ↔
    (∃ p ∈ pred, p.vaddr = a) ∧ ∀ t ∈ truth, t.vaddr ≠ a := by
  simp only [superfluous, Finset.mem_sdiff, mem_addrs, not_exists, not_and, ne_eq]

end

end Checklib
