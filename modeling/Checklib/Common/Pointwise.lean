import Mathlib.Data.List.Forall2

/-!
# Lists related element by element

What `List.Forall₂` says of one element at a time, and how a third list
is put between two that are related.
-/

namespace Checklib

namespace Common

variable {α β γ : Type*} {R : α → β → Prop} {as : List α} {bs : List β}

/-- A related list has a partner for every element, on the left. -/
theorem exists_right_of_forall₂ (h : List.Forall₂ R as bs) {a : α} (ha : a ∈ as) :
    ∃ b ∈ bs, R a b := by
  induction h with
  | nil => cases ha
  | @cons a' b as bs hab _ ih =>
    rcases List.mem_cons.1 ha with rfl | ha
    · exact ⟨b, List.mem_cons_self, hab⟩
    · obtain ⟨b', hb', h'⟩ := ih ha
      exact ⟨b', List.mem_cons_of_mem _ hb', h'⟩

@[inherit_doc exists_right_of_forall₂]
theorem exists_left_of_forall₂ (h : List.Forall₂ R as bs) {b : β} (hb : b ∈ bs) :
    ∃ a ∈ as, R a b :=
  exists_right_of_forall₂ h.flip hb

/-- Lists related through a function of each are one list. -/
theorem map_eq_of_forall₂ {f : α → γ} {g : β → γ}
    (h : List.Forall₂ (fun a b => f a = g b) as bs) : as.map f = bs.map g := by
  induction h with
  | nil => rfl
  | cons hab _ ih => rw [List.map_cons, List.map_cons, hab, ih]

/-- **A list in between.** Where every related pair has a third element
related to both, the lists have a third list. -/
theorem exists_between_of_forall₂ {S : α → γ → Prop} {Q : β → γ → Prop}
    (h : List.Forall₂ R as bs) (hstep : ∀ a ∈ as, ∀ b ∈ bs, R a b → ∃ c, S a c ∧ Q b c) :
    ∃ cs, List.Forall₂ S as cs ∧ List.Forall₂ Q bs cs := by
  induction h with
  | nil => exact ⟨[], .nil, .nil⟩
  | @cons a b as bs hab _ ih =>
    obtain ⟨c, hS, hQ⟩ := hstep a List.mem_cons_self b List.mem_cons_self hab
    obtain ⟨cs, hSs, hQs⟩ := ih fun a' ha' b' hb' =>
      hstep a' (List.mem_cons_of_mem _ ha') b' (List.mem_cons_of_mem _ hb')
    exact ⟨c :: cs, .cons hS hSs, .cons hQ hQs⟩

end Common

end Checklib
