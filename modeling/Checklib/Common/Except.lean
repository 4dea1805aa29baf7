import Checklib.Common.Pointwise

/-!
# Computations that can fail

Inversion for `Except`: a sequence succeeds when each step does, and a
traversal succeeds when the function does at every element. A proof about
a monadic definition peels it apart with these and never unfolds a bind.
-/

namespace Checklib

namespace Common

variable {ε α β γ : Type}

/-- A step that succeeded is passed over. -/
theorem ok_bind {a : α} {f : α → Except ε β} : (Except.ok a >>= f) = f a := rfl

theorem bind_eq_ok_iff {x : Except ε α} {f : α → Except ε β} {b : β} :
    (x >>= f) = .ok b ↔ ∃ a, x = .ok a ∧ f a = .ok b := by
  cases x with
  | ok a =>
    show f a = .ok b ↔ _
    constructor
    · intro h
      exact ⟨a, rfl, h⟩
    · rintro ⟨a', ha, h⟩
      cases ha
      exact h
  | error e =>
    show Except.error e = .ok b ↔ _
    simp

/-- A sequence succeeds if its first step does and the second after it. -/
theorem isOk_bind_iff {x : Except ε α} {f : α → Except ε β} :
    (∃ b, x >>= f = .ok b) ↔ ∃ a, x = .ok a ∧ ∃ b, f a = .ok b := by
  simp only [bind_eq_ok_iff]
  constructor
  · rintro ⟨b, a, ha, hb⟩
    exact ⟨a, ha, b, hb⟩
  · rintro ⟨a, ha, b, hb⟩
    exact ⟨b, a, ha, hb⟩

theorem bind_eq_error_iff {x : Except ε α} {f : α → Except ε β} {e : ε} :
    (x >>= f) = .error e ↔ x = .error e ∨ ∃ a, x = .ok a ∧ f a = .error e := by
  cases x with
  | ok a =>
    show f a = .error e ↔ _
    simp
  | error e' =>
    show Except.error e' = .error e ↔ _
    simp

/-- **A traversal succeeds** when the function does at every element, with
the values in order. -/
theorem mapM_eq_ok_iff {f : α → Except ε β} {l : List α} {l' : List β} :
    l.mapM f = .ok l' ↔ List.Forall₂ (fun a b => f a = .ok b) l l' := by
  induction l generalizing l' with
  | nil =>
    rw [List.mapM_nil, List.forall₂_nil_left_iff]
    exact ⟨fun h => (Except.ok.inj h).symm, fun h => h ▸ rfl⟩
  | cons a l ih =>
    rw [List.mapM_cons, bind_eq_ok_iff, List.forall₂_cons_left_iff]
    constructor
    · rintro ⟨b, hb, h⟩
      obtain ⟨bs, hbs, h⟩ := bind_eq_ok_iff.1 h
      exact ⟨b, bs, hb, ih.1 hbs, (Except.ok.inj h).symm⟩
    · rintro ⟨b, bs, hb, hbs, rfl⟩
      exact ⟨b, hb, bind_eq_ok_iff.2 ⟨bs, ih.2 hbs, rfl⟩⟩

/-- Every value of a traversal comes from an element. -/
theorem exists_of_mem_mapM {f : α → Except ε β} {l : List α} {l' : List β}
    (h : l.mapM f = .ok l') {b : β} (hb : b ∈ l') : ∃ a ∈ l, f a = .ok b := by
  have hall := mapM_eq_ok_iff.1 h
  induction hall with
  | nil => cases hb
  | @cons a b' l l' hab hall ih =>
    rcases List.mem_cons.1 hb with rfl | hb
    · exact ⟨a, List.mem_cons_self, hab⟩
    · obtain ⟨a', ha', h'⟩ := ih (mapM_eq_ok_iff.2 hall) hb
      exact ⟨a', List.mem_cons_of_mem _ ha', h'⟩

/-- **A traversal fails** at the first element where the function does, with
what it raises there. -/
theorem mapM_eq_error_iff {f : α → Except ε β} {l : List α} {e : ε} :
    l.mapM f = .error e ↔ ∃ before a after, l = before ++ a :: after ∧
      (∀ a' ∈ before, ∃ b, f a' = .ok b) ∧ f a = .error e := by
  induction l with
  | nil =>
    rw [List.mapM_nil]
    refine iff_of_false (by rintro ⟨⟩) ?_
    rintro ⟨before, a, after, h, -⟩
    exact List.append_ne_nil_of_right_ne_nil before (List.cons_ne_nil a after) h.symm
  | cons a l ih =>
    rw [List.mapM_cons, bind_eq_error_iff]
    constructor
    · rintro (ha | ⟨b, hb, h⟩)
      · exact ⟨[], a, l, rfl, List.forall_mem_nil _, ha⟩
      · rcases bind_eq_error_iff.1 h with h | ⟨bs, -, h⟩
        · obtain ⟨before, a', after, rfl, hok, he⟩ := ih.1 h
          exact ⟨a :: before, a', after, rfl, List.forall_mem_cons.2 ⟨⟨b, hb⟩, hok⟩, he⟩
        · cases h
    · rintro ⟨before, a', after, h, hok, he⟩
      cases before with
      | nil =>
        obtain ⟨rfl, -⟩ := List.cons.inj h
        exact .inl he
      | cons a'' before =>
        obtain ⟨rfl, hl⟩ := List.cons.inj h
        obtain ⟨⟨b, hb⟩, hok⟩ := List.forall_mem_cons.1 hok
        exact .inr ⟨b, hb, bind_eq_error_iff.2 (.inl (ih.2 ⟨before, a', after, hl, hok, he⟩))⟩

/-- **The elements up to one succeed**: a traversal comes as far as it. -/
def Reached (ok : α → Prop) (l : List α) (a : α) : Prop :=
  ∃ before after, l = before ++ a :: after ∧ ∀ a' ∈ before, ok a'

theorem Reached.congr {ok ok' : α → Prop} {l : List α} {a : α} (h : ∀ a' ∈ l, ok a' ↔ ok' a') :
    Reached ok l a ↔ Reached ok' l a := by
  have himp : ∀ {p q : α → Prop}, (∀ a' ∈ l, p a' → q a') → Reached p l a → Reached q l a := by
    rintro p q hpq ⟨before, after, rfl, hall⟩
    exact ⟨before, after, rfl, fun a' ha' => hpq a' (List.mem_append_left _ ha') (hall a' ha')⟩
  exact ⟨himp fun a' ha' => (h a' ha').1, himp fun a' ha' => (h a' ha').2⟩

/-- **A traversal fails in some way** where it comes to an element at which
the function does. -/
theorem exists_mapM_eq_error_iff {f : α → Except ε β} {l : List α} {q : ε → Prop} :
    (∃ e, l.mapM f = .error e ∧ q e) ↔
      ∃ a, Reached (fun a => ∃ b, f a = .ok b) l a ∧ ∃ e, f a = .error e ∧ q e := by
  simp only [mapM_eq_error_iff, Reached]
  constructor
  · rintro ⟨e, ⟨before, a, after, hl, hok, he⟩, hq⟩
    exact ⟨a, ⟨before, after, hl, hok⟩, e, he, hq⟩
  · rintro ⟨a, ⟨before, after, hl, hok⟩, e, he, hq⟩
    exact ⟨e, ⟨before, a, after, hl, hok, he⟩, hq⟩

/-- **A traversal succeeds** exactly if the function does everywhere. -/
theorem isOk_mapM_iff {f : α → Except ε β} {l : List α} :
    (∃ l', l.mapM f = .ok l') ↔ ∀ a ∈ l, ∃ b, f a = .ok b := by
  constructor
  · rintro ⟨l', hl⟩ a ha
    obtain ⟨b, -, hb⟩ := exists_right_of_forall₂ (mapM_eq_ok_iff.1 hl) ha
    exact ⟨b, hb⟩
  · intro h
    cases hl : l.mapM f with
    | ok l' => exact ⟨l', rfl⟩
    | error e =>
      obtain ⟨before, a, after, rfl, -, he⟩ := mapM_eq_error_iff.1 hl
      obtain ⟨b, hb⟩ := h a (List.mem_append_right before List.mem_cons_self)
      rw [hb] at he
      cases he

/-- **A traversal of traversals** is one traversal of all the elements. -/
theorem mapM_flatMap {f : α → Except ε (List γ)} {es : α → List β} {r : β → Except ε γ}
    {l : List α} (hf : ∀ a ∈ l, f a = (es a).mapM r) :
    (do let tables ← l.mapM f; return tables.flatten) = (l.flatMap es).mapM r := by
  induction l with
  | nil => rfl
  | cons a l ih =>
    have ha := hf a List.mem_cons_self
    have hl := ih fun a' ha' => hf a' (List.mem_cons_of_mem _ ha')
    rw [List.flatMap_cons, List.mapM_append, List.mapM_cons, ha, ← hl]
    simp only [bind_assoc, pure_bind, List.flatten_cons]

end Common

end Checklib
