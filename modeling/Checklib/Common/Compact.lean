import Mathlib.Data.List.Basic
import Mathlib.Algebra.Order.Group.Nat

/-!
# Filtering a list and renumbering it

When a list is filtered, what refers to its elements by index has to be
renumbered. `position` is where an element goes, `Renumbers` a function
on indices that follows it there, and takes the indices of what is gone
out of range. Two filterings renumber by the composite.
-/

namespace Checklib

namespace Common

variable {α β : Type*}

/-- Where element `i` is once the list is filtered, if it still is. -/
def position (p : α → Bool) (l : List α) (i : ℕ) : Option ℕ :=
  if l[i]?.any p then some ((l.take i).countP p) else none

/-- **A renumbering**: indices of kept elements follow them, and the others
refer to none. -/
structure Renumbers (p : α → Bool) (l : List α) (ren : ℕ → ℕ) : Prop where
  kept : ∀ i k, position p l i = some k → ren i = k
  gone : ∀ i, position p l i = none → (l.filter p).length ≤ ren i

variable {p q : α → Bool} {l : List α} {i k : ℕ}

theorem position_eq_some_iff :
    position p l i = some k ↔ ∃ a, l[i]? = some a ∧ p a ∧ (l.take i).countP p = k := by
  unfold position
  cases h : l[i]? with
  | none => simp
  | some a => by_cases ha : p a <;> simp [ha]

/-- A kept element is found at its position. -/
theorem getElem?_of_position (h : position p l i = some k) : (l.filter p)[k]? = l[i]? := by
  obtain ⟨a, ha, hpa, rfl⟩ := position_eq_some_iff.1 h
  have hsplit : l = l.take i ++ a :: l.drop (i + 1) := by
    have hi : i < l.length := (List.getElem?_eq_some_iff.1 ha).1
    have hget : l.get ⟨i, hi⟩ = a := Option.some.inj ((List.getElem?_eq_getElem hi).symm.trans ha)
    rw [← hget]
    simp
  have hfilter : l.filter p = (l.take i).filter p ++ a :: (l.drop (i + 1)).filter p := by
    conv_lhs => rw [hsplit]
    rw [List.filter_append, List.filter_cons_of_pos hpa]
  rw [ha, hfilter, List.countP_eq_length_filter, List.getElem?_append_right (le_refl _),
    Nat.sub_self, List.getElem?_cons_zero]

/-- **Filtering twice** moves an element twice. -/
theorem position_filter :
    position (fun a => p a && q a) l i = (position p l i).bind (position q (l.filter p)) := by
  cases h : position p l i with
  | none =>
    -- gone after the first filtering, so not kept by both
    unfold position at h ⊢
    cases hl : l[i]? with
    | none => simp
    | some a =>
      rw [hl] at h
      have hpa : p a = false := by
        by_contra hpa
        simp [hpa] at h
      simp [hpa]
  | some k =>
    have hget := getElem?_of_position h
    obtain ⟨a, ha, hpa, rfl⟩ := position_eq_some_iff.1 h
    have htake : (l.filter p).take ((l.take i).countP p) = (l.take i).filter p := by
      conv_lhs => rw [← List.take_append_drop i l, List.filter_append]
      rw [List.countP_eq_length_filter, List.take_append_drop, List.take_left' rfl]
    simp only [Option.bind_some, position, hget, htake, ha, Option.any_some, hpa, Bool.true_and,
      List.countP_filter]
    simp only [Bool.and_comm]

theorem position_map {f : β → α} {l : List β} :
    position p (l.map f) i = position (fun b => p (f b)) l i := by
  simp only [position, List.getElem?_map, Option.any_map, ← List.map_take, List.countP_map]
  rfl

theorem position_congr (h : ∀ a ∈ l, p a = q a) : position p l i = position q l i := by
  have hcount : (l.take i).countP p = (l.take i).countP q := by
    refine List.countP_congr fun a ha => ?_
    rw [h a (List.mem_of_mem_take ha)]
  unfold position
  cases hl : l[i]? with
  | none => rfl
  | some a => rw [hcount, Option.any_some, Option.any_some, h a (List.mem_of_getElem? hl)]

namespace Renumbers

variable {ren ren' : ℕ → ℕ}

/-- A list that keeps everything keeps its indices. -/
theorem id : Renumbers (fun _ => true) l id where
  kept i k h := by
    obtain ⟨a, ha, -, hcount⟩ := position_eq_some_iff.1 h
    have hi : i < l.length := (List.getElem?_eq_some_iff.1 ha).1
    rw [List.countP_true, List.length_take] at hcount
    show i = k
    omega
  gone i h := by
    have hi : ¬ i < l.length := by
      intro hi
      simp [position, List.getElem?_eq_getElem hi] at h
    have hlen : (l.filter fun _ => true).length = l.length := by simp
    show _ ≤ i
    omega

/-- **Two renumberings compose**, as the filterings do. -/
theorem comp (h : Renumbers p l ren) (h' : Renumbers q (l.filter p) ren') :
    Renumbers (fun a => p a && q a) l (ren' ∘ ren) where
  kept i k hk := by
    rw [position_filter] at hk
    obtain ⟨m, hm, hk⟩ := Option.bind_eq_some_iff.1 hk
    show ren' (ren i) = k
    rw [h.kept i m hm]
    exact h'.kept m k hk
  gone i hi := by
    have hlen : (l.filter fun a => p a && q a).length = ((l.filter p).filter q).length := by
      rw [List.filter_filter]
      simp only [Bool.and_comm]
    rw [hlen]
    rw [position_filter] at hi
    refine h'.gone (ren i) ?_
    -- gone at once, and out of the second one's range, or gone later
    cases hm : position p l i with
    | none =>
      have hout := h.gone i hm
      simp [position, List.getElem?_eq_none hout]
    | some m =>
      rw [hm, Option.bind_some] at hi
      rw [h.kept i m hm]
      exact hi

theorem of_map {f : β → α} {l : List β} (h : Renumbers p (l.map f) ren) :
    Renumbers (fun b => p (f b)) l ren where
  kept i k hk := h.kept i k (position_map.trans hk)
  gone i hi := by
    have hlen := h.gone i (position_map.trans hi)
    rwa [List.filter_map, List.length_map] at hlen

theorem congr (h : Renumbers p l ren) (hpq : ∀ a ∈ l, p a = q a) : Renumbers q l ren where
  kept i k hk := h.kept i k ((position_congr hpq).trans hk)
  gone i hi := by
    have hlen := h.gone i ((position_congr hpq).trans hi)
    rwa [List.filter_congr hpq] at hlen

end Renumbers

/-- There is a renumbering: what is gone is sent just past the end. -/
theorem renumbers_getD :
    Renumbers p l fun i => (position p l i).getD (l.filter p).length where
  kept i k h := by simp only [h, Option.getD_some]
  gone i h := by simp only [h, Option.getD_none, le_refl]

end Common

end Checklib
