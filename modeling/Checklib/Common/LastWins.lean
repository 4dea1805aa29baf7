import Mathlib.Data.List.Basic

/-!
# Slots where the last one wins

A fold that files each element under its class, over whatever the class
held, ends with the last element of each class. An element is dropped
when it has no class or a later element has the same one.
-/

namespace Checklib

namespace Common

variable {α κ σ : Type*} [DecidableEq κ] (cls : α → Option κ)

/-- The last element of class `k`. -/
def lastOf (k : κ) (l : List α) : Option α := (l.filter fun a => cls a = some k).getLast?

variable {cls}

theorem lastOf_cons {k : κ} {a : α} {l : List α} :
    lastOf cls k (a :: l) = (lastOf cls k l).or (if cls a = some k then some a else none) := by
  by_cases h : cls a = some k
  · simp only [lastOf, List.filter_cons, h, decide_true, if_true, List.getLast?_cons]
    cases (l.filter fun a => cls a = some k).getLast? <;> rfl
  · simp [lastOf, h]

/-- What a slot keeps is an element of its class. -/
theorem mem_of_lastOf {k : κ} {l : List α} {a : α} (h : lastOf cls k l = some a) :
    a ∈ l ∧ cls a = some k := by
  have hmem := List.mem_of_getLast? h
  obtain ⟨hl, hcls⟩ := List.mem_filter.1 hmem
  exact ⟨hl, of_decide_eq_true hcls⟩

/-- **A fold into slots keeps the last of each class**, over what the slot
held before. -/
theorem foldl_slot {get : σ → κ → Option α} {put : σ → α → σ}
    (hput : ∀ s a k, get (put s a) k = if cls a = some k then some a else get s k)
    (l : List α) (s : σ) (k : κ) : get (l.foldl put s) k = (lastOf cls k l).or (get s k) := by
  induction l generalizing s with
  | nil => rfl
  | cons a l ih =>
    rw [List.foldl_cons, ih, hput, lastOf_cons, Option.or_assoc]
    congr 1
    split <;> rfl

end Common

end Checklib
