import Mathlib.Data.List.Basic
import Mathlib.Logic.Function.Basic

/-!
# Linked lists

A cell holds a pointer, to another cell or to none, and not every address
has a cell. Following the pointers from one of them visits a list of cells;
that list is determined, has no cell twice where it ends, and depends on
the pointers of its own cells alone. A list under construction is visited
up to its last cell, whose pointer is not set yet.
-/

namespace Checklib

namespace Common

variable {α : Type*}

/-- **A walk**: following `next` from `p` visits `xs` and is then at
`q`. -/
def Walk (next : α → Option (Option α)) (q : Option α) : Option α → List α → Prop
  | p, [] => p = q
  | p, x :: xs => p = some x ∧ ∃ r, next x = some r ∧ Walk next q r xs

variable {next next' : α → Option (Option α)} {p q r : Option α} {x : α} {xs ys : List α}

theorem walk_cons : Walk next q p (x :: xs) ↔
    p = some x ∧ ∃ r, next x = some r ∧ Walk next q r xs := Iff.rfl

theorem walk_append : Walk next q p (xs ++ ys) ↔
    ∃ r, Walk next r p xs ∧ Walk next q r ys := by
  induction xs generalizing p with
  | nil => exact ⟨fun h => ⟨p, rfl, h⟩, by rintro ⟨r, rfl, h⟩; exact h⟩
  | cons x xs ih =>
    simp only [List.cons_append, walk_cons, ih]
    constructor
    · rintro ⟨hp, s, hs, r, hxs, hys⟩
      exact ⟨r, ⟨hp, s, hs, hxs⟩, hys⟩
    · rintro ⟨r, ⟨hp, s, hs, hxs⟩, hys⟩
      exact ⟨hp, s, hs, r, hxs, hys⟩

/-- **Only its own cells' pointers matter** to a walk. -/
theorem Walk.congr (h : Walk next q p xs) (hsame : ∀ x ∈ xs, next' x = next x) :
    Walk next' q p xs := by
  induction xs generalizing p with
  | nil => exact h
  | cons x xs ih =>
    obtain ⟨hp, r, hr, hxs⟩ := h
    refine ⟨hp, r, ?_, ih hxs fun y hy => hsame y (List.mem_cons_of_mem x hy)⟩
    rw [hsame x List.mem_cons_self, hr]

theorem Walk.isSome (h : Walk next q p xs) (hx : x ∈ xs) : (next x).isSome := by
  induction xs generalizing p with
  | nil => cases hx
  | cons y ys ih =>
    obtain ⟨-, r, hr, hys⟩ := h
    rcases List.mem_cons.1 hx with rfl | hx
    · rw [hr]
      rfl
    · exact ih hys hx

theorem Walk.head_eq (h : Walk next none p xs) : p = xs.head? := by
  cases xs with
  | nil => exact h
  | cons x xs => exact h.1

/-- **A list that ends is determined** by where it begins. -/
theorem Walk.unique (hxs : Walk next none p xs) (hys : Walk next none p ys) :
    xs = ys := by
  induction xs generalizing p ys with
  | nil =>
    have hp : p = ys.head? := hys.head_eq
    rw [show p = none from hxs] at hp
    exact (List.head?_eq_none_iff.1 hp.symm).symm
  | cons x xs ih =>
    obtain ⟨rfl, r, hr, hxs⟩ := hxs
    cases ys with
    | nil => cases (show some x = none from hys)
    | cons y ys =>
      obtain ⟨hp, r', hr', hys⟩ := hys
      obtain rfl := Option.some.inj hp
      obtain rfl := Option.some.inj (hr.symm.trans hr')
      rw [ih hxs hys]

/-- **A list that ends has no cell twice**: from the second time on it
would be as long as from the first. -/
theorem Walk.nodup (h : Walk next none p xs) : xs.Nodup := by
  induction xs generalizing p with
  | nil => exact List.nodup_nil
  | cons x xs ih =>
    have hcons := h
    obtain ⟨rfl, r, hr, hxs⟩ := h
    refine List.nodup_cons.2 ⟨fun hmem => ?_, ih hxs⟩
    obtain ⟨before, after, rfl⟩ := List.append_of_mem hmem
    obtain ⟨s, -, hagain⟩ := walk_append.1 hxs
    obtain rfl : s = some x := hagain.1
    have hlen := congrArg List.length (hcons.unique hagain)
    simp only [List.length_cons, List.length_append] at hlen
    omega

/-! ## Lists under construction -/

/-- **A list under construction**: visited up to `last`, its last cell. -/
def Grown (next : α → Option (Option α)) (head last : Option α) (xs : List α) : Prop :=
  last = xs.getLast? ∧ Walk next last head xs.dropLast

theorem grown_nil : Grown next none none ([] : List α) := ⟨rfl, rfl⟩

theorem grown_singleton : Grown next (some x) (some x) [x] := ⟨rfl, rfl⟩

theorem Grown.congr (h : Grown next p q xs) (hsame : ∀ x ∈ xs, next' x = next x) :
    Grown next' p q xs :=
  ⟨h.1, h.2.congr fun x hx => hsame x (List.dropLast_subset xs hx)⟩

/-- Nothing is built where there is no last cell. -/
theorem Grown.eq_nil (h : Grown next p none xs) : xs = [] :=
  List.getLast?_eq_none_iff.1 h.1.symm

theorem Grown.exists_eq (h : Grown next p (some x) xs) :
    ∃ ys, xs = ys ++ [x] ∧ Walk next (some x) p ys := by
  obtain ⟨ys, rfl⟩ := List.getLast?_eq_some_iff.1 h.1.symm
  have hys := h.2
  rw [List.dropLast_concat] at hys
  exact ⟨ys, rfl, hys⟩

variable [DecidableEq α]

/-- The last cell's pointer, set. -/
theorem Grown.walk (h : Grown next p (some x) xs) (hnodup : xs.Nodup) (q : Option α) :
    Walk (Function.update next x (some q)) q p xs := by
  obtain ⟨ys, rfl, hys⟩ := h.exists_eq
  have hne : ∀ y ∈ ys, y ≠ x := fun y hy =>
    (List.nodup_append.1 hnodup).2.2 y hy x List.mem_cons_self
  refine walk_append.2 ⟨some x, hys.congr fun y hy => ?_, rfl, q, Function.update_self x _ _, rfl⟩
  exact Function.update_of_ne (hne y hy) (some q) next

/-- **A cell is added** behind the last. -/
theorem Grown.concat {y : α} (h : Grown next p (some x) xs) (hnodup : xs.Nodup) :
    Grown (Function.update next x (some (some y))) p (some y) (xs ++ [y]) := by
  refine ⟨by rw [List.getLast?_concat], ?_⟩
  rw [List.dropLast_concat]
  exact h.walk hnodup (some y)

/-- **A cell is put behind the first** of a list. -/
theorem Walk.insert {a : α} (h : Walk next none (some a) (a :: xs)) (hx : x ∉ a :: xs) :
    Walk (Function.update (Function.update next x (next a)) a (some (some x))) none (some a)
      (a :: x :: xs) := by
  have hne : x ≠ a := fun heq => hx (heq ▸ List.mem_cons_self)
  have ha : a ∉ xs := (List.nodup_cons.1 h.nodup).1
  obtain ⟨-, r, hr, hxs⟩ := h
  refine ⟨rfl, some x, by rw [Function.update_self], rfl, r, ?_, hxs.congr fun y hy => ?_⟩
  · rw [Function.update_of_ne hne, Function.update_self, hr]
  · have hya : y ≠ a := fun heq => ha (heq ▸ hy)
    have hyx : y ≠ x := fun heq => hx (heq ▸ List.mem_cons_of_mem a hy)
    rw [Function.update_of_ne hya, Function.update_of_ne hyx]

end Common

end Checklib
