import Mathlib.Data.Finset.Card
import Mathlib.Data.List.Pairwise
import Mathlib.Order.Defs.LinearOrder

/-!
# The full outer join of two keyed lists

`outerJoin f g as bs` walks two lists side by side, pairing their heads
where the keys agree and emitting the smaller head alone where they do
not. Of any two lists it loses nothing and is the same from either side
(`filterMap_fst_outerJoin`, `map_swap_outerJoin`). Over sorted lists it is
a full outer join, `IsFullOuterJoin`. Over lists strictly increasing in
the key the result is the join a database would compute:
`mem_outerJoin_both`, `mem_outerJoin_left` and `mem_outerJoin_right` say
which rows it holds, `pairwise_outerJoin` that it holds at most one for a
key, and `countP_outerJoin` turns counting rows into counting keys.
-/

namespace Checklib

namespace Common

variable {α β κ : Type*} [LinearOrder κ] {f : α → κ} {g : β → κ}

/-- **The full outer join**, by simultaneous descent on both lists. -/
def outerJoin (f : α → κ) (g : β → κ) : List α → List β → List (Option α × Option β)
  | [], bs => bs.map fun b => (none, some b)
  | a :: as, [] => (a :: as).map fun a => (some a, none)
  | a :: as, b :: bs =>
    if f a = g b then (some a, some b) :: outerJoin f g as bs
    else if f a < g b then (some a, none) :: outerJoin f g as (b :: bs)
    else (none, some b) :: outerJoin f g (a :: as) bs
termination_by as bs => as.length + bs.length

@[simp] theorem outerJoin_nil_left (bs : List β) :
    outerJoin f g [] bs = bs.map fun b => (none, some b) := by
  rw [outerJoin]

@[simp] theorem outerJoin_nil_right (as : List α) :
    outerJoin f g as [] = as.map fun a => (some a, none) := by
  cases as <;> simp [outerJoin]

theorem outerJoin_cons_of_eq {a : α} {b : β} {as : List α} {bs : List β} (h : f a = g b) :
    outerJoin f g (a :: as) (b :: bs) = (some a, some b) :: outerJoin f g as bs := by
  rw [outerJoin, if_pos h]

theorem outerJoin_cons_of_lt {a : α} {b : β} {as : List α} {bs : List β} (h : f a < g b) :
    outerJoin f g (a :: as) (b :: bs) = (some a, none) :: outerJoin f g as (b :: bs) := by
  rw [outerJoin, if_neg h.ne, if_pos h]

theorem outerJoin_cons_of_gt {a : α} {b : β} {as : List α} {bs : List β} (h : g b < f a) :
    outerJoin f g (a :: as) (b :: bs) = (none, some b) :: outerJoin f g (a :: as) bs := by
  rw [outerJoin, if_neg h.ne', if_neg h.not_gt]

/-- **The induction the join is proved by**: both lists empty out, or the
two heads compare. -/
theorem outerJoin_induction {motive : List α → List β → Prop} (f : α → κ) (g : β → κ)
    (nil_left : ∀ bs, motive [] bs) (nil_right : ∀ a as, motive (a :: as) [])
    (eq : ∀ a as b bs, f a = g b → motive as bs → motive (a :: as) (b :: bs))
    (lt : ∀ a as b bs, f a < g b → motive as (b :: bs) → motive (a :: as) (b :: bs))
    (gt : ∀ a as b bs, g b < f a → motive (a :: as) bs → motive (a :: as) (b :: bs)) :
    ∀ as bs, motive as bs := by
  intro as bs
  induction as, bs using outerJoin.induct f g with
  | case1 bs => exact nil_left bs
  | case2 a as => exact nil_right a as
  | case3 a as b bs h ih => exact eq a as b bs h ih
  | case4 a as b bs _ h ih => exact lt a as b bs h ih
  | case5 a as b bs hne hnlt ih =>
    exact gt a as b bs (lt_of_le_of_ne (not_lt.1 hnlt) (Ne.symm hne)) ih

/-! ## The rows -/

/-- The key of a row: its left component's, or its right one's. -/
def joinKey (f : α → κ) (g : β → κ) : Option α × Option β → Option κ
  | (some a, _) => some (f a)
  | (none, some b) => some (g b)
  | (none, none) => none

/-- **No row is empty**, so every row has a key. -/
theorem joinKey_isSome {as : List α} {bs : List β} {o : Option α × Option β}
    (h : o ∈ outerJoin f g as bs) : (joinKey f g o).isSome := by
  induction as, bs using outerJoin_induction f g with
  | nil_left bs =>
    obtain ⟨b, -, rfl⟩ := List.mem_map.1 (outerJoin_nil_left (f := f) bs ▸ h)
    rfl
  | nil_right a as =>
    obtain ⟨a', -, rfl⟩ := List.mem_map.1 (outerJoin_nil_right (g := g) (a :: as) ▸ h)
    rfl
  | eq a as b bs hab ih =>
    rw [outerJoin_cons_of_eq hab] at h
    rcases List.mem_cons.1 h with rfl | h
    exacts [rfl, ih h]
  | lt a as b bs hab ih =>
    rw [outerJoin_cons_of_lt hab] at h
    rcases List.mem_cons.1 h with rfl | h
    exacts [rfl, ih h]
  | gt a as b bs hab ih =>
    rw [outerJoin_cons_of_gt hab] at h
    rcases List.mem_cons.1 h with rfl | h
    exacts [rfl, ih h]

/-- **A row comes from the lists**: whatever it names on a side is an
element of that side. -/
theorem mem_of_mem_outerJoin {as : List α} {bs : List β} {o : Option α × Option β}
    (h : o ∈ outerJoin f g as bs) : (∀ a ∈ o.1, a ∈ as) ∧ ∀ b ∈ o.2, b ∈ bs := by
  induction as, bs using outerJoin_induction f g with
  | nil_left bs =>
    rw [outerJoin_nil_left] at h
    obtain ⟨b, hb, rfl⟩ := List.mem_map.1 h
    simpa using hb
  | nil_right a as =>
    rw [outerJoin_nil_right] at h
    obtain ⟨a', ha', rfl⟩ := List.mem_map.1 h
    simpa using ha'
  | eq a as b bs hab ih =>
    rw [outerJoin_cons_of_eq hab] at h
    rcases List.mem_cons.1 h with rfl | h
    · simp
    · exact ⟨fun x hx => List.mem_cons_of_mem _ ((ih h).1 x hx),
        fun x hx => List.mem_cons_of_mem _ ((ih h).2 x hx)⟩
  | lt a as b bs hab ih =>
    rw [outerJoin_cons_of_lt hab] at h
    rcases List.mem_cons.1 h with rfl | h
    · simp
    · exact ⟨fun x hx => List.mem_cons_of_mem _ ((ih h).1 x hx), (ih h).2⟩
  | gt a as b bs hab ih =>
    rw [outerJoin_cons_of_gt hab] at h
    rcases List.mem_cons.1 h with rfl | h
    · simp
    · exact ⟨(ih h).1, fun x hx => List.mem_cons_of_mem _ ((ih h).2 x hx)⟩

/-! ## Any two lists

Whatever the order of their keys, the lists are in the rows, each element
once and in its place. -/

/-- **The join is symmetric**: of the lists the other way round it is the
same rows the other way round. -/
theorem map_swap_outerJoin (as : List α) (bs : List β) :
    (outerJoin f g as bs).map Prod.swap = outerJoin g f bs as := by
  induction as, bs using outerJoin_induction f g with
  | nil_left bs => simp
  | nil_right a as => simp
  | eq a as b bs hab ih =>
    rw [outerJoin_cons_of_eq hab, outerJoin_cons_of_eq hab.symm, List.map_cons, ih]
    rfl
  | lt a as b bs hab ih =>
    rw [outerJoin_cons_of_lt hab, outerJoin_cons_of_gt hab, List.map_cons, ih]
    rfl
  | gt a as b bs hab ih =>
    rw [outerJoin_cons_of_gt hab, outerJoin_cons_of_lt hab, List.map_cons, ih]
    rfl

/-- **The left list** is what the rows have on the left. -/
theorem filterMap_fst_outerJoin (as : List α) (bs : List β) :
    (outerJoin f g as bs).filterMap Prod.fst = as := by
  induction as, bs using outerJoin_induction f g with
  | nil_left bs =>
    rw [outerJoin_nil_left, List.filterMap_map]
    exact List.filterMap_eq_nil_iff.2 fun _ _ => rfl
  | nil_right a as =>
    rw [outerJoin_nil_right, List.filterMap_map]
    exact List.filterMap_some
  | eq a as b bs hab ih => simp only [outerJoin_cons_of_eq hab, List.filterMap_cons, ih]
  | lt a as b bs hab ih => simp only [outerJoin_cons_of_lt hab, List.filterMap_cons, ih]
  | gt a as b bs hab ih => simp only [outerJoin_cons_of_gt hab, List.filterMap_cons, ih]

/-- **The right list** likewise. -/
theorem filterMap_snd_outerJoin (as : List α) (bs : List β) :
    (outerJoin f g as bs).filterMap Prod.snd = bs := by
  have h := filterMap_fst_outerJoin (f := g) (g := f) bs as
  rwa [← map_swap_outerJoin as bs, List.filterMap_map] at h

/-- **Only equal keys are paired.** -/
theorem key_eq_of_mem_outerJoin {as : List α} {bs : List β} {x : α} {y : β}
    (h : (some x, some y) ∈ outerJoin f g as bs) : f x = g y := by
  induction as, bs using outerJoin_induction f g with
  | nil_left bs => simp at h
  | nil_right a as => simp at h
  | eq a as b bs hab ih =>
    rw [outerJoin_cons_of_eq hab] at h
    rcases List.mem_cons.1 h with heq | h
    · obtain ⟨hx, hy⟩ := Prod.mk.inj heq
      obtain rfl := Option.some.inj hx
      obtain rfl := Option.some.inj hy
      exact hab
    · exact ih h
  | lt a as b bs hab ih =>
    rw [outerJoin_cons_of_lt hab] at h
    exact ih (List.mem_of_ne_of_mem (by simp) h)
  | gt a as b bs hab ih =>
    rw [outerJoin_cons_of_gt hab] at h
    exact ih (List.mem_of_ne_of_mem (by simp) h)

/-- **No more rows than elements.** -/
theorem length_outerJoin_le (as : List α) (bs : List β) :
    (outerJoin f g as bs).length ≤ as.length + bs.length := by
  induction as, bs using outerJoin_induction f g with
  | nil_left bs => simp
  | nil_right a as => simp
  | eq a as b bs hab ih =>
    rw [outerJoin_cons_of_eq hab]
    simp only [List.length_cons]
    omega
  | lt a as b bs hab ih =>
    rw [outerJoin_cons_of_lt hab]
    simp only [List.length_cons] at ih ⊢
    omega
  | gt a as b bs hab ih =>
    rw [outerJoin_cons_of_gt hab]
    simp only [List.length_cons] at ih ⊢
    omega

/-! ## The three kinds of row -/

/-- What the rows have on the left alone. -/
def leftAlone (rows : List (Option α × Option β)) : List α :=
  rows.filterMap fun
    | (some a, none) => some a
    | _ => none

/-- What they have on the right alone. -/
def rightAlone (rows : List (Option α × Option β)) : List β :=
  rows.filterMap fun
    | (none, some b) => some b
    | _ => none

/-- What they pair. -/
def paired (rows : List (Option α × Option β)) : List (α × β) :=
  rows.filterMap fun
    | (some a, some b) => some (a, b)
    | _ => none

/-- **Turning the rows round** turns what is alone on one side into what is
alone on the other. -/
theorem leftAlone_map_swap (rows : List (Option α × Option β)) :
    leftAlone (rows.map Prod.swap) = rightAlone rows := by
  rw [leftAlone, rightAlone, List.filterMap_map]
  congr 1
  funext ⟨a, b⟩
  cases a <;> cases b <;> rfl

theorem rightAlone_map_swap (rows : List (Option α × Option β)) :
    rightAlone (rows.map Prod.swap) = leftAlone rows := by
  rw [← leftAlone_map_swap, List.map_map, Prod.swap_swap_eq, List.map_id]

theorem paired_map_swap (rows : List (Option α × Option β)) :
    paired (rows.map Prod.swap) = (paired rows).map Prod.swap := by
  rw [paired, paired, List.filterMap_map, List.map_filterMap]
  congr 1
  funext ⟨a, b⟩
  cases a <;> cases b <;> rfl

/-! ## The rows of a join of sorted lists

Here a key may repeat, but none comes before a smaller one. -/

/-- The lists' keys do not decrease. -/
abbrev Sorted (f : α → κ) (as : List α) : Prop := as.Pairwise fun a a' => f a ≤ f a'

/-- A key below a sorted list's head is below every later one. -/
theorem Sorted.lt_of_lt_head {a a' : α} {as : List α} {k : κ} (h : Sorted f (a :: as))
    (hk : k < f a) (ha : a' ∈ a :: as) : k < f a' := by
  rcases List.mem_cons.1 ha with rfl | ha
  exacts [hk, hk.trans_le (List.rel_of_pairwise_cons h ha)]

omit [LinearOrder κ] in
/-- A row's key is the key of whatever the row names. -/
theorem key_of_mem_joinKey {o : Option α × Option β} {k : κ} (h : k ∈ joinKey f g o) :
    (∃ a ∈ o.1, f a = k) ∨ ∃ b ∈ o.2, g b = k := by
  match o, h with
  | (some a, _), h => exact .inl ⟨a, rfl, Option.some.inj h⟩
  | (none, some b), h => exact .inr ⟨b, rfl, Option.some.inj h⟩

/-- What holds of every key of both lists holds of a row's. -/
theorem key_of_mem_outerJoin {as : List α} {bs : List β} {p : κ → Prop} {k : κ}
    {o : Option α × Option β} (ho : o ∈ outerJoin f g as bs) (hk : k ∈ joinKey f g o)
    (has : ∀ a ∈ as, p (f a)) (hbs : ∀ b ∈ bs, p (g b)) : p k := by
  rcases key_of_mem_joinKey hk with ⟨a, ha, rfl⟩ | ⟨b, hb, rfl⟩
  · exact has a ((mem_of_mem_outerJoin ho).1 a ha)
  · exact hbs b ((mem_of_mem_outerJoin ho).2 b hb)

/-- **The rows' keys are in the order of the lists'**, strict or not. -/
theorem pairwise_joinKey_outerJoin {r : κ → κ → Prop} (hlt : ∀ k k', k < k' → r k k')
    (hle : ∀ k k', r k k' → k ≤ k') {as : List α} {bs : List β}
    (has : as.Pairwise fun a a' => r (f a) (f a'))
    (hbs : bs.Pairwise fun b b' => r (g b) (g b')) :
    (outerJoin f g as bs).Pairwise fun o o' =>
      ∀ k ∈ joinKey f g o, ∀ k' ∈ joinKey f g o', r k k' := by
  induction as, bs using outerJoin_induction f g with
  | nil_left bs => simpa [List.pairwise_map, joinKey] using hbs
  | nil_right a as =>
    rw [outerJoin_nil_right, List.pairwise_map]
    exact has.imp fun h k hk k' hk' => by
      simp only [joinKey, Option.mem_some_iff] at hk hk'
      exact hk ▸ hk' ▸ h
  | eq a as b bs hab ih =>
    rw [outerJoin_cons_of_eq hab]
    refine List.Pairwise.cons (fun o ho k hk k' hk' => ?_) (ih has.of_cons hbs.of_cons)
    obtain rfl : f a = k := Option.some.inj hk
    exact key_of_mem_outerJoin ho hk' (fun _ => List.rel_of_pairwise_cons has) fun _ h =>
      hab ▸ List.rel_of_pairwise_cons hbs h
  | lt a as b bs hab ih =>
    rw [outerJoin_cons_of_lt hab]
    have hsorted : Sorted g (b :: bs) := hbs.imp (hle _ _)
    refine List.Pairwise.cons (fun o ho k hk k' hk' => ?_) (ih has.of_cons hbs)
    obtain rfl : f a = k := Option.some.inj hk
    exact key_of_mem_outerJoin ho hk' (fun _ => List.rel_of_pairwise_cons has) fun _ h =>
      hlt _ _ (hsorted.lt_of_lt_head hab h)
  | gt a as b bs hab ih =>
    rw [outerJoin_cons_of_gt hab]
    have hsorted : Sorted f (a :: as) := has.imp (hle _ _)
    refine List.Pairwise.cons (fun o ho k hk k' hk' => ?_) (ih has hbs.of_cons)
    obtain rfl : g b = k := Option.some.inj hk
    exact key_of_mem_outerJoin ho hk' (fun _ h => hlt _ _ (hsorted.lt_of_lt_head hab h))
      fun _ => List.rel_of_pairwise_cons hbs

/-- The row pairs both sides under `k`. -/
def pairedAt (f : α → κ) (k : κ) : Option α × Option β → Bool
  | (some a, some _) => f a = k
  | _ => false

/-- The row has an element of `k` on the left, alone. -/
def aloneAt (f : α → κ) (k : κ) : Option α × Option β → Bool
  | (some a, none) => f a = k
  | _ => false

/-- **Pairs of a key**: as many as the side that has fewer. -/
theorem countP_pairedAt_outerJoin {as : List α} {bs : List β} (has : Sorted f as)
    (hbs : Sorted g bs) (k : κ) :
    (outerJoin f g as bs).countP (pairedAt f k) =
      min (as.countP fun a => f a = k) (bs.countP fun b => g b = k) := by
  induction as, bs using outerJoin_induction f g with
  | nil_left bs =>
    rw [outerJoin_nil_left, List.countP_map, List.countP_nil, Nat.zero_min]
    exact List.countP_eq_zero.2 fun _ _ h => absurd h Bool.false_ne_true
  | nil_right a as =>
    rw [outerJoin_nil_right, List.countP_map, List.countP_nil, Nat.min_zero]
    exact List.countP_eq_zero.2 fun _ _ h => absurd h Bool.false_ne_true
  | eq a as b bs hab ih =>
    rw [outerJoin_cons_of_eq hab, List.countP_cons, List.countP_cons, List.countP_cons,
      ih has.of_cons hbs.of_cons]
    simp only [pairedAt, hab]
    omega
  | lt a as b bs hab ih =>
    rw [outerJoin_cons_of_lt hab, List.countP_cons_of_neg Bool.false_ne_true, ih has.of_cons hbs,
      List.countP_cons (a := a)]
    by_cases hk : f a = k
    · -- the right list is past the key
      have hnone : (b :: bs).countP (fun b => g b = k) = 0 := by
        refine List.countP_eq_zero.2 fun b' hb' => ?_
        simpa using (hk ▸ hbs.lt_of_lt_head hab hb').ne'
      rw [hnone, Nat.min_zero, Nat.min_zero]
    · simp only [hk, decide_false, Bool.false_eq_true, if_false, Nat.add_zero]
  | gt a as b bs hab ih =>
    rw [outerJoin_cons_of_gt hab, List.countP_cons_of_neg Bool.false_ne_true, ih has hbs.of_cons,
      List.countP_cons (a := b)]
    by_cases hk : g b = k
    · have hnone : (a :: as).countP (fun a => f a = k) = 0 := by
        refine List.countP_eq_zero.2 fun a' ha' => ?_
        simpa using (hk ▸ has.lt_of_lt_head hab ha').ne'
      rw [hnone, Nat.zero_min, Nat.zero_min]
    · simp only [hk, decide_false, Bool.false_eq_true, if_false, Nat.add_zero]

/-- A left element of a key is paired or alone. -/
theorem countP_aloneAt_add_pairedAt (rows : List (Option α × Option β)) (k : κ) :
    rows.countP (aloneAt f k) + rows.countP (pairedAt f k) =
      (rows.filterMap Prod.fst).countP fun a => f a = k := by
  induction rows with
  | nil => rfl
  | cons o rows ih =>
    rw [List.countP_cons, List.countP_cons, List.filterMap_cons]
    match o with
    | (some a, some b) =>
      have halone : aloneAt f k (some a, some b) = false := rfl
      rw [List.countP_cons, ← ih, halone, if_neg Bool.false_ne_true, Nat.add_zero, ← Nat.add_assoc]
      rfl
    | (some a, none) =>
      rw [List.countP_cons, ← ih, Nat.add_right_comm]
      rfl
    | (none, b) => exact ih

/-- **Lone elements of a key**: as many as the left side has more. -/
theorem countP_aloneAt_outerJoin {as : List α} {bs : List β} (has : Sorted f as)
    (hbs : Sorted g bs) (k : κ) :
    (outerJoin f g as bs).countP (aloneAt f k) =
      (as.countP fun a => f a = k) - bs.countP fun b => g b = k := by
  have hsum := countP_aloneAt_add_pairedAt (f := f) (outerJoin f g as bs) k
  rw [filterMap_fst_outerJoin, countP_pairedAt_outerJoin has hbs] at hsum
  omega

/-- **A full outer join** of two sorted lists. Both lists are in the rows, in
their order; no row is empty, only equal keys are paired, and the keys do
not decrease. Of a key's elements as many are paired as there are on the
side that has fewer, and the others are alone. -/
structure IsFullOuterJoin (f : α → κ) (g : β → κ) (as : List α) (bs : List β)
    (rows : List (Option α × Option β)) : Prop where
  left : rows.filterMap Prod.fst = as
  right : rows.filterMap Prod.snd = bs
  not_empty : (none, none) ∉ rows
  key_eq : ∀ x y, (some x, some y) ∈ rows → f x = g y
  sorted : (rows.filterMap (joinKey f g)).Pairwise (· ≤ ·)
  pairs : ∀ k, rows.countP (pairedAt f k) =
    min (as.countP fun a => f a = k) (bs.countP fun b => g b = k)
  left_alone : ∀ k, rows.countP (aloneAt f k) =
    (as.countP fun a => f a = k) - bs.countP fun b => g b = k
  right_alone : ∀ k, (rows.map Prod.swap).countP (aloneAt g k) =
    (bs.countP fun b => g b = k) - as.countP fun a => f a = k

theorem isFullOuterJoin_outerJoin {as : List α} {bs : List β} (has : Sorted f as)
    (hbs : Sorted g bs) : IsFullOuterJoin f g as bs (outerJoin f g as bs) where
  left := filterMap_fst_outerJoin as bs
  right := filterMap_snd_outerJoin as bs
  not_empty h := Bool.false_ne_true (joinKey_isSome h)
  key_eq _ _ := key_eq_of_mem_outerJoin
  sorted :=
    List.pairwise_filterMap.2 (pairwise_joinKey_outerJoin (fun _ _ => le_of_lt) (fun _ _ h => h)
      has hbs)
  pairs := countP_pairedAt_outerJoin has hbs
  left_alone := countP_aloneAt_outerJoin has hbs
  right_alone k := by
    rw [map_swap_outerJoin]
    exact countP_aloneAt_outerJoin hbs has k

/-! ## The rows of a join of strictly increasing lists

From here the keys of each list are strictly increasing, which is what a
sorted list without repeated keys is. -/

/-- The lists' keys strictly increase. -/
abbrev Ascending (f : α → κ) (as : List α) : Prop := as.Pairwise fun a a' => f a < f a'

theorem Ascending.head_lt {a a' : α} {as : List α} (h : Ascending f (a :: as)) (ha : a' ∈ as) :
    f a < f a' :=
  List.rel_of_pairwise_cons h ha

theorem Ascending.sorted {as : List α} (h : Ascending f as) : Sorted f as :=
  h.imp le_of_lt

/-- Sorted keys that do not repeat ascend. -/
theorem Sorted.ascending {as : List α} (h : Sorted f as) (hn : (as.map f).Nodup) :
    Ascending f as :=
  h.imp₂ (fun _ _ => lt_of_le_of_ne) (List.pairwise_map.1 hn)

/-- **The paired rows**: two elements are paired exactly when they carry
the same key. -/
theorem mem_outerJoin_both {as : List α} {bs : List β} (has : Ascending f as)
    (hbs : Ascending g bs) {x : α} {y : β} :
    (some x, some y) ∈ outerJoin f g as bs ↔ x ∈ as ∧ y ∈ bs ∧ f x = g y := by
  induction as, bs using outerJoin_induction f g with
  | nil_left bs => simp
  | nil_right a as => simp
  | eq a as b bs hab ih =>
    rw [outerJoin_cons_of_eq hab, List.mem_cons, ih has.of_cons hbs.of_cons]
    simp only [Prod.mk.injEq, Option.some.injEq, List.mem_cons]
    constructor
    · rintro (⟨rfl, rfl⟩ | ⟨hx, hy, hxy⟩)
      exacts [⟨.inl rfl, .inl rfl, hab⟩, ⟨.inr hx, .inr hy, hxy⟩]
    · -- a head and a later element have different keys
      rintro ⟨rfl | hx, rfl | hy, hxy⟩
      · exact .inl ⟨rfl, rfl⟩
      · exact absurd (hab.symm.trans hxy) (hbs.head_lt hy).ne
      · exact absurd (hab.trans hxy.symm) (has.head_lt hx).ne
      · exact .inr ⟨hx, hy, hxy⟩
  | lt a as b bs hab ih =>
    -- the smaller head is below every key of the other list
    rw [outerJoin_cons_of_lt hab, List.mem_cons, ih has.of_cons hbs]
    simp only [Prod.mk.injEq, reduceCtorEq, and_false, false_or]
    constructor
    · rintro ⟨hx, hy, hxy⟩
      exact ⟨List.mem_cons_of_mem _ hx, hy, hxy⟩
    · rintro ⟨hx, hy, hxy⟩
      rcases List.mem_cons.1 hx with rfl | hx
      · exact absurd hxy (hbs.sorted.lt_of_lt_head hab hy).ne
      · exact ⟨hx, hy, hxy⟩
  | gt a as b bs hab ih =>
    rw [outerJoin_cons_of_gt hab, List.mem_cons, ih has hbs.of_cons]
    simp only [Prod.mk.injEq, reduceCtorEq, false_and, false_or]
    constructor
    · rintro ⟨hx, hy, hxy⟩
      exact ⟨hx, List.mem_cons_of_mem _ hy, hxy⟩
    · rintro ⟨hx, hy, hxy⟩
      rcases List.mem_cons.1 hy with rfl | hy
      · exact absurd hxy (has.sorted.lt_of_lt_head hab hx).ne'
      · exact ⟨hx, hy, hxy⟩

/-- **The left rows**: an element of the left list stands alone exactly
when the right list lacks its key. -/
theorem mem_outerJoin_left {as : List α} {bs : List β} (has : Ascending f as)
    (hbs : Ascending g bs) {x : α} :
    (some x, none) ∈ outerJoin f g as bs ↔ x ∈ as ∧ ∀ b ∈ bs, g b ≠ f x := by
  induction as, bs using outerJoin_induction f g with
  | nil_left bs => simp
  | nil_right a as => simp
  | eq a as b bs hab ih =>
    rw [outerJoin_cons_of_eq hab, List.mem_cons, ih has.of_cons hbs.of_cons]
    simp only [Prod.mk.injEq, reduceCtorEq, and_false, false_or, List.mem_cons,
      forall_eq_or_imp]
    constructor
    · rintro ⟨hx, hne⟩
      exact ⟨.inr hx, (hab ▸ has.head_lt hx).ne, hne⟩
    · rintro ⟨rfl | hx, hb, hne⟩
      exacts [absurd hab.symm hb, ⟨hx, hne⟩]
  | lt a as b bs hab ih =>
    rw [outerJoin_cons_of_lt hab, List.mem_cons, ih has.of_cons hbs]
    simp only [Prod.mk.injEq, Option.some.injEq, and_true, List.mem_cons (a := x)]
    constructor
    · rintro (rfl | ⟨hx, hne⟩)
      exacts [⟨.inl rfl, fun b' hb' => (hbs.sorted.lt_of_lt_head hab hb').ne'⟩, ⟨.inr hx, hne⟩]
    · rintro ⟨rfl | hx, hne⟩
      exacts [.inl rfl, .inr ⟨hx, hne⟩]
  | gt a as b bs hab ih =>
    rw [outerJoin_cons_of_gt hab, List.mem_cons, ih has hbs.of_cons]
    simp only [Prod.mk.injEq, reduceCtorEq, false_and, false_or, List.forall_mem_cons]
    constructor
    · rintro ⟨hx, hne⟩
      exact ⟨hx, (has.sorted.lt_of_lt_head hab hx).ne, hne⟩
    · rintro ⟨hx, -, hne⟩
      exact ⟨hx, hne⟩

/-- **The right rows**, likewise. -/
theorem mem_outerJoin_right {as : List α} {bs : List β} (has : Ascending f as)
    (hbs : Ascending g bs) {y : β} :
    (none, some y) ∈ outerJoin f g as bs ↔ y ∈ bs ∧ ∀ a ∈ as, f a ≠ g y := by
  have hswap : (none, some y) ∈ outerJoin f g as bs ↔ (some y, none) ∈ outerJoin g f bs as := by
    rw [← map_swap_outerJoin as bs]
    exact (List.mem_map_of_injective Prod.swap_injective (a := (none, some y))).symm
  rw [hswap, mem_outerJoin_left hbs has]

/-- **The rows' keys strictly increase**, so a key has at most one row. -/
theorem pairwise_outerJoin {as : List α} {bs : List β} (has : Ascending f as)
    (hbs : Ascending g bs) :
    (outerJoin f g as bs).Pairwise fun o o' =>
      ∀ k ∈ joinKey f g o, ∀ k' ∈ joinKey f g o', k < k' :=
  pairwise_joinKey_outerJoin (fun _ _ h => h) (fun _ _ h => h.le) has hbs

/-- **Counting rows is counting keys.** The rows of the join that satisfy
`q` are as many as the keys they have. -/
theorem countP_outerJoin {as : List α} {bs : List β} (has : Ascending f as)
    (hbs : Ascending g bs) (q : Option α × Option β → Bool) (s : Finset κ)
    (hs : ∀ k, k ∈ s ↔ ∃ o ∈ outerJoin f g as bs, q o ∧ k ∈ joinKey f g o) :
    (outerJoin f g as bs).countP q = s.card := by
  -- the keys of the rows in question, as a list without repetition
  set rows := (outerJoin f g as bs).filter q with hrows
  have hrow : ∀ o ∈ rows, o ∈ outerJoin f g as bs ∧ q o := fun o ho => List.mem_filter.1 ho
  have hlen : (rows.filterMap (joinKey f g)).length = rows.length :=
    List.filterMap_length_eq_length.2 fun o ho => joinKey_isSome (hrow o ho).1
  have hnodup : (rows.filterMap (joinKey f g)).Nodup := by
    have hasc : (rows.filterMap (joinKey f g)).Pairwise (· < ·) :=
      List.pairwise_filterMap.2 ((pairwise_outerJoin has hbs).filter q)
    exact hasc.imp ne_of_lt
  have hset : (rows.filterMap (joinKey f g)).toFinset = s := by
    ext k
    rw [List.mem_toFinset, List.mem_filterMap, hs]
    simp only [hrows, List.mem_filter, Option.mem_def, and_assoc]
  rw [List.countP_eq_length_filter, ← hlen, ← hset, List.toFinset_card_of_nodup hnodup]

end Common

end Checklib
