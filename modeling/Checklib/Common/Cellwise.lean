import Mathlib.Algebra.BigOperators.Group.Finset.Basic
import Mathlib.Data.Set.Function

/-!
# Array programs, cell by cell

A nest of loops over arrays is followed at one cell: what it makes of the
cell's value, while cells it only reads hold what they held. Statements act
on a cell in this sense or leave it alone, a loop acts as its turns do one
after the other, and where one turn alone writes the cell the loop acts as
that turn. So the order in which a program visits its cells drops out of
what it computes for each.
-/

namespace Checklib

namespace Common

variable {σ : Type*}

/-- `for(i = 0; i < n; i++)` -/
def forRange (body : ℕ → σ → σ) : ℕ → σ → σ
  | 0, s => s
  | n + 1, s => body n (forRange body n s)

theorem forRange_add (body : ℕ → σ → σ) (k n : ℕ) (s : σ) :
    forRange body (k + n) s = forRange (fun i => body (k + i)) n (forRange body k s) := by
  induction n with
  | zero => rfl
  | succ n ih =>
    show body (k + n) (forRange body (k + n) s) = _
    rw [ih]
    rfl

theorem forRange_congr {body body' : ℕ → σ → σ} {n : ℕ} (h : ∀ i < n, ∀ s, body i s = body' i s)
    (s : σ) : forRange body n s = forRange body' n s := by
  induction n with
  | zero => rfl
  | succ n ih =>
    show body n (forRange body n s) = body' n (forRange body' n s)
    rw [ih fun i hi => h i (Nat.lt_succ_of_lt hi), h n (Nat.lt_succ_self n)]

/-- Row by row, the last place of `k` rows of `n` is not reached. -/
theorem row_lt {n k i j : ℕ} (hi : i < k) (hj : j < n) : i * n + j < k * n :=
  calc i * n + j < i * n + n := Nat.add_lt_add_left hj _
    _ = (i + 1) * n := (Nat.succ_mul i n).symm
    _ ≤ k * n := Nat.mul_le_mul_right n hi

theorem row_div {n i j : ℕ} (hj : j < n) : (i * n + j) / n = i := by
  rw [Nat.mul_comm, Nat.mul_add_div (Nat.zero_lt_of_lt hj), Nat.div_eq_of_lt hj, Nat.add_zero]

theorem row_mod {n i j : ℕ} (hj : j < n) : (i * n + j) % n = j := by
  rw [Nat.mul_comm, Nat.mul_add_mod, Nat.mod_eq_of_lt hj]

/-- Places are told apart by row and column. -/
theorem row_inj {n i i' j j' : ℕ} (hj : j < n) (hj' : j' < n) (h : i * n + j = i' * n + j') :
    i = i' ∧ j = j' := by
  have hdiv := congrArg (· / n) h
  have hmod := congrArg (· % n) h
  simp only [row_div hj, row_div hj'] at hdiv
  simp only [row_mod hj, row_mod hj'] at hmod
  exact ⟨hdiv, hmod⟩

/-- **Nested loops** are one loop over all the pairs, row by row. -/
theorem forRange_forRange (body : ℕ → ℕ → σ → σ) (n k : ℕ) (s : σ) :
    forRange (fun i => forRange (body i) n) k s =
      forRange (fun e => body (e / n) (e % n)) (k * n) s := by
  induction k with
  | zero =>
    rw [Nat.zero_mul]
    rfl
  | succ k ih =>
    rw [Nat.succ_mul, forRange_add (fun e => body (e / n) (e % n)), ← ih]
    show forRange (body k) n (forRange (fun i => forRange (body i) n) k s) = _
    refine forRange_congr (fun j hj s => ?_) _
    rw [row_div hj, row_mod hj]

theorem forRange_forRange_forRange (body : ℕ → ℕ → ℕ → σ → σ) (n k l : ℕ) (s : σ) :
    forRange (fun h => forRange (fun i => forRange (body h i) n) k) l s =
      forRange (fun e => body (e / (k * n)) (e / n % k) (e % n)) (l * (k * n)) s := by
  calc forRange (fun h => forRange (fun i => forRange (body h i) n) k) l s
      = forRange (fun h => forRange (fun e => body h (e / n) (e % n)) (k * n)) l s :=
        forRange_congr (fun h _ s => forRange_forRange (body h) n k s) s
    _ = forRange (fun e => body (e / (k * n)) (e % (k * n) / n) (e % (k * n) % n))
        (l * (k * n)) s :=
        forRange_forRange (fun h e => body h (e / n) (e % n)) (k * n) l s
    _ = forRange (fun e => body (e / (k * n)) (e / n % k) (e % n)) (l * (k * n)) s := by
        refine forRange_congr (fun e _ s => ?_) s
        rw [Nat.mod_mul_left_div_self, Nat.mod_mul_left_mod]

/-! ## Acting on a cell -/

variable {α β : Type*}

/-- **What a program makes of a cell**, as long as the known cells hold what
they do; and it leaves these alone. -/
def Acts (known : Set α) (m₀ : α → β) (o : α) (S : (α → β) → α → β) (φ : β → β) : Prop :=
  ∀ m, Set.EqOn m m₀ known → Set.EqOn (S m) m₀ known ∧ S m o = φ (m o)

variable {known : Set α} {m₀ : α → β} {o a : α} {S T : (α → β) → α → β} {φ ψ : β → β}

theorem Acts.congr (h : Acts known m₀ o S φ) (hφ : ∀ v, φ v = ψ v) : Acts known m₀ o S ψ := by
  intro m hm
  obtain ⟨hknown, hvalue⟩ := h m hm
  exact ⟨hknown, hvalue.trans (hφ _)⟩

/-- The cell, in the end. -/
theorem Acts.apply (h : Acts known m₀ o S φ) : S m₀ o = φ (m₀ o) := (h m₀ (Set.eqOn_refl _ _)).2

/-- One after the other. -/
theorem Acts.seq (hS : Acts known m₀ o S φ) (hT : Acts known m₀ o T ψ) :
    Acts known m₀ o (fun m => T (S m)) (fun v => ψ (φ v)) := by
  intro m hm
  obtain ⟨hknown, hvalue⟩ := hS m hm
  obtain ⟨hknown', hvalue'⟩ := hT (S m) hknown
  exact ⟨hknown', hvalue'.trans (congrArg ψ hvalue)⟩

section Store

variable [DecidableEq α]

/-- The cell itself is written. -/
theorem acts_store {v : (α → β) → β} (ho : o ∉ known)
    (hv : ∀ m, Set.EqOn m m₀ known → v m = φ (m o)) :
    Acts known m₀ o (fun m => Function.update m o (v m)) φ := by
  intro m hm
  refine ⟨fun a ha => ?_, ?_⟩
  · have hne : a ≠ o := fun heq => ho (heq ▸ ha)
    show Function.update m o (v m) a = m₀ a
    rw [Function.update_of_ne hne, hm ha]
  · show Function.update m o (v m) o = φ (m o)
    rw [Function.update_self, hv m hm]

/-- Another cell is written. -/
theorem acts_store_ne {v : (α → β) → β} (ha : a ∉ known) (hne : o ≠ a) :
    Acts known m₀ o (fun m => Function.update m a (v m)) id := by
  intro m hm
  refine ⟨fun b hb => ?_, ?_⟩
  · have hba : b ≠ a := fun heq => ha (heq ▸ hb)
    show Function.update m a (v m) b = m₀ b
    rw [Function.update_of_ne hba, hm hb]
  · show Function.update m a (v m) o = m o
    rw [Function.update_of_ne hne]

end Store

/-! ## Loops -/

variable {body : ℕ → (α → β) → α → β} {n i : ℕ}

/-- **A loop acts as its turns do**, one after the other. -/
theorem acts_forRange {φ : ℕ → β → β} (h : ∀ i < n, Acts known m₀ o (body i) (φ i)) :
    Acts known m₀ o (forRange body n) (forRange φ n) := by
  induction n with
  | zero => exact fun m hm => ⟨hm, rfl⟩
  | succ n ih =>
    exact (ih fun i hi => h i (Nat.lt_succ_of_lt hi)).seq (h n (Nat.lt_succ_self n))

/-- **No turn writes the cell.** -/
theorem acts_forRange_id (h : ∀ i < n, Acts known m₀ o (body i) id) :
    Acts known m₀ o (forRange body n) id := by
  refine (acts_forRange h).congr fun v => ?_
  clear h
  induction n with
  | zero => rfl
  | succ n ih => exact ih

/-- **One turn alone writes the cell.** -/
theorem acts_forRange_single (hi : i < n) (hother : ∀ j < n, j ≠ i → Acts known m₀ o (body j) id)
    (h : Acts known m₀ o (body i) φ) : Acts known m₀ o (forRange body n) φ := by
  obtain ⟨k, rfl⟩ := Nat.exists_eq_add_of_lt hi
  have hbefore := acts_forRange_id (n := i) fun j hj => hother j (by omega) (by omega)
  have hafter : Acts known m₀ o (forRange (fun j => body (i + 1 + j)) k) id :=
    acts_forRange_id fun j hj => hother (i + 1 + j) (by omega) (by omega)
  have hall := (hbefore.seq h).seq hafter
  intro m hm
  rw [show i + k + 1 = i + 1 + k by omega, forRange_add]
  exact hall m hm

section Sweep

variable [DecidableEq α] {p : ℕ → α} {v : ℕ → (α → β) → β}

/-- **A sweep** writes a cell a turn, and each of them once. -/
theorem acts_sweep (hi : i < n) (hp : ∀ j < n, j ≠ i → p i ≠ p j) (hfresh : ∀ j < n, p j ∉ known)
    (hv : ∀ m, Set.EqOn m m₀ known → v i m = φ (m (p i))) :
    Acts known m₀ (p i) (forRange (fun i m => Function.update m (p i) (v i m)) n) φ :=
  acts_forRange_single hi (fun j hj hne => acts_store_ne (hfresh j hj) (hp j hj hne))
    (acts_store (hfresh i hi) hv)

/-- It writes no other. -/
theorem acts_sweep_id (hp : ∀ j < n, o ≠ p j) (hfresh : ∀ j < n, p j ∉ known) :
    Acts known m₀ o (forRange (fun i m => Function.update m (p i) (v i m)) n) id :=
  acts_forRange_id fun j hj => acts_store_ne (hfresh j hj) (hp j hj)

end Sweep

/-- **Every turn adds to the cell.** -/
theorem acts_forRange_sum [AddCommMonoid β] {c : ℕ → β}
    (h : ∀ i < n, Acts known m₀ o (body i) fun v => v + c i) :
    Acts known m₀ o (forRange body n) fun v => v + ∑ i ∈ Finset.range n, c i := by
  refine (acts_forRange h).congr fun v => ?_
  clear h
  induction n with
  | zero =>
    show v = v + _
    rw [Finset.sum_range_zero, add_zero]
  | succ n ih =>
    show forRange _ n v + c n = _
    rw [ih, Finset.sum_range_succ, add_assoc]

/-- **A sum is accumulated** in the cell. -/
theorem acts_accumulate [DecidableEq α] [AddCommMonoid β] {x : ℕ → (α → β) → β} {c : ℕ → β}
    (ho : o ∉ known) (hx : ∀ i < n, ∀ m, Set.EqOn m m₀ known → x i m = c i) :
    Acts known m₀ o (forRange (fun i m => Function.update m o (m o + x i m)) n)
      fun v => v + ∑ i ∈ Finset.range n, c i :=
  acts_forRange_sum fun i hi => acts_store ho fun m hm => congrArg (m o + ·) (hx i hi m hm)

end Common

end Checklib
