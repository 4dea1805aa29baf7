import Checklib.Model.Arrays
import Mathlib.Data.Matrix.Mul

/-!
# What the matrix benchmark computes

The functions of `matrix.c` are sweeps over the cells of an array, whatever
the nest of loops. So an iteration of `main` has a plain effect on a block
whose last array is apart from the others: a constant is added to `A`, and
`C` is made of what `A` is then and of `B`. For squares that is their
product. In three dimensions it is not: the last index of `C` is not used
to read `B`, so that the cells of a row all hold its entry on the product's
diagonal. In one dimension all cells of `C` but the first are left with a
multiple of `A`.
-/

namespace Checklib

namespace IoTBench

open Common

/-! ## Loops over cells -/

theorem digits_eq (n e : ℕ) : e / (n * n) * n * n + e / n % n * n + e % n = e := by
  rw [← Nat.div_div_eq_div_mul, ← Nat.add_mul, Nat.div_add_mod', Nat.div_add_mod']

/-- The cells of an array are gone through in their order. -/
theorem forCells_eq {σ : Type} (dim : Dim) (n : ℕ) (body : ℕ → σ → σ) (s : σ) :
    forCells dim n body s = forRange body (dim.size n) s := by
  cases dim with
  | one => rfl
  | two =>
    show forRange (fun i => forRange (fun j => body (i * n + j)) n) n s = _
    rw [forRange_forRange fun i j => body (i * n + j)]
    refine forRange_congr (fun e _ s => ?_) s
    rw [Nat.div_add_mod']
  | three =>
    show forRange (fun i => forRange (fun j => forRange (fun k => body (i * n * n + j * n + k)) n)
      n) n s = _
    rw [forRange_forRange_forRange fun i j k => body (i * n * n + j * n + k), ← Nat.mul_assoc]
    refine forRange_congr (fun e _ s => ?_) s
    rw [digits_eq]

/-- The cells of `C` that a product is written to. -/
def Dim.filled (dim : Dim) (n : ℕ) : ℕ :=
  match dim with
  | .one => 1
  | .two => n * n
  | .three => n * n * n

/-- The factor from `A` in a term of the product for a cell. -/
def Dim.leftAt (dim : Dim) (n e l : ℕ) : ℕ :=
  match dim with
  | .one => l
  | .two => e / n * n + l
  | .three => e / (n * n) * n * n + e / n % n * n + l

/-- The factor from `B`. -/
def Dim.rightAt (dim : Dim) (n e l : ℕ) : ℕ :=
  match dim with
  | .one => l
  | .two => l * n + e % n
  | .three => e / (n * n) * n * n + l * n + e / n % n

section Loops

variable {R : Type} [NonUnitalNonAssocSemiring R] {dim : Dim} {n a b c e q : ℕ} {val : R}
  {m : Cells R}

/-- A product is written cell by cell. -/
theorem matrixMulMatrix_eq (dim : Dim) (n a b c : ℕ) (m : Cells R) :
    matrixMulMatrix dim n a b c m =
      forRange (fun e m => forRange (fun l m => store (c + e) (m (c + e) +
        m (a + dim.leftAt n e l) * m (b + dim.rightAt n e l)) m) n (store (c + e) 0 m))
        (dim.filled n) m := by
  cases dim with
  | one => rfl
  | two =>
    unfold matrixMulMatrix
    rw [forRange_forRange fun i j m => forRange (fun k m => store (c + (i * n + j))
      (m (c + (i * n + j)) + m (a + (i * n + k)) * m (b + (k * n + j))) m) n
      (store (c + (i * n + j)) 0 m)]
    refine forRange_congr (fun e _ m => ?_) m
    rw [Nat.div_add_mod']
    rfl
  | three =>
    unfold matrixMulMatrix
    rw [forRange_forRange_forRange fun i j k m =>
      forRange (fun l m => store (c + (i * n * n + j * n + k))
        (m (c + (i * n * n + j * n + k)) +
          m (a + (i * n * n + j * n + l)) * m (b + (i * n * n + l * n + j))) m) n
        (store (c + (i * n * n + j * n + k)) 0 m), ← Nat.mul_assoc]
    refine forRange_congr (fun e _ m => ?_) m
    rw [digits_eq]
    rfl

/-- The cells of an array are different. -/
theorem place_ne {p e j : ℕ} (h : j ≠ e) : p + e ≠ p + j :=
  fun heq => h (Nat.add_left_cancel heq).symm

theorem matrixAddConst_apply (he : e < dim.size n) :
    matrixAddConst dim n a val m (a + e) = m (a + e) + val := by
  unfold matrixAddConst
  rw [forCells_eq]
  exact (acts_sweep (φ := fun v => v + val) (p := fun e => a + e) he (fun _ _ => place_ne)
    (fun _ _ => Set.notMem_empty _) fun _ _ => rfl).apply

theorem matrixAddConst_else (hq : ∀ e < dim.size n, q ≠ a + e) :
    matrixAddConst dim n a val m q = m q := by
  unfold matrixAddConst
  rw [forCells_eq]
  exact (acts_sweep_id hq fun _ _ => Set.notMem_empty _).apply

theorem matrixMulConst_apply (ha : ∀ e' < dim.size n, a + e ≠ c + e') (he : e < dim.size n) :
    matrixMulConst dim n a val c m (c + e) = m (a + e) * val := by
  unfold matrixMulConst
  rw [forCells_eq]
  have hfresh : ∀ j < dim.size n, c + j ∉ ({a + e} : Set ℕ) := fun j hj heq =>
    ha j hj (Set.mem_singleton_iff.1 heq).symm
  refine (acts_sweep (φ := fun _ => m (a + e) * val) (p := fun e => c + e) he
    (fun _ _ => place_ne) hfresh fun m' hm' => ?_).apply
  rw [hm' (Set.mem_singleton _)]

theorem matrixMulConst_else (hq : ∀ e < dim.size n, q ≠ c + e) :
    matrixMulConst dim n a val c m q = m q := by
  unfold matrixMulConst
  rw [forCells_eq]
  exact (acts_sweep_id hq fun _ _ => Set.notMem_empty _).apply

/-- **A cell of the product** is the sum of its terms, from operands that
the product is written apart from. -/
theorem matrixMulMatrix_apply
    (ha : ∀ l < n, ∀ e' < dim.filled n, a + dim.leftAt n e l ≠ c + e')
    (hb : ∀ l < n, ∀ e' < dim.filled n, b + dim.rightAt n e l ≠ c + e') (he : e < dim.filled n) :
    matrixMulMatrix dim n a b c m (c + e) =
      ∑ l ∈ Finset.range n, m (a + dim.leftAt n e l) * m (b + dim.rightAt n e l) := by
  rw [matrixMulMatrix_eq]
  let factors : Set ℕ := {q | ∃ l < n, q = a + dim.leftAt n e l ∨ q = b + dim.rightAt n e l}
  have hfresh : ∀ e' < dim.filled n, c + e' ∉ factors := by
    rintro e' he' ⟨l, hl, heq | heq⟩
    · exact ha l hl e' he' heq.symm
    · exact hb l hl e' he' heq.symm
  have hself : Acts factors m (c + e)
      (fun m => forRange (fun l m => store (c + e) (m (c + e) +
        m (a + dim.leftAt n e l) * m (b + dim.rightAt n e l)) m) n (store (c + e) 0 m))
      (fun _ => 0 + ∑ l ∈ Finset.range n,
        m (a + dim.leftAt n e l) * m (b + dim.rightAt n e l)) := by
    refine (acts_store (φ := fun _ => 0) (hfresh e he) fun _ _ => rfl).seq
      (acts_accumulate (hfresh e he) fun l hl m' hm' => ?_)
    rw [hm' ⟨l, hl, .inl rfl⟩, hm' ⟨l, hl, .inr rfl⟩]
  have hother : ∀ e' < dim.filled n, e' ≠ e → Acts factors m (c + e)
      (fun m => forRange (fun l m => store (c + e') (m (c + e') +
        m (a + dim.leftAt n e' l) * m (b + dim.rightAt n e' l)) m) n (store (c + e') 0 m)) id := by
    exact fun e' he' hne => (acts_store_ne (hfresh e' he') (place_ne hne)).seq
      (acts_forRange_id fun l _ => acts_store_ne (hfresh e' he') (place_ne hne))
  rw [(acts_forRange_single he hother hself).apply, zero_add]

theorem matrixMulMatrix_else (hq : ∀ e < dim.filled n, q ≠ c + e) :
    matrixMulMatrix dim n a b c m q = m q := by
  rw [matrixMulMatrix_eq]
  have hacts : Acts ∅ m q (forRange (fun e m => forRange (fun l m => store (c + e) (m (c + e) +
        m (a + dim.leftAt n e l) * m (b + dim.rightAt n e l)) m) n (store (c + e) 0 m))
        (dim.filled n)) id :=
    acts_forRange_id fun e he => (acts_store_ne (Set.notMem_empty _) (hq e he)).seq
      (acts_forRange_id fun l _ => acts_store_ne (Set.notMem_empty _) (hq e he))
  exact hacts.apply

end Loops

/-! ## Iterations -/

/-- Arrays of `k` and `l` cells that have none in common. -/
def Apart (p k q l : ℕ) : Prop := ∀ i < k, ∀ j < l, p + i ≠ q + j

theorem apart_of_le {p k q l : ℕ} (h : p + k ≤ q) : Apart p k q l := by
  intro i hi j _ heq
  omega

theorem Apart.symm {p k q l : ℕ} (h : Apart p k q l) : Apart q l p k :=
  fun i hi j hj heq => h j hj i hi heq.symm

/-- `C` is apart from both operands. -/
def MatParams.Apart (p : MatParams) (dim : Dim) : Prop :=
  IoTBench.Apart p.a (dim.size p.n) p.c (dim.size p.n) ∧
    IoTBench.Apart p.b (dim.size p.n) p.c (dim.size p.n)

section Places

variable {dim : Dim} {n e l : ℕ}

theorem filled_le_size (hn : 0 < n) : dim.filled n ≤ dim.size n := by
  cases dim with
  | one => exact hn
  | two => exact Nat.le_refl _
  | three => exact Nat.le_refl _

/-- The operands' places are theirs. -/
theorem leftAt_lt (he : e < dim.filled n) (hl : l < n) : dim.leftAt n e l < dim.size n := by
  cases dim with
  | one => exact hl
  | two => exact row_lt (Nat.div_lt_of_lt_mul he) hl
  | three =>
    have hrow : e / n < n * n := Nat.div_lt_of_lt_mul (by rwa [← Nat.mul_assoc])
    show e / (n * n) * n * n + e / n % n * n + l < n * n * n
    rw [← Nat.div_div_eq_div_mul, ← Nat.add_mul, Nat.div_add_mod']
    exact row_lt hrow hl

theorem rightAt_lt (he : e < dim.filled n) (hl : l < n) : dim.rightAt n e l < dim.size n := by
  cases dim with
  | one => exact hl
  | two => exact row_lt hl (Nat.mod_lt _ (Nat.zero_lt_of_lt hl))
  | three =>
    have hslice : e / (n * n) < n := Nat.div_lt_of_lt_mul he
    show e / (n * n) * n * n + l * n + e / n % n < n * n * n
    rw [← Nat.add_mul]
    exact row_lt (row_lt hslice hl) (Nat.mod_lt _ (Nat.zero_lt_of_lt hl))

end Places

section Iterate

variable {R : Type} [NonUnitalNonAssocSemiring R] {dim : Dim} {p : MatParams} {val : R}
  {m : Cells R} {e q : ℕ}

/-- The cells of a square, as a matrix. -/
def matrixAt (m : Cells R) (p n : ℕ) : Matrix (Fin n) (Fin n) R :=
  Matrix.of fun i j => m (p + (i * n + j))

theorem matrixAt_mul_apply (m : Cells R) (a b n : ℕ) (i j : Fin n) :
    (matrixAt m a n * matrixAt m b n) i j =
      ∑ l ∈ Finset.range n, m (a + (i * n + l)) * m (b + (l * n + j)) := by
  rw [Matrix.mul_apply]
  exact Fin.sum_univ_eq_sum_range (fun l => m (a + (i * n + l)) * m (b + (l * n + j))) n

/-- **What every cell of `C` holds after an iteration.** A vector's first
cell is the sum of the products, and the others are left over from
`matrix_mul_const`; a square is the product of the operands; and in a cube
the cell of `i`, `j` and `k` is a sum over `B` at `i`, `l` and `j`, whatever
`k` is. -/
def MatParams.Stored (p : MatParams) (dim : Dim) (val : R) (m : Cells R) : Prop :=
  match dim with
  | .one => m p.c = ∑ l ∈ Finset.range p.n, m (p.a + l) * m (p.b + l) ∧
      ∀ e, 0 < e → e < p.n → m (p.c + e) = m (p.a + e) * val
  | .two => matrixAt m p.c p.n = matrixAt m p.a p.n * matrixAt m p.b p.n
  | .three => ∀ i < p.n, ∀ j < p.n, ∀ k < p.n, m (p.c + (i * p.n * p.n + j * p.n + k)) =
      ∑ l ∈ Finset.range p.n,
        m (p.a + (i * p.n * p.n + j * p.n + l)) * m (p.b + (i * p.n * p.n + l * p.n + j))

/-- **A cube's slice is not the product of the operands'**: each of its rows
holds one number, which is the row's on the product's diagonal. -/
theorem MatParams.Stored.slice (h : p.Stored .three val m) {i : ℕ} (hi : i < p.n)
    (j k : Fin p.n) : matrixAt m (p.c + i * p.n * p.n) p.n j k =
      (matrixAt m (p.a + i * p.n * p.n) p.n * matrixAt m (p.b + i * p.n * p.n) p.n) j j := by
  rw [matrixAt_mul_apply]
  have hcell := h i hi j j.isLt k k.isLt
  show m (p.c + i * p.n * p.n + (j * p.n + k)) = _
  simp only [Nat.add_assoc] at hcell ⊢
  exact hcell

theorem iterate_left (hapart : p.Apart dim) (hn : 0 < p.n) (he : e < dim.size p.n) :
    p.iterate dim val m (p.a + e) = m (p.a + e) + val := by
  have hfilled : dim.filled p.n ≤ dim.size p.n := filled_le_size hn
  unfold MatParams.iterate
  rw [matrixMulMatrix_else fun e' he' => hapart.1 e he e' (Nat.lt_of_lt_of_le he' hfilled),
    matrixMulConst_else fun e' he' => hapart.1 e he e' he', matrixAddConst_apply he]

theorem iterate_else (hn : 0 < p.n) (ha : ∀ e < dim.size p.n, q ≠ p.a + e)
    (hc : ∀ e < dim.size p.n, q ≠ p.c + e) : p.iterate dim val m q = m q := by
  have hfilled : dim.filled p.n ≤ dim.size p.n := filled_le_size hn
  unfold MatParams.iterate
  rw [matrixMulMatrix_else fun e' he' => hc e' (Nat.lt_of_lt_of_le he' hfilled),
    matrixMulConst_else hc, matrixAddConst_else ha]

/-- Every cell of the product is a sum over what the operands hold in the
end. -/
theorem iterate_filled (hapart : p.Apart dim) (hn : 0 < p.n) (he : e < dim.filled p.n) :
    p.iterate dim val m (p.c + e) = ∑ l ∈ Finset.range p.n,
      p.iterate dim val m (p.a + dim.leftAt p.n e l) *
        p.iterate dim val m (p.b + dim.rightAt p.n e l) := by
  have hfilled : dim.filled p.n ≤ dim.size p.n := filled_le_size hn
  have hleft : ∀ l < p.n, ∀ e' < dim.filled p.n, p.a + dim.leftAt p.n e l ≠ p.c + e' :=
    fun l hl e' he' => hapart.1 _ (leftAt_lt he hl) e' (Nat.lt_of_lt_of_le he' hfilled)
  have hright : ∀ l < p.n, ∀ e' < dim.filled p.n, p.b + dim.rightAt p.n e l ≠ p.c + e' :=
    fun l hl e' he' => hapart.2 _ (rightAt_lt he hl) e' (Nat.lt_of_lt_of_le he' hfilled)
  unfold MatParams.iterate
  rw [matrixMulMatrix_apply hleft hright he]
  refine Finset.sum_congr rfl fun l hl => ?_
  rw [Finset.mem_range] at hl
  rw [matrixMulMatrix_else (hleft l hl), matrixMulMatrix_else (hright l hl)]

/-- What is left of `matrix_mul_const`. -/
theorem iterate_unfilled (hapart : p.Apart dim) (hn : 0 < p.n) (hfilled : dim.filled p.n ≤ e)
    (he : e < dim.size p.n) :
    p.iterate dim val m (p.c + e) = p.iterate dim val m (p.a + e) * val := by
  have hkept : ∀ e' < dim.filled p.n, p.c + e ≠ p.c + e' := fun e' he' heq =>
    absurd (Nat.add_left_cancel heq) (Nat.ne_of_gt (Nat.lt_of_lt_of_le he' hfilled))
  rw [iterate_left hapart hn he]
  unfold MatParams.iterate
  rw [matrixMulMatrix_else hkept, matrixMulConst_apply (fun e' he' => hapart.1 e he e' he') he,
    matrixAddConst_apply he]

/-- **An iteration fills `C`.** -/
theorem iterate_stored (hapart : p.Apart dim) (hn : 0 < p.n) :
    p.Stored dim val (p.iterate dim val m) := by
  cases dim with
  | one =>
    exact ⟨iterate_filled hapart hn Nat.one_pos,
      fun e hpos he => iterate_unfilled hapart hn hpos he⟩
  | two =>
    refine Matrix.ext fun i j => ?_
    rw [matrixAt_mul_apply]
    refine (iterate_filled hapart hn (row_lt i.isLt j.isLt)).trans
      (Finset.sum_congr rfl fun l _ => ?_)
    unfold Dim.leftAt Dim.rightAt
    simp only [row_div j.isLt, row_mod j.isLt]
  | three =>
    intro i hi j hj k hk
    have hrow : j * p.n + k < p.n * p.n := row_lt hj hk
    have hcell : i * p.n * p.n + j * p.n + k < p.n * p.n * p.n := by
      rw [Nat.add_assoc, Nat.mul_assoc, Nat.mul_assoc p.n]
      exact row_lt hi hrow
    have hslice : (i * p.n * p.n + j * p.n + k) / (p.n * p.n) = i := by
      rw [Nat.add_assoc, Nat.mul_assoc]
      exact row_div hrow
    have hline : (i * p.n * p.n + j * p.n + k) / p.n % p.n = j := by
      rw [← Nat.add_mul, row_div hk, row_mod hj]
    refine (iterate_filled hapart hn hcell).trans (Finset.sum_congr rfl fun l _ => ?_)
    unfold Dim.leftAt Dim.rightAt
    simp only [hslice, hline]

/-! Any number of them. -/

theorem iterations_left (hapart : p.Apart dim) (hn : 0 < p.n) (he : e < dim.size p.n) (t : ℕ) :
    p.iterations dim val t m (p.a + e) = m (p.a + e) + t • val := by
  induction t with
  | zero => rw [zero_nsmul, add_zero]; rfl
  | succ t ih =>
    show p.iterate dim val (p.iterations dim val t m) (p.a + e) = _
    rw [iterate_left hapart hn he, ih, succ_nsmul, add_assoc]

theorem iterations_else (hn : 0 < p.n) (ha : ∀ e < dim.size p.n, q ≠ p.a + e)
    (hc : ∀ e < dim.size p.n, q ≠ p.c + e) (t : ℕ) : p.iterations dim val t m q = m q := by
  induction t with
  | zero => rfl
  | succ t ih => exact (iterate_else hn ha hc).trans ih

theorem iterations_stored (hapart : p.Apart dim) (hn : 0 < p.n) {t : ℕ} (ht : 0 < t) :
    p.Stored dim val (p.iterations dim val t m) := by
  cases t with
  | zero => exact absurd ht (Nat.lt_irrefl 0)
  | succ t => exact iterate_stored hapart hn

/-- **The iterations, from any memory**: `A` grows by the constant in each,
`C` is made of what `A` and `B` hold in the end, and nothing else changes. -/
theorem MatParams.iterations_eq (hapart : p.Apart dim) (hn : 0 < p.n) (val : R) (m : Cells R)
    (t : ℕ) :
    (∀ e < dim.size p.n, p.iterations dim val t m (p.a + e) = m (p.a + e) + t • val) ∧
    (∀ q, (∀ e < dim.size p.n, q ≠ p.a + e) → (∀ e < dim.size p.n, q ≠ p.c + e) →
      p.iterations dim val t m q = m q) ∧
    (0 < t → p.Stored dim val (p.iterations dim val t m)) :=
  ⟨fun _ he => iterations_left hapart hn he t, fun _ ha hc => iterations_else hn ha hc t,
    iterations_stored hapart hn⟩

end Iterate

/-- Squares of side 2, one behind the other. -/
def squares : MatParams := ⟨2, 0, 4, 8⟩

theorem squares_apart : squares.Apart .two :=
  ⟨apart_of_le (by decide), apart_of_le (by decide)⟩

theorem MatParams.iterations_eq_sample :
    (∀ e < Dim.two.size squares.n, squares.iterations .two (3 : ℤ) 5 (fun q => q) (squares.a + e) =
      (squares.a + e : ℕ) + 5 • (3 : ℤ)) ∧
    (∀ q, (∀ e < Dim.two.size squares.n, q ≠ squares.a + e) →
      (∀ e < Dim.two.size squares.n, q ≠ squares.c + e) →
      squares.iterations .two (3 : ℤ) 5 (fun q => q) q = q) ∧
    (0 < 5 → squares.Stored .two 3 (squares.iterations .two (3 : ℤ) 5 fun q => q)) :=
  MatParams.iterations_eq squares_apart (by decide) (3 : ℤ) (fun q => q) 5

/-! ## The block -/

/-- **The scale is found**: it is the first whose arrays take the block or
more, if there is one before the counter wraps. -/
theorem scale_ok {blksize k turns : ℕ} {bytes : ℕ → ℕ} (hblk : 0 < blksize)
    (hk : blksize ≤ wrap (bytes k)) (hpos : 0 < k) (hsmall : k < 2 ^ 32) (henough : k < turns) :
    ∃ i, scale blksize bytes turns = .ok i ∧ 0 < i ∧ i ≤ k ∧ blksize ≤ wrap (bytes i) ∧
      ∀ j, 0 < j → j < i → wrap (bytes j) < blksize := by
  have hturns : Turns (fun s : ℕ × ℕ =>
      if s.2 < blksize then
        let i := wrap (s.1 + 1)
        (return .inl (i, wrap (bytes i)) : Except Fault (ℕ × ℕ ⊕ ℕ))
      else return .inr s.1)
      (fun v s => v = k - s.1 ∧ s.1 ≤ k ∧ s.2 = (if s.1 = 0 then 0 else wrap (bytes s.1)) ∧
        ∀ j, 0 < j → j < s.1 → wrap (bytes j) < blksize)
      (fun i => 0 < i ∧ i ≤ k ∧ blksize ≤ wrap (bytes i) ∧
        ∀ j, 0 < j → j < i → wrap (bytes j) < blksize) := by
    rintro v ⟨i, j⟩ ⟨rfl, hi, hj, hless⟩
    simp only at hi hj hless ⊢
    by_cases hmore : j < blksize
    · rw [if_pos hmore]
      have hlt : i < k := by
        refine Nat.lt_of_le_of_ne hi fun heq => ?_
        rw [hj, heq, if_neg (Nat.ne_of_gt hpos)] at hmore
        exact absurd hmore (Nat.not_lt.2 hk)
      have hwrap : wrap (i + 1) = i + 1 := Nat.mod_eq_of_lt (by omega)
      refine .inl ⟨_, k - (i + 1), rfl, by omega, ?_⟩
      simp only [hwrap]
      refine ⟨trivial, hlt, (if_neg (Nat.succ_ne_zero i)).symm, fun j' hj' hlt' => ?_⟩
      rcases Nat.lt_or_eq_of_le (Nat.le_of_lt_succ hlt') with hless' | rfl
      · exact hless j' hj' hless'
      · rwa [hj, if_neg (Nat.ne_of_gt hj')] at hmore
    · rw [if_neg hmore]
      have hne : i ≠ 0 := by
        rintro rfl
        rw [hj, if_pos rfl] at hmore
        exact hmore hblk
      rw [hj, if_neg hne] at hmore
      exact .inr ⟨i, rfl, Nat.pos_of_ne_zero hne, hi, Nat.not_lt.1 hmore, hless⟩
  exact loop_ok hturns
    ⟨rfl, Nat.zero_le k, rfl, fun j _ hj => absurd hj (Nat.not_lt_zero j)⟩ henough

theorem size_mono (dim : Dim) {n k : ℕ} (h : n ≤ k) : dim.size n ≤ dim.size k := by
  cases dim with
  | one => exact h
  | two => exact Nat.mul_le_mul h h
  | three => exact Nat.mul_le_mul (Nat.mul_le_mul h h) h

theorem le_size (dim : Dim) (n : ℕ) : n ≤ dim.size n := by
  have hsquare : n ≤ n * n := Nat.le_mul_self n
  cases dim with
  | one => exact Nat.le_refl n
  | two => exact hsquare
  | three => exact hsquare.trans (Nat.mul_le_mul_right n hsquare)

theorem wrap_pred {i : ℕ} (hpos : 0 < i) (hi : i < 2 ^ 32) : wrap (i + (2 ^ 32 - 1)) = i - 1 := by
  unfold wrap
  omega

section Matrices

variable {dim : Dim} {k blksize turns : ℕ}

/-- The scale of three arrays of a size. -/
theorem scale_size (hk : 12 * dim.size k < 2 ^ 32) (hfit : blksize ≤ 12 * dim.size k)
    (hroom : 12 < blksize) (henough : k < turns) :
    ∃ i, scale blksize (matrixBytes dim) turns = .ok i ∧ 1 < i ∧ i < 2 ^ 32 ∧
      12 * dim.size (i - 1) ≤ blksize ∧ blksize ≤ 12 * dim.size i := by
  have hbytes : ∀ i ≤ k, wrap (matrixBytes dim i) = 12 * dim.size i := by
    intro i hi
    have hsize := size_mono dim hi
    unfold wrap matrixBytes
    omega
  have hsmall := le_size dim k
  have hpos : 0 < k := by
    rcases Nat.eq_zero_or_pos k with rfl | hpos
    · cases dim <;> exact absurd (Nat.lt_of_lt_of_le hroom hfit) (by decide)
    · exact hpos
  have hlast : blksize ≤ wrap (matrixBytes dim k) := by rwa [hbytes k (Nat.le_refl k)]
  obtain ⟨i, hscale, hipos, hik, hi, hless⟩ :=
    scale_ok (Nat.zero_lt_of_lt hroom) hlast hpos (by omega) henough
  rw [hbytes i hik] at hi
  have hone : i ≠ 1 := by
    rintro rfl
    cases dim <;> exact absurd (Nat.lt_of_lt_of_le hroom hi) (by decide)
  have hbefore := hless (i - 1) (by omega) (by omega)
  rw [hbytes (i - 1) (by omega)] at hbefore
  exact ⟨i, hscale, by omega, by omega, Nat.le_of_lt hbefore, hi⟩

/-- **The side fits**, and a larger one would at best fill the block. -/
theorem matrixSide_ok (hk : 12 * dim.size k < 2 ^ 32) (hfit : blksize ≤ 12 * dim.size k)
    (hroom : 12 < blksize) (henough : k < turns) :
    ∃ n, matrixSide dim turns blksize = .ok n ∧ 0 < n ∧ 12 * dim.size n ≤ blksize ∧
      blksize ≤ 12 * dim.size (n + 1) := by
  obtain ⟨i, hscale, hi, hsmall, hbefore, hafter⟩ := scale_size hk hfit hroom henough
  have hside : 0 < i - 1 ∧ 12 * dim.size (i - 1) ≤ blksize ∧
      blksize ≤ 12 * dim.size (i - 1 + 1) := by
    rw [Nat.sub_add_cancel (Nat.le_of_lt hi)]
    exact ⟨Nat.sub_pos_of_lt hi, hbefore, hafter⟩
  cases dim with
  | one =>
    refine ⟨blksize / 12, rfl, Nat.div_pos (Nat.le_of_lt hroom) (by decide), ?_, ?_⟩
    · exact Nat.mul_div_le blksize 12
    · show blksize ≤ 12 * (blksize / 12 + 1)
      omega
  | two =>
    refine ⟨i - 1, ?_, hside⟩
    unfold matrixSide
    rw [hscale, ← wrap_pred (Nat.zero_lt_of_lt hi) hsmall]
    rfl
  | three =>
    refine ⟨i - 1, ?_, hside⟩
    unfold matrixSide
    rw [hscale, ← wrap_pred (Nat.zero_lt_of_lt hi) hsmall]
    rfl

/-- The contents `A` starts with. -/
def leftSeed (dim : Dim) (n : ℕ) (seed : BitVec 32) (e : ℕ) : BitVec 32 :=
  match dim with
  | .one => (seed ^^^ word e) ||| word e
  | .two => seed ^^^ word (e % n)
  | .three => (seed ^^^ word (e % n)) ||| (seed ^^^ word (e / (n * n)))

/-- The contents of `B`. -/
def rightSeed (dim : Dim) (n : ℕ) (seed : BitVec 32) (e : ℕ) : BitVec 32 :=
  match dim with
  | .one => seed ^^^ word e
  | .two => (seed ^^^ word (e % n)) ||| (seed ^^^ word (e / n))
  | .three => (seed ^^^ word (e % n)) ||| (seed ^^^ word (e / n % n))

variable {n a b e q : ℕ} {seed : BitVec 32} {m : Cells (BitVec 32)}

theorem matrixFill_eq (dim : Dim) (n a b : ℕ) (seed : BitVec 32) (m : Cells (BitVec 32)) :
    matrixFill dim n a b seed m = forRange (fun e m =>
      store (b + e) (rightSeed dim n seed e) (store (a + e) (leftSeed dim n seed e) m))
      (dim.size n) m := by
  cases dim with
  | one =>
    refine forRange_congr (fun e _ m => ?_) m
    show store _ _ _ = store _ (seed ^^^ word e) _
    rw [BitVec.or_self]
    rfl
  | two =>
    refine (forRange_forRange (fun i j m => store (b + (i * n + j))
      ((seed ^^^ word j) ||| (seed ^^^ word i)) (store (a + (i * n + j))
        ((seed ^^^ word j) ||| (seed ^^^ word j)) m)) n n m).trans ?_
    refine forRange_congr (fun e _ m => ?_) m
    rw [Nat.div_add_mod', BitVec.or_self]
    rfl
  | three =>
    refine (forRange_forRange_forRange (fun i j k m => store (b + (i * n * n + j * n + k))
      ((seed ^^^ word k) ||| (seed ^^^ word j)) (store (a + (i * n * n + j * n + k))
        ((seed ^^^ word k) ||| (seed ^^^ word i)) m)) n n n m).trans ?_
    rw [← Nat.mul_assoc]
    refine forRange_congr (fun e _ m => ?_) m
    rw [digits_eq]
    rfl

theorem matrixFill_left (hapart : Apart a (dim.size n) b (dim.size n)) (he : e < dim.size n) :
    matrixFill dim n a b seed m (a + e) = leftSeed dim n seed e := by
  rw [matrixFill_eq]
  have hacts : Acts ∅ m (a + e) (forRange (fun e m =>
      store (b + e) (rightSeed dim n seed e) (store (a + e) (leftSeed dim n seed e) m))
      (dim.size n)) (fun _ => leftSeed dim n seed e) := by
    refine acts_forRange_single he (fun j hj hne => ?_) ?_
    · exact (acts_store_ne (Set.notMem_empty _) (place_ne hne)).seq
        (acts_store_ne (Set.notMem_empty _) (hapart e he j hj))
    · exact (acts_store (φ := fun _ => leftSeed dim n seed e) (Set.notMem_empty _)
        fun _ _ => rfl).seq (acts_store_ne (v := fun _ => rightSeed dim n seed e)
          (Set.notMem_empty _) (hapart e he e he))
  exact hacts.apply

theorem matrixFill_right (hapart : Apart a (dim.size n) b (dim.size n)) (he : e < dim.size n) :
    matrixFill dim n a b seed m (b + e) = rightSeed dim n seed e := by
  rw [matrixFill_eq]
  have hleft : ∀ j < dim.size n, b + e ≠ a + j := fun j hj heq => hapart j hj e he heq.symm
  have hacts : Acts ∅ m (b + e) (forRange (fun e m =>
      store (b + e) (rightSeed dim n seed e) (store (a + e) (leftSeed dim n seed e) m))
      (dim.size n)) (fun _ => rightSeed dim n seed e) := by
    refine acts_forRange_single he (fun j hj hne => ?_) ?_
    · exact (acts_store_ne (Set.notMem_empty _) (hleft j hj)).seq
        (acts_store_ne (Set.notMem_empty _) (place_ne hne))
    · exact (acts_store_ne (Set.notMem_empty _) (hleft e he)).seq
        (acts_store (φ := fun _ => rightSeed dim n seed e) (Set.notMem_empty _) fun _ _ => rfl)
  exact hacts.apply

theorem matrixFill_else (ha : ∀ e < dim.size n, q ≠ a + e) (hb : ∀ e < dim.size n, q ≠ b + e) :
    matrixFill dim n a b seed m q = m q := by
  rw [matrixFill_eq]
  have hacts : Acts ∅ m q (forRange (fun e m =>
      store (b + e) (rightSeed dim n seed e) (store (a + e) (leftSeed dim n seed e) m))
      (dim.size n)) id :=
    acts_forRange_id fun e he => (acts_store_ne (Set.notMem_empty _) (ha e he)).seq
      (acts_store_ne (Set.notMem_empty _) (hb e he))
  exact hacts.apply

/-- **The matrix benchmark, whole**: from any seed and in any block that has
room for more than a cell of each, the iterations leave `A`'s seeded contents
with the constants added to them, `B` as it was seeded, and in `C` what is
made of the two; and they keep to the block. -/
theorem matrixBenchmark_eq (hk : 12 * dim.size k < 2 ^ 32) (hfit : blksize ≤ 12 * dim.size k)
    (hroom : 12 < blksize) (henough : k < turns) (seed val : BitVec 32) (memblk : ℕ)
    (m : Cells (BitVec 32)) (t : ℕ) :
    ∃ m' p, matrixBenchmark dim turns blksize t seed val memblk m = .ok (m', p) ∧
      p.a = memblk ∧ p.b = memblk + dim.size p.n ∧ p.c = memblk + 2 * dim.size p.n ∧
      12 * dim.size p.n ≤ blksize ∧ blksize ≤ 12 * dim.size (p.n + 1) ∧
      (∀ e < dim.size p.n, m' (p.a + e) = leftSeed dim p.n seed e + t • val ∧
        m' (p.b + e) = rightSeed dim p.n seed e) ∧
      (0 < t → p.Stored dim val m') ∧
      ∀ q, q < memblk ∨ memblk + 3 * dim.size p.n ≤ q → m' q = m q := by
  obtain ⟨n, hside, hpos, hbefore, hafter⟩ := matrixSide_ok hk hfit hroom henough
  let p : MatParams := ⟨n, memblk, memblk + dim.size n, memblk + dim.size n + dim.size n⟩
  have hab : Apart p.a (dim.size p.n) p.b (dim.size p.n) := apart_of_le (Nat.le_refl _)
  have hapart : p.Apart dim :=
    ⟨apart_of_le (Nat.le_add_right _ _), apart_of_le (Nat.le_refl _)⟩
  refine ⟨p.iterations dim val t (matrixFill dim n p.a p.b seed m), p, ?_, rfl, rfl, ?_, hbefore,
    hafter, fun e he => ⟨?_, ?_⟩, iterations_stored hapart hpos, fun q hq => ?_⟩
  · unfold matrixBenchmark matrixInit
    rw [hside]
    rfl
  · show memblk + dim.size n + dim.size n = memblk + 2 * dim.size n
    omega
  · rw [iterations_left hapart hpos he, matrixFill_left hab he]
  · have hleft : ∀ j < dim.size p.n, p.b + e ≠ p.a + j := fun j hj heq => hab j hj e he heq.symm
    rw [iterations_else hpos hleft fun j hj => hapart.2 e he j hj, matrixFill_right hab he]
  · have hout : q < memblk ∨ memblk + 3 * dim.size n ≤ q := hq
    have ha : ∀ e < dim.size n, q ≠ memblk + e := by omega
    have hb : ∀ e < dim.size n, q ≠ memblk + dim.size n + e := by omega
    have hc : ∀ e < dim.size n, q ≠ memblk + dim.size n + dim.size n + e := by omega
    rw [iterations_else hpos ha hc, matrixFill_else ha hb]

theorem matrixBenchmark_eq_sample :
    ∃ m' p, matrixBenchmark .two 15 2048 10 0x11 2 0 (fun _ => 0) = .ok (m', p) ∧
      p.a = 0 ∧ p.b = 0 + Dim.two.size p.n ∧ p.c = 0 + 2 * Dim.two.size p.n ∧
      12 * Dim.two.size p.n ≤ 2048 ∧ 2048 ≤ 12 * Dim.two.size (p.n + 1) ∧
      (∀ e < Dim.two.size p.n, m' (p.a + e) = leftSeed .two p.n 0x11 e + 10 • 2 ∧
        m' (p.b + e) = rightSeed .two p.n 0x11 e) ∧
      (0 < 10 → p.Stored .two 2 m') ∧
      ∀ q, q < 0 ∨ 0 + 3 * Dim.two.size p.n ≤ q → m' q = 0 :=
  matrixBenchmark_eq (k := 14) (by decide) (by decide) (by decide) (by decide) 0x11 2 0 _ 10

end Matrices

end IoTBench

end Checklib
