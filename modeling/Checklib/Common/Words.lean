import Mathlib.Data.BitVec
import Mathlib.Data.List.GetD
import Mathlib.Data.Set.Lattice
import Mathlib.Order.CompletePartialOrder

/-!
# Words in a memory of bytes

A memory gives a byte for every address. A word is four of them, the lowest
first, and addresses wrap as words do. What is read depends on its four
bytes only, and a write changes no other.
-/

namespace Checklib

namespace Common

/-- A byte. -/
abbrev Byte := BitVec 8

/-- A word, or an address. -/
abbrev Word := BitVec 32

/-- The `n` addresses from `a` on. -/
def span (a : Word) (n : ℕ) : Set Word := {q | ∃ i < n, q = a + BitVec.ofNat 32 i}

/-- The word at an address. -/
def read32 (m : Word → Byte) (a : Word) : Word := m (a + 3) ++ m (a + 2) ++ m (a + 1) ++ m a

/-- The memory with a word at an address. -/
def write32 (m : Word → Byte) (a v : Word) : Word → Byte := fun q =>
  if q = a then v.extractLsb' 0 8
  else if q = a + 1 then v.extractLsb' 8 8
  else if q = a + 2 then v.extractLsb' 16 8
  else if q = a + 3 then v.extractLsb' 24 8
  else m q

/-- **Bytes in their place**, the first at `base`. -/
def Holds (m : Word → Byte) (base : Word) (code : List Byte) : Prop :=
  ∀ i (h : i < code.length), m (base + BitVec.ofNat 32 i) = code[i]

/-- A memory with nothing but these bytes. -/
def placed (base : Word) (code : List Byte) : Word → Byte :=
  fun q => code.getD (q - base).toNat 0

section Words

variable {m m' : Word → Byte} {a b q v base : Word} {code : List Byte} {i n k : ℕ}

theorem mem_span (h : i < n) : a + BitVec.ofNat 32 i ∈ span a n := ⟨i, h, rfl⟩

theorem mem_span_self (h : 0 < n) : a ∈ span a n := ⟨0, h, (BitVec.add_zero a).symm⟩

/-- The four bytes of a word. -/
theorem forall_mem_span_four {P : Word → Prop} :
    (∀ q ∈ span a 4, P q) ↔ P a ∧ P (a + 1) ∧ P (a + 2) ∧ P (a + 3) := by
  constructor
  · intro h
    exact ⟨h _ (mem_span_self (by decide)), h _ (mem_span (i := 1) (by decide)),
      h _ (mem_span (i := 2) (by decide)), h _ (mem_span (i := 3) (by decide))⟩
  · rintro ⟨h₀, h₁, h₂, h₃⟩ q ⟨i, hi, rfl⟩
    match i, hi with
    | 0, _ => rwa [show BitVec.ofNat 32 0 = 0#32 from rfl, BitVec.add_zero]
    | 1, _ => exact h₁
    | 2, _ => exact h₂
    | 3, _ => exact h₃

theorem read32_congr (h : Set.EqOn m m' (span a 4)) : read32 m a = read32 m' a := by
  obtain ⟨h₀, h₁, h₂, h₃⟩ := forall_mem_span_four.1 fun _ hq => h hq
  unfold read32
  rw [h₀, h₁, h₂, h₃]

/-- **A word is read as it was written.** -/
theorem read32_write32 : read32 (write32 m a v) a = v := by
  have h₁ : a + 1 ≠ a := by bv_omega
  have h₂ : a + 2 ≠ a ∧ a + 2 ≠ a + 1 := ⟨by bv_omega, by bv_omega⟩
  have h₃ : a + 3 ≠ a ∧ a + 3 ≠ a + 1 ∧ a + 3 ≠ a + 2 := ⟨by bv_omega, by bv_omega, by bv_omega⟩
  simp only [read32, write32, h₁, h₂, h₃, if_true, if_false]
  have hhigh : v.extractLsb' 24 8 ++ v.extractLsb' 16 8 = v.extractLsb' 16 16 :=
    BitVec.extractLsb'_append_extractLsb'_eq_extractLsb' rfl
  have hmiddle : v.extractLsb' 16 16 ++ v.extractLsb' 8 8 = v.extractLsb' 8 24 :=
    BitVec.extractLsb'_append_extractLsb'_eq_extractLsb' rfl
  have hwhole : v.extractLsb' 8 24 ++ v.extractLsb' 0 8 = v.extractLsb' 0 32 :=
    BitVec.extractLsb'_append_extractLsb'_eq_extractLsb' rfl
  calc v.extractLsb' 24 8 ++ v.extractLsb' 16 8 ++ v.extractLsb' 8 8 ++ v.extractLsb' 0 8
      = v.extractLsb' 0 32 := by rw [hhigh, hmiddle, hwhole]
    _ = v := BitVec.extractLsb'_eq_self

/-- **A write changes its four bytes only.** -/
theorem write32_of_notMem (h : q ∉ span a 4) : write32 m a v q = m q := by
  obtain ⟨h₀, h₁, h₂, h₃⟩ := (forall_mem_span_four (P := fun p => q ≠ p)).1
    fun p hp heq => h (heq ▸ hp)
  simp only [write32, h₀, h₁, h₂, h₃, if_false]

/-- What a write leaves as it was. -/
theorem eqOn_write32 {s : Set Word} (h : Disjoint s (span a 4)) : Set.EqOn (write32 m a v) m s :=
  fun _ hq => write32_of_notMem (Set.disjoint_left.1 h hq)

theorem Holds.congr (h : Holds m base code) (heq : Set.EqOn m m' (span base code.length)) :
    Holds m' base code :=
  fun i hi => (heq (mem_span hi)).symm.trans (h i hi)

theorem holds_placed (h : code.length ≤ 2 ^ 32) : Holds (placed base code) base code := by
  intro i hi
  have hback : (base + BitVec.ofNat 32 i - base).toNat = i := by
    rw [BitVec.add_comm, BitVec.add_sub_cancel, BitVec.toNat_ofNat, Nat.mod_eq_of_lt (by omega)]
  rw [placed, hback, List.getD_eq_getElem _ _ hi]

/-- What follows the first `k` bytes. -/
theorem Holds.drop (h : Holds m base code) (k : ℕ) :
    Holds m (base + BitVec.ofNat 32 k) (code.drop k) := by
  intro i hi
  rw [List.length_drop] at hi
  rw [BitVec.add_assoc, ← BitVec.ofNat_add, h (k + i) (by omega), List.getElem_drop]

/-- What the bytes start with. -/
theorem Holds.left {xs ys : List Byte} (h : Holds m base (xs ++ ys)) : Holds m base xs := by
  intro i hi
  rw [h i (by rw [List.length_append]; omega), List.getElem_append_left hi]

/-- Spans one behind the other, within the addresses. -/
theorem disjoint_span (h : a.toNat + n ≤ b.toNat) (hb : b.toNat + k ≤ 2 ^ 32) :
    Disjoint (span a n) (span b k) := by
  rw [Set.disjoint_left]
  rintro q ⟨i, hi, rfl⟩ ⟨j, hj, heq⟩
  have hval : (a.toNat + i) % 2 ^ 32 = (b.toNat + j) % 2 ^ 32 := by
    have hnat := congrArg BitVec.toNat heq
    simpa only [BitVec.toNat_add, BitVec.toNat_ofNat, Nat.add_mod_mod] using hnat
  rw [Nat.mod_eq_of_lt (by omega), Nat.mod_eq_of_lt (by omega)] at hval
  omega

end Words

end Common

end Checklib
