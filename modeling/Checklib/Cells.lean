import Checklib.Common.Chain
import Checklib.Common.Except
import Checklib.Model.LinkedList
import Mathlib.Data.List.Lex

/-!
# The cells of a list

A memory is looked at in two ways: where each cell points to, and the item
it carries. A sort changes the first and keeps the second (`Relinked`). The
items are compared by a key, the list of their data or their index, so that
the comparison is the order of the keys whatever is compared.
-/

namespace Checklib

namespace IoTBench

open Common

variable {dimX : ℕ}

namespace Memory

variable {m m' m'' : Memory dimX} {a : Addr} {p q : Option Addr} {cells cells' : List Addr}

/-- Where a cell points to. -/
def nextOf (m : Memory dimX) (a : Addr) : Option (Option Addr) := (m.nodes a).map (·.next)

/-- The item a cell carries. -/
def item (m : Memory dimX) (a : Addr) : Option (ListData dimX) :=
  (m.nodes a).bind fun node => m.infos node.info

/-- **A list in memory**: its cells, in order, up to `NULL`. -/
def Chain (m : Memory dimX) (p : Option Addr) (cells : List Addr) : Prop :=
  Walk m.nextOf none p cells

/-- Every cell carries an item. -/
def Carries (m : Memory dimX) (cells : List Addr) : Prop :=
  ∀ a ∈ cells, (m.item a).isSome

theorem Carries.isSome_nextOf (h : m.Carries cells) (ha : a ∈ cells) : (m.nextOf a).isSome := by
  obtain ⟨data, hdata⟩ := Option.isSome_iff_exists.1 (h a ha)
  obtain ⟨cell, hcell, -⟩ := Option.bind_eq_some_iff.1 hdata
  unfold nextOf
  rw [hcell, Option.map_some]
  rfl

theorem next_eq (h : m.nextOf a = some q) : m.next (some a) = .ok q := by
  obtain ⟨cell, hcell, rfl⟩ := Option.map_eq_some_iff.1 h
  unfold next node
  rw [Option.bind_some, hcell]
  rfl

theorem info_eq {data : ListData dimX} (h : m.item a = some data) :
    m.info (some a) = .ok data := by
  obtain ⟨cell, hcell, hdata⟩ := Option.bind_eq_some_iff.1 h
  unfold info node
  simp only [Option.bind_some, hcell, ok_bind, hdata]

section Put

variable {cell : ListNode} {data : ListData dimX} {b : Addr}

@[simp] theorem nodes_putNode_self : (m.putNode a cell).nodes a = some cell := by
  show Function.update m.nodes a (some cell) a = some cell
  rw [Function.update_self]

@[simp] theorem nodes_putNode_of_ne (h : b ≠ a) : (m.putNode a cell).nodes b = m.nodes b := by
  show Function.update m.nodes a (some cell) b = m.nodes b
  rw [Function.update_of_ne h]

end Put

/-! ## Relinking -/

/-- **Nothing but the pointers of the given cells is different.** -/
structure Relinked (cells : List Addr) (m m' : Memory dimX) : Prop where
  infos : m'.infos = m.infos
  info : ∀ a, (m'.nodes a).map (·.info) = (m.nodes a).map (·.info)
  nodes : ∀ a ∉ cells, m'.nodes a = m.nodes a

theorem Relinked.refl (cells : List Addr) (m : Memory dimX) : Relinked cells m m :=
  ⟨rfl, fun _ => rfl, fun _ _ => rfl⟩

theorem Relinked.trans (h : Relinked cells m m') (h' : Relinked cells m' m'') :
    Relinked cells m m'' :=
  ⟨h'.infos.trans h.infos, fun a => (h'.info a).trans (h.info a),
    fun a ha => (h'.nodes a ha).trans (h.nodes a ha)⟩

theorem Relinked.mono (h : Relinked cells m m') (hsub : cells ⊆ cells') : Relinked cells' m m' :=
  ⟨h.infos, h.info, fun a ha => h.nodes a fun hmem => ha (hsub hmem)⟩

theorem Relinked.item_eq (h : Relinked cells m m') (a : Addr) : m'.item a = m.item a := by
  have hinfo := h.info a
  unfold item
  rw [h.infos]
  cases hm : m.nodes a with
  | none =>
    rw [hm, Option.map_none, Option.map_eq_none_iff] at hinfo
    rw [hinfo]
  | some node =>
    rw [hm, Option.map_some] at hinfo
    obtain ⟨node', hnode', heq⟩ := Option.map_eq_some_iff.1 hinfo
    rw [hnode', Option.bind_some, Option.bind_some, heq]

theorem Relinked.carries (h : Relinked cells m m') (hm : m.Carries cells') :
    m'.Carries cells' := by
  intro a ha
  rw [h.item_eq a]
  exact hm a ha

theorem Relinked.nextOf_eq (h : Relinked cells m m') (ha : a ∉ cells) :
    m'.nextOf a = m.nextOf a := by
  unfold nextOf
  rw [h.nodes a ha]

/-- A walk apart from what is relinked. -/
theorem Relinked.walk {xs : List Addr} (h : Relinked cells m m')
    (hs : Walk m.nextOf q p xs) (hdisj : ∀ a ∈ xs, a ∉ cells) : Walk m'.nextOf q p xs :=
  hs.congr fun a ha => h.nextOf_eq (hdisj a ha)

/-- **A pointer is set.** -/
theorem setNext_eq (ha : (m.nextOf a).isSome) (q : Option Addr) :
    ∃ m', m.setNext (some a) q = .ok m' ∧ m'.nextOf = Function.update m.nextOf a (some q) ∧
      Relinked [a] m m' := by
  rw [nextOf, Option.isSome_map, Option.isSome_iff_exists] at ha
  obtain ⟨cell, hcell⟩ := ha
  refine ⟨m.putNode a { cell with next := q }, ?_, funext fun b => ?_, rfl, fun b => ?_,
    fun b hb => nodes_putNode_of_ne fun heq => hb (List.mem_singleton.2 heq)⟩
  · unfold setNext node
    rw [Option.bind_some, hcell]
    rfl
  · unfold nextOf
    by_cases hb : b = a
    · rw [hb, nodes_putNode_self, Function.update_self, Option.map_some]
    · rw [nodes_putNode_of_ne hb, Function.update_of_ne hb]
  · by_cases hb : b = a
    · rw [hb, nodes_putNode_self, hcell, Option.map_some, Option.map_some]
    · rw [nodes_putNode_of_ne hb]

end Memory

/-! ## Counters -/

theorem wrap_of_lt {x : ℕ} (h : x < 2 ^ 32) : wrap x = x := Nat.mod_eq_of_lt h

/-! ## Keys -/

/-- What items are compared by. -/
def ListData.key (info : ListData dimX) : Cmp → List ℕ
  | .data => (List.finRange dimX).map fun l => (info.data l).toNat
  | .idx => [info.idx.toNat]

variable {a b : ListData dimX}

theorem cmpData_cases (a b : ListData dimX) (ls : List (Fin dimX)) :
    (cmpData a b ls = 1 ∧ ls.map (fun l => (b.data l).toNat) < ls.map fun l => (a.data l).toNat) ∨
    (cmpData a b ls = -1 ∧ ls.map (fun l => (a.data l).toNat) < ls.map fun l => (b.data l).toNat) ∨
    (cmpData a b ls = 0 ∧
      ls.map (fun l => (a.data l).toNat) = ls.map fun l => (b.data l).toNat) := by
  induction ls with
  | nil => exact .inr (.inr ⟨rfl, rfl⟩)
  | cons l ls ih =>
    simp only [List.map_cons, List.cons_lt_cons_iff, List.cons.injEq]
    unfold cmpData
    rcases Nat.lt_trichotomy (a.data l).toNat (b.data l).toNat with hlt | heq | hgt
    · have h₁ : ¬ a.data l > b.data l := by
        rw [gt_iff_lt, UInt32.lt_iff_toNat_lt]
        omega
      rw [if_neg h₁, if_pos (UInt32.lt_iff_toNat_lt.2 hlt)]
      exact .inr (.inl ⟨rfl, .inl hlt⟩)
    · have h₁ : ¬ a.data l > b.data l := by
        rw [gt_iff_lt, UInt32.lt_iff_toNat_lt]
        omega
      have h₂ : ¬ a.data l < b.data l := by
        rw [UInt32.lt_iff_toNat_lt]
        omega
      rw [if_neg h₁, if_neg h₂]
      rcases ih with ⟨h, hr⟩ | ⟨h, hr⟩ | ⟨h, hr⟩
      · exact .inl ⟨h, .inr ⟨heq.symm, hr⟩⟩
      · exact .inr (.inl ⟨h, .inr ⟨heq, hr⟩⟩)
      · exact .inr (.inr ⟨h, heq, hr⟩)
    · rw [if_pos (show a.data l > b.data l from UInt32.lt_iff_toNat_lt.2 hgt)]
      exact .inl ⟨rfl, .inl hgt⟩

/-- **`cmp_idx_value` is the order of the keys.** -/
theorem cmpIdxValue_cases (a b : ListData dimX) (cmp : Cmp) :
    (cmpIdxValue a b cmp = 1 ∧ b.key cmp < a.key cmp) ∨
    (cmpIdxValue a b cmp = -1 ∧ a.key cmp < b.key cmp) ∨
    (cmpIdxValue a b cmp = 0 ∧ a.key cmp = b.key cmp) := by
  cases cmp with
  | data => exact cmpData_cases a b _
  | idx =>
    simp only [cmpIdxValue, ListData.key, List.cons_lt_cons_iff, List.cons.injEq, and_true]
    rcases Nat.lt_trichotomy a.idx.toNat b.idx.toNat with hlt | heq | hgt
    · have h₁ : ¬ a.idx > b.idx := by
        rw [gt_iff_lt, UInt16.lt_iff_toNat_lt]
        omega
      have h₂ : ¬ a.idx = b.idx := fun h => by
        rw [h] at hlt
        omega
      rw [if_neg h₁, if_neg h₂]
      exact .inr (.inl ⟨rfl, .inl hlt⟩)
    · have h₁ : ¬ a.idx > b.idx := by
        rw [gt_iff_lt, UInt16.lt_iff_toNat_lt]
        omega
      rw [if_neg h₁, if_pos (UInt16.toNat_inj.1 heq)]
      exact .inr (.inr ⟨rfl, heq⟩)
    · rw [if_pos (show a.idx > b.idx from UInt16.lt_iff_toNat_lt.2 hgt)]
      exact .inl ⟨rfl, .inl hgt⟩

theorem cmpIdxValue_neg_iff (cmp : Cmp) : cmpIdxValue a b cmp < 0 ↔ a.key cmp < b.key cmp := by
  rcases cmpIdxValue_cases a b cmp with ⟨h, hkey⟩ | ⟨h, hkey⟩ | ⟨h, hkey⟩
  · rw [h]
    exact ⟨fun h => absurd h (by decide), fun h => absurd hkey h.asymm⟩
  · rw [h]
    exact ⟨fun _ => hkey, fun _ => by decide⟩
  · rw [h, hkey]
    exact ⟨fun h => absurd h (by decide), fun h => absurd h (lt_irrefl _)⟩

theorem cmpIdxValue_eq_zero_iff (cmp : Cmp) : cmpIdxValue a b cmp = 0 ↔ a.key cmp = b.key cmp := by
  rcases cmpIdxValue_cases a b cmp with ⟨h, hkey⟩ | ⟨h, hkey⟩ | ⟨h, hkey⟩
  · rw [h]
    exact ⟨fun h => absurd h (by decide), fun h => absurd h hkey.ne'⟩
  · rw [h]
    exact ⟨fun h => absurd h (by decide), fun h => absurd h hkey.ne⟩
  · exact ⟨fun _ => hkey, fun _ => h⟩

/-- **The order a list is sorted by**, on its cells. -/
def Memory.le (m : Memory dimX) (cmp : Cmp) (a b : Addr) : Bool :=
  decide (((m.item a).map (·.key cmp)).getD [] ≤ ((m.item b).map (·.key cmp)).getD [])

namespace Memory

variable {m m' : Memory dimX} {cmp : Cmp} {a b : Addr}

theorem le_trans (m : Memory dimX) (cmp : Cmp) (a b c : Addr) (h : m.le cmp a b = true)
    (h' : m.le cmp b c = true) : m.le cmp a c = true :=
  decide_eq_true ((of_decide_eq_true h).trans (of_decide_eq_true h'))

theorem le_total (m : Memory dimX) (cmp : Cmp) (a b : Addr) :
    (m.le cmp a b || m.le cmp b a) = true := by
  rw [Bool.or_eq_true]
  exact (LinearOrder.le_total _ _).imp decide_eq_true decide_eq_true

/-- The right run's cell is taken where it is strictly below the left's. -/
theorem le_iff {left right : ListData dimX} (ha : m.item a = some left)
    (hb : m.item b = some right) : m.le cmp a b = true ↔ ¬ cmpIdxValue right left cmp < 0 := by
  unfold le
  rw [ha, hb, cmpIdxValue_neg_iff, decide_eq_true_iff]
  exact not_lt.symm

theorem Relinked.le_eq {cells : List Addr} (h : Relinked cells m m') : m'.le cmp = m.le cmp := by
  funext a b
  unfold le
  rw [h.item_eq a, h.item_eq b]

end Memory

/-! ## Two cells -/

/-- A list of two items, the second of which comes first by its data. -/
def twoCells : Memory 1 where
  nodes a := if a = 8 then some ⟨some 16, 24⟩ else if a = 16 then some ⟨none, 32⟩ else none
  infos a := if a = 24 then some ⟨fun _ => 7, 1⟩ else if a = 32 then some ⟨fun _ => 5, 2⟩ else none

theorem chain_twoCells : twoCells.Chain (some 8) [8, 16] := ⟨rfl, _, rfl, rfl, _, rfl, rfl⟩

theorem carries_twoCells : twoCells.Carries [8, 16] := by
  unfold Memory.Carries
  decide

end IoTBench

end Checklib
