import Checklib.Cells

/-!
# `list_search` and `list_search_all`

Both walk the list to its end and change nothing in it. The first stops at
the first item that is equal under the comparison asked for. The second
writes the index of every item with the data asked for, one behind the
other, and its array is not checked: it is in bounds exactly if there are
no more such items than it has room for.
-/

namespace Checklib

namespace IoTBench

open Common

variable {dimX : ℕ} {m : Memory dimX} {info : ListData dimX} {cells : List Addr}

/-- The cell carries an item that is equal under the comparison. -/
def Memory.hits (m : Memory dimX) (info : ListData dimX) (cmp : Cmp) (a : Addr) : Bool :=
  (m.item a).any fun item => item.key cmp = info.key cmp

theorem Memory.hits_iff {cmp : Cmp} {a : Addr} {item : ListData dimX} (h : m.item a = some item) :
    m.hits info cmp a = true ↔ cmpIdxValue item info cmp = 0 := by
  unfold hits
  rw [h, cmpIdxValue_eq_zero_iff, Option.any_some, decide_eq_true_iff]

/-- **`list_search` finds the first** item that is equal. -/
theorem listSearch_eq {key : Cmp} {list : Option Addr} (h : m.Chain list cells)
    (hcarries : m.Carries cells) {turns : ℕ} (henough : cells.length < turns) :
    listSearch m info key turns list = .ok (cells.find? (m.hits info key)) := by
  unfold listSearch
  induction cells generalizing list turns with
  | nil =>
    obtain ⟨turns, rfl⟩ := Nat.exists_eq_succ_of_ne_zero (by omega : turns ≠ 0)
    obtain rfl : list = none := h
    exact loop_of_done turns rfl
  | cons a cells ih =>
    obtain ⟨turns, rfl⟩ := Nat.exists_eq_succ_of_ne_zero (by omega : turns ≠ 0)
    obtain ⟨rfl, r, hr, hcells⟩ := h
    obtain ⟨item, hitem⟩ := Option.isSome_iff_exists.1 (hcarries a List.mem_cons_self)
    by_cases hhit : cmpIdxValue item info key = 0
    · rw [List.find?_cons_of_pos ((Memory.hits_iff hitem).2 hhit)]
      refine loop_of_done turns ?_
      simp only [Memory.info_eq hitem, ok_bind, hhit, ne_eq, not_true_eq_false, if_false]
      rfl
    · rw [List.find?_cons_of_neg (mt (Memory.hits_iff hitem).1 hhit),
        ← ih hcells (fun b hb => hcarries b (List.mem_cons_of_mem a hb))
          (Nat.lt_of_succ_lt_succ henough)]
      refine loop_of_next turns ?_
      simp only [Memory.info_eq hitem, ok_bind, ne_eq, hhit, not_false_eq_true, if_true,
        Memory.next_eq hr]
      rfl

/-- The indices of the items with the data asked for, in the list's order. -/
def Memory.found (m : Memory dimX) (info : ListData dimX) (cells : List Addr) : List UInt16 :=
  (cells.filter (m.hits info .data)).filterMap fun a => (m.item a).map (·.idx)

theorem Memory.found_cons_of_hit {a : Addr} {item : ListData dimX} (h : m.item a = some item)
    (hhit : m.hits info .data a = true) :
    m.found info (a :: cells) = item.idx :: m.found info cells := by
  unfold found
  rw [List.filter_cons_of_pos hhit, List.filterMap_cons_some]
  rw [h, Option.map_some]

theorem Memory.found_cons_of_not {a : Addr} (hhit : ¬ m.hits info .data a = true) :
    m.found info (a :: cells) = m.found info cells := by
  unfold found
  rw [List.filter_cons_of_neg hhit]

/-- What a write leaves before and behind the place after it. -/
theorem set_apart {result : List UInt16} {i : ℕ} (h : i < result.length) (x : UInt16) (n : ℕ) :
    (result.set i x).take (i + 1) = result.take i ++ [x] ∧
      (result.set i x).drop (i + 1 + n) = result.drop (i + 1 + n) := by
  constructor
  · rw [List.take_add_one, List.take_set_of_le (Nat.le_refl i), List.getElem?_set_self h]
    rfl
  · exact List.drop_set_of_lt (by omega)

/-- The walk, from any place in the list and in the array. -/
theorem Searching.run_eq {list : Option Addr} {i : ℕ} {result : List UInt16}
    (h : m.Chain list cells) (hcarries : m.Carries cells) (hi : i ≤ result.length) {turns : ℕ}
    (henough : cells.length < turns) :
    loop .stuck (Searching.turn m info) turns ⟨list, i, result⟩ =
      if i + (m.found info cells).length ≤ result.length then
        .ok (result.take i ++ m.found info cells ++
          result.drop (i + (m.found info cells).length))
      else .error .bounds := by
  induction cells generalizing list i result turns with
  | nil =>
    obtain ⟨turns, rfl⟩ := Nat.exists_eq_succ_of_ne_zero (by omega : turns ≠ 0)
    obtain rfl : list = none := h
    have hnone : m.found info [] = [] := rfl
    have hdone : Searching.turn m info ⟨none, i, result⟩ = .ok (.inr result) := rfl
    rw [loop_of_done turns hdone, hnone, List.length_nil, Nat.add_zero, if_pos hi, List.append_nil,
      List.take_append_drop]
  | cons a cells ih =>
    obtain ⟨turns, rfl⟩ := Nat.exists_eq_succ_of_ne_zero (by omega : turns ≠ 0)
    obtain ⟨rfl, r, hr, hcells⟩ := h
    obtain ⟨item, hitem⟩ := Option.isSome_iff_exists.1 (hcarries a List.mem_cons_self)
    have hchain : m.Chain r cells := hcells
    have hrest : m.Carries cells := fun b hb => hcarries b (List.mem_cons_of_mem a hb)
    have hfewer : cells.length < turns := Nat.lt_of_succ_lt_succ henough
    by_cases hhit : cmpIdxValue item info .data = 0
    · rw [Memory.found_cons_of_hit hitem ((Memory.hits_iff hitem).2 hhit), List.length_cons]
      by_cases hroom : i < result.length
      · have hnext : Searching.turn m info ⟨some a, i, result⟩ =
            .ok (.inl ⟨r, i + 1, result.set i item.idx⟩) := by
          simp only [turn, Memory.info_eq hitem, ok_bind, hhit, ne_eq, not_true_eq_false, if_false,
            if_pos hroom, Memory.next_eq hr]
          rfl
        have hi' : i + 1 ≤ (result.set i item.idx).length := by
          rw [List.length_set]
          exact hroom
        obtain ⟨hbefore, hbehind⟩ := set_apart hroom item.idx (m.found info cells).length
        rw [loop_of_next turns hnext, ih hchain hrest hi' hfewer, List.length_set, hbefore, hbehind,
          List.append_assoc, List.append_assoc, List.append_assoc, Nat.add_assoc, Nat.add_comm 1]
        rfl
      · have herror : Searching.turn m info ⟨some a, i, result⟩ = .error .bounds := by
          simp only [turn, Memory.info_eq hitem, ok_bind, hhit, ne_eq, not_true_eq_false, if_false,
            if_neg hroom]
          rfl
        rw [loop_of_error turns herror, if_neg (by omega)]
    · rw [Memory.found_cons_of_not (mt (Memory.hits_iff hitem).1 hhit)]
      have hnext : Searching.turn m info ⟨some a, i, result⟩ = .ok (.inl ⟨r, i, result⟩) := by
        simp only [turn, Memory.info_eq hitem, ok_bind, ne_eq, hhit, not_false_eq_true, if_true,
          Memory.next_eq hr]
        rfl
      rw [loop_of_next turns hnext, ih hchain hrest hi hfewer]

/-- **`list_search_all` writes what it finds, and no further than that**,
and leaves its array's bounds exactly if it finds more than there is room
for. -/
theorem listSearchAll_eq {list : Option Addr} {result : List UInt16} (h : m.Chain list cells)
    (hcarries : m.Carries cells) {turns : ℕ} (henough : cells.length < turns) :
    listSearchAll m info turns list result =
      if (m.found info cells).length ≤ result.length then
        .ok (m.found info cells ++ result.drop (m.found info cells).length)
      else .error .bounds := by
  unfold listSearchAll
  rw [Searching.run_eq h hcarries (Nat.zero_le result.length) henough]
  simp only [Nat.zero_add, List.take_zero, List.nil_append]

theorem listSearchAll_eq_sample :
    listSearchAll twoCells ⟨fun _ => 5, 0⟩ 3 (some 8) [0, 0] =
      if (twoCells.found ⟨fun _ => 5, 0⟩ [8, 16]).length ≤ [(0 : UInt16), 0].length then
        .ok (twoCells.found ⟨fun _ => 5, 0⟩ [8, 16] ++
          [0, 0].drop (twoCells.found ⟨fun _ => 5, 0⟩ [8, 16]).length)
      else .error .bounds :=
  listSearchAll_eq chain_twoCells carries_twoCells (by decide)

end IoTBench

end Checklib
