import Checklib.Cells
import Checklib.Common.StableSort

/-!
# `list_mergesort`

The sort moves no item and needs no memory but its variables: it relinks
the cells it is given, merging run with run into a list it grows behind
`ret`. One invariant for each of its loops says what has been grown and
what is left of the runs; from these the loops end, read no address
without a cell, and leave the list `List.mergeSort` gives, in the same
cells.
-/

namespace Checklib

namespace IoTBench

open Common

variable {dimX : ℕ} {cmp : Cmp}

/-! ## Merging two runs -/

namespace Merging

variable {s : Merging dimX} {out hand lefts rights : List Addr} {a : Addr}

/-- **What a merge has done and has before it**: the list grown so far, the
cell in hand, the left run, and the right run with the rest of the list
behind it. -/
structure Holds (s : Merging dimX) (out hand lefts rights : List Addr) : Prop where
  grown : Grown s.mem.nextOf s.list s.ret out
  left : ∃ q, Walk s.mem.nextOf q s.left lefts
  lsize : s.lsize = lefts.length
  right : s.mem.Chain s.right rights
  nodup : (out ++ (hand ++ (lefts ++ rights))).Nodup
  carries : s.mem.Carries (out ++ (hand ++ (lefts ++ rights)))

theorem takeLeft_ok (h : s.Holds out [] (a :: lefts) rights) :
    ∃ s', s.takeLeft = .ok (some a, s') ∧ s'.Holds out [a] lefts rights ∧
      s'.rsize = s.rsize ∧ s'.mem = s.mem := by
  obtain ⟨q, hleft, r, hr, hlefts⟩ := h.left
  refine ⟨{ s with left := r, lsize := s.lsize - 1 }, ?_,
    ⟨h.grown, ⟨q, hlefts⟩, ?_, h.right, h.nodup, h.carries⟩, rfl, rfl⟩
  · unfold takeLeft
    rw [hleft, Memory.next_eq hr]
    rfl
  · show s.lsize - 1 = lefts.length
    rw [h.lsize, List.length_cons, Nat.add_sub_cancel]

theorem takeRight_ok (h : s.Holds out [] lefts (a :: rights)) :
    ∃ s', s.takeRight = .ok (some a, s') ∧ s'.Holds out [a] lefts rights ∧
      s'.rsize = s.rsize - 1 ∧ s'.mem = s.mem := by
  obtain ⟨hright, r, hr, hrights⟩ := h.right
  have hperm :
      (out ++ ([a] ++ (lefts ++ rights))).Perm (out ++ ([] ++ (lefts ++ a :: rights))) := by
    show (out ++ a :: (lefts ++ rights)).Perm (out ++ (lefts ++ a :: rights))
    exact List.perm_middle.symm.append_left out
  refine ⟨{ s with right := r, rsize := s.rsize - 1 }, ?_,
    ⟨h.grown, h.left, h.lsize, hrights, hperm.nodup_iff.2 h.nodup, fun b hb => ?_⟩, rfl, rfl⟩
  · unfold takeRight
    rw [hright, Memory.next_eq hr]
    rfl
  · exact h.carries b (hperm.mem_iff.1 hb)

/-- **The cell in hand is put behind the list grown**; it is only the
pointer of that list's last cell that is set. -/
theorem append_ok (h : s.Holds out [a] lefts rights) :
    ∃ s', s.append (some a) = .ok s' ∧ s'.Holds (out ++ [a]) [] lefts rights ∧
      s'.rsize = s.rsize ∧ Memory.Relinked out s.mem s'.mem := by
  have hnodup := h.nodup
  have hcarries := h.carries
  rw [← List.append_assoc] at hnodup hcarries
  cases hret : s.ret with
  | none =>
    have hgrown := h.grown
    rw [hret] at hgrown
    obtain rfl := hgrown.eq_nil
    refine ⟨{ s with list := some a, ret := some a }, ?_,
      ⟨grown_singleton, h.left, h.lsize, h.right, hnodup, hcarries⟩, rfl, .refl _ _⟩
    unfold append
    rw [hret]
    rfl
  | some last =>
    have hgrown := h.grown
    rw [hret] at hgrown
    obtain ⟨before, hout, -⟩ := hgrown.exists_eq
    have hlast : last ∈ out := by
      rw [hout]
      exact List.mem_append_right before List.mem_cons_self
    have hsome := h.carries.isSome_nextOf (List.mem_append_left _ hlast)
    obtain ⟨mem, hset, hnext, hrelinked⟩ := Memory.setNext_eq hsome (some a)
    have hrelinked' : Memory.Relinked out s.mem mem :=
      hrelinked.mono fun b hb => List.mem_singleton.1 hb ▸ hlast
    -- the runs are apart from what is grown
    have hapart : ∀ b ∈ lefts ++ rights, b ∉ out := fun b hb hmem =>
      (List.nodup_append.1 h.nodup).2.2 b hmem b (List.mem_append_right [a] hb) rfl
    obtain ⟨q, hleft⟩ := h.left
    refine ⟨{ s with mem := mem, ret := some a }, ?_, ⟨?_, ⟨q, ?_⟩, h.lsize, ?_, hnodup, ?_⟩, rfl,
      hrelinked'⟩
    · unfold append
      rw [hret]
      show (s.mem.setNext (some last) (some a) >>= fun mem => pure _) = _
      rw [hset]
      rfl
    · show Grown mem.nextOf s.list (some a) (out ++ [a])
      rw [hnext]
      exact hgrown.concat (List.nodup_append.1 h.nodup).1
    · exact hrelinked'.walk hleft fun b hb => hapart b (List.mem_append_left _ hb)
    · exact hrelinked'.walk h.right fun b hb => hapart b (List.mem_append_right _ hb)
    · exact hrelinked'.carries hcarries

/-- What a merge has before it. -/
def before (s : Merging dimX) (cmp : Cmp) (lefts rights : List Addr) : List Addr :=
  lefts.merge (rights.take s.rsize) (s.mem.le cmp)

/-- **The next cell is the next of `List.merge`**, and comes from one run or
the other. -/
theorem choose_ok (cmp : Cmp) (h : s.Holds out [] lefts rights)
    (hmore : lefts ≠ [] ∨ rights.take s.rsize ≠ []) :
    ∃ a lefts' rights' s', s.choose cmp = .ok (some a, s') ∧ s'.Holds out [a] lefts' rights' ∧
      s.before cmp lefts rights = a :: s'.before cmp lefts' rights' ∧
      rights'.drop s'.rsize = rights.drop s.rsize ∧
      lefts'.length + s'.rsize < lefts.length + s.rsize ∧ s'.mem = s.mem := by
  unfold choose before
  cases lefts with
  | nil =>
    -- left is empty
    rw [if_pos (show s.lsize = 0 from h.lsize)]
    cases hrsize : s.rsize with
    | zero => simp [hrsize] at hmore
    | succ n =>
      cases rights with
      | nil => simp at hmore
      | cons r rights =>
        obtain ⟨s', htake, hs', hsize, hmem⟩ := takeRight_ok h
        refine ⟨r, [], rights, s', htake, hs', ?_, ?_, ?_, hmem⟩
        · rw [List.nil_merge, List.nil_merge, hsize, hrsize]
          rfl
        · rw [hsize, hrsize]
          rfl
        · omega
  | cons l lefts =>
    rw [if_neg (show ¬ s.lsize = 0 by rw [h.lsize, List.length_cons]; omega)]
    by_cases hright : s.rsize = 0 ∨ s.right = none
    · -- right is empty
      obtain ⟨s', htake, hs', hsize, hmem⟩ := takeLeft_ok h
      have hempty : rights.take s.rsize = [] := by
        rcases hright with hzero | hnone
        · rw [hzero, List.take_zero]
        · have hhead := h.right.head_eq
          rw [hnone] at hhead
          rw [List.head?_eq_none_iff.1 hhead.symm, List.take_nil]
      rw [if_pos hright]
      refine ⟨l, lefts, rights, s', htake, hs', ?_, by rw [hsize], ?_, hmem⟩
      · rw [hsize, hempty, List.merge_right, List.merge_right]
      · rw [hsize, List.length_cons]
        omega
    · rw [not_or] at hright
      rw [if_neg (not_or.2 hright)]
      cases rights with
      | nil => exact absurd h.right hright.2
      | cons r rights =>
        obtain ⟨n, hrsize⟩ := Nat.exists_eq_succ_of_ne_zero hright.1
        obtain ⟨-, hleft, -⟩ := h.left
        obtain ⟨left, hleftItem⟩ := Option.isSome_iff_exists.1 (h.carries l (by simp))
        obtain ⟨right, hrightItem⟩ := Option.isSome_iff_exists.1 (h.carries r (by simp))
        rw [h.right.1, hleft, Memory.info_eq hrightItem, Memory.info_eq hleftItem, hrsize,
          List.take_succ_cons, List.cons_merge_cons]
        simp only [ok_bind, Memory.le_iff hleftItem hrightItem, ite_not]
        split
        · -- right < left
          obtain ⟨s', htake, hs', hsize, hmem⟩ := takeRight_ok h
          rw [hrsize] at hsize
          refine ⟨r, l :: lefts, rights, s', htake, hs', ?_, ?_, ?_, hmem⟩
          · rw [hsize, hmem]
            rfl
          · rw [hsize]
            rfl
          · omega
        · -- right >= left
          obtain ⟨s', htake, hs', hsize, hmem⟩ := takeLeft_ok h
          rw [hrsize] at hsize
          refine ⟨l, lefts, r :: rights, s', htake, hs', ?_, ?_, ?_, hmem⟩
          · rw [hsize, hmem, List.take_succ_cons]
          · rw [hsize]
          · rw [hsize, List.length_cons]
            omega

/-- The loop goes on as long as there is something to merge. -/
theorem more_iff (h : s.Holds out [] lefts rights) :
    0 < s.lsize ∨ (0 < s.rsize ∧ s.right ≠ none) ↔ lefts ≠ [] ∨ rights.take s.rsize ≠ [] := by
  have hright : s.right = none ↔ rights = [] := by
    rw [h.right.head_eq, List.head?_eq_none_iff]
  rw [h.lsize, List.length_pos_iff, ne_eq s.right, hright, ne_eq (rights.take s.rsize),
    List.take_eq_nil_iff, not_or, Nat.pos_iff_ne_zero]

/-- **A turn** puts the next cell of `List.merge` behind the list grown. -/
theorem turn_ok (cmp : Cmp) (h : s.Holds out [] lefts rights)
    (hmore : lefts ≠ [] ∨ rights.take s.rsize ≠ []) :
    ∃ a lefts' rights' s', turn cmp s = .ok (.inl s') ∧ s'.Holds (out ++ [a]) [] lefts' rights' ∧
      s.before cmp lefts rights = a :: s'.before cmp lefts' rights' ∧
      rights'.drop s'.rsize = rights.drop s.rsize ∧
      lefts'.length + s'.rsize < lefts.length + s.rsize ∧ Memory.Relinked out s.mem s'.mem := by
  obtain ⟨a, lefts', rights', t, hchoose, ht, hbefore, hrest, hlower, hmem⟩ :=
    choose_ok cmp h hmore
  obtain ⟨s', happend, hs', hsize, hrelinked⟩ := append_ok ht
  refine ⟨a, lefts', rights', s', ?_, hs', ?_, by rw [hsize, hrest], by rw [hsize]; exact hlower,
    hmem ▸ hrelinked⟩
  · unfold turn
    simp only [if_pos ((more_iff h).2 hmore), hchoose, ok_bind, happend]
    rfl
  · rw [hbefore]
    unfold before
    rw [hsize, hrelinked.le_eq]

/-- **Two runs are merged** behind what was grown before. -/
theorem merge_ok (cmp : Cmp) (h : s.Holds out [] lefts rights) {turns : ℕ}
    (henough : lefts.length + s.rsize < turns) :
    ∃ s', loop .stuck (turn cmp) turns s = .ok s' ∧
      s'.Holds (out ++ s.before cmp lefts rights) [] [] (rights.drop s.rsize) ∧
      Memory.Relinked (out ++ s.before cmp lefts rights) s.mem s'.mem := by
  have hturns : Turns (turn cmp) (fun k t => ∃ out' lefts' rights', t.Holds out' [] lefts' rights' ∧
      out' ++ t.before cmp lefts' rights' = out ++ s.before cmp lefts rights ∧
      rights'.drop t.rsize = rights.drop s.rsize ∧
      Memory.Relinked (out ++ s.before cmp lefts rights) s.mem t.mem ∧
      lefts'.length + t.rsize = k)
      fun s' => s'.Holds (out ++ s.before cmp lefts rights) [] [] (rights.drop s.rsize) ∧
        Memory.Relinked (out ++ s.before cmp lefts rights) s.mem s'.mem := by
    rintro k t ⟨out', lefts', rights', ht, hout, hrest, hrelinked, rfl⟩
    by_cases hmore : lefts' ≠ [] ∨ rights'.take t.rsize ≠ []
    · obtain ⟨a, lefts'', rights'', t', hturn, ht', hbefore, hrest', hlower, hrelinked'⟩ :=
        turn_ok cmp ht hmore
      refine .inl ⟨t', _, hturn, hlower, out' ++ [a], lefts'', rights'', ht', ?_,
        hrest'.trans hrest, hrelinked.trans (hrelinked'.mono ?_), rfl⟩
      · rw [List.append_assoc, ← hout, hbefore]
        rfl
      · rw [← hout]
        exact List.subset_append_left out' _
    · have hdone := mt (more_iff ht).1 hmore
      simp only [not_or, not_not] at hmore
      obtain ⟨rfl, hnone⟩ := hmore
      have hbefore : t.before cmp [] rights' = [] := by
        unfold before
        rw [List.nil_merge, hnone]
      rw [hbefore, List.append_nil] at hout
      have hrights : rights' = rights.drop s.rsize := by
        have hsplit := List.take_append_drop t.rsize rights'
        rw [hnone, List.nil_append, hrest] at hsplit
        exact hsplit.symm
      refine .inr ⟨t, ?_, ?_, hrelinked⟩
      · unfold turn
        rw [if_neg hdone]
        rfl
      · rw [← hout, ← hrights]
        exact ht
  exact loop_ok hturns ⟨out, lefts, rights, h, rfl, rfl, .refl _ _, rfl⟩ henough

end Merging

/-! ## A pass -/

/-- **`right` moves past the left run**, whose cells are counted. -/
theorem stride_ok {mem : Memory dimX} {p : Option Addr} {cells : List Addr} {n lsize : ℕ}
    (h : mem.Chain p cells) (hne : cells ≠ []) (hfit : lsize + n < 2 ^ 32) :
    ∃ q, stride mem n p lsize = .ok (q, lsize + (cells.take n).length) ∧
      Walk mem.nextOf q p (cells.take n) ∧ mem.Chain q (cells.drop n) := by
  induction n generalizing p cells lsize with
  | zero => exact ⟨p, rfl, rfl, h⟩
  | succ n ih =>
    cases cells with
    | nil => exact absurd rfl hne
    | cons x cells =>
      obtain ⟨rfl, r, hr, hcells⟩ := h
      have hcount : wrap (lsize + 1) = lsize + 1 := wrap_of_lt (by omega)
      unfold stride
      simp only [Memory.next_eq hr, ok_bind, hcount]
      cases r with
      | none =>
        obtain rfl : cells = [] := List.head?_eq_none_iff.1 hcells.head_eq.symm
        refine ⟨none, ?_, ⟨rfl, none, hr, ?_⟩, ?_⟩
        · rw [List.take_succ_cons, List.take_nil]
          rfl
        · rw [List.take_nil]
          rfl
        · rw [List.drop_succ_cons, List.drop_nil]
          rfl
      | some y =>
        have hne' : cells ≠ [] := by
          rintro rfl
          cases hcells
        obtain ⟨q, hstride, hwalk, hchain⟩ := ih hcells hne' (show lsize + 1 + n < 2 ^ 32 by omega)
        refine ⟨q, ?_, ⟨rfl, _, hr, hwalk⟩, hchain⟩
        show stride mem n (some y) (lsize + 1) = _
        rw [hstride, List.take_succ_cons, List.length_cons, Nat.add_assoc, Nat.add_comm 1]

/-- How many merges a pass makes of a list. -/
def mergesOf (n length : ℕ) : ℕ := (length + 2 * n - 1) / (2 * n)

section MergesOf

variable {n length : ℕ}

theorem mergesOf_zero (hn : 0 < n) : mergesOf n 0 = 0 := Nat.div_eq_of_lt (by omega)

theorem mergesOf_of_pos (hn : 0 < n) (h : 0 < length) :
    mergesOf n length = mergesOf n (length - 2 * n) + 1 := by
  have hfirst : mergesOf n length = (length - 1) / (2 * n) + 1 := by
    unfold mergesOf
    rw [← Nat.add_div_right _ (by omega : 0 < 2 * n)]
    congr 1
    omega
  rw [hfirst]
  congr 1
  unfold mergesOf
  by_cases hlong : 2 * n ≤ length
  · congr 1
    omega
  · rw [Nat.div_eq_of_lt (by omega), Nat.div_eq_of_lt (by omega)]

theorem mergesOf_le_one_iff (hn : 0 < n) : mergesOf n length ≤ 1 ↔ length ≤ 2 * n := by
  unfold mergesOf
  rw [← Nat.lt_succ_iff, Nat.div_lt_iff_lt_mul (by omega)]
  omega

theorem mergesOf_le (hn : 0 < n) (length : ℕ) : 2 * mergesOf n length ≤ length + 1 := by
  have hle := Nat.div_mul_le_self (length + 2 * n - 1) (2 * n)
  show 2 * ((length + 2 * n - 1) / (2 * n)) ≤ length + 1
  generalize (length + 2 * n - 1) / (2 * n) = q at hle
  cases q with
  | zero => omega
  | succ q =>
    have hq : q * 2 ≤ q * (2 * n) := Nat.mul_le_mul_left q (by omega)
    rw [Nat.succ_mul] at hle
    omega

end MergesOf

namespace Passing

variable {s : Passing dimX} {out rest : List Addr} {n : ℕ}

/-- **What a pass has done and has before it.** -/
structure Holds (s : Passing dimX) (out rest : List Addr) : Prop where
  grown : Grown s.mem.nextOf s.list s.ret out
  left : s.mem.Chain s.left rest
  nodup : (out ++ rest).Nodup
  carries : s.mem.Carries (out ++ rest)

/-- The first merge that is left to a pass. -/
def before (s : Passing dimX) (cmp : Cmp) (n : ℕ) (rest : List Addr) : List Addr :=
  (rest.take n).merge ((rest.drop n).take n) (s.mem.le cmp)

theorem turn_ok (cmp : Cmp) (h : s.Holds out rest) (hne : rest ≠ []) (hn : n < 2 ^ 32) :
    ∃ s', turn cmp n s = .ok (.inl s') ∧
      s'.Holds (out ++ s.before cmp n rest) (rest.drop (2 * n)) ∧
      s'.nmerges = wrap (s.nmerges + 1) ∧
      Memory.Relinked (out ++ s.before cmp n rest) s.mem s'.mem := by
  obtain ⟨q, hstride, hlefts, hrights⟩ := stride_ok h.left hne (show 0 + n < 2 ^ 32 by omega)
  have hsplit : rest.take n ++ rest.drop n = rest := List.take_append_drop n rest
  have hmerging : Merging.Holds
      ⟨s.mem, s.left, q, 0 + (rest.take n).length, n, s.list, s.ret⟩ out [] (rest.take n)
      (rest.drop n) := by
    refine ⟨h.grown, ⟨q, hlefts⟩, Nat.zero_add _, hrights, ?_, ?_⟩
    · rw [List.nil_append, hsplit]
      exact h.nodup
    · rw [List.nil_append, hsplit]
      exact h.carries
  obtain ⟨t, hloop, ht, hrelinked⟩ := Merging.merge_ok cmp hmerging
    (show (rest.take n).length + n < 0 + (rest.take n).length + n + 1 by omega)
  have hdrop : (rest.drop n).drop n = rest.drop (2 * n) := by
    rw [List.drop_drop, ← Nat.two_mul]
  have hnodup := ht.nodup
  have hcarries := ht.carries
  simp only [List.nil_append] at hnodup hcarries
  rw [hdrop] at hnodup hcarries
  refine ⟨⟨t.mem, t.right, t.list, t.ret, wrap (s.nmerges + 1)⟩, ?_,
    ⟨ht.grown, hdrop ▸ ht.right, hnodup, hcarries⟩, rfl, hrelinked⟩
  have hleft : s.left = some (rest.head hne) := by
    rw [h.left.head_eq, List.head?_eq_some_head hne]
  unfold turn
  rw [hleft] at hstride hloop ⊢
  simp only [hstride, ok_bind, hloop]
  rfl

/-- **A pass is `mergePass`**, and counts its merges. -/
theorem pass_ok (cmp : Cmp) (h : s.Holds out rest) (hzero : s.nmerges = 0) (hn : 0 < n)
    (hn' : n < 2 ^ 32) (hlen : rest.length ≤ 2 ^ 32) {turns : ℕ} (henough : rest.length < turns) :
    ∃ s', loop .stuck (turn cmp n) turns s = .ok s' ∧
      s'.Holds (out ++ mergePass (s.mem.le cmp) n rest) [] ∧
      s'.nmerges = mergesOf n rest.length ∧
      Memory.Relinked (out ++ mergePass (s.mem.le cmp) n rest) s.mem s'.mem := by
  have hturns : Turns (turn cmp n) (fun k t => ∃ out' rest', t.Holds out' rest' ∧
      out' ++ mergePass (s.mem.le cmp) n rest' = out ++ mergePass (s.mem.le cmp) n rest ∧
      t.nmerges + mergesOf n rest'.length = mergesOf n rest.length ∧
      Memory.Relinked (out ++ mergePass (s.mem.le cmp) n rest) s.mem t.mem ∧ rest'.length = k)
      fun s' => s'.Holds (out ++ mergePass (s.mem.le cmp) n rest) [] ∧
        s'.nmerges = mergesOf n rest.length ∧
        Memory.Relinked (out ++ mergePass (s.mem.le cmp) n rest) s.mem s'.mem := by
    rintro k t ⟨out', rest', ht, hout, hmerges, hrelinked, rfl⟩
    by_cases hne : rest' = []
    · subst hne
      rw [mergePass_nil, List.append_nil] at hout
      rw [List.length_nil, mergesOf_zero hn, Nat.add_zero] at hmerges
      refine .inr ⟨t, ?_, hout ▸ ht, hmerges, hrelinked⟩
      unfold turn
      rw [show t.left = none from ht.left]
      rfl
    · obtain ⟨t', hturn, ht', hcount, hrelinked'⟩ := turn_ok cmp ht hne hn'
      have hpos : 0 < rest'.length := List.length_pos_iff.2 hne
      have hbound := mergesOf_le hn rest.length
      have hbefore : t.before cmp n rest' ++ mergePass (s.mem.le cmp) n (rest'.drop (2 * n)) =
          mergePass (s.mem.le cmp) n rest' := by
        rw [mergePass_of_ne hn hne, ← hrelinked.le_eq]
        rfl
      rw [mergesOf_of_pos hn hpos] at hmerges
      rw [wrap_of_lt (by omega)] at hcount
      refine .inl ⟨t', _, hturn, ?_, out' ++ t.before cmp n rest', rest'.drop (2 * n), ht', ?_, ?_,
        hrelinked.trans (hrelinked'.mono ?_), rfl⟩
      · rw [List.length_drop]
        omega
      · rw [List.append_assoc, hbefore, hout]
      · rw [List.length_drop]
        omega
      · rw [← hout, ← hbefore, ← List.append_assoc]
        exact List.subset_append_left _ _
  have hstart : s.nmerges + mergesOf n rest.length = mergesOf n rest.length := by
    rw [hzero, Nat.zero_add]
  exact loop_ok hturns ⟨out, rest, h, rfl, hstart, .refl _ _, rfl⟩ henough

end Passing

/-! ## The sort -/

namespace Sorting

variable {m : Memory dimX} {cells : List Addr}

/-- **What the passes so far have made of the list**: a stable
rearrangement with sorted runs of length `insize`. -/
structure Holds (cmp : Cmp) (m : Memory dimX) (cells : List Addr) (s : Sorting dimX)
    (list : List Addr) : Prop where
  chain : s.mem.Chain s.list list
  perm : list.Perm cells
  stably : Stably (m.le cmp) list cells
  runs : RunsSorted (m.le cmp) s.insize list
  pos : 0 < s.insize
  small : s.insize < 2 ^ 32
  relinked : Memory.Relinked cells m s.mem

/-- **One turn of the sort**: the pass's list, closed. -/
theorem turn_ok {s : Sorting dimX} {list : List Addr} (h : s.Holds cmp m cells list)
    (hcarries : m.Carries cells) (hne : cells ≠ []) (hlen : cells.length ≤ 2 ^ 32) {turns : ℕ}
    (henough : cells.length < turns) :
    ∃ m', m'.Chain (mergePass (m.le cmp) s.insize list).head? (mergePass (m.le cmp) s.insize list) ∧
      Memory.Relinked cells m m' ∧
      turn cmp turns s =
        if list.length ≤ 2 * s.insize then
          .ok (.inr (m', (mergePass (m.le cmp) s.insize list).head?))
        else .ok (.inl ⟨m', (mergePass (m.le cmp) s.insize list).head?, wrap (s.insize * 2)⟩) := by
  have hlength := h.perm.length_eq
  have hpass : Passing.Holds ⟨s.mem, s.list, none, none, 0⟩ [] list := by
    refine ⟨grown_nil, h.chain, h.perm.nodup_iff.2 ?_, fun a ha => ?_⟩
    · exact h.perm.nodup_iff.1 h.chain.nodup
    · exact h.relinked.carries hcarries a (h.perm.mem_iff.1 ha)
  obtain ⟨t, hloop, ht, hcount, hrelinked⟩ := Passing.pass_ok cmp hpass rfl h.pos h.small
    (by rw [hlength]; exact hlen) (by rw [hlength]; exact henough)
  have hle : s.mem.le cmp = m.le cmp := h.relinked.le_eq
  simp only [List.nil_append, hle] at ht hrelinked
  obtain ⟨list', hlist'⟩ : ∃ l, l = mergePass (m.le cmp) s.insize list := ⟨_, rfl⟩
  rw [← hlist'] at ht hrelinked ⊢
  have hperm : list'.Perm cells := by
    rw [hlist']
    exact (mergePass_perm s.insize list).trans h.perm
  have hne' : list' ≠ [] := fun hnil => hne (List.Perm.nil_eq (hnil ▸ hperm)).symm
  have hgrown := ht.grown
  have hlast : t.ret = some (list'.getLast hne') := by
    rw [hgrown.1, List.getLast?_eq_some_getLast hne']
  rw [hlast] at hgrown
  have hsome := ht.carries.isSome_nextOf (List.mem_append_left [] (List.getLast_mem hne'))
  obtain ⟨m', hset, hnext, hclosed⟩ := Memory.setNext_eq hsome none
  have hchain : m'.Chain t.list list' := by
    unfold Memory.Chain
    rw [hnext]
    exact hgrown.walk (List.nodup_append.1 ht.nodup).1 none
  rw [← hchain.head_eq]
  refine ⟨m', hchain, ?_, ?_⟩
  · have hlastMem : list'.getLast hne' ∈ cells := hperm.mem_iff.1 (List.getLast_mem hne')
    exact h.relinked.trans ((hrelinked.mono fun a ha => hperm.mem_iff.1 ha).trans
      (hclosed.mono fun a ha => List.mem_singleton.1 ha ▸ hlastMem))
  · unfold turn
    rw [← hlast] at hset
    simp only [hloop, ok_bind, hset, hcount, mergesOf_le_one_iff h.pos]
    split <;> rfl

end Sorting

/-- **`list_mergesort` leaves what `List.mergeSort` gives**, linked from the
cells of the list it was given; every other cell and every item is as it
was. A list of up to 2³² cells needs no more turns than it has cells. -/
theorem listMergesort_eq {m : Memory dimX} {list : Option Addr} {cells : List Addr}
    (h : m.Chain list cells) (hcarries : m.Carries cells) (hne : cells ≠ [])
    (hlen : cells.length ≤ 2 ^ 32) {turns : ℕ} (henough : cells.length < turns) :
    ∃ m', listMergesort cmp turns m list = .ok (m', (cells.mergeSort (m.le cmp)).head?) ∧
      m'.Chain (cells.mergeSort (m.le cmp)).head? (cells.mergeSort (m.le cmp)) ∧
      Memory.Relinked cells m m' := by
  have trans := m.le_trans cmp
  have total := m.le_total cmp
  have hturns : Turns (Sorting.turn cmp turns)
      (fun k s => ∃ list', s.Holds cmp m cells list' ∧ cells.length - s.insize = k)
      fun result => result.2 = (cells.mergeSort (m.le cmp)).head? ∧
        result.1.Chain result.2 (cells.mergeSort (m.le cmp)) ∧
        Memory.Relinked cells m result.1 := by
    rintro k s ⟨list', hs, rfl⟩
    obtain ⟨m', hchain, hrelinked, hturn⟩ := Sorting.turn_ok hs hcarries hne hlen henough
    have hlength := hs.perm.length_eq
    have hruns := hs.runs.mergePass trans total hs.pos
    have hstably := (hs.runs.stably trans total).trans hs.stably
    rw [hturn]
    by_cases hdone : list'.length ≤ 2 * s.insize
    · -- the two runs of the last merge were the whole list
      have hsorted := hruns.sorted (by rw [length_mergePass]; exact hdone)
      rw [hstably.eq_mergeSort trans total hsorted] at hchain ⊢
      rw [if_pos hdone]
      exact .inr ⟨_, rfl, rfl, hchain, hrelinked⟩
    · have hwrap : wrap (s.insize * 2) = 2 * s.insize := by
        rw [Nat.mul_comm]
        exact wrap_of_lt (by omega)
      have hpos := hs.pos
      rw [if_neg hdone, hwrap]
      refine .inl ⟨_, _, rfl, ?_, _, ⟨hchain, (mergePass_perm s.insize list').trans hs.perm,
        hstably, hruns, ?_, ?_, hrelinked⟩, rfl⟩
      · show cells.length - 2 * s.insize < cells.length - s.insize
        omega
      · show 0 < 2 * s.insize
        omega
      · show 2 * s.insize < 2 ^ 32
        omega
  have hstart : Sorting.Holds cmp m cells ⟨m, list, 1⟩ cells :=
    ⟨h, .refl _, .refl _ _, runsSorted_one cells, Nat.one_pos, show 1 < 2 ^ 32 by decide, .refl _ _⟩
  obtain ⟨⟨m', list'⟩, hloop, hlist, hchain, hrelinked⟩ := loop_ok hturns ⟨cells, hstart, rfl⟩
    (show cells.length - 1 < turns by omega)
  obtain rfl : list' = (cells.mergeSort (m.le cmp)).head? := hlist
  exact ⟨m', hloop, hchain, hrelinked⟩

/-- **`list_mergesort` sorts, stably and in place**: it ends without a
fault, with the same cells in the order asked for, equal ones as they came,
and with every other cell and every item as it was. -/
theorem listMergesort_sorts {m : Memory dimX} {list : Option Addr} {cells : List Addr}
    (h : m.Chain list cells) (hcarries : m.Carries cells) (hne : cells ≠ [])
    (hlen : cells.length ≤ 2 ^ 32) {turns : ℕ} (henough : cells.length < turns) :
    ∃ m' list' sorted, listMergesort cmp turns m list = .ok (m', list') ∧
      m'.Chain list' sorted ∧ sorted.Perm cells ∧
      sorted.Pairwise (fun a b => m'.le cmp a b = true) ∧
      (∀ a b, m'.le cmp a b = true → [a, b].Sublist cells → [a, b].Sublist sorted) ∧
      Memory.Relinked cells m m' := by
  have trans := m.le_trans cmp
  have total := m.le_total cmp
  obtain ⟨m', hsort, hchain, hrelinked⟩ := listMergesort_eq h hcarries hne hlen henough
  refine ⟨m', _, _, hsort, hchain, List.mergeSort_perm _ _, ?_, ?_, hrelinked⟩
  · rw [hrelinked.le_eq]
    exact List.pairwise_mergeSort trans total cells
  · rw [hrelinked.le_eq]
    exact fun a b hle hsub => List.pair_sublist_mergeSort trans total hle hsub

theorem listMergesort_sorts_sample :
    ∃ m' list' sorted, listMergesort .data 3 twoCells (some 8) = .ok (m', list') ∧
      m'.Chain list' sorted ∧ sorted.Perm [8, 16] ∧
      sorted.Pairwise (fun a b => m'.le .data a b = true) ∧
      (∀ a b, m'.le .data a b = true → [a, b].Sublist [8, 16] → [a, b].Sublist sorted) ∧
      Memory.Relinked [8, 16] twoCells m' :=
  listMergesort_sorts chain_twoCells carries_twoCells (by decide) (by decide) (by decide)

/-- On a list without cells it closes the list it has not begun. -/
theorem listMergesort_nil {m : Memory dimX} {turns : ℕ} :
    listMergesort cmp (turns + 1) m none = .error .access := rfl

end IoTBench

end Checklib
