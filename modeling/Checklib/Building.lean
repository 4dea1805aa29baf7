import Checklib.Cells

/-!
# `list_init`

A block of memory is cut in two, nodes in front and items behind, and filled
from the front of each; every new node goes right behind the head. What
matters to the program around it is that the block is large enough: every
cell lies in it and no two overlap, although the room for a node is counted
with the size of another target's, and the last place of each half stays
empty.
-/

namespace Checklib

namespace IoTBench

open Common

variable {dimX : ℕ}

/-- Where the block's nodes are. -/
def nodeAt (ptr : ℕ) (block : Addr) (j : ℕ) : Addr := block + j * sizeofNode ptr

/-- Where the block's items are. -/
def infoAt (ptr dimX items : ℕ) (block : Addr) (j : ℕ) : Addr :=
  block + items * sizeofNode ptr + j * sizeofData dimX

/-- The cells behind the head, the last one inserted first. -/
def inserted (ptr : ℕ) (block : Addr) (k : ℕ) : List Addr :=
  (List.range k).reverse.map fun j => nodeAt ptr block (j + 1)

/-- The items, the head's among them. -/
def itemAt (dimX : ℕ) (seed : Int16) : ℕ → ListData dimX
  | 0 => ⟨fun _ => 0, 0⟩
  | i + 1 => seeded dimX seed (i + 1)

section Places

variable {ptr items i j k : ℕ} {block : Addr}

theorem nodeAt_inj (hptr : 0 < ptr) : nodeAt ptr block i = nodeAt ptr block j ↔ i = j := by
  unfold nodeAt sizeofNode
  rw [Nat.add_left_cancel_iff, Nat.mul_left_inj (by omega)]

theorem infoAt_inj : infoAt ptr dimX items block i = infoAt ptr dimX items block j ↔ i = j := by
  unfold infoAt sizeofData
  rw [Nat.add_left_cancel_iff, Nat.mul_left_inj (by omega)]

theorem nodeAt_succ : nodeAt ptr block (j + 1) = nodeAt ptr block j + sizeofNode ptr := by
  unfold nodeAt
  rw [Nat.succ_mul, Nat.add_assoc]

theorem infoAt_succ : infoAt ptr dimX items block (j + 1) =
    infoAt ptr dimX items block j + sizeofData dimX := by
  unfold infoAt
  rw [Nat.succ_mul, Nat.add_assoc, Nat.add_assoc, Nat.add_assoc]

theorem inserted_succ :
    inserted ptr block (k + 1) = nodeAt ptr block (k + 1) :: inserted ptr block k := by
  unfold inserted
  rw [List.range_succ, List.reverse_append, List.map_append]
  rfl

theorem mem_inserted {a : Addr} :
    a ∈ inserted ptr block k ↔ ∃ j, 0 < j ∧ j ≤ k ∧ a = nodeAt ptr block j := by
  unfold inserted
  rw [List.mem_map]
  constructor
  · rintro ⟨j, hj, rfl⟩
    rw [List.mem_reverse, List.mem_range] at hj
    exact ⟨j + 1, by omega, by omega, rfl⟩
  · rintro ⟨j, hpos, hj, rfl⟩
    refine ⟨j - 1, ?_, by rw [Nat.sub_add_cancel hpos]⟩
    rw [List.mem_reverse, List.mem_range]
    omega

end Places

/-! ## Inserting -/

/-- Where a cell's item is. -/
def Memory.infoOf (m : Memory dimX) (a : Addr) : Option Addr := (m.nodes a).map (·.info)

namespace Memory

variable {m : Memory dimX} {a b : Addr} {cell : ListNode} {data : ListData dimX}

theorem item_eq : m.item a = (m.infoOf a).bind m.infos := by
  unfold item infoOf
  cases m.nodes a with
  | none => rfl
  | some cell => rfl

theorem nextOf_putNode :
    (m.putNode a cell).nextOf = Function.update m.nextOf a (some cell.next) := by
  funext b
  unfold nextOf
  by_cases hb : b = a
  · rw [hb, nodes_putNode_self, Function.update_self, Option.map_some]
  · rw [nodes_putNode_of_ne hb, Function.update_of_ne hb]

end Memory

section Insert

variable {ptr : ℕ} {s : Building dimX} {list nodesEnd dataEnd : Addr} {cells : List Addr}

/-- **What an insertion does**, where there is room. -/
theorem listInsert_ok (info : ListData dimX) (h : s.mem.Chain (some list) (list :: cells))
    (hfresh : s.memblk ∉ list :: cells) (hnodes : s.memblk + sizeofNode ptr < nodesEnd)
    (hdata : s.datablk + sizeofData dimX < dataEnd) :
    ∃ mem, listInsert ptr (some list) info nodesEnd dataEnd s =
        .ok (⟨mem, s.memblk + sizeofNode ptr, s.datablk + sizeofData dimX⟩, some s.memblk) ∧
      mem.Chain (some list) (list :: s.memblk :: cells) ∧
      mem.infoOf s.memblk = some s.datablk ∧
      (∀ a, a ≠ s.memblk → mem.infoOf a = s.mem.infoOf a) ∧
      (∀ a, a ≠ s.memblk → a ≠ list → mem.nodes a = s.mem.nodes a) ∧
      mem.infos = Function.update s.mem.infos s.datablk (some info) := by
  have hne : list ≠ s.memblk := fun heq => hfresh (heq ▸ List.mem_cons_self)
  obtain ⟨r, hr, -⟩ := h.2
  obtain ⟨mem, hset, hnext, hrelinked⟩ := Memory.setNext_eq
    (m := s.mem.putNode s.memblk ⟨r, s.datablk⟩) (a := list)
    (by rw [Memory.nextOf_putNode, Function.update_of_ne hne, hr]; rfl) (some s.memblk)
  refine ⟨mem.putInfo s.datablk info, ?_, ?_, ?_, fun a ha => ?_, fun a ha hlist => ?_, ?_⟩
  · unfold listInsert
    rw [if_neg (not_or.2 ⟨Nat.not_le.2 hnodes, Nat.not_le.2 hdata⟩)]
    simp only [Memory.next_eq hr, ok_bind, hset]
    rfl
  · have hinsert := Walk.insert h hfresh
    rw [hr, show some r = some (ListNode.mk r s.datablk).next from rfl, ← Memory.nextOf_putNode,
      ← hnext] at hinsert
    exact hinsert
  · show (mem.nodes s.memblk).map (·.info) = _
    rw [hrelinked.info, Memory.nodes_putNode_self, Option.map_some]
  · show (mem.nodes a).map (·.info) = _
    rw [hrelinked.info, Memory.nodes_putNode_of_ne ha]
    rfl
  · show mem.nodes a = _
    rw [hrelinked.nodes a (by simpa using hlist), Memory.nodes_putNode_of_ne ha]
  · show Function.update mem.infos _ _ = _
    rw [hrelinked.infos]
    rfl

/-- A full block is left as it is. -/
theorem listInsert_full (info : ListData dimX) (hfull : nodesEnd ≤ s.memblk + sizeofNode ptr) :
    listInsert ptr (some list) info nodesEnd dataEnd s = .ok (s, none) := by
  unfold listInsert
  rw [if_pos (.inl hfull)]
  rfl

end Insert

/-! ## The block -/

section Block

variable {ptr items : ℕ} {block : Addr} {seed : Int16} {m : Memory dimX} {k : ℕ}

/-- **What `list_init` has laid out** once `k` items are behind the head. -/
structure Laid (ptr items : ℕ) (block : Addr) (seed : Int16) (m : Memory dimX) (k : ℕ)
    (s : Building dimX) : Prop where
  memblk : s.memblk = nodeAt ptr block (k + 1)
  datablk : s.datablk = infoAt ptr dimX items block (k + 1)
  chain : s.mem.Chain (some block) (block :: inserted ptr block k)
  infoOf : ∀ j ≤ k, s.mem.infoOf (nodeAt ptr block j) = some (infoAt ptr dimX items block j)
  infos : ∀ j ≤ k, s.mem.infos (infoAt ptr dimX items block j) = some (itemAt dimX seed j)
  nodesElse : ∀ a, (∀ j ≤ k, a ≠ nodeAt ptr block j) → s.mem.nodes a = m.nodes a
  infosElse : ∀ a, (∀ j ≤ k, a ≠ infoAt ptr dimX items block j) → s.mem.infos a = m.infos a

theorem nodeAt_zero : nodeAt ptr block 0 = block := by
  unfold nodeAt
  rw [Nat.zero_mul, Nat.add_zero]

theorem infoAt_zero : infoAt ptr dimX items block 0 = nodeAt ptr block items := by
  unfold infoAt
  rw [Nat.zero_mul, Nat.add_zero]
  rfl

/-- Places are in the order of their numbers. -/
theorem nodeAt_lt {i j : ℕ} (hptr : 0 < ptr) (h : i < j) :
    nodeAt ptr block i < nodeAt ptr block j :=
  Nat.add_lt_add_left (Nat.mul_lt_mul_of_pos_right h (Nat.mul_pos Nat.two_pos hptr)) block

theorem nodeAt_le {i j : ℕ} (h : i ≤ j) : nodeAt ptr block i ≤ nodeAt ptr block j :=
  Nat.add_le_add_left (Nat.mul_le_mul_right _ h) block

theorem infoAt_lt {i j : ℕ} (h : i < j) :
    infoAt ptr dimX items block i < infoAt ptr dimX items block j :=
  Nat.add_lt_add_left (Nat.mul_lt_mul_of_pos_right h (Nat.succ_pos _)) _

theorem infoAt_le {i j : ℕ} (h : i ≤ j) :
    infoAt ptr dimX items block i ≤ infoAt ptr dimX items block j :=
  Nat.add_le_add_left (Nat.mul_le_mul_right _ h) _

/-- **The next item is laid out.** -/
theorem Laid.insert {s : Building dimX} (h : Laid ptr items block seed m k s) (hptr : 0 < ptr)
    (hroom : k + 2 < items) :
    ∃ s' item, listInsert ptr (some block) (seeded dimX seed (k + 1)) (nodeAt ptr block items)
        (infoAt ptr dimX items block items) s = .ok (s', item) ∧
      Laid ptr items block seed m (k + 1) s' := by
  have hfresh : s.memblk ∉ block :: inserted ptr block k := by
    rw [List.mem_cons, mem_inserted, h.memblk, not_or]
    refine ⟨?_, ?_⟩
    · have hlt : nodeAt ptr block 0 < nodeAt ptr block (k + 1) := nodeAt_lt hptr (Nat.succ_pos k)
      rw [nodeAt_zero] at hlt
      exact Nat.ne_of_gt hlt
    · rintro ⟨j, -, hj, heq⟩
      rw [nodeAt_inj hptr] at heq
      omega
  have hnodes : s.memblk + sizeofNode ptr < nodeAt ptr block items := by
    rw [h.memblk, ← nodeAt_succ]
    exact nodeAt_lt hptr hroom
  have hdata : s.datablk + sizeofData dimX < infoAt ptr dimX items block items := by
    rw [h.datablk, ← infoAt_succ]
    exact infoAt_lt hroom
  obtain ⟨mem, hinsert, hchain, hinfoNew, hinfoOf, hnodesElse, hinfos⟩ :=
    listInsert_ok (seeded dimX seed (k + 1)) h.chain hfresh hnodes hdata
  refine ⟨_, _, hinsert, ?_, ?_, ?_, fun j hj => ?_, fun j hj => ?_, fun a ha => ?_, fun a ha => ?_⟩
  · rw [h.memblk, ← nodeAt_succ]
  · rw [h.datablk, ← infoAt_succ]
  · rw [inserted_succ, ← h.memblk]
    exact hchain
  · rcases Nat.lt_or_eq_of_le hj with hlt | rfl
    · rw [hinfoOf _ (by rw [h.memblk, Ne, nodeAt_inj hptr]; omega), h.infoOf j (by omega)]
    · rw [← h.memblk, hinfoNew, h.datablk]
  · rw [hinfos, h.datablk]
    rcases Nat.lt_or_eq_of_le hj with hlt | rfl
    · rw [Function.update_of_ne (by rw [Ne, infoAt_inj]; omega), h.infos j (by omega)]
    · rw [Function.update_self]
      rfl
  · have hnew : a ≠ s.memblk := by
      rw [h.memblk]
      exact ha (k + 1) (Nat.le_refl _)
    have hhead : a ≠ block := by
      have hzero := ha 0 (Nat.zero_le _)
      rwa [nodeAt_zero] at hzero
    rw [hnodesElse a hnew hhead, h.nodesElse a fun j hj => ha j (by omega)]
  · rw [hinfos, h.datablk, Function.update_of_ne (ha (k + 1) (Nat.le_refl _)),
      h.infosElse a fun j hj => ha j (by omega)]

/-- The head, alone. -/
theorem laid_head (seed : Int16) (m : Memory dimX) :
    Laid ptr items block seed m 0
      ⟨(m.putNode block ⟨none, infoAt ptr dimX items block 0⟩).putInfo
        (infoAt ptr dimX items block 0) ⟨fun _ => 0, 0⟩,
        nodeAt ptr block 1, infoAt ptr dimX items block 1⟩ := by
  refine ⟨rfl, rfl, ⟨rfl, none, ?_, rfl⟩, fun j hj => ?_, fun j hj => ?_, fun a ha => ?_,
    fun a ha => ?_⟩
  · show (m.putNode block _).nextOf block = _
    rw [Memory.nextOf_putNode, Function.update_self]
  · obtain rfl : j = 0 := by omega
    rw [nodeAt_zero]
    show ((m.putNode block _).nodes block).map (·.info) = _
    rw [Memory.nodes_putNode_self, Option.map_some]
  · obtain rfl : j = 0 := by omega
    exact Function.update_self _ _ _
  · have hzero := ha 0 (Nat.zero_le _)
    rw [nodeAt_zero] at hzero
    exact Memory.nodes_putNode_of_ne hzero
  · exact Function.update_of_ne (ha 0 (Nat.zero_le _)) _ _

/-- **The block is filled** up to its last place. -/
theorem fill_ok (hptr : 0 < ptr) (hitems : 0 < items) (hsmall : items + 1 < 2 ^ 32)
    {s : Building dimX} (h : Laid ptr items block seed m 0 s) {turns : ℕ}
    (henough : items < turns) :
    ∃ mem s', loop .stuck (Building.turn ptr seed items block (nodeAt ptr block items)
        (infoAt ptr dimX items block items)) turns (1, s) = .ok mem ∧ mem = s'.mem ∧
      Laid ptr items block seed m (items - 2) s' := by
  have hturns : Turns (Building.turn ptr seed items block (nodeAt ptr block items)
      (infoAt ptr dimX items block items))
      (fun k t => 0 < t.1 ∧ t.1 ≤ items + 1 ∧
        Laid ptr items block seed m (min (t.1 - 1) (items - 2)) t.2 ∧ items + 1 - t.1 = k)
      fun mem => ∃ s' : Building dimX, mem = s'.mem ∧
        Laid ptr items block seed m (items - 2) s' := by
    rintro k ⟨i, t⟩ ⟨hpos, hi, ht, rfl⟩
    unfold Building.turn
    simp only at hpos hi ht ⊢
    by_cases hmore : i ≤ items
    · rw [if_pos hmore, wrap_of_lt (by omega)]
      by_cases hroom : i + 1 < items
      · rw [Nat.min_eq_left (by omega)] at ht
        obtain ⟨s', item, hinsert, hs'⟩ := ht.insert hptr (by omega)
        rw [Nat.sub_add_cancel hpos] at hinsert hs'
        simp only [hinsert, ok_bind]
        refine .inl ⟨_, _, rfl, ?_, by omega, by omega, ?_, rfl⟩
        · show items + 1 - (i + 1) < items + 1 - i
          omega
        · show Laid ptr items block seed m (min (i + 1 - 1) (items - 2)) s'
          rw [Nat.min_eq_left (by omega), Nat.add_sub_cancel]
          exact hs'
      · rw [Nat.min_eq_right (by omega)] at ht
        have hfull : nodeAt ptr block items ≤ t.memblk + sizeofNode ptr := by
          rw [ht.memblk, ← nodeAt_succ]
          exact nodeAt_le (by omega)
        simp only [listInsert_full _ hfull, ok_bind]
        refine .inl ⟨_, _, rfl, ?_, by omega, by omega, ?_, rfl⟩
        · show items + 1 - (i + 1) < items + 1 - i
          omega
        · show Laid ptr items block seed m (min (i + 1 - 1) (items - 2)) t
          rw [Nat.min_eq_right (by omega)]
          exact ht
    · rw [if_neg hmore]
      rw [Nat.min_eq_right (by omega)] at ht
      exact .inr ⟨_, rfl, t, rfl, ht⟩
  have hstart : 0 < 1 ∧ 1 ≤ items + 1 ∧
      Laid ptr items block seed m (min (1 - 1) (items - 2)) s ∧ items + 1 - 1 = items := by
    rw [Nat.sub_self, Nat.zero_min]
    exact ⟨Nat.one_pos, by omega, h, rfl⟩
  obtain ⟨mem, hloop, s', hmem, hs'⟩ := loop_ok (s := (1, s)) hturns hstart henough
  exact ⟨mem, s', hloop, hmem, hs'⟩

theorem itemNum_eq {blksize : ℕ} (hblk : 2 * (16 + sizeofData dimX) ≤ blksize)
    (hsmall : blksize < 2 ^ 32) :
    itemNum dimX blksize = blksize / (16 + sizeofData dimX) - 1 ∧ 0 < itemNum dimX blksize ∧
      itemNum dimX blksize + 1 < 2 ^ 32 := by
  have hpos : 0 < 16 + sizeofData dimX := by omega
  have htwo : 2 ≤ blksize / (16 + sizeofData dimX) := (Nat.le_div_iff_mul_le hpos).2 hblk
  have hle : blksize / (16 + sizeofData dimX) * (16 + sizeofData dimX) ≤ blksize :=
    Nat.div_mul_le_self _ _
  have hmul : blksize / (16 + sizeofData dimX) * 2 ≤
      blksize / (16 + sizeofData dimX) * (16 + sizeofData dimX) :=
    Nat.mul_le_mul_left _ (by omega)
  have heq : itemNum dimX blksize = blksize / (16 + sizeofData dimX) - 1 := by
    show (blksize / (16 + sizeofData dimX) + (2 ^ 32 - 1)) % 2 ^ 32 = _
    omega
  refine ⟨heq, ?_, ?_⟩ <;> omega

/-- **`list_init` fills its block.** -/
theorem listInit_ok (hptr : 0 < ptr) {blksize : ℕ} (hblk : 2 * (16 + sizeofData dimX) ≤ blksize)
    (hsmall : blksize < 2 ^ 32) (seed : Int16) (m : Memory dimX) (block : Addr) {turns : ℕ}
    (henough : itemNum dimX blksize < turns) :
    ∃ s' : Building dimX, listInit ptr turns blksize seed m block = .ok (s'.mem, block) ∧
      Laid ptr (itemNum dimX blksize) block seed m (itemNum dimX blksize - 2) s' := by
  obtain ⟨-, hitems, hfew⟩ := itemNum_eq hblk hsmall
  obtain ⟨mem, s', hloop, rfl, hs'⟩ := fill_ok hptr hitems hfew (laid_head seed m) henough
  refine ⟨s', ?_, hs'⟩
  rw [infoAt_zero, show infoAt ptr dimX (itemNum dimX blksize) block 1 =
    nodeAt ptr block (itemNum dimX blksize) + sizeofData dimX by rw [infoAt_succ, infoAt_zero],
    show nodeAt ptr block 1 = block + sizeofNode ptr by rw [nodeAt_succ, nodeAt_zero]] at hloop
  unfold listInit
  show (loop .stuck (Building.turn ptr seed (itemNum dimX blksize) block
    (nodeAt ptr block (itemNum dimX blksize))
    (infoAt ptr dimX (itemNum dimX blksize) block (itemNum dimX blksize))) turns
    (1, ⟨(m.putNode block ⟨none, nodeAt ptr block (itemNum dimX blksize)⟩).putInfo
      (nodeAt ptr block (itemNum dimX blksize)) ⟨fun _ => 0, 0⟩, block + sizeofNode ptr,
      nodeAt ptr block (itemNum dimX blksize) + sizeofData dimX⟩) >>= fun mem =>
    pure (mem, block)) = _
  rw [hloop]
  rfl

/-- **The items are where the nodes say.** -/
theorem Laid.item_eq {s : Building dimX} (h : Laid ptr items block seed m k s) {j : ℕ}
    (hj : j ≤ k) :
    s.mem.item (nodeAt ptr block j) = some (itemAt dimX seed j) := by
  rw [Memory.item_eq, h.infoOf j hj, Option.bind_some, h.infos j hj]

/-- **`list_init` keeps to its block**: it makes a list of the head and, the
last first, of an item for every place but the last. Each node has a place
of its own in the block's first half, and the item it refers to the place
of that number in the second; outside of the block nothing changes. The
head's is the first place of each half. -/
theorem listInit_lays_out (hptr : 0 < ptr) (hsize : ptr ≤ 8) {blksize : ℕ}
    (hblk : 2 * (16 + sizeofData dimX) ≤ blksize) (hsmall : blksize < 2 ^ 32) (seed : Int16)
    (m : Memory dimX) (block : Addr) {turns : ℕ} (henough : itemNum dimX blksize < turns) :
    ∃ mem, listInit ptr turns blksize seed m block = .ok (mem, block) ∧
      mem.Chain (some block) (block :: inserted ptr block (itemNum dimX blksize - 2)) ∧
      (∀ j ≤ itemNum dimX blksize - 2,
        mem.infoOf (nodeAt ptr block j) = some (infoAt ptr dimX (itemNum dimX blksize) block j) ∧
        mem.infos (infoAt ptr dimX (itemNum dimX blksize) block j) = some (itemAt dimX seed j) ∧
        nodeAt ptr block (j + 1) ≤ infoAt ptr dimX (itemNum dimX blksize) block 0 ∧
        infoAt ptr dimX (itemNum dimX blksize) block (j + 1) ≤ block + blksize) ∧
      ∀ a, a < block ∨ block + blksize ≤ a → mem.nodes a = m.nodes a ∧ mem.infos a = m.infos a := by
  obtain ⟨s', hinit, hs'⟩ := listInit_ok hptr hblk hsmall seed m block henough
  obtain ⟨heq, hitems, -⟩ := itemNum_eq hblk hsmall
  generalize itemNum dimX blksize = items at *
  have hfits : infoAt ptr dimX items block items ≤ block + blksize := by
    have hdiv := Nat.div_mul_le_self blksize (16 + sizeofData dimX)
    rw [show blksize / (16 + sizeofData dimX) = items + 1 by omega, Nat.succ_mul, Nat.mul_add]
      at hdiv
    have hnode : items * sizeofNode ptr ≤ items * 16 :=
      Nat.mul_le_mul_left items (show 2 * ptr ≤ 16 by omega)
    have hall : items * sizeofNode ptr + items * sizeofData dimX ≤ blksize := by omega
    unfold infoAt
    rw [Nat.add_assoc]
    exact Nat.add_le_add_left hall block
  have hnodesFit : ∀ j ≤ items - 2, nodeAt ptr block (j + 1) ≤ infoAt ptr dimX items block 0 := by
    intro j hj
    rw [infoAt_zero]
    exact nodeAt_le (by omega)
  have hinfosFit : ∀ j ≤ items - 2, infoAt ptr dimX items block (j + 1) ≤ block + blksize :=
    fun j hj => (infoAt_le (by omega)).trans hfits
  refine ⟨s'.mem, hinit, hs'.chain,
    fun j hj => ⟨hs'.infoOf j hj, hs'.infos j hj, hnodesFit j hj, hinfosFit j hj⟩,
    fun a ha => ⟨hs'.nodesElse a fun j hj => ?_, hs'.infosElse a fun j hj => ?_⟩⟩
  · have hlow : block ≤ nodeAt ptr block j := Nat.le_add_right block _
    have hhigh : nodeAt ptr block j < block + blksize :=
      (nodeAt_lt hptr (Nat.lt_succ_self j)).trans_le
        ((hnodesFit j hj).trans ((infoAt_le (Nat.zero_le items)).trans hfits))
    rintro rfl
    exact ha.elim (Nat.not_lt.2 hlow) (Nat.not_le.2 hhigh)
  · have hlow : block ≤ infoAt ptr dimX items block j :=
      (Nat.le_add_right block _).trans (Nat.le_add_right _ _)
    have hhigh : infoAt ptr dimX items block j < block + blksize :=
      (infoAt_lt (Nat.lt_succ_self j)).trans_le (hinfosFit j hj)
    rintro rfl
    exact ha.elim (Nat.not_lt.2 hlow) (Nat.not_le.2 hhigh)

end Block

/-- Memory without a cell. -/
def noCells (dimX : ℕ) : Memory dimX := ⟨fun _ => none, fun _ => none⟩

theorem listInit_lays_out_sample :
    ∃ mem, listInit 4 73 2048 0x66 (noCells 2) 4096 = .ok (mem, 4096) ∧
      mem.Chain (some 4096) (4096 :: inserted 4 4096 (itemNum 2 2048 - 2)) ∧
      (∀ j ≤ itemNum 2 2048 - 2,
        mem.infoOf (nodeAt 4 4096 j) = some (infoAt 4 2 (itemNum 2 2048) 4096 j) ∧
        mem.infos (infoAt 4 2 (itemNum 2 2048) 4096 j) = some (itemAt 2 0x66 j) ∧
        nodeAt 4 4096 (j + 1) ≤ infoAt 4 2 (itemNum 2 2048) 4096 0 ∧
        infoAt 4 2 (itemNum 2 2048) 4096 (j + 1) ≤ 4096 + 2048) ∧
      ∀ a, a < 4096 ∨ 4096 + 2048 ≤ a →
        mem.nodes a = (noCells 2).nodes a ∧ mem.infos a = (noCells 2).infos a :=
  listInit_lays_out (by decide) (by decide) (by decide) (by decide) _ _ _ (by decide)

end IoTBench

end Checklib
