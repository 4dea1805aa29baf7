import Checklib.Common.While
import Mathlib.Algebra.Ring.Nat
import Mathlib.Data.List.FinRange

/-!
# The list benchmark: `list_search_sort.c`

The sample programs the checker is tried on include a benchmark of linked
lists: a list laid out in one block of memory, searched, and sorted bottom
up by relinking its cells. The functions are read here over a memory of
cells. An address without a cell is a fault when it is read or linked, as
is `NULL`; the program's 32-bit counters wrap. This is the default
configuration, `DATA_DIM` 1 with integers, for any `DIM_X`.
-/

namespace Checklib

namespace IoTBench

open Common

/-! ## Memory -/

/-- A pointer that is not `NULL`. Blocks lie within the address space, so
that pointers into them do not wrap. -/
abbrev Addr := ℕ

/-- `list_data` -/
structure ListData (dimX : ℕ) where
  data : Fin dimX → UInt32
  idx : UInt16

/-- `list_node` -/
structure ListNode where
  next : Option Addr
  info : Addr

/-- **The cells in memory.** -/
structure Memory (dimX : ℕ) where
  nodes : Addr → Option ListNode
  infos : Addr → Option (ListData dimX)

/-- What goes wrong: a pointer that is `NULL` or points to no cell, an index
out of an array, a loop that has not ended within its turns. -/
inductive Fault where
  | access
  | bounds
  | stuck
  deriving DecidableEq, Repr

/-- `uint32_t` -/
def wrap (x : ℕ) : ℕ := x % 2 ^ 32

variable {dimX : ℕ}

namespace Memory

variable (m : Memory dimX)

def node (p : Option Addr) : Except Fault ListNode :=
  match p.bind m.nodes with
  | some node => .ok node
  | none => .error .access

/-- `p->next` -/
def next (p : Option Addr) : Except Fault (Option Addr) := do
  let node ← m.node p
  return node.next

/-- `p->info`, and what it points to -/
def info (p : Option Addr) : Except Fault (ListData dimX) := do
  let node ← m.node p
  match m.infos node.info with
  | some info => .ok info
  | none => .error .access

/-- A node written. -/
def putNode (a : Addr) (node : ListNode) : Memory dimX :=
  { m with nodes := Function.update m.nodes a (some node) }

/-- An item's data written. -/
def putInfo (a : Addr) (info : ListData dimX) : Memory dimX :=
  { m with infos := Function.update m.infos a (some info) }

/-- `p->next = q` -/
def setNext (p q : Option Addr) : Except Fault (Memory dimX) :=
  match p with
  | some a => do
    let node ← m.node p
    return m.putNode a { node with next := q }
  | none => .error .access

end Memory

/-! ## `cmp_idx_value` -/

/-- `IDX_CMP` and `DATA_CMP` -/
inductive Cmp where
  | idx
  | data
  deriving DecidableEq, Repr

/-- `while(l != DIM_X)`, from the indices that are left -/
def cmpData (a b : ListData dimX) : List (Fin dimX) → ℤ
  | [] => 0
  | l :: ls =>
    if a.data l > b.data l then 1
    else if a.data l < b.data l then -1
    else cmpData a b ls

/-- **`cmp_idx_value`** -/
def cmpIdxValue (a b : ListData dimX) : Cmp → ℤ
  | .data => cmpData a b (List.finRange dimX)
  | .idx => if a.idx > b.idx then 1 else if a.idx = b.idx then 0 else -1

/-! ## `list_mergesort` -/

/-- The variables of the merge of two runs. -/
structure Merging (dimX : ℕ) where
  mem : Memory dimX
  left : Option Addr
  right : Option Addr
  lsize : ℕ
  rsize : ℕ
  list : Option Addr
  ret : Option Addr

/-- `for(i = 0; i < insize; i++)`, from the turns that are left: `right`
moves past the left run. -/
def stride (mem : Memory dimX) : ℕ → Option Addr → ℕ → Except Fault (Option Addr × ℕ)
  | 0, right, lsize => .ok (right, lsize)
  | turns + 1, right, lsize => do
    let next ← mem.next right
    match next with
    | none => return (none, wrap (lsize + 1))
    | some a => stride mem turns (some a) (wrap (lsize + 1))

namespace Merging

variable (s : Merging dimX)

/-- `add = right; right = right -> next; rsize --;` -/
def takeRight : Except Fault (Option Addr × Merging dimX) := do
  let next ← s.mem.next s.right
  return (s.right, { s with right := next, rsize := s.rsize - 1 })

/-- `add = left; left = left -> next; lsize --;` -/
def takeLeft : Except Fault (Option Addr × Merging dimX) := do
  let next ← s.mem.next s.left
  return (s.left, { s with left := next, lsize := s.lsize - 1 })

/-- Which run the next cell comes from. -/
def choose (cmp : Cmp) : Except Fault (Option Addr × Merging dimX) :=
  if s.lsize = 0 then s.takeRight
  else if s.rsize = 0 ∨ s.right = none then s.takeLeft
  else do
    let right ← s.mem.info s.right
    let left ← s.mem.info s.left
    if cmpIdxValue right left cmp < 0 then s.takeRight else s.takeLeft

/-- `add to the new list--ret` -/
def append (add : Option Addr) : Except Fault (Merging dimX) :=
  match s.ret with
  | some _ => do
    let mem ← s.mem.setNext s.ret add
    return { s with mem := mem, ret := add }
  | none => return { s with list := add, ret := add }

/-- `while(lsize > 0 || (rsize > 0 && right))` -/
def turn (cmp : Cmp) (s : Merging dimX) : Except Fault (Merging dimX ⊕ Merging dimX) :=
  if 0 < s.lsize ∨ (0 < s.rsize ∧ s.right ≠ none) then do
    let (add, s) ← s.choose cmp
    let s ← s.append add
    return .inl s
  else return .inr s

end Merging

/-- The variables of a pass. -/
structure Passing (dimX : ℕ) where
  mem : Memory dimX
  left : Option Addr
  list : Option Addr
  ret : Option Addr
  nmerges : ℕ

/-- `while(left)`. The merge takes a cell from one of the runs in every
turn, so that their sizes are turns enough. -/
def Passing.turn (cmp : Cmp) (insize : ℕ) (s : Passing dimX) :
    Except Fault (Passing dimX ⊕ Passing dimX) :=
  match s.left with
  | none => return .inr s
  | some _ => do
    let (right, lsize) ← stride s.mem insize s.left 0
    let merged ← loop .stuck (Merging.turn cmp) (lsize + insize + 1)
      ⟨s.mem, s.left, right, lsize, insize, s.list, s.ret⟩
    return .inl ⟨merged.mem, merged.right, merged.list, merged.ret, wrap (s.nmerges + 1)⟩

/-- The variables of the sort. -/
structure Sorting (dimX : ℕ) where
  mem : Memory dimX
  list : Option Addr
  insize : ℕ

/-- `while(1)` -/
def Sorting.turn (cmp : Cmp) (turns : ℕ) (s : Sorting dimX) :
    Except Fault (Sorting dimX ⊕ Memory dimX × Option Addr) := do
  let pass ← loop .stuck (Passing.turn cmp s.insize) turns ⟨s.mem, s.list, none, none, 0⟩
  let mem ← pass.mem.setNext pass.ret none
  if pass.nmerges ≤ 1 then return .inr (mem, pass.list)
  else return .inl ⟨mem, pass.list, wrap (s.insize * 2)⟩

/-- **`list_mergesort`**, with turns for its loops. -/
def listMergesort (cmp : Cmp) (turns : ℕ) (mem : Memory dimX) (list : Option Addr) :
    Except Fault (Memory dimX × Option Addr) :=
  loop .stuck (Sorting.turn cmp turns) turns ⟨mem, list, 1⟩

/-! ## `list_search` and `list_search_all` -/

/-- **`list_search`**; `IDX_FIND` and `DATA_FIND` compare as `IDX_CMP` and
`DATA_CMP` do. -/
def listSearch (mem : Memory dimX) (info : ListData dimX) (key : Cmp) (turns : ℕ)
    (list : Option Addr) : Except Fault (Option Addr) :=
  loop .stuck (fun list => match list with
    | none => return .inr none
    | some _ => do
      let item ← mem.info list
      if cmpIdxValue item info key ≠ 0 then return .inl (← mem.next list) else return .inr list)
    turns list

/-- The variables of `list_search_all`. -/
structure Searching where
  list : Option Addr
  i : ℕ
  result : List UInt16

/-- `while(list!=NULL)` -/
def Searching.turn (mem : Memory dimX) (info : ListData dimX) (s : Searching) :
    Except Fault (Searching ⊕ List UInt16) :=
  match s.list with
  | none => return .inr s.result
  | some _ => do
    let item ← mem.info s.list
    if cmpIdxValue item info .data ≠ 0 then
      let next ← mem.next s.list
      return .inl { s with list := next }
    else if s.i < s.result.length then
      let next ← mem.next s.list
      return .inl ⟨next, s.i + 1, s.result.set s.i item.idx⟩
    else throw .bounds

/-- **`list_search_all`**, which fills the array `result`. -/
def listSearchAll (mem : Memory dimX) (info : ListData dimX) (turns : ℕ) (list : Option Addr)
    (result : List UInt16) : Except Fault (List UInt16) :=
  loop .stuck (Searching.turn mem info) turns ⟨list, 0, result⟩

/-! ## `list_init` -/

/-- `sizeof(list_node)`, where a pointer has `ptr` bytes -/
def sizeofNode (ptr : ℕ) : ℕ := 2 * ptr

/-- `sizeof(list_data)`: the data, and the index padded to their alignment -/
def sizeofData (dimX : ℕ) : ℕ := 4 * dimX + 4

/-- The memory, and the places of the next node and the next data. -/
structure Building (dimX : ℕ) where
  mem : Memory dimX
  memblk : Addr
  datablk : Addr

/-- **`list_insert`** -/
def listInsert (ptr : ℕ) (insertPoint : Option Addr) (info : ListData dimX)
    (nodesEnd dataEnd : Addr) (s : Building dimX) : Except Fault (Building dimX × Option Addr) :=
  if s.memblk + sizeofNode ptr ≥ nodesEnd ∨ s.datablk + sizeofData dimX ≥ dataEnd then
    return (s, none)
  else do
    let newItem := s.memblk
    let next ← s.mem.next insertPoint
    let mem := s.mem.putNode newItem ⟨next, s.datablk⟩
    let mem ← mem.setNext insertPoint (some newItem)
    return (⟨mem.putInfo s.datablk info, newItem + sizeofNode ptr, s.datablk + sizeofData dimX⟩,
      some newItem)

/-- The item `list_init` makes for an index: `tmp = (seed ^ i)`, and
`info.data[l] = (tmp) + l`. -/
def seeded (dimX : ℕ) (seed : Int16) (i : ℕ) : ListData dimX where
  data l := (seed.toInt32.toUInt32 ^^^ UInt32.ofNat i) + UInt32.ofNat l
  idx := UInt16.ofNat i

/-- `for(i = 1; i <= item_num; i++)` -/
def Building.turn (ptr : ℕ) (seed : Int16) (itemNum : ℕ) (list nodesEnd dataEnd : Addr)
    (s : ℕ × Building dimX) : Except Fault (ℕ × Building dimX ⊕ Memory dimX) :=
  let (i, s) := s
  if i ≤ itemNum then do
    let (s, _) ← listInsert ptr (some list) (seeded dimX seed i) nodesEnd dataEnd s
    return .inl (wrap (i + 1), s)
  else return .inr s.mem

/-- `(blksize / item_size) - 1` -/
def itemNum (dimX blksize : ℕ) : ℕ := wrap (blksize / (16 + sizeofData dimX) + (2 ^ 32 - 1))

/-- **`list_init`**, in a block of memory. -/
def listInit (ptr turns blksize : ℕ) (seed : Int16) (mem : Memory dimX) (memblk : Addr) :
    Except Fault (Memory dimX × Addr) := do
  let itemNum := itemNum dimX blksize
  let nodesEnd := memblk + itemNum * sizeofNode ptr
  let datablk := nodesEnd
  let dataEnd := datablk + itemNum * sizeofData dimX
  let list := memblk
  let mem := (mem.putNode list ⟨none, datablk⟩).putInfo datablk ⟨fun _ => 0, 0⟩
  let mem ← loop .stuck (Building.turn ptr seed itemNum list nodesEnd dataEnd) turns
    (1, ⟨mem, memblk + sizeofNode ptr, datablk + sizeofData dimX⟩)
  return (mem, list)

/-! ## The list in `main` -/

/-- What an iteration changes: the memory, where the list begins, and the
array `result`. -/
structure Benchmark (dimX : ℕ) where
  mem : Memory dimX
  memblk : Option Addr
  result : List UInt16

/-- **An iteration**: a search, and the two sorts of `MERGESORT`. -/
def Benchmark.iterate (info : ListData dimX) (turns : ℕ) (s : Benchmark dimX) :
    Except Fault (Benchmark dimX) := do
  let result ← listSearchAll s.mem info turns s.memblk s.result
  let (mem, memblk) ← listMergesort .data turns s.mem s.memblk
  let (mem, memblk) ← listMergesort .idx turns mem memblk
  return ⟨mem, memblk, result⟩

/-- `for(int i = 0; i < NUM_ITERATE; i++)` -/
def Benchmark.iterations (info : ListData dimX) (turns : ℕ) :
    ℕ → Benchmark dimX → Except Fault (Benchmark dimX)
  | 0, s => .ok s
  | n + 1, s => do
    let s ← s.iterate info turns
    iterations info turns n s

end IoTBench

end Checklib
