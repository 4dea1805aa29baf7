import Checklib.Model.Reader
import Checklib.Model.Utils
import Mathlib.Data.List.Dedup
import Mathlib.Data.List.Sort
import Mathlib.Data.Rat.Defs

/-!
# `elf.py`: the comparator

`compare_relocations` sorts both relocation lists, merges them by address
and counts what the pairs come to; the score is a quotient of the
counters. `compare_segments` compares the three slots of the two files.
Scores are exact rationals.
-/

namespace Checklib

/-! ## `compare_relocations` -/

/-- **The if-chain on a pair**: whether it adds to `match` or to
`mismatch`. -/
def accepts (true_rel : ExecReloc) (pred_rel : RelReloc) : Bool :=
  let value_match := Value.int true_rel.value == pred_rel.value
  let type_match := true_rel.type_ == pred_rel.type_
  if value_match && type_match then
    if pred_rel.symbol.stShndx == .special .SHN_ABS && true_rel.value != 0 then false
    else true
  else if pred_rel.value == .str .SHN_UNDEF && type_match && true_rel.type_ == .R_386_GOTPC then
    true
  else if value_match && true_rel.type_ == .R_386_PLT32 && pred_rel.type_ == .R_386_PC32 then
    true
  else if type_match && true_rel.symbol.stType == .STT_SECTION then true
  else false

/-- The loop's four counters. -/
structure Counters where
  match_ : ℕ := 0
  falsePositive : ℕ := 0
  falseNegative : ℕ := 0
  mismatch : ℕ := 0
  deriving DecidableEq, Repr

/-- **One turn of the loop**, on a row of the merge. -/
def Counters.step (c : Counters) : Option ExecReloc × Option RelReloc → Except PyError Counters
  | (none, _) => .ok { c with falsePositive := c.falsePositive + 1 }
  | (some true_rel, pred_rel) =>
    if true_rel.type_ = .R_386_RELATIVE then .ok c
    else match pred_rel with
      | none => .ok { c with falseNegative := c.falseNegative + 1 }
      | some pred_rel =>
        if true_rel.vaddr ≠ pred_rel.vaddr then .error (.assertion "")
        else if accepts true_rel pred_rel then .ok { c with match_ := c.match_ + 1 }
        else .ok { c with mismatch := c.mismatch + 1 }

/-- The loop. -/
def countRows (rows : List (Option ExecReloc × Option RelReloc)) : Except PyError Counters :=
  rows.foldlM Counters.step {}

/-- What the score is divided by. -/
def Counters.total (c : Counters) : ℕ :=
  c.match_ + c.falsePositive + c.falseNegative + c.mismatch

/-- `match / (match + false_positive + false_negative + mismatch)` -/
def Counters.iou (c : Counters) : Except PyError ℚ :=
  if c.total = 0 then .error .zeroDivision else .ok ((c.match_ : ℚ) / (c.total : ℚ))

/-- `sorted(relocs, key=attrgetter('vaddr'))`, which is stable. -/
def sortByVaddr {ρ : Type} (vaddr : ρ → ℕ) (relocs : List ρ) : List ρ :=
  relocs.insertionSort fun a b => vaddr a ≤ vaddr b

/-- `assert len(relocs) == len(set(map(key, relocs))), text` -/
def assertDistinct {ρ : Type} (vaddr : ρ → ℕ) (relocs : List ρ) (text : String) :
    Except PyError Unit :=
  if relocs.length = (relocs.map vaddr).dedup.length then .ok () else .error (.assertion text)

/-- **`Comparator.compare_relocations`, once both files are read.** -/
def compareRelocationLists (true_ : List ExecReloc) (pred : List RelReloc) :
    Except PyError ℚ := do
  let true_ := sortByVaddr ExecReloc.vaddr true_
  let pred := sortByVaddr RelReloc.vaddr pred
  assertDistinct ExecReloc.vaddr true_ "Ground truth has duplicate relocation for an address!"
  assertDistinct RelReloc.vaddr pred "Symbolized has duplicate relocation for an address!"
  let counters ← countRows (mergeSorted ExecReloc.vaddr RelReloc.vaddr true_ pred)
  counters.iou

/-- **`Comparator.compare_relocations`**, on the two parsed files and with
its default `pred_on='part'`. -/
def compareRelocations (rt : Runtime) (truth symbolized : ElfFile) : Except PyError ℚ := do
  let true_ ← iterRelocationsElf rt truth
  let pred ← iterRelocationsPart rt symbolized
  compareRelocationLists true_ pred

/-! ## `compare_segments` -/

/-- What `_compare_segments` reports. -/
inductive SegmentError where
  | missing (vaddr : ℕ)
  | superfluous (vaddr : ℕ)
  | mismatch (field : String) (expected got : ℕ)
  | contentLength
  | content (mismatchedBytes length : ℕ)
  | gotNote
  deriving DecidableEq, Repr

/-- The note that one of `CHECKED_FIELDS` differs. -/
def checkField (field : String) (expected got : ℕ) : List SegmentError :=
  if expected ≠ got then [.mismatch field expected got] else []

/-- The notes on the contents: their lengths, or how many bytes differ,
and under five per cent a remark that the table may be permuted. -/
def checkData (td pd : List UInt8) : List SegmentError :=
  if td ≠ pd then
    if td.length ≠ pd.length then [.contentLength]
    else
      let mismatched := (td.zip pd).countP fun (t, p) => t ≠ p
      .content mismatched td.length ::
        if mismatched * 20 < td.length then [.gotNote] else []
  else []

/-- **`Comparator._compare_segments`**, the errors of one slot. -/
def compareSlot : Option Segment → Option Segment → List SegmentError
  | some true_, none => [.missing true_.pVaddr]
  | none, some pred => [.superfluous pred.pVaddr]
  | none, none => []
  | some true_, some pred =>
    checkField "p_vaddr" true_.pVaddr pred.pVaddr ++
    checkField "p_paddr" true_.pPaddr pred.pPaddr ++
    checkField "p_filesz" true_.pFilesz pred.pFilesz ++
    checkField "p_memsz" true_.pMemsz pred.pMemsz ++
    checkData true_.data pred.data

/-- **`Comparator.compare_segments`**, on the two stripped files: whether
some slot has an error. -/
def compareSegments (truth symbolized : ElfFile) : Bool :=
  let truth := getMainSegments truth
  let symbolized := getMainSegments symbolized
  [(truth.text, symbolized.text), (truth.data, symbolized.data), (truth.bss, symbolized.bss)].any
    fun (true_, pred) => !(compareSlot true_ pred).isEmpty

end Checklib
