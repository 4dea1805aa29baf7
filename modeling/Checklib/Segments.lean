import Checklib.Common.LastWins
import Checklib.Model.Comparator

/-!
# What step 2 compares

`get_main_segments` files each loaded segment under one of three classes
and keeps the last of each, so `compare_segments` passes exactly where
the kept ones agree. A segment of no class, or with a later one of its
class, is not looked at; the two files load one image exactly where
those segments have a twin as well (`compareSegments_sound_iff`).
-/

namespace Checklib

open Common

/-! ## What a file loads -/

/-- The fields and the contents `_compare_segments` reads. -/
structure SameSegment (s s' : Segment) : Prop where
  pVaddr : s.pVaddr = s'.pVaddr
  pPaddr : s.pPaddr = s'.pPaddr
  pFilesz : s.pFilesz = s'.pFilesz
  pMemsz : s.pMemsz = s'.pMemsz
  data : s.data = s'.data

theorem SameSegment.symm {s s' : Segment} (h : SameSegment s s') : SameSegment s' s :=
  ⟨h.pVaddr.symm, h.pPaddr.symm, h.pFilesz.symm, h.pMemsz.symm, h.data.symm⟩

/-- `iter_segments(type='PT_LOAD')` -/
def ElfFile.loads (elf : ElfFile) : List Segment := elf.segments.filter (·.pType = .PT_LOAD)

/-- The other file loads the same bytes at the same place. -/
def HasTwin (s : Segment) (elf : ElfFile) : Prop := ∃ s' ∈ elf.loads, SameSegment s s'

/-- **The same memory image**: each file loads whatever the other does. -/
def SameImage (truth symbolized : ElfFile) : Prop :=
  (∀ s ∈ truth.loads, s.pMemsz ≠ 0 → HasTwin s symbolized) ∧
    ∀ s ∈ symbolized.loads, s.pMemsz ≠ 0 → HasTwin s truth

/-! ## The three slots -/

/-- The names of `MainSegments`' fields. -/
inductive Slot where
  | text
  | data
  | bss
  deriving DecidableEq, Repr

/-- The slot under its name. -/
def MainSegments.get (slots : MainSegments) : Slot → Option Segment
  | .text => slots.text
  | .data => slots.data
  | .bss => slots.bss

/-- The slot a segment fits, if any. -/
def slotOf (s : Segment) : Option Slot :=
  if s.pFilesz = 0 then some .bss
  else if s.pVaddr = 0x40030000 then some .text
  else if s.pVaddr = 0xa800a000 ∧ s.pVaddr ≠ s.pPaddr then some .data
  else none

/-- The segment a slot is left with. -/
def ElfFile.kept (elf : ElfFile) (slot : Slot) : Option Segment := lastOf slotOf slot elf.loads

/-- **A segment nothing is compared with**: it fits no slot, or a later
one has taken its slot. -/
def Dropped (elf : ElfFile) (s : Segment) : Prop :=
  s ∈ elf.loads ∧ s.pMemsz ≠ 0 ∧ ∀ slot, elf.kept slot ≠ some s

/-- The two files' segments agree slot by slot. -/
def SlotsAgree (truth symbolized : ElfFile) : Prop :=
  ∀ slot, Option.Rel SameSegment (truth.kept slot) (symbolized.kept slot)

theorem get_put (slots : MainSegments) (s : Segment) (slot : Slot) :
    (slots.put s).get slot = if slotOf s = some slot then some s else slots.get slot := by
  unfold MainSegments.put slotOf
  split_ifs <;> cases slot <;> simp_all [MainSegments.get]

/-- **What `get_main_segments` returns** is what each slot is left with. -/
theorem get_getMainSegments (elf : ElfFile) (slot : Slot) :
    (getMainSegments elf).get slot = elf.kept slot := by
  have h := foldl_slot get_put elf.loads {} slot
  have hempty : MainSegments.get {} slot = none := by cases slot <;> rfl
  rw [hempty, Option.or_none] at h
  exact h

/-! ## One slot -/

theorem checkField_eq_nil {field : String} {n m : ℕ} : checkField field n m = [] ↔ n = m := by
  unfold checkField
  split
  · next h => exact ⟨fun h' => absurd h' (by simp), fun h' => absurd h' h⟩
  · next h => exact ⟨fun _ => not_not.1 h, fun _ => rfl⟩

theorem checkData_eq_nil {td pd : List UInt8} : checkData td pd = [] ↔ td = pd := by
  unfold checkData
  split
  · next h =>
    constructor
    · intro h'
      split at h' <;> cases h'
    · intro h'
      exact absurd h' h
  · next h => exact ⟨fun _ => not_not.1 h, fun _ => rfl⟩

/-- **A slot has no errors** exactly where both files leave it empty or
fill it alike. -/
theorem compareSlot_eq_nil_iff {x y : Option Segment} :
    compareSlot x y = [] ↔ Option.Rel SameSegment x y := by
  cases x with
  | none =>
    cases y with
    | none => exact ⟨fun _ => .none, fun _ => rfl⟩
    | some p => exact ⟨fun h => absurd h (by simp [compareSlot]), fun h => nomatch h⟩
  | some t =>
    cases y with
    | none => exact ⟨fun h => absurd h (by simp [compareSlot]), fun h => nomatch h⟩
    | some p =>
      simp only [compareSlot, List.append_eq_nil_iff, checkField_eq_nil, checkData_eq_nil]
      constructor
      · rintro ⟨⟨⟨⟨hv, hp⟩, hf⟩, hm⟩, hd⟩
        exact .some ⟨hv, hp, hf, hm, hd⟩
      · intro h
        cases h with
        | some h => exact ⟨⟨⟨⟨h.pVaddr, h.pPaddr⟩, h.pFilesz⟩, h.pMemsz⟩, h.data⟩

/-! ## The comparison -/

/-- **The comparison passes** exactly where the kept segments agree. -/
theorem compareSegments_eq_false_iff {truth symbolized : ElfFile} :
    compareSegments truth symbolized = false ↔ SlotsAgree truth symbolized := by
  have hslot : ∀ slot, compareSlot ((getMainSegments truth).get slot)
      ((getMainSegments symbolized).get slot) = [] ↔
        Option.Rel SameSegment (truth.kept slot) (symbolized.kept slot) := by
    intro slot
    rw [get_getMainSegments, get_getMainSegments, compareSlot_eq_nil_iff]
  have hall : compareSegments truth symbolized = false ↔
      ∀ slot, compareSlot ((getMainSegments truth).get slot)
        ((getMainSegments symbolized).get slot) = [] := by
    simp only [compareSegments, List.any_cons, List.any_nil, Bool.or_false, Bool.or_eq_false_iff,
      Bool.not_eq_false', List.isEmpty_iff]
    constructor
    · rintro ⟨htext, hdata, hbss⟩ slot
      cases slot with
      | text => exact htext
      | data => exact hdata
      | bss => exact hbss
    · intro h
      exact ⟨h .text, h .data, h .bss⟩
  rw [hall]
  exact forall_congr' hslot

/-- A kept segment of an agreeing pair has its twin in the same slot. -/
theorem hasTwin_of_kept {elf elf' : ElfFile} {slot : Slot} {s : Segment}
    (h : Option.Rel SameSegment (elf.kept slot) (elf'.kept slot)) (hs : elf.kept slot = some s) :
    HasTwin s elf' := by
  rw [hs] at h
  generalize hy : elf'.kept slot = y at h
  cases h with
  | some hsame => exact ⟨_, (mem_of_lastOf hy).1, hsame⟩

/-- With agreeing slots only dropped segments can lack a twin. -/
theorem forall_hasTwin_iff {elf elf' : ElfFile}
    (h : ∀ slot, Option.Rel SameSegment (elf.kept slot) (elf'.kept slot)) :
    (∀ s ∈ elf.loads, s.pMemsz ≠ 0 → HasTwin s elf') ↔ ∀ s, Dropped elf s → HasTwin s elf' := by
  constructor
  · rintro hall s ⟨hs, hmemsz, -⟩
    exact hall s hs hmemsz
  · intro hdropped s hs hmemsz
    -- a kept segment's twin is what its slot was compared with
    by_cases hkept : ∃ slot, elf.kept slot = some s
    · obtain ⟨slot, hslot⟩ := hkept
      exact hasTwin_of_kept (h slot) hslot
    · exact hdropped s ⟨hs, hmemsz, fun slot hslot => hkept ⟨slot, hslot⟩⟩

theorem SlotsAgree.symm {truth symbolized : ElfFile} (h : SlotsAgree truth symbolized) :
    SlotsAgree symbolized truth := by
  intro slot
  have hslot := h slot
  generalize truth.kept slot = x at hslot
  generalize symbolized.kept slot = y at hslot
  cases hslot with
  | none => exact .none
  | some hsame => exact .some hsame.symm

/-- **Where every dropped segment has a twin, passing means one image.** -/
theorem sameImage_of_twins {truth symbolized : ElfFile}
    (hpass : compareSegments truth symbolized = false)
    (htruth : ∀ s, Dropped truth s → HasTwin s symbolized)
    (hsymbolized : ∀ s, Dropped symbolized s → HasTwin s truth) : SameImage truth symbolized := by
  have hagree := compareSegments_eq_false_iff.1 hpass
  have hforth := (forall_hasTwin_iff hagree).2 htruth
  have hback := (forall_hasTwin_iff hagree.symm).2 hsymbolized
  exact ⟨hforth, hback⟩

/-- And where nothing is dropped. -/
theorem sameImage_of_passed {truth symbolized : ElfFile}
    (hpass : compareSegments truth symbolized = false) (htruth : ∀ s, ¬ Dropped truth s)
    (hsymbolized : ∀ s, ¬ Dropped symbolized s) : SameImage truth symbolized :=
  sameImage_of_twins hpass (fun s hs => absurd hs (htruth s))
    fun s hs => absurd hs (hsymbolized s)

/-- **Passing means one image exactly where nothing dropped matters**:
where the slots agree, every dropped segment has to have a twin too. -/
theorem compareSegments_sound_iff (truth symbolized : ElfFile) :
    (compareSegments truth symbolized = false → SameImage truth symbolized) ↔
      (SlotsAgree truth symbolized →
        (∀ s, Dropped truth s → HasTwin s symbolized) ∧
          ∀ s, Dropped symbolized s → HasTwin s truth) := by
  rw [compareSegments_eq_false_iff]
  refine forall_congr' fun hagree => ?_
  exact and_congr (forall_hasTwin_iff hagree) (forall_hasTwin_iff hagree.symm)

/-! ## Two headers for memory without contents -/

/-- An executable with a text segment and the linker script's two memory
headers, both without contents for want of initialised data. -/
def twoRamHeaders (memsz : ℕ) : ElfFile where
  eType := .ET_EXEC
  sections := []
  segments :=
    [⟨.PT_LOAD, 0x1000, 0x40030000, 0x40030000, 2, 2, [0xeb, 0xfe]⟩,
     ⟨.PT_LOAD, 0x2000, 0xa800a000, 0xa800a000, 0, memsz, []⟩,
     ⟨.PT_LOAD, 0x2000, 0xa800b000, 0x40030002, 0, 0x40, []⟩]
  pastSection := pastEnd

/-- **The first header is not compared.** -/
theorem not_sameImage_twoRamHeaders :
    ¬ (compareSegments (twoRamHeaders 0x40) (twoRamHeaders 0x80) = false →
        SameImage (twoRamHeaders 0x40) (twoRamHeaders 0x80)) := by
  intro h
  obtain ⟨himage, -⟩ := h (by decide)
  obtain ⟨s', hs', htwin⟩ := himage
    ⟨.PT_LOAD, 0x2000, 0xa800a000, 0xa800a000, 0, 0x40, []⟩ (by decide) (by decide)
  have hnone : ∀ s' ∈ (twoRamHeaders 0x80).loads, s'.pVaddr = 0xa800a000 → s'.pMemsz ≠ 0x40 := by
    decide
  exact hnone s' hs' htwin.pVaddr.symm htwin.pMemsz.symm

end Checklib
