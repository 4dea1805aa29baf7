import Checklib.Model.Reader
import Checklib.Common.Except

/-!
# The entries of a file

`iter_relocations` is a loop in a loop. Where every table's two links
resolve it is one traversal, of the file's entries in order, each with the
table that holds it (`iterRelocations_eq`); what one entry comes to is
`readEntry`.
-/

namespace Checklib

open Common

variable {rt : Runtime} {ρ : Type}

/-- The entries, each with its table, in the order the loops visit them. -/
def ElfFile.relEntries (elf : ElfFile) : List (Section × Rel) :=
  elf.relSections.flatMap fun shRel => shRel.rels.map fun rel => (shRel, rel)

/-- What the inner loop does for one entry, its table's links included. -/
def readEntry (rt : Runtime) (emit : Section → Rel → Symbol → RelocType → Except PyError ρ)
    (elf : ElfFile) (e : Section × Rel) : Except PyError ρ := do
  let sec ← elf.getSection e.1.shInfo
  let symtab ← elf.getSection e.1.shLink
  iterEntry rt emit sec symtab e.2

/-- A table's links resolve, as the library sees them. -/
def ElfFile.LinksOk (elf : ElfFile) (shRel : Section) : Prop :=
  ∃ sec symtab, elf.getSection shRel.shInfo = .ok sec ∧ elf.getSection shRel.shLink = .ok symtab

theorem ElfFile.mem_relEntries {elf : ElfFile} {e : Section × Rel} :
    e ∈ elf.relEntries ↔ e.1 ∈ elf.relSections ∧ e.2 ∈ e.1.rels := by
  obtain ⟨shRel, rel⟩ := e
  simp only [relEntries, List.mem_flatMap, List.mem_map, Prod.mk.injEq]
  constructor
  · rintro ⟨s, hs, r, hr, rfl, rfl⟩
    exact ⟨hs, hr⟩
  · rintro ⟨hs, hr⟩
    exact ⟨shRel, hs, rel, hr, rfl, rfl⟩

/-- A table whose links resolve is its entries, read one by one. -/
theorem iterTable_eq {emit : Section → Rel → Symbol → RelocType → Except PyError ρ}
    {elf : ElfFile} {shRel : Section} (h : elf.LinksOk shRel) :
    iterTable rt emit elf shRel =
      (shRel.rels.map fun rel => (shRel, rel)).mapM (readEntry rt emit elf) := by
  obtain ⟨sec, symtab, hsec, hsymtab⟩ := h
  have hread : ∀ rel, readEntry rt emit elf (shRel, rel) = iterEntry rt emit sec symtab rel := by
    intro rel
    simp only [readEntry, hsec, hsymtab]
    rfl
  simp only [iterTable, hsec, hsymtab, List.mapM_map, Function.comp_def, hread]
  rfl

/-- **The two loops are one traversal of the entries.** -/
theorem iterRelocations_eq {emit : Section → Rel → Symbol → RelocType → Except PyError ρ}
    {elf : ElfFile} (h : ∀ shRel ∈ elf.relSections, elf.LinksOk shRel) :
    iterRelocations rt emit elf = elf.relEntries.mapM (readEntry rt emit elf) :=
  mapM_flatMap fun shRel hrel => iterTable_eq (h shRel hrel)

/-- **What reading an entry yields comes from a table of the file**, its
links, a symbol and a type of the enumeration. -/
theorem exists_of_mem_iterRelocations
    {emit : Section → Rel → Symbol → RelocType → Except PyError ρ} {elf : ElfFile}
    {out : List ρ} (h : iterRelocations rt emit elf = .ok out) {r : ρ} (hr : r ∈ out) :
    ∃ e ∈ elf.relEntries, ∃ sec symtab symbol type_, elf.getSection e.1.shInfo = .ok sec ∧
      elf.getSection e.1.shLink = .ok symtab ∧ relSymbol sec symtab e.2 = .ok symbol ∧
      rt.relocType e.2.rInfoType = .ok type_ ∧ emit sec e.2 symbol type_ = .ok r := by
  obtain ⟨tables, htables, h⟩ := bind_eq_ok_iff.1 h
  obtain rfl := Except.ok.inj h
  obtain ⟨table, htable, hr⟩ := List.mem_flatten.1 hr
  obtain ⟨shRel, hrel, hread⟩ := exists_of_mem_mapM htables htable
  obtain ⟨sec, hsec, hread⟩ := bind_eq_ok_iff.1 hread
  obtain ⟨symtab, hsymtab, hread⟩ := bind_eq_ok_iff.1 hread
  obtain ⟨rel, hmem, hentry⟩ := exists_of_mem_mapM hread hr
  obtain ⟨symbol, hsymbol, hentry⟩ := bind_eq_ok_iff.1 hentry
  obtain ⟨type_, htype, hemit⟩ := bind_eq_ok_iff.1 hentry
  exact ⟨(shRel, rel), ElfFile.mem_relEntries.2 ⟨hrel, hmem⟩, sec, symtab, symbol, type_, hsec,
    hsymtab, hsymbol, htype, hemit⟩

end Checklib
