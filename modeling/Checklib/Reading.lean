import Checklib.Indices
import Checklib.SectionNames

/-!
# Where the reading of a file stops

`iter_relocations` goes through the tables of a file, and through the
entries of each, up to the first it cannot make sense of. Here is what a
table and an entry need in order to be read, and which of their faults
are not value errors. The reading ends in such an exception exactly where
the first thing it cannot read has such a fault
(`Decides.escapes_iterRelocations_iff`).
-/

namespace Checklib

open Common

variable {rt : Runtime} {elf : ElfFile} {ρ : Type}

/-! ## Exceptions that are let through -/

/-- The computation ends in an exception that `except ValueError` lets
through. -/
def Escapes {α : Type} (x : Except PyError α) : Prop := ∃ e, x = .error e ∧ ¬ e.IsValueError

section

variable {α β : Type} {a : α} {e : PyError} {x : Except PyError α} {f : α → Except PyError β}

theorem not_escapes_ok : ¬ Escapes (.ok a : Except PyError α) := by
  rintro ⟨e, h, -⟩
  cases h

theorem not_escapes_pure : ¬ Escapes (pure a : Except PyError α) := not_escapes_ok

theorem escapes_error_iff : Escapes (.error e : Except PyError α) ↔ ¬ e.IsValueError := by
  constructor
  · rintro ⟨e', h, he⟩
    obtain rfl := Except.error.inj h
    exact he
  · intro he
    exact ⟨e, rfl, he⟩

theorem escapes_bind_iff : Escapes (x >>= f) ↔ Escapes x ∨ ∃ a, x = .ok a ∧ Escapes (f a) := by
  cases x with
  | ok a => simp [ok_bind, not_escapes_ok]
  | error e =>
    show Escapes (.error e : Except PyError β) ↔ _
    simp [escapes_error_iff]

end

/-! ## Tables -/

/-- A table can be read, if its entries are. -/
def ElfFile.TableReads (elf : ElfFile) (reads : Section × Rel → Prop) (shRel : Section) : Prop :=
  elf.LinksOk shRel ∧ ∀ rel ∈ shRel.rels, reads (shRel, rel)

/-- A table's links do not resolve, and the library says so by something
else than a value error. -/
def ElfFile.LinksEscape (elf : ElfFile) (shRel : Section) : Prop :=
  Escapes (elf.getSection shRel.shInfo) ∨
    (∃ sec, elf.getSection shRel.shInfo = .ok sec) ∧ Escapes (elf.getSection shRel.shLink)

/-- **A table's fault is let through**: its links' is, or that of the first
of its entries that cannot be read. -/
def ElfFile.TableEscapes (elf : ElfFile) (reads escapes : Section × Rel → Prop)
    (shRel : Section) : Prop :=
  elf.LinksEscape shRel ∨ elf.LinksOk shRel ∧
    ∃ rel, Reached (fun rel => reads (shRel, rel)) shRel.rels rel ∧ escapes (shRel, rel)

/-- **A file can be read**, if its entries are. -/
def ElfFile.Reads (elf : ElfFile) (reads : Section × Rel → Prop) : Prop :=
  ∀ shRel ∈ elf.relSections, elf.TableReads reads shRel

/-- **A file's fault is let through**: that of the first of its tables that
cannot be read. -/
def ElfFile.ReadingEscapes (elf : ElfFile) (reads escapes : Section × Rel → Prop) : Prop :=
  ∃ shRel, Reached (elf.TableReads reads) elf.relSections shRel ∧
    elf.TableEscapes reads escapes shRel

/-- **What the loop does for an entry**, its table's links aside: which
entries are read, and which have a fault that is let through. -/
structure Decides (rt : Runtime) (emit : Section → Rel → Symbol → RelocType → Except PyError ρ)
    (elf : ElfFile) (reads escapes : Section × Rel → Prop) : Prop where
  reads_iff : ∀ e, elf.LinksOk e.1 → ((∃ r, readEntry rt emit elf e = .ok r) ↔ reads e)
  escapes_iff : ∀ e, elf.LinksOk e.1 → (Escapes (readEntry rt emit elf e) ↔ escapes e)

namespace Decides

variable {emit : Section → Rel → Symbol → RelocType → Except PyError ρ}
  {reads escapes : Section × Rel → Prop} {shRel : Section}

theorem iterTable_isOk_iff (h : Decides rt emit elf reads escapes) :
    (∃ out, iterTable rt emit elf shRel = .ok out) ↔ elf.TableReads reads shRel := by
  have hentries : elf.LinksOk shRel → ((∃ out, iterTable rt emit elf shRel = .ok out) ↔
      ∀ rel ∈ shRel.rels, reads (shRel, rel)) := by
    intro hlinks
    rw [iterTable_eq hlinks, List.mapM_map, isOk_mapM_iff]
    exact forall₂_congr fun rel _ => h.reads_iff (shRel, rel) hlinks
  constructor
  · rintro ⟨out, hout⟩
    obtain ⟨sec, hsec, hout'⟩ := bind_eq_ok_iff.1 hout
    obtain ⟨symtab, hsymtab, -⟩ := bind_eq_ok_iff.1 hout'
    have hlinks : elf.LinksOk shRel := ⟨sec, symtab, hsec, hsymtab⟩
    exact ⟨hlinks, (hentries hlinks).1 ⟨out, hout⟩⟩
  · rintro ⟨hlinks, hall⟩
    exact (hentries hlinks).2 hall

theorem escapes_iterTable_iff (h : Decides rt emit elf reads escapes) :
    Escapes (iterTable rt emit elf shRel) ↔ elf.TableEscapes reads escapes shRel := by
  have hentries : elf.LinksOk shRel → (Escapes (iterTable rt emit elf shRel) ↔
      ∃ rel, Reached (fun rel => reads (shRel, rel)) shRel.rels rel ∧ escapes (shRel, rel)) := by
    intro hlinks
    rw [iterTable_eq hlinks, List.mapM_map, Escapes, exists_mapM_eq_error_iff]
    refine exists_congr fun rel => and_congr ?_ ?_
    · exact Reached.congr fun rel' _ => h.reads_iff (shRel, rel') hlinks
    · exact h.escapes_iff (shRel, rel) hlinks
  by_cases hlinks : elf.LinksOk shRel
  · have hnot : ¬ elf.LinksEscape shRel := by
      obtain ⟨sec, symtab, hsec, hsymtab⟩ := hlinks
      rintro (hesc | ⟨-, hesc⟩)
      · exact not_escapes_ok (hsec ▸ hesc)
      · exact not_escapes_ok (hsymtab ▸ hesc)
    rw [hentries hlinks, ElfFile.TableEscapes, or_iff_right hnot, and_iff_right hlinks]
  · rw [ElfFile.TableEscapes, or_iff_left fun hand => hlinks hand.1, ElfFile.LinksEscape, iterTable,
      escapes_bind_iff]
    refine or_congr_right ?_
    rw [← exists_and_right]
    refine exists_congr fun sec => and_congr_right fun hsec => ?_
    rw [escapes_bind_iff, or_iff_left]
    rintro ⟨symtab, hsymtab, -⟩
    exact hlinks ⟨sec, symtab, hsec, hsymtab⟩

/-- **A file is read to its end** exactly if it can be read. -/
theorem iterRelocations_isOk_iff (h : Decides rt emit elf reads escapes) :
    (∃ out, iterRelocations rt emit elf = .ok out) ↔ elf.Reads reads := by
  have hpure : ∀ tables : List (List ρ), ∃ out, (pure tables.flatten : Except PyError (List ρ)) =
      .ok out := fun tables => ⟨tables.flatten, rfl⟩
  rw [iterRelocations, isOk_bind_iff]
  simp only [hpure, and_true]
  rw [isOk_mapM_iff]
  exact forall₂_congr fun shRel _ => h.iterTable_isOk_iff

/-- **The reading ends in an exception that is let through** exactly if the
first fault of the file is such. -/
theorem escapes_iterRelocations_iff (h : Decides rt emit elf reads escapes) :
    Escapes (iterRelocations rt emit elf) ↔ elf.ReadingEscapes reads escapes := by
  rw [iterRelocations, escapes_bind_iff, or_iff_left (by simp [not_escapes_pure]), Escapes,
    exists_mapM_eq_error_iff]
  refine exists_congr fun shRel => and_congr ?_ ?_
  · exact Reached.congr fun shRel' _ => h.iterTable_isOk_iff
  · exact h.escapes_iterTable_iff

end Decides

/-! ## Entries -/

/-- The symbol at an entry's index: its table's, or, where the index is the
table's length, what the reader makes of the bytes behind it. -/
def ElfFile.SymbolAt (elf : ElfFile) (e : Section × Rel) (symbol : Symbol) : Prop :=
  ∃ t ∈ elf.linkedTable e, e.2.rInfoSym ≤ t.numSymbols ∧ t.getSymbol e.2.rInfoSym = .ok symbol

/-- **There is no symbol at the index**, and no value error either: the
section linked to is not a symbol table, the index is above the table's
length, or the reader cannot make sense of the bytes behind it. -/
inductive ElfFile.SymbolEscapes (elf : ElfFile) (e : Section × Rel) : Prop
  | noTable : elf.linkedTable e = none → SymbolEscapes elf e
  | beyond : elf.IndexBeyond e → SymbolEscapes elf e
  | undecodable {t : SymbolTable} : elf.linkedTable e = some t → e.2.rInfoSym ≤ t.numSymbols →
      Escapes (t.getSymbol e.2.rInfoSym) → SymbolEscapes elf e

/-- A section has an address: its own, or the one its name opens with. -/
def Section.Addressed (rt : Runtime) (s : Section) : Prop :=
  s.shAddr ≠ 0 ∨ ∃ kind digits rest, Opens rt s.name.toList kind digits rest

/-- A symbol's section, if it has one, is there and has an address. -/
def ElfFile.TargetReads (rt : Runtime) (elf : ElfFile) (symbol : Symbol) : Prop :=
  ∀ n, symbol.stShndx = .index n → ∃ target, elf.getSection n = .ok target ∧ target.Addressed rt

/-- The section an entry applies to has an address. -/
def ElfFile.PlaceReads (rt : Runtime) (elf : ElfFile) (e : Section × Rel) : Prop :=
  ∃ sec, elf.getSection e.1.shInfo = .ok sec ∧ sec.Addressed rt

/-- **An entry of an executable is read**: it has a symbol and a known type,
and the file is an executable. -/
def ElfFile.ExecReads (rt : Runtime) (elf : ElfFile) (e : Section × Rel) : Prop :=
  ∃ symbol, elf.SymbolAt e symbol ∧ rt.isRelocType e.2.rInfoType = true ∧ elf.eType = .ET_EXEC

/-- **It has a fault that is let through**: its symbol's, or, its type being
known, that the file is not an executable. -/
def ElfFile.ExecEscapes (rt : Runtime) (elf : ElfFile) (e : Section × Rel) : Prop :=
  elf.SymbolEscapes e ∨ ∃ symbol, elf.SymbolAt e symbol ∧
    rt.isRelocType e.2.rInfoType = true ∧ elf.eType ≠ .ET_EXEC

/-- **An entry of a relocatable file is read**: it has a symbol, a known
type, and the file is relocatable, and both ends of it have an address. -/
def ElfFile.PartReads (rt : Runtime) (elf : ElfFile) (e : Section × Rel) : Prop :=
  ∃ symbol, elf.SymbolAt e symbol ∧ rt.isRelocType e.2.rInfoType = true ∧ elf.eType = .ET_REL ∧
    elf.PlaceReads rt e ∧ elf.TargetReads rt symbol

/-- **It has a fault that is let through**: its symbol's, or, its type being
known, that the file is not relocatable, or, its own place having an
address, that its symbol's section is not there. -/
def ElfFile.PartEscapes (rt : Runtime) (elf : ElfFile) (e : Section × Rel) : Prop :=
  elf.SymbolEscapes e ∨ ∃ symbol, elf.SymbolAt e symbol ∧
    rt.isRelocType e.2.rInfoType = true ∧ (elf.eType ≠ .ET_REL ∨
      elf.PlaceReads rt e ∧ ∃ n, symbol.stShndx = .index n ∧ Escapes (elf.getSection n))

section

variable {e : Section × Rel} {sec symtab : Section} {symbol : Symbol} {s : Section} {why : Why}

theorem linkedTable_of_getSection (h : elf.getSection e.1.shLink = .ok symtab) :
    elf.linkedTable e = symtab.symtab := by
  rw [ElfFile.linkedTable, h]

theorem relSymbol_eq_ok_iff (h : elf.getSection e.1.shLink = .ok symtab) :
    relSymbol sec symtab e.2 = .ok symbol ↔ elf.SymbolAt e symbol := by
  rw [ElfFile.SymbolAt, linkedTable_of_getSection h, relSymbol]
  cases symtab.symtab with
  | none => simp
  | some t =>
    simp only [Option.mem_def, Option.some.injEq, exists_eq_left']
    by_cases hgt : e.2.rInfoSym > t.numSymbols
    · simp [hgt, Nat.not_le.2 hgt]
    · simp [hgt, Nat.le_of_not_lt hgt]

theorem escapes_relSymbol_iff (h : elf.getSection e.1.shLink = .ok symtab) :
    Escapes (relSymbol sec symtab e.2) ↔ elf.SymbolEscapes e := by
  have htable := linkedTable_of_getSection h
  rw [relSymbol]
  cases ht : symtab.symtab with
  | none => exact iff_of_true (escapes_error_iff.2 id) (.noTable (htable.trans ht))
  | some t =>
    rw [ht] at htable
    by_cases hgt : e.2.rInfoSym > t.numSymbols
    · simp only [if_pos hgt]
      exact iff_of_true (escapes_error_iff.2 id) (.beyond ⟨t, htable, hgt⟩)
    · simp only [if_neg hgt]
      constructor
      · exact .undecodable htable (Nat.le_of_not_lt hgt)
      · rintro (hnone | ⟨t', ht', hgt'⟩ | ⟨ht', -, hesc⟩)
        · cases htable.symm.trans hnone
        · obtain rfl := Option.some.inj (htable.symm.trans ht')
          exact absurd hgt' hgt
        · obtain rfl := Option.some.inj (htable.symm.trans ht')
          exact hesc

theorem resolveSectionVaddr_isOk_iff (why : Why) :
    (∃ a, resolveSectionVaddr rt why s = .ok a) ↔ s.Addressed rt := by
  by_cases hs : s.shAddr = 0
  · rw [Section.Addressed, or_iff_right (not_not.2 hs)]
    cases hmatch : matchName rt s.name.toList with
    | none =>
      have hno := matchName_eq_none_iff.1 hmatch
      rw [resolveSectionVaddr_of_noMatch hs hmatch]
      exact iff_of_false nofun fun ⟨kind, digits, rest, h⟩ => hno kind digits rest h
    | some digits =>
      obtain ⟨kind, rest, hopens, -⟩ := matchName_eq_some_iff.1 hmatch
      have hres := (resolveSectionVaddr_eq_ok_iff hs why).2 ⟨digits, hmatch, rfl⟩
      exact iff_of_true ⟨_, hres⟩ ⟨kind, digits, rest, hopens⟩
  · rw [resolveSectionVaddr, if_pos hs]
    exact iff_of_true ⟨_, rfl⟩ (.inl hs)

/-- An address that cannot be had is a value error. -/
theorem not_escapes_resolve : ¬ Escapes (resolveSectionVaddr rt why s) := by
  rintro ⟨e, he, hnot⟩
  exact hnot (isValueError_of_resolve he)

/-- A type that is not known is a value error. -/
theorem not_escapes_relocType {code : ℕ} : ¬ Escapes (rt.relocType code) := by
  unfold Runtime.relocType
  split
  · exact not_escapes_ok
  · rw [escapes_error_iff]
    exact not_not.2 trivial

theorem relTarget_isOk_iff :
    (∃ v, relTarget rt elf symbol = .ok v) ↔ elf.TargetReads rt symbol := by
  unfold relTarget ElfFile.TargetReads
  cases symbol.stShndx with
  | special i => cases i <;> simp
  | index n =>
    simp only [isOk_bind_iff, Shndx.index.injEq, forall_eq', pure, Except.pure, Except.ok.injEq,
      exists_eq', and_true, resolveSectionVaddr_isOk_iff]

theorem escapes_relTarget_iff (rt : Runtime) : Escapes (relTarget rt elf symbol) ↔
    ∃ n, symbol.stShndx = .index n ∧ Escapes (elf.getSection n) := by
  unfold relTarget
  cases symbol.stShndx with
  | special i => cases i <;> simp [not_escapes_ok]
  | index n =>
    simp only [escapes_bind_iff, not_escapes_resolve, not_escapes_pure, and_false, exists_false,
      or_false, Shndx.index.injEq, exists_eq_left']

/-- What the loop does for an entry, step by step. -/
theorem iterEntry_isOk_iff {emit : Section → Rel → Symbol → RelocType → Except PyError ρ}
    (h : elf.getSection e.1.shLink = .ok symtab) :
    (∃ r, iterEntry rt emit sec symtab e.2 = .ok r) ↔
      ∃ symbol, elf.SymbolAt e symbol ∧ rt.isRelocType e.2.rInfoType = true ∧
        ∃ r, emit sec e.2 symbol ⟨e.2.rInfoType⟩ = .ok r := by
  simp only [iterEntry, isOk_bind_iff, relSymbol_eq_ok_iff h, Runtime.relocType_eq_ok_iff]
  refine exists_congr fun symbol => and_congr_right fun _ => ?_
  constructor
  · rintro ⟨_, ⟨htype, rfl⟩, r, hr⟩
    exact ⟨htype, r, hr⟩
  · rintro ⟨htype, r, hr⟩
    exact ⟨_, ⟨htype, rfl⟩, r, hr⟩

theorem escapes_iterEntry_iff {emit : Section → Rel → Symbol → RelocType → Except PyError ρ}
    (h : elf.getSection e.1.shLink = .ok symtab) :
    Escapes (iterEntry rt emit sec symtab e.2) ↔
      elf.SymbolEscapes e ∨ ∃ symbol, elf.SymbolAt e symbol ∧
        rt.isRelocType e.2.rInfoType = true ∧
          Escapes (emit sec e.2 symbol ⟨e.2.rInfoType⟩) := by
  simp only [iterEntry, escapes_bind_iff, escapes_relSymbol_iff h, relSymbol_eq_ok_iff h,
    not_escapes_relocType, false_or, Runtime.relocType_eq_ok_iff]
  refine or_congr_right (exists_congr fun symbol => and_congr_right fun _ => ?_)
  constructor
  · rintro ⟨_, ⟨htype, rfl⟩, hesc⟩
    exact ⟨htype, hesc⟩
  · rintro ⟨htype, hesc⟩
    exact ⟨_, ⟨htype, rfl⟩, hesc⟩

end

/-! ## The two kinds of file -/

/-- **The entries of an executable.** -/
theorem decides_exec (rt : Runtime) (elf : ElfFile) :
    Decides rt (execReloc elf) elf (elf.ExecReads rt) (elf.ExecEscapes rt) where
  reads_iff e hlinks := by
    obtain ⟨sec, symtab, hsec, hsymtab⟩ := hlinks
    simp only [readEntry, hsec, hsymtab, ok_bind, iterEntry_isOk_iff hsymtab, ElfFile.ExecReads]
    refine exists_congr fun symbol => and_congr_right fun _ => and_congr_right fun _ => ?_
    unfold execReloc
    by_cases hexec : elf.eType = .ET_EXEC
    · simp [hexec]
    · simp [hexec]
  escapes_iff e hlinks := by
    obtain ⟨sec, symtab, hsec, hsymtab⟩ := hlinks
    simp only [readEntry, hsec, hsymtab, ok_bind, escapes_iterEntry_iff hsymtab,
      ElfFile.ExecEscapes]
    refine or_congr_right (exists_congr fun symbol =>
      and_congr_right fun _ => and_congr_right fun _ => ?_)
    unfold execReloc
    by_cases hexec : elf.eType = .ET_EXEC
    · simp [hexec, not_escapes_ok]
    · simp [hexec, escapes_error_iff, PyError.IsValueError]

/-- **The entries of a relocatable file.** -/
theorem decides_part (rt : Runtime) (elf : ElfFile) :
    Decides rt (relReloc rt elf) elf (elf.PartReads rt) (elf.PartEscapes rt) where
  reads_iff e hlinks := by
    obtain ⟨sec, symtab, hsec, hsymtab⟩ := hlinks
    simp only [readEntry, hsec, hsymtab, ok_bind, iterEntry_isOk_iff hsymtab, ElfFile.PartReads]
    refine exists_congr fun symbol => and_congr_right fun _ => and_congr_right fun _ => ?_
    have hplace : elf.PlaceReads rt e ↔ sec.Addressed rt := by simp [ElfFile.PlaceReads, hsec]
    unfold relReloc
    by_cases hrel : elf.eType = .ET_REL
    · rw [if_pos hrel, and_iff_right hrel, hplace, ← relTarget_isOk_iff,
        ← resolveSectionVaddr_isOk_iff (.relocation e.2)]
      simp only [isOk_bind_iff, pure, Except.pure, Except.ok.injEq, exists_eq', and_true,
        exists_and_right]
    · simp [hrel]
  escapes_iff e hlinks := by
    obtain ⟨sec, symtab, hsec, hsymtab⟩ := hlinks
    simp only [readEntry, hsec, hsymtab, ok_bind, escapes_iterEntry_iff hsymtab,
      ElfFile.PartEscapes]
    refine or_congr_right (exists_congr fun symbol =>
      and_congr_right fun _ => and_congr_right fun _ => ?_)
    have hplace : elf.PlaceReads rt e ↔ sec.Addressed rt := by simp [ElfFile.PlaceReads, hsec]
    unfold relReloc
    by_cases hrel : elf.eType = .ET_REL
    · rw [if_pos hrel, or_iff_right (not_not.2 hrel), hplace, ← escapes_relTarget_iff rt,
        ← resolveSectionVaddr_isOk_iff (.relocation e.2)]
      simp only [escapes_bind_iff, not_escapes_resolve, not_escapes_pure, false_or, and_false,
        exists_false, or_false, exists_and_right]
    · simp [hrel, escapes_error_iff, PyError.IsValueError]

end Checklib
