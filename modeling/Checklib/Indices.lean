import Checklib.Entries

/-!
# The symbol an entry names

`iter_relocations` compares an entry's symbol index with the length of the
table its section is linked to, and lets the length itself through. The
reader then decodes whatever bytes follow the table. So an index past the
end is answered for by the loop where it is above the length, and by
those bytes where it is the length.
-/

namespace Checklib

open Common

variable {rt : Runtime} {elf : ElfFile} {e : Section × Rel}

/-- The symbol table an entry's section is linked to. -/
def ElfFile.linkedTable (elf : ElfFile) (e : Section × Rel) : Option SymbolTable :=
  match elf.getSection e.1.shLink with
  | .ok symtab => symtab.symtab
  | .error _ => none

/-- The entry's index is one of its table's. -/
def ElfFile.IndexValid (elf : ElfFile) (e : Section × Rel) : Prop :=
  ∃ t ∈ elf.linkedTable e, e.2.rInfoSym < t.numSymbols

/-- **An executable that can be read**: its relocation sections are linked
to a section and to a symbol table, their entries are of known types, and
past a symbol table the reader raises its own exceptions only. -/
structure Readable (rt : Runtime) (elf : ElfFile) : Prop where
  executable : elf.eType = .ET_EXEC
  applies : ∀ shRel ∈ elf.relSections, ∃ sec, elf.getSection shRel.shInfo = .ok sec
  linked : ∀ shRel ∈ elf.relSections, ∃ symtab t, elf.getSection shRel.shLink = .ok symtab ∧
    symtab.symtab = some t
  typed : ∀ e ∈ elf.relEntries, rt.isRelocType e.2.rInfoType = true
  past : ∀ e ∈ elf.relEntries, ∀ t ∈ elf.linkedTable e, ∀ i err, t.past i = .error err →
    ∃ b, err = .library b

/-- What is yielded for an entry: its place and its type, and the symbol
its table has at its index. -/
def IsRelocOf (elf : ElfFile) (e : Section × Rel) (r : ExecReloc) : Prop :=
  r.vaddr = e.2.rOffset ∧ r.type_ = ⟨e.2.rInfoType⟩ ∧ r.value = r.symbol.stValue ∧
    ∃ t ∈ elf.linkedTable e, t.symbols[e.2.rInfoSym]? = some r.symbol

/-- **The loop checks the indices.** It raises the malformed error exactly
where some entry's index is not its table's, and otherwise yields one
relocation for each entry, in order. -/
structure ChecksIndices (rt : Runtime) (elf : ElfFile) : Prop where
  malformed : (∃ rel name, iterRelocationsElf rt elf = .error (.malformed rel name)) ↔
    ∃ e ∈ elf.relEntries, ¬ elf.IndexValid e
  yields : (∀ e ∈ elf.relEntries, elf.IndexValid e) →
    ∃ out, iterRelocationsElf rt elf = .ok out ∧ List.Forall₂ (IsRelocOf elf) elf.relEntries out

/-- The entry's index is above its table's length. -/
def ElfFile.IndexBeyond (elf : ElfFile) (e : Section × Rel) : Prop :=
  ∃ t ∈ elf.linkedTable e, t.numSymbols < e.2.rInfoSym

/-- The entry's index is at most its table's length, and the reader has a
symbol for it. -/
def ElfFile.IndexReads (elf : ElfFile) (e : Section × Rel) : Prop :=
  ∃ t ∈ elf.linkedTable e, e.2.rInfoSym ≤ t.numSymbols ∧ ∃ s, t.getSymbol e.2.rInfoSym = .ok s

theorem ElfFile.linkedTable_eq_some_iff {t : SymbolTable} :
    elf.linkedTable e = some t ↔
      ∃ symtab, elf.getSection e.1.shLink = .ok symtab ∧ symtab.symtab = some t := by
  rw [linkedTable]
  cases elf.getSection e.1.shLink with
  | ok symtab => simp
  | error err => simp

/-! ## One entry -/

namespace Readable

theorem linksOk (h : Readable rt elf) : ∀ shRel ∈ elf.relSections, elf.LinksOk shRel := by
  intro shRel hrel
  obtain ⟨sec, hsec⟩ := h.applies shRel hrel
  obtain ⟨symtab, t, hsymtab, -⟩ := h.linked shRel hrel
  exact ⟨sec, symtab, hsec, hsymtab⟩

theorem exists_linkedTable (h : Readable rt elf) (he : e ∈ elf.relEntries) :
    ∃ t, elf.linkedTable e = some t := by
  obtain ⟨symtab, t, hsymtab, ht⟩ := h.linked e.1 (ElfFile.mem_relEntries.1 he).1
  exact ⟨t, ElfFile.linkedTable_eq_some_iff.2 ⟨symtab, hsymtab, ht⟩⟩

/-- **What the loop does for an entry** of such a file. -/
theorem readEntry_eq (h : Readable rt elf) (he : e ∈ elf.relEntries) {t : SymbolTable}
    (ht : elf.linkedTable e = some t) :
    ∃ name, readEntry rt (execReloc elf) elf e =
      if t.numSymbols < e.2.rInfoSym then .error (.malformed e.2 name)
      else do
        let symbol ← t.getSymbol e.2.rInfoSym
        return ⟨e.2.rOffset, symbol.stValue, ⟨e.2.rInfoType⟩, symbol⟩ := by
  obtain ⟨hrel, -⟩ := ElfFile.mem_relEntries.1 he
  obtain ⟨sec, hsec⟩ := h.applies e.1 hrel
  obtain ⟨symtab, hsymtab, htable⟩ := ElfFile.linkedTable_eq_some_iff.1 ht
  refine ⟨sec.name, ?_⟩
  simp only [readEntry, hsec, hsymtab, ok_bind, iterEntry, relSymbol, htable, execReloc,
    if_pos h.executable, Runtime.relocType, if_pos (h.typed e he)]
  split
  · rfl
  · rfl

/-- An entry is read exactly if the reader has a symbol for its index. -/
theorem readEntry_isOk_iff (h : Readable rt elf) (he : e ∈ elf.relEntries) :
    (∃ r, readEntry rt (execReloc elf) elf e = .ok r) ↔ elf.IndexReads e := by
  obtain ⟨t, ht⟩ := h.exists_linkedTable he
  obtain ⟨name, heq⟩ := h.readEntry_eq he ht
  rw [heq]
  constructor
  · rintro ⟨r, hr⟩
    split at hr
    · cases hr
    · next hle =>
      obtain ⟨s, hs, -⟩ := bind_eq_ok_iff.1 hr
      exact ⟨t, ht, Nat.le_of_not_lt hle, s, hs⟩
  · rintro ⟨t', ht', hle, s, hs⟩
    obtain rfl := Option.some.inj (ht.symm.trans ht')
    rw [if_neg (Nat.not_lt.2 hle), hs]
    exact ⟨_, rfl⟩

/-- An entry is malformed exactly if its index is above the length. -/
theorem readEntry_malformed_iff (h : Readable rt elf) (he : e ∈ elf.relEntries) :
    (∃ rel name, readEntry rt (execReloc elf) elf e = .error (.malformed rel name)) ↔
      elf.IndexBeyond e := by
  obtain ⟨t, ht⟩ := h.exists_linkedTable he
  obtain ⟨name, heq⟩ := h.readEntry_eq he ht
  rw [heq]
  constructor
  · rintro ⟨rel, name', hr⟩
    split at hr
    · next hlt => exact ⟨t, ht, hlt⟩
    · -- the reader's exceptions are its own
      rcases bind_eq_error_iff.1 hr with hr | ⟨s, -, hr⟩
      · rw [SymbolTable.getSymbol] at hr
        split at hr
        · cases hr
        · obtain ⟨b, hb⟩ := h.past e he t ht _ _ hr
          cases hb
      · cases hr
  · rintro ⟨t', ht', hlt⟩
    obtain rfl := Option.some.inj (ht.symm.trans ht')
    rw [if_pos hlt]
    exact ⟨_, _, rfl⟩

/-- An entry with an index of its table is read as itself. -/
theorem isRelocOf (h : Readable rt elf) (he : e ∈ elf.relEntries) (hv : elf.IndexValid e)
    {r : ExecReloc} (hr : readEntry rt (execReloc elf) elf e = .ok r) : IsRelocOf elf e r := by
  obtain ⟨t, ht, hlt⟩ := hv
  obtain ⟨name, heq⟩ := h.readEntry_eq he ht
  obtain ⟨s, hs⟩ : ∃ s, t.symbols[e.2.rInfoSym]? = some s := ⟨_, List.getElem?_eq_getElem hlt⟩
  rw [heq, if_neg (Nat.lt_asymm hlt), SymbolTable.getSymbol, hs] at hr
  obtain rfl := Except.ok.inj hr
  exact ⟨rfl, rfl, rfl, t, ht, hs⟩

end Readable

/-! ## The file -/

theorem ElfFile.IndexValid.reads (h : elf.IndexValid e) : elf.IndexReads e := by
  obtain ⟨t, ht, hlt⟩ := h
  obtain ⟨s, hs⟩ : ∃ s, t.symbols[e.2.rInfoSym]? = some s := ⟨_, List.getElem?_eq_getElem hlt⟩
  exact ⟨t, ht, Nat.le_of_lt hlt, s, by rw [SymbolTable.getSymbol, hs]⟩

theorem ElfFile.IndexBeyond.not_valid (h : elf.IndexBeyond e) : ¬ elf.IndexValid e := by
  rintro ⟨t, ht, hlt⟩
  obtain ⟨t', ht', hgt⟩ := h
  obtain rfl := Option.some.inj (ht.symm.trans ht')
  exact Nat.lt_asymm hlt hgt

/-- **The malformed error is raised** exactly where the reading stops at an
index above its table's length. -/
theorem Readable.malformed_iff (h : Readable rt elf) :
    (∃ rel name, iterRelocationsElf rt elf = .error (.malformed rel name)) ↔
      ∃ before e after, elf.relEntries = before ++ e :: after ∧
        (∀ e' ∈ before, elf.IndexReads e') ∧ elf.IndexBeyond e := by
  simp only [iterRelocationsElf, iterRelocations_eq h.linksOk, mapM_eq_error_iff]
  constructor
  · rintro ⟨rel, name, before, e, after, hes, hok, herr⟩
    have hmem : ∀ e' ∈ before ++ e :: after, e' ∈ elf.relEntries := fun e' h' => hes ▸ h'
    refine ⟨before, e, after, hes, fun e' h' => ?_, ?_⟩
    · exact (h.readEntry_isOk_iff (hmem e' (List.mem_append_left _ h'))).1 (hok e' h')
    · exact (h.readEntry_malformed_iff (hmem e (List.mem_append_right _ List.mem_cons_self))).1
        ⟨rel, name, herr⟩
  · rintro ⟨before, e, after, hes, hok, hbeyond⟩
    have hmem : ∀ e' ∈ before ++ e :: after, e' ∈ elf.relEntries := fun e' h' => hes ▸ h'
    obtain ⟨rel, name, herr⟩ :=
      (h.readEntry_malformed_iff (hmem e (List.mem_append_right _ List.mem_cons_self))).2 hbeyond
    refine ⟨rel, name, before, e, after, hes, fun e' h' => ?_, herr⟩
    exact (h.readEntry_isOk_iff (hmem e' (List.mem_append_left _ h'))).2 (hok e' h')

/-- **Indices of the tables** are all read, each as itself. -/
theorem Readable.yields (h : Readable rt elf) (hv : ∀ e ∈ elf.relEntries, elf.IndexValid e) :
    ∃ out, iterRelocationsElf rt elf = .ok out ∧
      List.Forall₂ (IsRelocOf elf) elf.relEntries out := by
  obtain ⟨out, hout⟩ := isOk_mapM_iff.2 fun e he => (h.readEntry_isOk_iff he).2 (hv e he).reads
  refine ⟨out, by rw [iterRelocationsElf, iterRelocations_eq h.linksOk, hout], ?_⟩
  have hread := (List.forall₂_and_left _ _).2 ⟨fun e he => he, mapM_eq_ok_iff.1 hout⟩
  exact hread.imp fun e r her => h.isRelocOf her.1 (hv e her.1) her.2

/-- **The indices are checked exactly where** they are all valid, or where
the reading comes to one above its table's length: an index equal to the
length is not noticed by the loop. -/
theorem checksIndices_iff (h : Readable rt elf) :
    ChecksIndices rt elf ↔ (∀ e ∈ elf.relEntries, elf.IndexValid e) ∨
      ∃ before e after, elf.relEntries = before ++ e :: after ∧
        (∀ e' ∈ before, elf.IndexReads e') ∧ elf.IndexBeyond e := by
  constructor
  · intro hc
    by_cases hv : ∀ e ∈ elf.relEntries, elf.IndexValid e
    · exact .inl hv
    · have hbad : ∃ e ∈ elf.relEntries, ¬ elf.IndexValid e := by simpa using hv
      exact .inr (h.malformed_iff.1 (hc.malformed.2 hbad))
  · rintro (hv | hstop)
    · refine ⟨iff_of_false ?_ ?_, fun _ => h.yields hv⟩
      · rintro ⟨rel, name, herr⟩
        obtain ⟨out, hout, -⟩ := h.yields hv
        rw [hout] at herr
        cases herr
      · rintro ⟨e, he, hne⟩
        exact hne (hv e he)
    · obtain ⟨before, e, after, hes, -, hbeyond⟩ := id hstop
      have he : e ∈ elf.relEntries := hes ▸ List.mem_append_right before List.mem_cons_self
      refine ⟨iff_of_true (h.malformed_iff.2 hstop) ⟨e, he, hbeyond.not_valid⟩, ?_⟩
      exact fun hv => absurd (hv e he) hbeyond.not_valid

/-- A symbol table with a null symbol and `main`, and some other symbol's
bytes behind it. -/
def strayTable : SymbolTable where
  symbols := [⟨"", 0, .special .SHN_UNDEF, .STT_NOTYPE⟩, ⟨"main", 0x40030000, .index 1, .STT_FUNC⟩]
  past _ := .ok ⟨"", 0x40031234, .index 1, .STT_NOTYPE⟩

/-- The relocation section of an executable, with one entry, against the
symbol of index `sym`. -/
def strayRels (sym : UInt8) : Section where
  name := ".rel.text"
  shType := .SHT_REL
  shInfo := 1
  shLink := 2
  data := [0x08, 0, 0x03, 0x40, 1, sym, 0, 0]

/-- An executable with that entry. -/
def strayExec (sym : UInt8) : ElfFile :=
  .ofSections .ET_EXEC [{ name := ".text", shType := .SHT_PROGBITS, shAddr := 0x40030000 },
    { name := ".symtab", shType := .SHT_SYMTAB, symtab := some strayTable }, strayRels sym]

/-- **An index equal to the length is not noticed**: the bytes behind the
table are yielded as the symbol. -/
theorem not_checksIndices_strayExec : ¬ ChecksIndices .ascii (strayExec 2) := by
  intro h
  have hmem : (strayRels 2, ⟨0x40030008, 2, 1⟩) ∈ (strayExec 2).relEntries := .head _
  have hinvalid : ¬ (strayExec 2).IndexValid (strayRels 2, ⟨0x40030008, 2, 1⟩) := by
    rintro ⟨t, ht, hlt⟩
    obtain rfl : strayTable = t := Option.some.inj ht
    exact absurd hlt (by decide)
  obtain ⟨rel, name, herr⟩ := h.malformed.2 ⟨_, hmem, hinvalid⟩
  have hok : iterRelocationsElf .ascii (strayExec 2) =
      .ok [⟨0x40030008, 0x40031234, .R_386_32, ⟨"", 0x40031234, .index 1, .STT_NOTYPE⟩⟩] := rfl
  rw [hok] at herr
  cases herr

theorem checksIndices_iff_sample : ChecksIndices .ascii (strayExec 1) := by
  refine (checksIndices_iff ⟨rfl, ?_, ?_, by decide, ?_⟩).2 (.inl ?_)
  · intro shRel h
    obtain rfl := List.mem_singleton.1 h
    exact ⟨_, rfl⟩
  · intro shRel h
    obtain rfl := List.mem_singleton.1 h
    exact ⟨_, _, rfl, rfl⟩
  · intro e he t ht i err herr
    obtain rfl := List.mem_singleton.1 he
    obtain rfl : strayTable = t := Option.some.inj ht
    cases herr
  · intro e he
    obtain rfl := List.mem_singleton.1 he
    exact ⟨strayTable, rfl, by decide⟩

end Checklib
