import Checklib.Model.Spec
import Checklib.SectionNames

/-!
# The section a replacement names

A replacement may name the section it replaces by a symbol of the ground
truth. `get_replaced_section_name` makes two searches of it: through the
symbol tables for an address, then through the answer's sections for the
one at that address. The second finds what it should. The first looks at
one symbol of the name in each table, and passes over absolute ones only.
-/

namespace Checklib

open Common

variable {rt : Runtime} {name : String} {tables : List Section}

/-! ## The search for a section -/

/-- An allocatable section at the address. -/
def Section.IsAt (rt : Runtime) (a : ℕ) (s : Section) : Prop :=
  s.shFlags &&& SHF_ALLOC ≠ 0 ∧ resolveSectionVaddr rt (.vaddr a) s = .ok a

theorem findSectionForVaddr_cons_of_isAt {a : ℕ} {s : Section} (rest : List Section)
    (h : s.IsAt rt a) : findSectionForVaddr rt (some a) (s :: rest) = .ok s := by
  rw [findSectionForVaddr, if_neg h.1, Option.getD_some, h.2]
  exact if_pos rfl

/-- **Any other section is passed over**, also one that resolves to no
address. -/
theorem findSectionForVaddr_cons_of_not {a : ℕ} {s : Section} (rest : List Section)
    (h : ¬ s.IsAt rt a) :
    findSectionForVaddr rt (some a) (s :: rest) = findSectionForVaddr rt (some a) rest := by
  rw [findSectionForVaddr]
  split
  · rfl
  · next halloc =>
    rw [Option.getD_some]
    cases hres : resolveSectionVaddr rt (.vaddr a) s with
    | ok found =>
      refine if_neg fun hfound => h ⟨halloc, ?_⟩
      rw [hres, Option.some.inj hfound]
    | error e => exact if_pos (isValueError_of_resolve hres)

/-- **What the search comes to**: a section at the address, or an index
error where there is none. -/
theorem findSectionForVaddr_cases (rt : Runtime) (a : ℕ) (sections : List Section) :
    (∃ s ∈ sections, s.IsAt rt a ∧ findSectionForVaddr rt (some a) sections = .ok s) ∨
      ((∀ s ∈ sections, ¬ s.IsAt rt a) ∧
        findSectionForVaddr rt (some a) sections = .error (.noSectionAt a)) := by
  induction sections with
  | nil => exact .inr ⟨List.forall_mem_nil _, rfl⟩
  | cons s rest ih =>
    by_cases hs : s.IsAt rt a
    · exact .inl ⟨s, List.mem_cons_self, hs, findSectionForVaddr_cons_of_isAt rest hs⟩
    · rw [findSectionForVaddr_cons_of_not rest hs]
      rcases ih with ⟨s', hmem, hat, hfind⟩ | ⟨hnone, hfind⟩
      · exact .inl ⟨s', List.mem_cons_of_mem _ hmem, hat, hfind⟩
      · exact .inr ⟨List.forall_mem_cons.2 ⟨hs, hnone⟩, hfind⟩

/-! ## The search for the symbol -/

/-- `elf.iter_sections('SHT_SYMTAB')` -/
def ElfFile.symtabs (elf : ElfFile) : List Section := elf.sections.filter (·.shType = .SHT_SYMTAB)

/-- The table's first symbol of the name. -/
def FirstNamed (name : String) (s : Section) (y : Symbol) : Prop :=
  ∃ t ∈ s.symtab, t.symbols.find? (·.name = name) = some y

/-- The table has no symbol of the name, or its first one is absolute. -/
def PassedOver (name : String) (s : Section) : Prop :=
  ∀ y, FirstNamed name s y → y.stShndx = .special .SHN_ABS

/-- **The symbol the search settles on**: the first of the name in its
table, not absolute, all tables before being passed over. -/
inductive SettlesOn (name : String) : List Section → Symbol → Prop
  | here {s : Section} {rest : List Section} {y : Symbol} :
      FirstNamed name s y → y.stShndx ≠ .special .SHN_ABS → SettlesOn name (s :: rest) y
  | next {s : Section} {rest : List Section} {y : Symbol} :
      PassedOver name s → SettlesOn name rest y → SettlesOn name (s :: rest) y

/-- The search settles on a symbol, or passes over every table. -/
theorem exists_settlesOn_or (name : String) (tables : List Section) :
    (∃ y, SettlesOn name tables y) ∨ ∀ s ∈ tables, PassedOver name s := by
  induction tables with
  | nil => exact .inr (List.forall_mem_nil _)
  | cons s rest ih =>
    by_cases hs : PassedOver name s
    · rcases ih with ⟨y, hy⟩ | hall
      · exact .inl ⟨y, .next hs hy⟩
      · exact .inr (List.forall_mem_cons.2 ⟨hs, hall⟩)
    · obtain ⟨y, hy⟩ := not_forall.1 hs
      obtain ⟨hfirst, habs⟩ := Classical.not_imp.1 hy
      exact .inl ⟨y, .here hfirst habs⟩

/-- A table that is passed over is not looked at again. -/
theorem symbolVaddr_cons_of_passedOver {s : Section} {t : SymbolTable} (rest : List Section)
    (ht : s.symtab = some t) (h : PassedOver name s) :
    symbolVaddr name (s :: rest) = symbolVaddr name rest := by
  rw [symbolVaddr, ht]
  cases hfind : t.symbols.find? (·.name = name) with
  | none => simp only [hfind]
  | some y =>
    have habs : y.stShndx = .special .SHN_ABS := h y ⟨t, ht, hfind⟩
    simp only [hfind, habs, ne_eq, not_true_eq_false, if_false]

theorem symbolVaddr_of_settlesOn {y : Symbol} (ht : ∀ s ∈ tables, ∃ t, s.symtab = some t)
    (h : SettlesOn name tables y) : symbolVaddr name tables = .ok y.stValue := by
  induction h with
  | here hfirst habs =>
    obtain ⟨t, hs, hfind⟩ := hfirst
    simp only [symbolVaddr, Option.mem_def.1 hs, hfind, if_pos habs]
  | @next s rest y hpass _ ih =>
    obtain ⟨⟨t, hs⟩, hrest⟩ := List.forall_mem_cons.1 ht
    rw [symbolVaddr_cons_of_passedOver rest hs hpass]
    exact ih hrest

theorem symbolVaddr_of_passedOver (ht : ∀ s ∈ tables, ∃ t, s.symtab = some t)
    (h : ∀ s ∈ tables, PassedOver name s) :
    symbolVaddr name tables = .error (.symbolNotFound name) := by
  induction tables with
  | nil => rfl
  | cons s rest ih =>
    obtain ⟨⟨t, hs⟩, hrest⟩ := List.forall_mem_cons.1 ht
    obtain ⟨hpass, hpassed⟩ := List.forall_mem_cons.1 h
    rw [symbolVaddr_cons_of_passedOver rest hs hpass]
    exact ih hrest hpassed

/-! ## The name found -/

/-- The lowest of the section indices that are reserved. The library has
names for a few of them and gives the others as numbers. -/
abbrev SHN_LORESERVE : ℕ := 0xff00

/-- **A real section's index**: of a section of the file, other than the
null one, and not reserved. -/
def ElfFile.IsRealSection (elf : ElfFile) (n : ℕ) : Prop :=
  0 < n ∧ n < elf.sections.length ∧ n < SHN_LORESERVE

/-- A symbol of the name is defined in a real section, at the address. -/
def DefinedAt (name : String) (elf : ElfFile) (a : ℕ) : Prop :=
  ∃ s ∈ elf.symtabs, ∃ t ∈ s.symtab, ∃ y ∈ t.symbols,
    y.name = name ∧ (∃ n, y.stShndx = .index n ∧ elf.IsRealSection n) ∧ y.stValue = a

/-- **A replacement finds its symbol's section.** Where a symbol of the name
is defined in a real section, the address of such a symbol is used, and the
name is that of an allocatable section of the answer at that address, or
there is none and that is an index error. Where none is defined so, that is
a key error. -/
structure FindsSymbol (host : Host) (c : Comparator) (r : SectionReplacement) (name : String)
    (part : ElfFile) : Prop where
  defined : (∃ a, DefinedAt name c.truth.elf.content a) →
    ∃ a, DefinedAt name c.truth.elf.content a ∧
      symbolVaddr name c.truth.elf.content.symtabs = .ok a ∧
      ((∃ s ∈ part.sections, s.IsAt host.runtime a ∧
          r.getReplacedSectionName host c = .ok s.name) ∨
        ((∀ s ∈ part.sections, ¬ s.IsAt host.runtime a) ∧
          r.getReplacedSectionName host c = .error (.noSectionAt a)))
  undefined : (∀ a, ¬ DefinedAt name c.truth.elf.content a) →
    r.getReplacedSectionName host c = .error (.symbolNotFound name)

section

variable {host : Host} {c : Comparator} {r : SectionReplacement} {part : File}

/-- The two searches, one after the other. -/
theorem getReplacedSectionName_eq (hr : truthy r.sectionName = none)
    (hn : truthy r.symbolName = some name) (hpart : c.symbolized.part = some part) :
    r.getReplacedSectionName host c = do
      let a ← symbolVaddr name c.truth.elf.content.symtabs
      let found ← findSectionForVaddr host.runtime (some a) part.content.sections
      return found.name := by
  rw [SectionReplacement.getReplacedSectionName, hr, hn]
  simp only [BinFile.parsedPart, hpart, ElfFile.symtabs, ok_bind, pure_bind]

/-- **From an address on** the name found is what it should be. -/
theorem getReplacedSectionName_cases (hr : truthy r.sectionName = none)
    (hn : truthy r.symbolName = some name) (hpart : c.symbolized.part = some part) {a : ℕ}
    (ha : symbolVaddr name c.truth.elf.content.symtabs = .ok a) :
    (∃ s ∈ part.content.sections, s.IsAt host.runtime a ∧
        r.getReplacedSectionName host c = .ok s.name) ∨
      ((∀ s ∈ part.content.sections, ¬ s.IsAt host.runtime a) ∧
        r.getReplacedSectionName host c = .error (.noSectionAt a)) := by
  rw [getReplacedSectionName_eq hr hn hpart, ha, ok_bind]
  rcases findSectionForVaddr_cases host.runtime a part.content.sections with
    ⟨s, hs, hat, hfind⟩ | ⟨hnone, hfind⟩
  · refine .inl ⟨s, hs, hat, ?_⟩
    rw [hfind]
    rfl
  · refine .inr ⟨hnone, ?_⟩
    rw [hfind]
    rfl

/-- **The section is found exactly where** the search settles on a symbol at
the address of one defined in a real section, or passes over every table
and none is. -/
theorem findsSymbol_iff (hr : truthy r.sectionName = none) (hn : truthy r.symbolName = some name)
    (hpart : c.symbolized.part = some part)
    (ht : ∀ s ∈ c.truth.elf.content.symtabs, ∃ t, s.symtab = some t) :
    FindsSymbol host c r name part.content ↔
      (∃ y, SettlesOn name c.truth.elf.content.symtabs y ∧
        DefinedAt name c.truth.elf.content y.stValue) ∨
      ((∀ s ∈ c.truth.elf.content.symtabs, PassedOver name s) ∧
        ∀ a, ¬ DefinedAt name c.truth.elf.content a) := by
  constructor
  · intro h
    rcases exists_settlesOn_or name c.truth.elf.content.symtabs with ⟨y, hy⟩ | hall
    · have hvaddr := symbolVaddr_of_settlesOn ht hy
      by_cases hdef : ∃ a, DefinedAt name c.truth.elf.content a
      · obtain ⟨a, ha, hused, -⟩ := h.defined hdef
        obtain rfl := Except.ok.inj (hvaddr.symm.trans hused)
        exact .inl ⟨y, hy, ha⟩
      · -- an address was found, so the key error is not raised
        have hkey := h.undefined (not_exists.1 hdef)
        rcases getReplacedSectionName_cases hr hn hpart hvaddr with
          ⟨s, -, -, hname⟩ | ⟨-, hname⟩
        · cases hkey.symm.trans hname
        · cases hkey.symm.trans hname
    · refine .inr ⟨hall, fun a ha => ?_⟩
      obtain ⟨a', -, hused, -⟩ := h.defined ⟨a, ha⟩
      cases (symbolVaddr_of_passedOver ht hall).symm.trans hused
  · rintro (⟨y, hy, hdef⟩ | ⟨hall, hnone⟩)
    · have hvaddr := symbolVaddr_of_settlesOn ht hy
      refine ⟨fun _ => ⟨_, hdef, hvaddr, getReplacedSectionName_cases hr hn hpart hvaddr⟩, ?_⟩
      exact fun hnone => absurd hdef (hnone _)
    · refine ⟨fun ⟨a, ha⟩ => absurd ha (hnone a), fun _ => ?_⟩
      rw [getReplacedSectionName_eq hr hn hpart, symbolVaddr_of_passedOver ht hall]
      rfl

end

/-- An answer with a section for `main`. -/
def lookupPart : ElfFile :=
  .ofSections .ET_REL
    [{ name := ".text.40030000f", shType := .SHT_PROGBITS, shFlags := SHF_ALLOC }]

/-- That answer, and a ground truth with a text section and one symbol. -/
def lookupComparator (y : Symbol) : Comparator where
  truth :=
    ⟨⟨⟨true, ["test.elf".toList]⟩,
      .ofSections .ET_EXEC
        [{ name := ".text", shType := .SHT_PROGBITS, shFlags := SHF_ALLOC, shAddr := 0x40030000 },
         .ofSymbols [y]], 0⟩, none, []⟩
  symbolized :=
    ⟨⟨⟨true, ["part.elf".toList]⟩, lookupPart, 2⟩, some ⟨⟨true, ["part".toList]⟩, lookupPart, 1⟩,
      []⟩

/-- A host that is not asked anything. -/
def lookupHost : Host := .obliging [] fun _ _ => none

/-- A function of the ground truth. -/
def mainSymbol : Symbol := ⟨"main", 0x40030000, .index 1, .STT_FUNC⟩

theorem findsSymbol_iff_sample :
    FindsSymbol lookupHost (lookupComparator mainSymbol) { symbolName := some "main" } "main"
      lookupPart := by
  refine (findsSymbol_iff (c := lookupComparator mainSymbol) rfl rfl rfl ?_).2
    (.inl ⟨mainSymbol, .here ⟨_, rfl, rfl⟩ nofun, ?_⟩)
  · intro s hs
    obtain rfl := List.mem_singleton.1 hs
    exact ⟨_, rfl⟩
  · have hreal : (lookupComparator mainSymbol).truth.elf.content.IsRealSection 1 :=
      ⟨by decide, by decide, by decide⟩
    exact ⟨_, .head _, _, rfl, mainSymbol, .tail _ (.head _), rfl, ⟨1, rfl, hreal⟩, rfl⟩

/-- A weak reference that nothing defines. -/
def weakSymbol : Symbol := ⟨"__libc_fini", 0, .special .SHN_UNDEF, .STT_NOTYPE⟩

/-- **An undefined symbol is taken for a defined one**: a section at address
zero is looked for, and the error is not the key error. -/
theorem not_findsSymbol_weakSymbol :
    ¬ FindsSymbol lookupHost (lookupComparator weakSymbol) { symbolName := some "__libc_fini" }
      "__libc_fini" lookupPart := by
  intro h
  have hnone : ∀ a, ¬ DefinedAt "__libc_fini"
      (lookupComparator weakSymbol).truth.elf.content a := by
    rintro a ⟨s, hs, t, ht, y, hy, -, ⟨n, hn, -⟩, -⟩
    obtain rfl := List.mem_singleton.1 hs
    obtain rfl := Option.some.inj ht
    rcases List.mem_pair.1 hy with rfl | rfl
    · cases hn
    · cases hn
  have hindex : SectionReplacement.getReplacedSectionName lookupHost (lookupComparator weakSymbol)
      { symbolName := some "__libc_fini" } = .error (.noSectionAt 0) := rfl
  cases hindex.symm.trans (h.undefined hnone)

end Checklib
