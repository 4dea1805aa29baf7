import Checklib.Common.Pointwise
import Checklib.Entries
import Checklib.Metric
import Checklib.SectionNames

/-!
# Placing a relocatable file

A relocatable file whose sections are named by their addresses can be
placed: each section goes to the address its name gives. `PlacedImage`
says what the executable's relocations then are, in terms of the entries
alone, and `compareRelocations_of_placed` that the two readings of
`iter_relocations` agree with it: the placed file scores exactly one.
-/

namespace Checklib

open Common

variable {rt : Runtime}

/-! ## A comparison with nothing wrong -/

/-- **Full marks.** If every counted true entry has an acceptable
prediction and every prediction a counted true entry that accepts it, the
score is one. -/
theorem compareRelocationLists_eq_one {truth : List ExecReloc} {pred : List RelReloc}
    (hT : (truth.map ExecReloc.vaddr).Nodup) (hP : (pred.map RelReloc.vaddr).Nodup)
    (hne : pred ≠ [])
    (hfind : ∀ t ∈ truth, t.Counted → ∃ p ∈ pred, p.vaddr = t.vaddr)
    (hgood : ∀ p ∈ pred, ∃ t ∈ truth, t.vaddr = p.vaddr ∧ t.Counted ∧ accepts t p) :
    compareRelocationLists truth pred = .ok 1 := by
  have hmissing : missing truth pred = ∅ := by
    refine Finset.eq_empty_of_forall_notMem fun a ha => ?_
    obtain ⟨⟨t, ht, rfl, hc⟩, hnone⟩ := mem_missing.1 ha
    obtain ⟨p, hp, hpa⟩ := hfind t ht hc
    exact hnone p hp hpa
  have hsuperfluous : superfluous truth pred = ∅ := by
    refine Finset.eq_empty_of_forall_notMem fun a ha => ?_
    obtain ⟨⟨p, hp, rfl⟩, hnone⟩ := mem_superfluous.1 ha
    obtain ⟨t, ht, hta, -⟩ := hgood p hp
    exact hnone t ht hta
  have hmismatched : mismatched truth pred = ∅ := by
    refine Finset.eq_empty_of_forall_notMem fun a ha => ?_
    obtain ⟨t, ht, p, hp, hta, hpa, -, hrej⟩ := mem_mismatched.1 ha
    obtain ⟨t', ht', hta', -, hacc⟩ := hgood p hp
    obtain rfl : t' = t := eq_of_vaddr hT ht' ht (hta'.trans (hpa.trans hta.symm))
    rw [hacc] at hrej
    exact absurd hrej (by decide)
  have hmatched : 0 < (tally truth pred).match_ := by
    obtain ⟨p, hp⟩ := List.exists_mem_of_ne_nil pred hne
    obtain ⟨t, ht, hta, hc, hacc⟩ := hgood p hp
    exact Finset.card_pos.2 ⟨p.vaddr, mem_matched.2 ⟨t, ht, p, hp, hta, rfl, hc, hacc⟩⟩
  have htotal : (tally truth pred).total = (tally truth pred).match_ := by
    simp only [Counters.total, tally, hmissing, hsuperfluous, hmismatched, Finset.card_empty]
    omega
  rw [compareRelocationLists_eq_iou hT hP, Counters.iou_of_pos (by omega), htotal]
  have hne0 : ((tally truth pred).match_ : ℚ) ≠ 0 := by exact_mod_cast hmatched.ne'
  rw [div_self hne0]

/-! ## Placed sections and their image -/

/-- The symbol an entry names, where its table is one and has it. -/
def ElfFile.entrySymbol (elf : ElfFile) (e : Section × Rel) : Option Symbol := do
  let symtab ← elf.sections[e.1.shLink]?
  let table ← symtab.symtab
  table.symbols[e.2.rInfoSym]?

/-- **A file the checker can place.** `addr` gives the addresses of the
sections that are named by one; the entries apply to them, inside them and
at most once to a place, and refer to them or to a global offset table. -/
structure WellPlaced (rt : Runtime) (part : ElfFile) (addr : ℕ → Option ℕ) : Prop where
  relocatable : part.eType = .ET_REL
  named : ∀ i a, addr i = some a →
    ∃ s, part.sections[i]? = some s ∧ s.shAddr = 0 ∧ NamedAt rt s.name a
  disjoint : ∀ i j a b s s', addr i = some a → addr j = some b → i ≠ j →
    part.sections[i]? = some s → part.sections[j]? = some s' →
    ∀ x, ¬ ((a ≤ x ∧ x < a + s.shSize) ∧ b ≤ x ∧ x < b + s'.shSize)
  links : ∀ shRel ∈ part.relSections,
    shRel.shInfo < part.sections.length ∧ shRel.shLink < part.sections.length
  inside : ∀ e ∈ part.relEntries, ∃ a s, addr e.1.shInfo = some a ∧
    part.sections[e.1.shInfo]? = some s ∧ e.2.rOffset < s.shSize
  distinct : part.relEntries.Pairwise fun e e' =>
    e.1.shInfo = e'.1.shInfo → e.2.rOffset ≠ e'.2.rOffset
  symbol : ∀ e ∈ part.relEntries, ∃ sym, part.entrySymbol e = some sym ∧
    ((∃ n b s, sym.stShndx = .index n ∧ addr n = some b ∧ part.sections[n]? = some s ∧
        sym.stValue ≤ s.shSize) ∨
      (sym.stShndx = .special .SHN_UNDEF ∧ e.2.rInfoType = RelocType.R_386_GOTPC.code))
  notRelative : ∀ e ∈ part.relEntries, e.2.rInfoType ≠ RelocType.R_386_RELATIVE.code
  nonempty : part.relEntries ≠ []

/-- **What an entry becomes** when the file is placed: its address and its
symbol's move with their sections, its type stays, or turns from `PC32`
into `PLT32`. An undefined symbol's value is the linker's. -/
def IsPlaced (part : ElfFile) (addr : ℕ → Option ℕ) (e : Section × Rel) (t : ExecReloc) : Prop :=
  (∃ a, addr e.1.shInfo = some a ∧ t.vaddr = a + e.2.rOffset) ∧
  (t.type_ = ⟨e.2.rInfoType⟩ ∨
    (t.type_ = .R_386_PLT32 ∧ e.2.rInfoType = RelocType.R_386_PC32.code)) ∧
  ∀ sym n b, part.entrySymbol e = some sym → sym.stShndx = .index n → addr n = some b →
    t.value = b + sym.stValue

/-- **An executable's relocations are the image of a placed file's**, in
any order, with relative ones at further addresses. -/
structure PlacedImage (part : ElfFile) (addr : ℕ → Option ℕ)
    (truth image relatives : List ExecReloc) : Prop where
  perm : truth.Perm (image ++ relatives)
  placed : List.Forall₂ (IsPlaced part addr) part.relEntries image
  relative : ∀ r ∈ relatives, r.type_ = .R_386_RELATIVE
  nodup : (relatives.map ExecReloc.vaddr).Nodup
  apart : ∀ r ∈ relatives, ∀ t ∈ image, r.vaddr ≠ t.vaddr

variable {part : ElfFile} {addr : ℕ → Option ℕ} {truth image relatives : List ExecReloc}

theorem ElfFile.entrySymbol_eq_some_iff {e : Section × Rel} {sym : Symbol} :
    part.entrySymbol e = some sym ↔ ∃ symtab table, part.sections[e.1.shLink]? = some symtab ∧
      symtab.symtab = some table ∧ table.symbols[e.2.rInfoSym]? = some sym := by
  simp only [entrySymbol, Option.bind_eq_bind, Option.bind_eq_some_iff]
  constructor
  · rintro ⟨symtab, hs, table, ht, h⟩
    exact ⟨symtab, table, hs, ht, h⟩
  · rintro ⟨symtab, table, hs, ht, h⟩
    exact ⟨symtab, hs, table, ht, h⟩

/-- A symbol the table has is what the loop finds. -/
theorem relSymbol_of_getElem? {sec symtab : Section} {table : SymbolTable} {rel : Rel}
    {sym : Symbol} (ht : symtab.symtab = some table)
    (h : table.symbols[rel.rInfoSym]? = some sym) : relSymbol sec symtab rel = .ok sym := by
  have hlt : rel.rInfoSym < table.numSymbols := (List.getElem?_eq_some_iff.1 h).1
  have hle : ¬ rel.rInfoSym > table.numSymbols := by omega
  rw [relSymbol, ht]
  show (if _ then _ else _) = _
  rw [if_neg hle, SymbolTable.getSymbol, h]

/-- An undefined symbol is reported by that name. -/
theorem relTarget_of_undef {sym : Symbol} (h : sym.stShndx = .special .SHN_UNDEF) :
    relTarget rt part sym = .ok (.str .SHN_UNDEF) := by
  simp only [relTarget, h]

namespace IsPlaced

variable {e : Section × Rel} {t : ExecReloc}

/-- Placing an entry does not make it relative. -/
theorem counted (h : IsPlaced part addr e t)
    (hne : e.2.rInfoType ≠ RelocType.R_386_RELATIVE.code) : t.Counted := by
  obtain ⟨-, hkind | ⟨hkind, -⟩, -⟩ := h
  · intro hrel
    rw [hkind] at hrel
    exact hne (congrArg RelocType.code hrel)
  · intro hrel
    rw [hkind] at hrel
    exact absurd hrel (by decide)

/-- An entry's type is known where its image's is. -/
theorem isRelocType (h : IsPlaced part addr e t) (ht : rt.isRelocType t.type_.code = true) :
    rt.isRelocType e.2.rInfoType = true := by
  obtain ⟨-, hkind | ⟨-, hkind⟩, -⟩ := h
  · rw [hkind] at ht
    exact ht
  · rw [hkind]
    exact rt.isRelocType_named .R_386_PC32 (by decide)

end IsPlaced

namespace WellPlaced

variable (hpart : WellPlaced rt part addr)

include hpart

theorem linksOk : ∀ shRel ∈ part.relSections, part.LinksOk shRel := by
  intro shRel hrel
  obtain ⟨hinfo, hlink⟩ := hpart.links shRel hrel
  exact ⟨_, _, ElfFile.getSection_of_getElem? (List.getElem?_eq_getElem hinfo),
    ElfFile.getSection_of_getElem? (List.getElem?_eq_getElem hlink)⟩

/-- A placed section is read at its address. -/
theorem resolve {i a : ℕ} {s : Section} (ha : addr i = some a)
    (hs : part.sections[i]? = some s) (why : Why) : resolveSectionVaddr rt why s = .ok a := by
  obtain ⟨s', hs', hzero, hname⟩ := hpart.named i a ha
  obtain rfl : s' = s := Option.some.inj (hs'.symm.trans hs)
  exact resolveSectionVaddr_of_namedAt hzero hname why

/-- A symbol of a placed section is its value, moved with the section. -/
theorem relTarget_of_index {sym : Symbol} {n b : ℕ} (hn : sym.stShndx = .index n)
    (hb : addr n = some b) : relTarget rt part sym = .ok (.int (sym.stValue + b)) := by
  obtain ⟨s, hs, -⟩ := hpart.named n b hb
  have hres := hpart.resolve hb hs (.symbolName sym.name)
  simp only [relTarget, hn, ElfFile.getSection_of_getElem? hs, hres, ok_bind]
  rfl

/-- **What an entry is read as**, once its symbol's target is known. -/
theorem readEntry_eq {e : Section × Rel} {a : ℕ} {sym : Symbol} {v : Value}
    (he : e ∈ part.relEntries) (ha : addr e.1.shInfo = some a)
    (hsym : part.entrySymbol e = some sym) (hv : relTarget rt part sym = .ok v)
    (htype : rt.isRelocType e.2.rInfoType = true) :
    readEntry rt (relReloc rt part) part e = .ok ⟨a + e.2.rOffset, v, ⟨e.2.rInfoType⟩, sym⟩ := by
  obtain ⟨a', s, ha', hs, -⟩ := hpart.inside e he
  obtain rfl : a = a' := Option.some.inj (ha.symm.trans ha')
  obtain ⟨symtab, table, hsymtab, htable, hget⟩ := ElfFile.entrySymbol_eq_some_iff.1 hsym
  have hknown := Runtime.relocType_eq_ok_iff.2 ⟨htype, rfl⟩
  simp only [readEntry, ElfFile.getSection_of_getElem? hs, ElfFile.getSection_of_getElem? hsymtab,
    iterEntry, relSymbol_of_getElem? htable hget, hknown, relReloc, hpart.relocatable,
    hpart.resolve ha hs, hv, ok_bind, if_true]
  rfl

/-- **One entry, read both ways**: the two readings are at one address and
the pair is accepted. -/
theorem readEntry_of_placed {e : Section × Rel} {t : ExecReloc} (he : e ∈ part.relEntries)
    (ht : IsPlaced part addr e t) (htype : rt.isRelocType t.type_.code = true) :
    ∃ p, readEntry rt (relReloc rt part) part e = .ok p ∧ t.vaddr = p.vaddr ∧ t.Counted ∧
      accepts t p := by
  have hcounted : t.Counted := ht.counted (hpart.notRelative e he)
  have hknown := ht.isRelocType htype
  obtain ⟨⟨a, ha, hvaddr⟩, hkind, hvalue⟩ := ht
  obtain ⟨sym, hsym, hdef⟩ := hpart.symbol e he
  -- a symbol the file defines has a value to compare, an undefined one none
  rcases hdef with ⟨n, b, -, hn, hb, -, -⟩ | ⟨hundef, hgotpc⟩
  · have hread := hpart.readEntry_eq he ha hsym (hpart.relTarget_of_index hn hb) hknown
    have hv := hvalue sym n b hsym hn hb
    refine ⟨_, hread, hvaddr, hcounted, ?_⟩
    rcases hkind with hkind | ⟨hkind, hpc⟩
    · simp [accepts, hv, hkind, hn, Nat.add_comm]
    · simp [accepts, hv, hkind, hpc, Nat.add_comm]
  · have hread := hpart.readEntry_eq he ha hsym (relTarget_of_undef hundef) hknown
    refine ⟨_, hread, hvaddr, hcounted, ?_⟩
    -- the global offset table is the type's doing, not the value's
    rcases hkind with hkind | ⟨-, hpc⟩
    · simp [accepts, hkind, hgotpc]
    · exact absurd (hgotpc.symm.trans hpc) (by decide)

/-- Two entries are placed at two addresses: they lie in one section at
two offsets, or in two sections that do not meet. -/
theorem nodup_image (h : List.Forall₂ (IsPlaced part addr) part.relEntries image) :
    (image.map ExecReloc.vaddr).Nodup := by
  have hmap : part.relEntries.map (fun e => (addr e.1.shInfo).getD 0 + e.2.rOffset) =
      image.map ExecReloc.vaddr := by
    refine map_eq_of_forall₂ (h.imp fun e t ht => ?_)
    obtain ⟨⟨a, ha, hvaddr⟩, -⟩ := ht
    simp only [ha, hvaddr, Option.getD_some]
  -- addresses are read off the entries from here
  rw [← hmap, List.Nodup, List.pairwise_map]
  refine hpart.distinct.imp_of_mem fun {e e'} he he' hdist => ?_
  obtain ⟨a, s, ha, hs, hlt⟩ := hpart.inside e he
  obtain ⟨a', s', ha', hs', hlt'⟩ := hpart.inside e' he'
  simp only [ha, ha', Option.getD_some]
  intro heq
  by_cases hsec : e.1.shInfo = e'.1.shInfo
  · rw [hsec, ha'] at ha
    obtain rfl := Option.some.inj ha
    exact hdist hsec (by omega)
  · have hdisj := hpart.disjoint _ _ a a' s s' ha ha' hsec hs hs'
    have hmem : a ≤ a + e.2.rOffset ∧ a + e.2.rOffset < a + s.shSize := by omega
    have hmem' : a' ≤ a + e.2.rOffset ∧ a + e.2.rOffset < a' + s'.shSize := by omega
    exact hdisj _ ⟨hmem, hmem'⟩

end WellPlaced

/-- The executable's relocations are at distinct addresses where the image
is. -/
theorem PlacedImage.nodup_truth (h : PlacedImage part addr truth image relatives)
    (himage : (image.map ExecReloc.vaddr).Nodup) : (truth.map ExecReloc.vaddr).Nodup := by
  rw [(h.perm.map ExecReloc.vaddr).nodup_iff, List.map_append, List.nodup_append]
  refine ⟨himage, h.nodup, ?_⟩
  intro a ha b hb
  obtain ⟨t, ht, rfl⟩ := List.mem_map.1 ha
  obtain ⟨r, hr, rfl⟩ := List.mem_map.1 hb
  exact (h.apart r hr t ht).symm

/-- An executable's relocations are of types the enumeration has. -/
theorem isRelocType_of_mem {elf : ElfFile} {out : List ExecReloc}
    (h : iterRelocationsElf rt elf = .ok out) {t : ExecReloc} (ht : t ∈ out) :
    rt.isRelocType t.type_.code = true := by
  obtain ⟨e, -, sec, symtab, symbol, type_, -, -, -, htype, hemit⟩ :=
    exists_of_mem_iterRelocations h ht
  obtain ⟨hknown, rfl⟩ := Runtime.relocType_eq_ok_iff.1 htype
  unfold execReloc at hemit
  split at hemit
  · obtain rfl := Except.ok.inj hemit
    exact hknown
  · cases hemit

/-- **A perfect symbolization gets a perfect score.** -/
theorem compareRelocations_of_placed (rt : Runtime) (part executable : ElfFile)
    (addr : ℕ → Option ℕ) (truth image relatives : List ExecReloc)
    (hpart : WellPlaced rt part addr)
    (hread : iterRelocationsElf rt executable = .ok truth)
    (himage : PlacedImage part addr truth image relatives) :
    compareRelocations rt executable part = .ok 1 := by
  have hmem : ∀ t ∈ image, t ∈ truth := by
    intro t ht
    exact himage.perm.mem_iff.2 (List.mem_append_left _ ht)
  have htypes : ∀ t ∈ image, rt.isRelocType t.type_.code = true := by
    intro t ht
    exact isRelocType_of_mem hread (hmem t ht)
  -- reading the part puts a prediction between each entry and its image
  obtain ⟨pred, hpred, hagree⟩ := exists_between_of_forall₂ himage.placed fun e he t ht hp =>
    hpart.readEntry_of_placed he hp (htypes t ht)
  have hiter : iterRelocationsPart rt part = .ok pred := by
    rw [iterRelocationsPart, iterRelocations_eq hpart.linksOk]
    exact mapM_eq_ok_iff.2 hpred
  have hnodup : (image.map ExecReloc.vaddr).Nodup := hpart.nodup_image himage.placed
  have hP : (pred.map RelReloc.vaddr).Nodup := by
    have hmap := map_eq_of_forall₂ (hagree.imp fun _ _ h => h.1)
    rwa [← hmap]
  have hT : (truth.map ExecReloc.vaddr).Nodup := himage.nodup_truth hnodup
  have hne : pred ≠ [] := by
    intro h
    have hlen := hpred.length_eq
    rw [h, List.length_nil, List.length_eq_zero_iff] at hlen
    exact hpart.nonempty hlen
  have hscore : compareRelocationLists truth pred = .ok 1 := by
    refine compareRelocationLists_eq_one hT hP hne ?_ ?_
    · intro t ht hc
      rcases List.mem_append.1 (himage.perm.mem_iff.1 ht) with ht | ht
      · obtain ⟨p, hp, hv, -⟩ := exists_right_of_forall₂ hagree ht
        exact ⟨p, hp, hv.symm⟩
      · exact absurd (himage.relative t ht) hc
    · intro p hp
      obtain ⟨t, ht, hv, hc, hacc⟩ := exists_left_of_forall₂ hagree hp
      exact ⟨t, hmem t ht, hv, hc, hacc⟩
  simp only [compareRelocations, hread, hiter]
  exact hscore

/-! ## A placed file -/

/-- A text section that refers to a data section twice and to the global
offset table. -/
def placedPart : ElfFile :=
  .ofSections .ET_REL
    [{ name := ".text.40030000f", shType := .SHT_PROGBITS, shFlags := 6, shSize := 16 },
     { name := ".data.a800a000", shType := .SHT_PROGBITS, shFlags := 3, shSize := 8 },
     { name := ".rel.text.40030000f", shType := .SHT_REL, shInfo := 1, shLink := 4
       data := [0, 0, 0, 0, 1, 1, 0, 0,  4, 0, 0, 0, 2, 1, 0, 0,  8, 0, 0, 0, 10, 2, 0, 0] },
     .ofSymbols [⟨"x", 4, .index 2, .STT_OBJECT⟩,
       ⟨"_GLOBAL_OFFSET_TABLE_", 0, .special .SHN_UNDEF, .STT_NOTYPE⟩]]

/-- The executable it was made from, whose second reference went through
the linkage table, and which has a relative relocation of its own. -/
def placedExecutable : ElfFile :=
  .ofSections .ET_EXEC
    [{ name := ".text", shType := .SHT_PROGBITS, shFlags := 6, shAddr := 0x40030000, shSize := 16 },
     { name := ".rel.text", shType := .SHT_REL, shInfo := 1, shLink := 3
       data := [12, 0, 3, 0x40, 8, 0, 0, 0,  0, 0, 3, 0x40, 1, 1, 0, 0,
                4, 0, 3, 0x40, 4, 1, 0, 0,  8, 0, 3, 0x40, 10, 2, 0, 0] },
     .ofSymbols [⟨"x", 0xa800a004, .index 4, .STT_OBJECT⟩,
       ⟨"_GLOBAL_OFFSET_TABLE_", 0xa800b000, .index 5, .STT_NOTYPE⟩]]

/-- The addresses its section names give. -/
def placedAddr : ℕ → Option ℕ
  | 1 => some 0x40030000
  | 2 => some 0xa800a000
  | _ => none

theorem wellPlaced_placedPart : WellPlaced .ascii placedPart placedAddr where
  relocatable := rfl
  named i a h := by
    match i, h with
    | 1, h =>
      obtain rfl := Option.some.inj h
      exact ⟨_, rfl, rfl, "text".toList, "40030000".toList, ['f'], by decide, by decide,
        List.all_eq_true.1 rfl, rfl, List.all_eq_true.1 rfl, by decide, .inr ⟨'f', rfl, by decide⟩⟩
    | 2, h =>
      obtain rfl := Option.some.inj h
      exact ⟨_, rfl, rfl, "data".toList, "a800a000".toList, [], by decide, by decide,
        List.all_eq_true.1 rfl, rfl, List.all_eq_true.1 rfl, by decide, .inl rfl⟩
  disjoint i j a b s s' ha hb hij hs hs' x := by
    match i, j, ha, hb, hij with
    | 1, 2, ha, hb, _ | 2, 1, ha, hb, _ =>
      obtain rfl := Option.some.inj ha
      obtain rfl := Option.some.inj hb
      obtain rfl := Option.some.inj hs
      obtain rfl := Option.some.inj hs'
      rintro ⟨hx, hx'⟩
      simp only at hx hx'
      omega
    | 1, 1, _, _, hij | 2, 2, _, _, hij => exact absurd rfl hij
  links := by decide
  inside := List.forall_mem_cons.2 ⟨⟨_, _, rfl, rfl, by decide⟩, List.forall_mem_cons.2
    ⟨⟨_, _, rfl, rfl, by decide⟩, List.forall_mem_cons.2 ⟨⟨_, _, rfl, rfl, by decide⟩, List.forall_mem_nil _⟩⟩⟩
  distinct := by decide
  symbol := List.forall_mem_cons.2 ⟨⟨_, rfl, .inl ⟨2, _, _, rfl, rfl, rfl, by decide⟩⟩,
    List.forall_mem_cons.2 ⟨⟨_, rfl, .inl ⟨2, _, _, rfl, rfl, rfl, by decide⟩⟩,
      List.forall_mem_cons.2 ⟨⟨_, rfl, .inr ⟨rfl, rfl⟩⟩, List.forall_mem_nil _⟩⟩⟩
  notRelative := by decide
  nonempty := by decide

/-- The image of its three entries. -/
def placedImage : List ExecReloc :=
  [⟨0x40030000, 0xa800a004, .R_386_32, ⟨"x", 0xa800a004, .index 4, .STT_OBJECT⟩⟩,
   ⟨0x40030004, 0xa800a004, .R_386_PLT32, ⟨"x", 0xa800a004, .index 4, .STT_OBJECT⟩⟩,
   ⟨0x40030008, 0xa800b000, .R_386_GOTPC,
     ⟨"_GLOBAL_OFFSET_TABLE_", 0xa800b000, .index 5, .STT_NOTYPE⟩⟩]

/-- What the executable adds to them. -/
def placedRelatives : List ExecReloc :=
  [⟨0x4003000c, 0, .R_386_RELATIVE, ⟨"", 0, .special .SHN_UNDEF, .STT_NOTYPE⟩⟩]

theorem placedImage_placed :
    List.Forall₂ (IsPlaced placedPart placedAddr) placedPart.relEntries placedImage := by
  refine .cons ⟨⟨_, rfl, rfl⟩, .inl rfl, ?_⟩ (.cons ⟨⟨_, rfl, rfl⟩, .inr ⟨rfl, rfl⟩, ?_⟩
    (.cons ⟨⟨_, rfl, rfl⟩, .inl rfl, ?_⟩ .nil))
  · intro sym n b hsym hn hb
    cases hsym; cases hn; cases hb
    rfl
  · intro sym n b hsym hn hb
    cases hsym; cases hn; cases hb
    rfl
  · intro sym n b hsym hn hb
    cases hsym; cases hn

theorem compareRelocations_of_placed_sample :
    compareRelocations .ascii placedExecutable placedPart = .ok 1 := by
  refine compareRelocations_of_placed .ascii placedPart placedExecutable placedAddr
    (placedRelatives ++ placedImage) placedImage placedRelatives wellPlaced_placedPart rfl
    ⟨List.perm_append_comm, placedImage_placed, ?_, ?_, ?_⟩
  · decide
  · decide
  · decide

end Checklib
