import Checklib.Common.Except
import Checklib.Model.Spec

/-!
# Replacing sections

A replacement rewrites a section of the copy and removes the table named
after it. `Patched` says what the copy is after any number of them, in
terms of the original and the edits alone; a step keeps it
(`Patched.step`) and so does the loop (`patched_of_modifyAll`). What is
removed goes by name, what a table applies to by index, and the two come
to the same exactly where the tables are named for their sections.
-/

namespace Checklib

open Common

/-! ## Edits -/

/-- The bytes `objcopy` finds in a data file. -/
def DataFile.bytes (host : Host) : DataFile → Except PyError (List UInt8)
  | .written bytes => .ok bytes
  | .path p => host.readBytes p

/-- What a replacement does: to the section of which name, with which
bytes. -/
def SectionReplacement.edit (host : Host) (c : Comparator) (r : SectionReplacement) :
    Except PyError (String × List UInt8) := do
  let dataFile ← r.getOrCreateBinFile host
  let name ← r.getReplacedSectionName host c
  let bytes ← dataFile.bytes host
  return (name, bytes)

/-- A section after the edits to its name, the last of which stays. -/
def rewrite (edits : List (String × List UInt8)) (s : Section) : Section :=
  edits.foldl (fun s edit => if s.name = edit.1 then s.withBytes edit.2 else s) s

/-- The section is not a table named after a replaced one. -/
def keptBy (names : List String) (s : Section) : Bool := s.name ∉ names.map (".rel" ++ ·)

/-- **The copy, in terms of the original**: rewritten, less what is not
kept, and renumbered. -/
def PatchedBy (keep : Section → Bool) (part : ElfFile) (edits : List (String × List UInt8))
    (copy : ElfFile) : Prop :=
  ∃ ren, Renumbers keep part.sections ren ∧
    copy.sections = (part.sections.filter keep).map fun s => (rewrite edits s).renumber ren

/-- What is not kept are the tables named after what was rewritten. -/
def Patched (part : ElfFile) (edits : List (String × List UInt8)) (copy : ElfFile) : Prop :=
  PatchedBy (keptBy (edits.map Prod.fst)) part edits copy

/-! ## Sections under edits -/

variable {edits : List (String × List UInt8)} {name : String} {data : List UInt8}
variable {part copy : ElfFile}

@[simp] theorem rewrite_nil (s : Section) : rewrite [] s = s := rfl

theorem rewrite_append (s : Section) :
    rewrite (edits ++ [(name, data)]) s =
      if (rewrite edits s).name = name then (rewrite edits s).withBytes data
      else rewrite edits s := by
  rw [rewrite, List.foldl_append]
  rfl

/-- An edit changes a section's bytes and nothing else that is read here. -/
theorem rewrite_header (edits : List (String × List UInt8)) (s : Section) :
    (rewrite edits s).name = s.name ∧
    (rewrite edits s).shType = s.shType ∧ (rewrite edits s).shInfo = s.shInfo := by
  induction edits generalizing s with
  | nil => exact ⟨rfl, rfl, rfl⟩
  | cons edit edits ih =>
    obtain ⟨hname, htype, hinfo⟩ := ih (if s.name = edit.1 then s.withBytes edit.2 else s)
    show (rewrite edits _).name = _ ∧ (rewrite edits _).shType = _ ∧ (rewrite edits _).shInfo = _
    rw [hname, htype, hinfo]
    split
    · exact ⟨rfl, rfl, rfl⟩
    · exact ⟨rfl, rfl, rfl⟩

@[simp] theorem rewrite_name (s : Section) : (rewrite edits s).name = s.name := (rewrite_header edits s).1

@[simp] theorem renumber_name (ren : ℕ → ℕ) (s : Section) : (s.renumber ren).name = s.name := rfl

@[simp] theorem renumber_rels (ren : ℕ → ℕ) (s : Section) : (s.renumber ren).rels = s.rels := rfl

theorem Symbol.renumber_comp (ren ren' : ℕ → ℕ) (y : Symbol) :
    (y.renumber ren).renumber ren' = y.renumber (ren' ∘ ren) := by
  cases h : y.stShndx <;> simp [Symbol.renumber, h]

theorem Section.renumber_comp (ren ren' : ℕ → ℕ) (s : Section) :
    (s.renumber ren).renumber ren' = s.renumber (ren' ∘ ren) := by
  have hsymbols : ∀ l : List Symbol, (l.map (Symbol.renumber ren)).map (Symbol.renumber ren') =
      l.map (Symbol.renumber (ren' ∘ ren)) := by
    intro l
    rw [List.map_map]
    exact List.map_congr_left fun y _ => Symbol.renumber_comp ren ren' y
  cases hsym : s.symtab <;> by_cases htype : s.shType = .SHT_REL <;>
    simp [Section.renumber, hsym, htype, hsymbols]

theorem Symbol.renumber_id (y : Symbol) : y.renumber id = y := by
  cases h : y.stShndx with
  | special => simp only [Symbol.renumber, h]
  | index n =>
    simp only [Symbol.renumber, h, id]
    rw [← h]

theorem Section.renumber_id (s : Section) : s.renumber id = s := by
  have hsymtab : (s.symtab.map fun t => { t with symbols := t.symbols.map (Symbol.renumber id) }) =
      s.symtab := by
    cases s.symtab with
    | none => rfl
    | some t => simp [funext Symbol.renumber_id]
  simp only [Section.renumber, hsymtab, id, ite_self]

/-! ## The loop -/

namespace PatchedBy

variable {keep keep' : Section → Bool} {objcopy : Objcopy} {copy' : ElfFile}

/-- The original is a copy that keeps everything. -/
theorem refl (part : ElfFile) : PatchedBy (fun _ => true) part [] part := by
  refine ⟨id, Renumbers.id, ?_⟩
  simp only [List.filter_true, rewrite_nil, Section.renumber_id, List.map_id']

/-- Only what the original has is kept or not. -/
theorem congr (h : PatchedBy keep part edits copy)
    (hkeep : ∀ s ∈ part.sections, keep s = keep' s) : PatchedBy keep' part edits copy := by
  obtain ⟨ren, hren, hcopy⟩ := h
  exact ⟨ren, hren.congr hkeep, by rw [hcopy, List.filter_congr hkeep]⟩

/-- **An update is one more edit.** -/
theorem update (h : PatchedBy keep part edits copy)
    (hok : objcopy.updateSection copy name data = .ok copy') :
    PatchedBy keep part (edits ++ [(name, data)]) copy' := by
  obtain ⟨ren, hren, hcopy⟩ := h
  refine ⟨ren, hren, ?_⟩
  rw [objcopy.update_ok hok, hcopy, List.map_map]
  refine List.map_congr_left fun s _ => ?_
  by_cases hname : (rewrite edits s).name = name
  · have hname' : ((rewrite edits s).renumber ren).name = name := hname
    rw [Function.comp_apply, if_pos hname', rewrite_append, if_pos hname]
    rfl
  · have hname' : ((rewrite edits s).renumber ren).name ≠ name := hname
    rw [Function.comp_apply, if_neg hname', rewrite_append, if_neg hname]

/-- **A removal keeps that much less.** -/
theorem remove (h : PatchedBy keep part edits copy)
    (hok : objcopy.removeSection copy name = .ok copy') :
    PatchedBy (fun s => keep s && notNamed name s) part edits copy' := by
  obtain ⟨ren, hren, hcopy⟩ := h
  obtain ⟨ren', hren', hcopy'⟩ := objcopy.remove_ok hok
  -- a section has kept its name through edits and removals
  have hnamed : notNamed name ∘ (fun s => (rewrite edits s).renumber ren) = notNamed name := by
    funext s
    simp only [Function.comp_apply, notNamed, renumber_name, rewrite_name]
  rw [hcopy] at hren' hcopy'
  have hren'' : Renumbers (notNamed name) (part.sections.filter keep) ren' := by
    rw [← hnamed]
    exact hren'.of_map
  refine ⟨ren' ∘ ren, hren.comp hren'', ?_⟩
  rw [hcopy', List.filter_map, List.map_map, hnamed, List.filter_filter]
  simp only [Bool.and_comm, Function.comp_def, Section.renumber_comp]

end PatchedBy

/-- The tables kept after one more edit. -/
theorem keptBy_append (names : List String) (s : Section) :
    keptBy (names ++ [name]) s = (keptBy names s && notNamed (".rel" ++ name) s) := by
  simp [keptBy, notNamed, not_or]

/-- What `replace_section` writes is what the data file holds. -/
theorem replaceSection_ok {host : Host} {copy' : ElfFile} {dataFile : DataFile}
    (hok : SectionReplacement.replaceSection host copy name dataFile = .ok copy') :
    ∃ data, dataFile.bytes host = .ok data ∧
      host.objcopy.updateSection copy name data = .ok copy' := by
  cases dataFile with
  | written bytes => exact ⟨bytes, rfl, hok⟩
  | path p =>
    cases hread : host.readBytes p with
    | ok bytes =>
      simp only [SectionReplacement.replaceSection, hread] at hok
      exact ⟨bytes, hread, hok⟩
    | error e =>
      simp only [SectionReplacement.replaceSection, hread] at hok
      cases hok

/-- **A step keeps the invariant**, with its edit. -/
theorem Patched.step {host : Host} {c : Comparator} {r : SectionReplacement} {copy' : ElfFile}
    (hpart : c.symbolized.parsedPart = .ok part) (h : Patched part edits copy)
    (hok : r.modifyInplace host c copy = .ok copy') :
    ∃ edit, r.edit host c = .ok edit ∧ Patched part (edits ++ [edit]) copy' := by
  obtain ⟨dataFile, hdata, hok⟩ := bind_eq_ok_iff.1 hok
  obtain ⟨name, hname, hok⟩ := bind_eq_ok_iff.1 hok
  obtain ⟨mid, hmid, hok⟩ := bind_eq_ok_iff.1 hok
  obtain ⟨part', hpart', hok⟩ := bind_eq_ok_iff.1 hok
  obtain rfl : part = part' := Except.ok.inj (hpart.symm.trans hpart')
  obtain ⟨data, hbytes, hupdate⟩ := replaceSection_ok hmid
  have hedit : r.edit host c = .ok (name, data) := by
    simp only [SectionReplacement.edit, hdata, hname, hbytes, ok_bind]
    rfl
  have hmid' := PatchedBy.update h hupdate
  have hkept : ∀ s, keptBy ((edits ++ [(name, data)]).map Prod.fst) s =
      (keptBy (edits.map Prod.fst) s && notNamed (".rel" ++ name) s) := by
    intro s
    rw [List.map_append]
    exact keptBy_append _ s
  refine ⟨(name, data), hedit, ?_⟩
  cases hfind : part.getSectionByName (".rel" ++ name) with
  | some table =>
    rw [hfind] at hok
    exact (hmid'.remove hok).congr fun s _ => (hkept s).symm
  | none =>
    -- the original has no section of the name, so there is none to remove
    rw [hfind] at hok
    obtain rfl := Except.ok.inj hok
    refine hmid'.congr fun s hs => ?_
    have hne := List.find?_eq_none.1 hfind s (List.mem_reverse.2 hs)
    have hnot : notNamed (".rel" ++ name) s = true := by simpa [notNamed] using hne
    rw [hkept, hnot, Bool.and_true]

/-- **The loop keeps the invariant**, with the edits of its replacements. -/
theorem patched_of_foldlM {host : Host} {c : Comparator} {rs : List SectionReplacement}
    {copy' : ElfFile} (hpart : c.symbolized.parsedPart = .ok part) (h : Patched part edits copy)
    (hok : rs.foldlM (fun elf r => r.modifyInplace host c elf) copy = .ok copy') :
    ∃ edits', rs.mapM (·.edit host c) = .ok edits' ∧ Patched part (edits ++ edits') copy' := by
  -- along the replacements, each starting from the copy the last one left
  induction rs generalizing edits copy with
  | nil =>
    obtain rfl := Except.ok.inj hok
    exact ⟨[], rfl, by rwa [List.append_nil]⟩
  | cons r rs ih =>
    rw [List.foldlM_cons] at hok
    obtain ⟨mid, hmid, hok⟩ := bind_eq_ok_iff.1 hok
    obtain ⟨edit, hedit, hstep⟩ := h.step hpart hmid
    obtain ⟨edits', hedits, hrun⟩ := ih hstep hok
    refine ⟨edit :: edits', ?_, by rwa [List.append_assoc] at hrun⟩
    rw [List.mapM_cons, hedit, hedits]
    rfl

/-! ## What is left in the copy -/

/-- **The copy is consistent**: no relocation applies to a replaced
section, and those of every other section are in a table that still is
there, and still applies to it. Sections go by where the removal leaves
them, tables by the index in their header. -/
structure Consistent (part : ElfFile) (names : List String) (copy : ElfFile) : Prop where
  cleared : ∀ (i : ℕ) (s : Section), copy.sections[i]? = some s → s.name ∈ names →
    ∀ t ∈ copy.relSections, t.shInfo = i → t.rels = []
  preserved : ∀ (j : ℕ) (t s : Section), part.sections[j]? = some t → t.shType = .SHT_REL →
    t.rels ≠ [] → part.sections[t.shInfo]? = some s → s.name ∉ names →
      ∃ p q t', position (keptBy names) part.sections j = some p ∧
        position (keptBy names) part.sections t.shInfo = some q ∧
        copy.sections[p]? = some t' ∧ t'.shType = .SHT_REL ∧ t'.shInfo = q ∧ t'.rels = t.rels

/-- **Tables go by name**, in the original: one whose section is replaced
is named after a replaced section, or ends up empty; one with entries for
another section is not, nor is its section, and it is not itself rewritten
to other entries. -/
structure TablesByName (part : ElfFile) (edits : List (String × List UInt8)) : Prop where
  replaced : ∀ t ∈ part.relSections, ∀ s, part.sections[t.shInfo]? = some s →
    s.name ∈ edits.map Prod.fst → keptBy (edits.map Prod.fst) s → keptBy (edits.map Prod.fst) t →
      (rewrite edits t).rels = []
  others : ∀ t ∈ part.relSections, ∀ s, part.sections[t.shInfo]? = some s →
    s.name ∉ edits.map Prod.fst → t.rels ≠ [] →
      keptBy (edits.map Prod.fst) t ∧ keptBy (edits.map Prod.fst) s ∧
        (rewrite edits t).rels = t.rels

theorem ElfFile.mem_relSections {elf : ElfFile} {t : Section} :
    t ∈ elf.relSections ↔ t ∈ elf.sections ∧ t.shType = .SHT_REL := by
  simp only [relSections, List.mem_filter, decide_eq_true_eq]

/-- A table of the copy is a table, for whatever its section has become. -/
theorem table_header {ren : ℕ → ℕ} {t : Section} :
    ((rewrite edits t).renumber ren).shType = t.shType ∧
      (t.shType = .SHT_REL → ((rewrite edits t).renumber ren).shInfo = ren t.shInfo) := by
  obtain ⟨-, htype, hinfo⟩ := rewrite_header edits t
  refine ⟨htype, fun hrel => ?_⟩
  simp only [Section.renumber, htype, hinfo, if_pos hrel]

section

variable {keep : Section → Bool} {ren : ℕ → ℕ}

/-- A kept section has a place in the copy. -/
theorem exists_position_of_kept {i : ℕ} {s : Section} (hs : part.sections[i]? = some s)
    (hkeep : keep s) : ∃ k, position keep part.sections i = some k :=
  ⟨_, position_eq_some_iff.2 ⟨s, hs, hkeep, rfl⟩⟩

variable (hren : Renumbers keep part.sections ren)
  (hcopy : copy.sections = (part.sections.filter keep).map
    fun s => (rewrite edits s).renumber ren)

include hcopy

/-- A kept section is in the copy, where the removal leaves it. -/
theorem getElem?_copy {i k : ℕ} {s : Section} (hs : part.sections[i]? = some s)
    (hk : position keep part.sections i = some k) :
    copy.sections[k]? = some ((rewrite edits s).renumber ren) := by
  rw [hcopy, List.getElem?_map, getElem?_of_position hk, hs]
  rfl

/-- The copy's tables are the kept ones of the original. -/
theorem mem_relSections_copy {t' : Section} : t' ∈ copy.relSections ↔
    ∃ t ∈ part.relSections, keep t ∧ t' = (rewrite edits t).renumber ren := by
  rw [ElfFile.mem_relSections, hcopy, List.mem_map]
  constructor
  · rintro ⟨⟨t, ht, rfl⟩, hrel⟩
    obtain ⟨hmem, hkeep⟩ := List.mem_filter.1 ht
    exact ⟨t, ElfFile.mem_relSections.2 ⟨hmem, table_header.1.symm.trans hrel⟩, hkeep, rfl⟩
  · rintro ⟨t, ht, hkeep, rfl⟩
    obtain ⟨hmem, hrel⟩ := ElfFile.mem_relSections.1 ht
    exact ⟨⟨t, List.mem_filter.2 ⟨hmem, hkeep⟩, rfl⟩, table_header.1.trans hrel⟩

include hren

/-- **A table of the copy applies to what the original one does**: its
index is a section's only if that section was kept. -/
theorem shInfo_copy {k : ℕ} {t s' : Section} (hrel : t.shType = .SHT_REL)
    (hs' : copy.sections[k]? = some s') :
    ((rewrite edits t).renumber ren).shInfo = k ↔
      position keep part.sections t.shInfo = some k := by
  rw [table_header.2 hrel]
  constructor
  · intro hinfo
    have hlt : k < (part.sections.filter keep).length := by
      have hlt := (List.getElem?_eq_some_iff.1 hs').1
      rwa [hcopy, List.length_map] at hlt
    cases hpos : position keep part.sections t.shInfo with
    | none =>
      -- the index of a section that is gone is out of range
      have hout := hren.gone _ hpos
      omega
    | some k' => rw [← hinfo, hren.kept _ _ hpos]
  · intro hpos
    exact hren.kept _ _ hpos

/-- Nothing applies to a replaced section exactly where every table that
would is not kept or ends up empty. -/
theorem cleared_iff (names : List String) :
    (∀ (i : ℕ) (s : Section), copy.sections[i]? = some s → s.name ∈ names →
      ∀ t ∈ copy.relSections, t.shInfo = i → t.rels = []) ↔
    ∀ t ∈ part.relSections, ∀ s, part.sections[t.shInfo]? = some s → s.name ∈ names → keep s →
      keep t → (rewrite edits t).rels = [] := by
  constructor
  · -- a kept table and its section are a table and a section of the copy
    intro hcleared t ht s hs hname hks hkt
    obtain ⟨k, hk⟩ := exists_position_of_kept hs hks
    have hs' := getElem?_copy hcopy hs hk
    have hname' : ((rewrite edits s).renumber ren).name ∈ names := by
      rwa [renumber_name, rewrite_name]
    have hrel := (ElfFile.mem_relSections.1 ht).2
    have ht' := (mem_relSections_copy hcopy).2 ⟨t, ht, hkt, rfl⟩
    have hempty := hcleared k _ hs' hname' _ ht' ((shInfo_copy hren hcopy hrel hs').2 hk)
    rwa [renumber_rels] at hempty
  · -- and the copy has no others
    intro hnames k s' hs' hname t' ht' hinfo
    obtain ⟨t, ht, hkt, rfl⟩ := (mem_relSections_copy hcopy).1 ht'
    have hrel := (ElfFile.mem_relSections.1 ht).2
    have hpos := (shInfo_copy hren hcopy hrel hs').1 hinfo
    obtain ⟨s, hs, hks, -⟩ := position_eq_some_iff.1 hpos
    have hsame := Option.some.inj (hs'.symm.trans (getElem?_copy hcopy hs hpos))
    rw [hsame, renumber_name, rewrite_name] at hname
    exact hnames t ht s hs hname hks hkt

/-- The relocations of the other sections are still there exactly where
their tables and they are kept, and the tables not rewritten to others. -/
theorem preserved_iff (names : List String) :
    (∀ (j : ℕ) (t s : Section), part.sections[j]? = some t → t.shType = .SHT_REL →
      t.rels ≠ [] → part.sections[t.shInfo]? = some s → s.name ∉ names →
        ∃ p q t', position keep part.sections j = some p ∧
          position keep part.sections t.shInfo = some q ∧
          copy.sections[p]? = some t' ∧ t'.shType = .SHT_REL ∧ t'.shInfo = q ∧
          t'.rels = t.rels) ↔
    ∀ t ∈ part.relSections, ∀ s, part.sections[t.shInfo]? = some s → s.name ∉ names →
      t.rels ≠ [] → keep t ∧ keep s ∧ (rewrite edits t).rels = t.rels := by
  constructor
  · intro hpreserved t ht s hs hname hne
    obtain ⟨htmem, hrel⟩ := ElfFile.mem_relSections.1 ht
    obtain ⟨j, hj⟩ := List.getElem?_of_mem htmem
    obtain ⟨p, q, t', hp, hq, ht', -, -, hrels⟩ := hpreserved j t s hj hrel hne hs hname
    -- what has a position was kept
    obtain ⟨t₀, ht₀, hkt, -⟩ := position_eq_some_iff.1 hp
    obtain rfl : t = t₀ := Option.some.inj (hj.symm.trans ht₀)
    obtain ⟨s₀, hs₀, hks, -⟩ := position_eq_some_iff.1 hq
    obtain rfl : s = s₀ := Option.some.inj (hs.symm.trans hs₀)
    have hsame := Option.some.inj (ht'.symm.trans (getElem?_copy hcopy hj hp))
    rw [hsame, renumber_rels] at hrels
    exact ⟨hkt, hks, hrels⟩
  · intro hnames j t s hj hrel hne hs hname
    have ht := ElfFile.mem_relSections.2 ⟨List.mem_of_getElem? hj, hrel⟩
    obtain ⟨hkt, hks, hrels⟩ := hnames t ht s hs hname hne
    obtain ⟨p, hp⟩ := exists_position_of_kept hj hkt
    obtain ⟨q, hq⟩ := exists_position_of_kept hs hks
    have hinfo := (shInfo_copy hren hcopy hrel (getElem?_copy hcopy hs hq)).2 hq
    exact ⟨p, q, _, hp, hq, getElem?_copy hcopy hj hp, table_header.1.trans hrel, hinfo, hrels⟩

end

/-- **A patched copy is consistent exactly where tables go by name.** -/
theorem consistent_iff (h : Patched part edits copy) :
    Consistent part (edits.map Prod.fst) copy ↔ TablesByName part edits := by
  obtain ⟨ren, hren, hcopy⟩ := h
  have hcleared := cleared_iff hren hcopy (edits.map Prod.fst)
  have hpreserved := preserved_iff hren hcopy (edits.map Prod.fst)
  constructor
  · intro hcons
    exact ⟨hcleared.1 hcons.cleared, hpreserved.1 hcons.preserved⟩
  · intro hnames
    exact ⟨hcleared.2 hnames.replaced, hpreserved.2 hnames.others⟩

/-- **The relocatable that is relinked is consistent exactly where tables
go by name** in the symbolized one. -/
theorem replaceAndLink_consistent_iff (host : Host) (spec : ReplacementSpec) (c : Comparator)
    (part : File) (bin : BinFile) (hpart : c.symbolized.part = some part)
    (hok : spec.replaceAndLink host c = .ok bin) :
    ∃ edits copy, spec.replacements.mapM (·.edit host c) = .ok edits ∧ bin.part = some copy ∧
      (Consistent part.content (edits.map Prod.fst) copy.content ↔
        TablesByName part.content edits) := by
  have hparsed : c.symbolized.parsedPart = .ok part.content := by
    simp only [BinFile.parsedPart, hpart]
  obtain ⟨newRel, original, patched, -, horiginal, hpatched, hlinked⟩ :=
    ReplacementSpec.exists_of_replaceAndLink hok
  obtain rfl : part.content = original := Except.ok.inj (hparsed.symm.trans horiginal)
  have hnil : Patched part.content [] part.content :=
    (PatchedBy.refl part.content).congr fun s _ => by simp [keptBy]
  obtain ⟨edits, hedits, hrun⟩ := patched_of_foldlM hparsed hnil hpatched
  rw [List.nil_append] at hrun
  exact ⟨edits, _, hedits, (BinFile.of_fromRelocatable hlinked).2.1, consistent_iff hrun⟩

/-! ## A table of another name -/

/-- A text section and the table of its one relocation, which is named as
asked. -/
def partWithTable (table : String) : ElfFile :=
  .ofSections .ET_REL
    [{ name := ".text.40030000f", shType := .SHT_PROGBITS, shFlags := 6, shSize := 4
       data := [0xe8, 0, 0, 0] },
     { name := table, shType := .SHT_REL, shInfo := 1, shLink := 3
       data := [1, 0, 0, 0, 2, 1, 0, 0] },
     .ofSymbols [⟨"f", 0, .index 1, .STT_FUNC⟩]]

/-- A host on which the replacement's bytes are there to read. -/
def replacingHost : Host := .obliging [0x90] fun _ _ => none

/-- The comparison with that file as the symbolized one. -/
def tableComparator (table : String) : Comparator where
  truth := ⟨⟨⟨true, ["truth".toList]⟩, partWithTable table, 0⟩, none, []⟩
  symbolized :=
    ⟨⟨⟨true, ["part.elf".toList]⟩, partWithTable table, 2⟩,
      some ⟨⟨true, ["part".toList]⟩, partWithTable table, 1⟩, []⟩

/-- The text is replaced. -/
def replaceText : ReplacementSpec where
  behavior := { exitCode := some 0 }
  replacements := [{ binFile := some "/ret.bin", sectionName := some ".text.40030000f" }]

/-- **The relocation of the old text is left to patch the new.** -/
theorem not_consistent_of_table_name :
    ∃ bin copy, replaceText.replaceAndLink replacingHost (tableComparator ".rel.text") = .ok bin ∧
      bin.part = some copy ∧
      ¬ Consistent (partWithTable ".rel.text") [".text.40030000f"] copy.content := by
  refine ⟨_, _, rfl, rfl, fun h => ?_⟩
  have hempty := h.cleared 1 _ rfl (by decide) _ (List.mem_filter.2 ⟨.tail _ (.tail _ (.head _)), rfl⟩)
    rfl
  exact absurd hempty (by decide)

theorem replaceAndLink_consistent_iff_sample :
    ∃ bin copy, replaceText.replaceAndLink replacingHost (tableComparator ".rel.text.40030000f") =
        .ok bin ∧ bin.part = some copy ∧
      Consistent (partWithTable ".rel.text.40030000f") [".text.40030000f"] copy.content := by
  obtain ⟨edits, copy, hedits, hcopy, hiff⟩ := replaceAndLink_consistent_iff replacingHost
    replaceText (tableComparator ".rel.text.40030000f") _ _ rfl rfl
  obtain rfl := Except.ok.inj hedits
  exact ⟨_, copy, rfl, hcopy, hiff.2 ⟨by decide, by decide⟩⟩

end Checklib
