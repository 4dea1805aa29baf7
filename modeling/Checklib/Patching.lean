import Checklib.Relinking
import Checklib.Replacement

/-!
# Patching a copy, over the disk

`replace_and_link` copies the answer and lets `objcopy` write the copy
again and again, reading the names to replace from the original. The
copy's contents follow the fold that the model on contents makes of the
replacements, whether the bytes come from a file of the test or from a
dump made on the way.
-/

namespace Checklib

open Common Trial

theorem SectionReplacement.replaceSection_eq {host : Host} {elf : ElfFile} {name : String}
    {data : DataFile} : SectionReplacement.replaceSection host elf name data =
      match data.bytes host with
      | .ok bytes => host.objcopy.updateSection elf name bytes
      | .error _ => .error (.calledProcess "objcopy") := by
  cases data <;> rfl

/-- The address `get_replaced_section_name` looks for. -/
def SectionReplacement.replacedVaddr (c : Comparator) (r : SectionReplacement) :
    Except PyError (Option ℕ) :=
  match truthy r.symbolName with
  | some name => do
    let vaddr ← symbolVaddr name (c.truth.elf.content.sections.filter (·.shType = .SHT_SYMTAB))
    return some vaddr
  | none => .ok r.vaddr

/-- Without a name given, the name is that of the section at an address. -/
theorem SectionReplacement.getReplacedSectionName_of_none {host : Host} {c : Comparator}
    {r : SectionReplacement} (h : truthy r.sectionName = none) :
    r.getReplacedSectionName host c = (do
      let vaddr ← r.replacedVaddr c
      let part ← c.symbolized.parsedPart
      let found ← findSectionForVaddr host.runtime vaddr part.sections
      return found.name) := by
  unfold getReplacedSectionName replacedVaddr
  rw [h]
  cases truthy r.symbolName with
  | none => rfl
  | some name =>
    show _ = ((symbolVaddr name _ >>= fun vaddr => pure (some vaddr)) >>= _)
    rw [bind_assoc]

namespace OnDisk

variable {m : Machine} {w : World} {p q : Path}

theorem readBytes_congr {w' : World} (h : w'.written p = w.written p) :
    w'.readBytes m p = w.readBytes m p := by
  rw [World.readBytes, World.readBytes, h]

/-- A file read where nothing has been written over it. -/
theorem simulates_load_bind {α β : Type} {f : ElfFile → Run α} {g : ElfFile → Except PyError β}
    {Q : α → β → World → Prop} {E : World → Prop} (h : w.written p = none) (hE : E w)
    (hf : ∀ elf, Simulates (· = w) (f elf) (g elf) Q E) :
    Simulates (· = w) (load m p >>= f) (m.loadElf p >>= g) Q E := by
  rw [load, bind_assoc]
  refine simulates_get_bind ?_
  rintro _ rfl
  rw [load_of_not_written h]
  exact simulates_outcome_bind (fun _ h => h ▸ hE) fun elf _ => hf elf

theorem leaves_readBytes (m : Machine) {α : Type} {x : Run α} (h : Spares p x) :
    Leaves (fun w : World => w.readBytes m p) x := fun w => readBytes_congr (h w)

section Patch

variable {c : Comparator} {c' : Checklib.Comparator} {spec : ReplacementSpec}
variable {reads dumps : List Path} {newRel : Path} {r : SectionReplacement}

/-- **The copy and the dumps are apart** from what the comparator's objects
depend on and from what the specification reads. -/
structure Comparator.PatchesApart (c : Comparator) (reads dumps : List Path) (newRel : Path) :
    Prop where
  separate : c.Separate reads
  copy : (¬ c.truth.Uses newRel ∧ ¬ c.symbolized.Uses newRel) ∧ newRel ∉ reads
  dumps : ∀ p ∈ dumps, (¬ c.truth.Uses p ∧ ¬ c.symbolized.Uses p) ∧ p ∉ reads ∧ p ≠ newRel

theorem apartFrom_of_not_uses (htruth : ¬ c.truth.Uses p) (hsymbolized : ¬ c.symbolized.Uses p) :
    c.ApartFrom p where
  truth := by
    rintro dst hto rfl
    exact htruth (.inr (.inr hto))
  symbolized := by
    rintro dst hto rfl
    exact hsymbolized (.inr (.inr hto))

theorem apartFrom_of_mem_reads (hsep : c.Separate reads) (hp : p ∈ reads) : c.ApartFrom p where
  truth := by
    rintro dst hto rfl
    exact (hsep.truth p hto).2.2 hp
  symbolized := by
    rintro dst hto rfl
    exact (hsep.symbolized p hto).2.2 hp

/-- The copy holds `elf`, and nothing remembered is stale. -/
structure Patching (m : Machine) (c : Comparator) (c' : Checklib.Comparator) (reads : List Path)
    (newRel : Path) (elf : ElfFile) (w : World) : Prop where
  coherent : Coherent m c c' reads w
  copy : w.written newRel = some (.elf elf (m.patchedAt elf))

/-- **A data file is there**, with the bytes the other model has for it. -/
theorem getOrCreateBinFile_simulates {elf : ElfFile}
    (hap : c.PatchesApart reads dumps newRel) (hdumps : r.dumps m.base ⊆ dumps)
    (hreads : r.reads m.base ⊆ reads) :
    Simulates (Patching m c c' reads newRel elf) (getOrCreateBinFile m r)
      (r.getOrCreateBinFile m.toHost)
      (fun p data w => c.ApartFrom p ∧ Patching m c c' reads newRel elf w ∧
        w.readBytes m p = data.bytes m.toHost) (fun _ => True) := by
  unfold getOrCreateBinFile SectionReplacement.getOrCreateBinFile
  unfold SectionReplacement.dumps at hdumps
  unfold SectionReplacement.reads at hreads
  cases hbin : truthy r.binFile with
  | some path =>
    rw [hbin] at hreads
    have hpath : gitPath m.base path ∈ reads := hreads (List.mem_singleton_self _)
    refine simulates_pure fun w hw => ⟨apartFrom_of_mem_reads hap.separate hpath, hw, ?_⟩
    exact readBytes_of_not_written (hw.coherent.reads _ hpath)
  | none =>
    rw [hbin] at hdumps hreads
    rcases hsec : r.fromElfSection with - | ⟨path, name⟩
    · exact simulates_throw fun _ _ => trivial
    · rw [hsec] at hdumps hreads
      have hpath : gitPath m.base path ∈ reads := hreads (List.mem_singleton_self _)
      refine simulates_outcome_bind (fun _ _ => trivial) fun newBinFile hnew => ?_
      simp only [hnew] at hdumps
      obtain ⟨⟨htruth, hsymbolized⟩, hnotRead, hne⟩ :=
        hap.dumps newBinFile (hdumps (List.mem_singleton_self _))
      refine Simulates.of_forall_eq fun w hw => ?_
      refine simulates_load_bind (hw.coherent.reads _ hpath) trivial fun elf' => ?_
      cases elf'.getSectionByName name with
      | none => exact simulates_throw fun _ _ => trivial
      | some s =>
        refine simulates_bind_of_on rfl (simulates_pure ?_)
        rintro _ rfl
        refine ⟨apartFrom_of_not_uses htruth hsymbolized, ⟨?_, ?_⟩, ?_⟩
        · exact hw.coherent.write htruth hsymbolized hnotRead
        · rw [written_write_ne hne.symm, hw.copy]
        · rw [World.readBytes, written_write_self]
          rfl

theorem replacedVaddr_simulates (hsep : c.Separate reads) :
    Simulates (Coherent m c c' reads) (replacedVaddr m c r) (r.replacedVaddr c')
      (fun a b w => a = b ∧ Coherent m c c' reads w) (fun _ => True) := by
  unfold replacedVaddr SectionReplacement.replacedVaddr
  cases truthy r.symbolName with
  | none => exact simulates_pure fun _ h => ⟨rfl, h⟩
  | some name =>
    show Simulates _ (c.truth.parsed m .elf >>= _) (c'.truth.parsedKind m.toHost .elf >>=
      fun truth => symbolVaddr name (truth.sections.filter (·.shType = .SHT_SYMTAB)) >>=
        fun vaddr => pure (some vaddr)) _ _
    refine ((parsed_truth_simulates hsep .elf).weaken (fun _ h => h) (fun _ _ _ h => h)
      fun _ _ => trivial).bind fun truth _ _ => Simulates.of_forall_eq ?_
    rintro w ⟨rfl, hw⟩
    refine simulates_outcome_bind (fun _ _ => trivial) fun vaddr _ => ?_
    exact simulates_pure fun _ h => ⟨rfl, h ▸ hw⟩

/-- **The name to replace** is looked up without writing anything. -/
theorem getReplacedSectionName_simulates (hsep : c.Separate reads) :
    Simulates (Coherent m c c' reads) (getReplacedSectionName m c r)
      (r.getReplacedSectionName m.toHost c') (fun a b w => a = b ∧ Coherent m c c' reads w)
      (fun _ => True) := by
  cases hname : truthy r.sectionName with
  | some name =>
    unfold getReplacedSectionName SectionReplacement.getReplacedSectionName
    rw [hname]
    exact simulates_pure fun _ h => ⟨rfl, h⟩
  | none =>
    rw [SectionReplacement.getReplacedSectionName_of_none hname, getReplacedSectionName, hname]
    refine (replacedVaddr_simulates hsep).bind fun vaddr _ _ => Simulates.of_forall_eq ?_
    rintro w ⟨rfl, hw⟩
    refine ((parsed_symbolized_simulates hsep .part).weaken (fun _ h => h ▸ hw)
      (fun _ _ _ h => h) fun _ _ => trivial).bind fun part _ _ => Simulates.of_forall_eq ?_
    rintro w₁ ⟨rfl, hw₁⟩
    refine simulates_outcome_bind (fun _ _ => trivial) fun found _ => ?_
    exact simulates_pure fun _ h => ⟨rfl, h ▸ hw₁⟩

/-! ## One replacement -/

theorem Patching.write {elf elf' : ElfFile} (hap : c.PatchesApart reads dumps newRel)
    (h : Patching m c c' reads newRel elf w) :
    Patching m c c' reads newRel elf' (w.write newRel (.elf elf' (m.patchedAt elf'))) where
  coherent := h.coherent.write hap.copy.1.1 hap.copy.1.2 hap.copy.2
  copy := written_write_self

/-- **The bytes of a section are replaced** in the copy. -/
theorem replaceSection_simulates {elf : ElfFile} {name : String} {data : DataFile}
    (hap : c.PatchesApart reads dumps newRel) (hw : Patching m c c' reads newRel elf w)
    (hdata : w.readBytes m p = data.bytes m.toHost) :
    Simulates (· = w) (replaceSection m newRel newRel name p)
      (SectionReplacement.replaceSection m.toHost elf name data)
      (fun _ elf' w => Patching m c c' reads newRel elf' w) (fun _ => True) := by
  rw [SectionReplacement.replaceSection_eq]
  refine simulates_get_bind ?_
  rintro _ rfl
  rw [load_of_written hw.copy, hdata]
  cases data.bytes m.toHost with
  | error e => exact simulates_throw fun _ _ => trivial
  | ok bytes =>
    refine simulates_outcome_then (fun _ _ => trivial) fun elf' _ => ?_
    rintro _ rfl
    exact .inl ⟨⟨⟩, elf', rfl, rfl, hw.write hap⟩

/-- **The table of a section is removed** from the copy. -/
theorem removeSection_simulates {elf : ElfFile} {name : String}
    (hap : c.PatchesApart reads dumps newRel) (hw : Patching m c c' reads newRel elf w) :
    Simulates (· = w) (removeSection m newRel newRel name)
      (m.objcopy.removeSection elf name)
      (fun _ elf' w => Patching m c c' reads newRel elf' w) (fun _ => True) := by
  refine simulates_bind_of_on (toolInput_on (load_of_written hw.copy)) ?_
  refine simulates_outcome_then (fun _ _ => trivial) fun elf' _ => ?_
  rintro _ rfl
  exact .inl ⟨⟨⟩, elf', rfl, rfl, hw.write hap⟩

/-- **One replacement** takes the copy where the other model takes its
contents. -/
theorem modifyInplace_simulates {elf : ElfFile} (hap : c.PatchesApart reads dumps newRel)
    (hdumps : r.dumps m.base ⊆ dumps) (hreads : r.reads m.base ⊆ reads) :
    Simulates (Patching m c c' reads newRel elf) (modifyInplace m newRel c r)
      (r.modifyInplace m.toHost c' elf)
      (fun _ elf' w => Patching m c c' reads newRel elf' w) (fun _ => True) := by
  refine (getOrCreateBinFile_simulates hap hdumps hreads).bind fun p data _ => ?_
  refine Simulates.of_forall_eq fun w hw => ?_
  obtain ⟨hapart, hpatching, hdata⟩ := hw
  -- looking the name up disturbs neither the copy nor the bytes
  have hcopy : c.ApartFrom newRel := apartFrom_of_not_uses hap.copy.1.1 hap.copy.1.2
  have hlookup : Simulates (Coherent m c c' reads) (getReplacedSectionName m c r)
      (r.getReplacedSectionName m.toHost c') (fun a b w => a = b ∧ Coherent m c c' reads w)
      (fun _ => True) := getReplacedSectionName_simulates hap.separate
  have hname := (hlookup.keeping (spares_getReplacedSectionName hcopy) (w.written newRel)).keeping
    (leaves_readBytes m (spares_getReplacedSectionName hapart)) (w.readBytes m p)
  refine (hname.weaken ?_ (fun _ _ _ h => h) fun _ _ => trivial).bind fun name _ _ => ?_
  · rintro _ rfl
    exact ⟨⟨hpatching.coherent, rfl⟩, rfl⟩
  refine Simulates.of_forall_eq ?_
  rintro w₁ ⟨⟨⟨rfl, hcoherent⟩, hsame⟩, hbytes⟩
  have hpatching₁ : Patching m c c' reads newRel elf w₁ :=
    ⟨hcoherent, by rw [hsame, hpatching.copy]⟩
  refine (replaceSection_simulates hap hpatching₁ (by rw [hbytes, hdata])).bind fun _ elf' _ => ?_
  -- and neither does the look at the original for the table's name
  refine Simulates.of_forall_eq fun w₂ hw₂ => ?_
  have hparsed : Simulates (Coherent m c c' reads) (c.symbolized.parsed m .part)
      (c'.symbolized.parsedKind m.toHost .part) (fun f f' w => f = f' ∧ Coherent m c c' reads w)
      (Coherent m c c' reads) := parsed_symbolized_simulates hap.separate .part
  have hpart := hparsed.keeping (spares_parsed hcopy.symbolized) (w₂.written newRel)
  refine (hpart.weaken ?_ (fun _ _ _ h => h) fun _ _ => trivial).bind fun part _ _ => ?_
  · rintro _ rfl
    exact ⟨hw₂.coherent, rfl⟩
  refine Simulates.of_forall_eq ?_
  rintro w₃ ⟨⟨rfl, hcoherent₃⟩, hsame₃⟩
  have hpatching₃ : Patching m c c' reads newRel elf' w₃ := ⟨hcoherent₃, by rw [hsame₃, hw₂.copy]⟩
  cases part.getSectionByName (".rel" ++ name) with
  | some _ => exact removeSection_simulates hap hpatching₃
  | none =>
    refine simulates_pure ?_
    rintro _ rfl
    exact hpatching₃

/-! ## All of them -/

/-- The copy is made of the original. -/
theorem copyPart_simulates {part : File} (hap : c.PatchesApart reads dumps newRel)
    (hpart : c'.symbolized.part = some part) :
    Simulates (Coherent m c c' reads) (copyPart m c.symbolized newRel) (.ok part.content)
      (fun _ elf w => Patching m c c' reads newRel elf w) (fun _ => True) := by
  refine Simulates.of_forall_eq fun w hw => ?_
  have hpath : c.symbolized.part = some part.path := by
    rw [hw.symbolized.part_path, hpart, Option.map_some]
  unfold copyPart
  rw [hpath]
  refine simulates_get_bind ?_
  rintro _ rfl
  rw [hw.symbolized.part part hpart]
  rintro _ rfl
  refine .inl ⟨⟨⟩, part.content, rfl, rfl, ?_, written_write_self⟩
  exact hw.write hap.copy.1.1 hap.copy.1.2 hap.copy.2

/-- **The loop over the replacements** follows the fold. -/
theorem modifyAll_simulates {elf : ElfFile} (hap : c.PatchesApart reads dumps newRel)
    (hdumps : ∀ r ∈ spec.replacements, r.dumps m.base ⊆ dumps)
    (hreads : ∀ r ∈ spec.replacements, r.reads m.base ⊆ reads) :
    Simulates (Patching m c c' reads newRel elf)
      (spec.replacements.forM fun r => modifyInplace m newRel c r)
      (spec.modifyAll m.toHost c' elf)
      (fun _ elf' w => Patching m c c' reads newRel elf' w) (fun _ => True) :=
  simulates_forM fun r hr _ => modifyInplace_simulates hap (hdumps r hr) (hreads r hr)

end Patch

end OnDisk

end Checklib
