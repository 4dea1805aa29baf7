import Checklib.Patching

/-!
# Scoring, over the disk

The two models meet here: `score_symbolization` and `check_single`, run
over a disk whose names do not collide, raise what the functions on
contents raise and score what they score.
-/

namespace Checklib

open Common Trial

/-- **`check_single`, on contents**: the sanity check, and the score. -/
def TestSpec.checkSingle (host : Host) (spec : TestSpec) (testBin : BinFile) (symbolized : File)
    (stdin₀ stdin₁ stdin₂ : List UInt8) : Except PyError ℚ := do
  let failed ← spec.testValidationSanityCheck host testBin stdin₀
  if failed then .error (.assertion "")
  else spec.scoreSymbolization host testBin symbolized [] stdin₁ stdin₂

/-- **No two of the names a test uses are one**: the files given and
written, the dumps, and the files read besides. -/
def TestSpec.NamesApart (base : PathBase) (spec : TestSpec) (symbolized truth : Path) : Prop :=
  ∃ writes, checkSingleWrites symbolized truth = .ok writes ∧
    (symbolized :: truth :: writes).Nodup ∧
    (∀ p ∈ spec.dumps base, p ∉ symbolized :: truth :: writes) ∧
    ∀ p ∈ spec.reads base, p ∉ writes ∧ p ∉ spec.dumps base

/-- **An object file beside the executable** is not written over. -/
def TestSpec.Spared (base : PathBase) (spec : TestSpec) (s g : Path) (beside : Option Path) :
    Prop :=
  ∀ p, beside = some p → p ∉ spec.dumps base ∧
    ∀ writes, checkSingleWrites s g = .ok writes → p ∉ writes

theorem TestSpec.dumps_subset {base : PathBase} {spec : TestSpec} {r : SectionReplacement}
    (hr : r ∈ spec.replacement.replacements) : r.dumps base ⊆ spec.dumps base :=
  fun _ hp => List.mem_flatMap.2 ⟨r, hr, hp⟩

theorem TestSpec.reads_subset {base : PathBase} {spec : TestSpec} {r : SectionReplacement}
    (hr : r ∈ spec.replacement.replacements) : r.reads base ⊆ spec.reads base :=
  fun _ hp => List.mem_append_right _ (List.mem_flatMap.2 ⟨r, hr, hp⟩)

namespace OnDisk

variable {m : Machine} {w : World} {spec : TestSpec} {stdin : List UInt8}

/-! ## Replacing, judged -/

section Compare

variable {c : Comparator} {c' : Checklib.Comparator} {reads dumps : List Path}

/-- **The names of the patched copy and of what is linked from it** are
apart from the others. -/
def Comparator.LinksApart (c : Comparator) (reads dumps : List Path) : Prop :=
  ∀ newRel, withSuffixOr c.symbolized.elf ".hax.part".toList = .ok newRel →
    c.PatchesApart reads dumps newRel ∧
      ∀ elf, withSuffixOr newRel (newRel.suffix ++ ".elf".toList) = .ok elf →
        elf ≠ newRel ∧ elf ∉ reads

/-- **A copy is patched and linked** with the contents of the other model. -/
theorem replaceAndLink_simulates (spec : ReplacementSpec) {part : File}
    (hap : c.LinksApart reads dumps) (hpart : c'.symbolized.part = some part)
    (hdumps : ∀ r ∈ spec.replacements, r.dumps m.base ⊆ dumps)
    (hreads : ∀ r ∈ spec.replacements, r.reads m.base ⊆ reads) :
    Simulates (Coherent m c c' reads) (replaceAndLink m spec c) (spec.replaceAndLink m.toHost c')
      (fun ref bin w => w.load m ref.elf = .ok bin.elf.content ∧ ∀ p ∈ reads, w.written p = none)
      (fun _ => True) := by
  refine Simulates.of_forall_eq fun w hw => ?_
  unfold replaceAndLink ReplacementSpec.replaceAndLink
  rw [← hw.symbolized.elf_path, BinFile.parsedPart, hpart, ← hw.symbolized.flags]
  refine simulates_outcome_bind (fun _ _ => trivial) fun newRel hnewRel => ?_
  obtain ⟨hpatches, hlinks⟩ := hap newRel hnewRel
  refine ((copyPart_simulates hpatches hpart).weaken (fun _ h => h ▸ hw) (fun _ _ _ h => h)
    fun _ h => h).bind fun _ _ _ => ?_
  refine (modifyAll_simulates hpatches hdumps hreads).bind fun _ patched _ => ?_
  cases spec.objOverride with
  | some obj => exact simulates_throw fun _ _ => trivial
  | none =>
    refine Simulates.of_forall_eq fun w₁ hw₁ => ?_
    have hcopy : w₁.contents m newRel = .ok (.elf patched (m.patchedAt patched)) := by
      rw [World.contents, hw₁.copy]
    have hlink := fromRelocatable_simulates .replaced ⟨newRel, patched, m.patchedAt patched⟩
      (.list c.symbolized.linkExtraFlags) hcopy (present_of_written hw₁.copy)
      fun elf helf => (hlinks elf helf).1
    refine hlink.weaken (fun _ h => h) ?_ fun _ h => h
    rintro ref bin w₂ ⟨helf, -, rfl, rfl⟩
    refine ⟨load_of_written written_write_self, fun p hp => ?_⟩
    rw [written_linkedWorld_ne, hw₁.coherent.reads p hp]
    rintro rfl
    exact (hlinks _ helf).2 hp

/-- **A replacement is judged the same.** -/
theorem evaluateReplacement_simulates {part : File} (hap : c.LinksApart reads dumps)
    (hpart : c'.symbolized.part = some part) (hdumps : spec.dumps m.base ⊆ dumps)
    (hreads : spec.reads m.base ⊆ reads) :
    Simulates (Coherent m c c' reads) (evaluateReplacement m spec c stdin)
      (spec.evaluateReplacement m.toHost c' stdin) (fun a b _ => a = b) (fun _ => True) := by
  have hreplace := replaceAndLink_simulates spec.replacement hap hpart
    (fun r hr p hp => hdumps (TestSpec.dumps_subset hr hp))
    fun r hr p hp => hreads (TestSpec.reads_subset hr hp)
  unfold TestSpec.evaluateReplacement
  refine hreplace.attempt_bind (fun ref bin hok => ?_) fun e herror => ?_
  · rw [hok]
    refine Simulates.of_forall_eq fun w hw => ?_
    have hrun := compareOutput_simulates spec.replacement.behavior stdin hw.1
      fun p hp => hw.2 p (hreads (List.mem_append_left _ (List.mem_append_right _ hp)))
    refine (hrun.weaken (fun _ h => h) (fun _ _ _ h => h) fun _ _ => trivial).bind
      fun errs _ _ => ?_
    exact simulates_pure fun _ h => by rw [h.1]
  · rw [herror]
    exact simulates_pure fun _ _ => rfl

end Compare

/-! ## The names -/

/-- A `BinFile` depends on three names and no others. -/
theorem BinRef.not_uses {ref : BinRef} {stripped q : Path} (hstrip : ref.StripsTo stripped)
    (helf : q ≠ ref.elf) (hpart : ref.part ≠ some q) (hq : q ≠ stripped) : ¬ ref.Uses q := by
  rintro (h | h | h)
  · exact helf h
  · exact hpart h
  · exact hq (Except.ok.inj (h.symm.trans hstrip))

/-- Where the names are apart, stripping, patching and linking keep to
their own. -/
theorem apart_of_names {spec : TestSpec} {base : PathBase} {s g : Path} {beside : Option Path}
    (bin : BinRef) (h : spec.NamesApart base s g) (hspared : spec.Spared base s g beside)
    (helf : withSuffixOr s (s.suffix ++ ".elf".toList) = .ok bin.elf)
    (hside : bin.side = .symbolized) (hpart : bin.part = some s) :
    Comparator.Separate ⟨⟨.truth, g, beside, []⟩, bin⟩ (spec.reads base) ∧
      Comparator.LinksApart ⟨⟨.truth, g, beside, []⟩, bin⟩ (spec.reads base) (spec.dumps base) ∧
      (bin.elf ≠ s ∧ bin.elf ≠ g) ∧ (∀ p, beside = some p → p ≠ bin.elf) ∧
      bin.elf ∉ spec.reads base := by
  obtain ⟨writes, hwrites, hnodup, hdumps, hreads⟩ := h
  have hbesideWrites : ∀ q ∈ writes, beside ≠ some q := fun q hq hp =>
    (hspared q hp).2 writes hwrites hq
  have hbesideDumps : ∀ q ∈ spec.dumps base, beside ≠ some q := fun q hq hp => (hspared q hp).1 hq
  have hreadsWrites : ∀ q ∈ writes, q ∉ spec.reads base := fun q hq hp => (hreads q hp).1 hq
  obtain ⟨relinked, hrelinked, hwrites⟩ := bind_eq_ok_iff.1 hwrites
  obtain ⟨strippedTruth, htruth, hwrites⟩ := bind_eq_ok_iff.1 hwrites
  obtain ⟨strippedSymbolized, hsymbolized, hwrites⟩ := bind_eq_ok_iff.1 hwrites
  obtain ⟨newRel, hnewRel, hwrites⟩ := bind_eq_ok_iff.1 hwrites
  obtain ⟨newElf, hnewElf, hwrites⟩ := bind_eq_ok_iff.1 hwrites
  obtain rfl := Except.ok.inj hwrites
  obtain rfl := Except.ok.inj (hrelinked.symm.trans helf)
  simp only [List.forall_mem_cons] at hbesideWrites hreadsWrites
  obtain ⟨hbesideElf, hbesideTruth, hbesideSymbolized, hbesideRel, -⟩ := hbesideWrites
  obtain ⟨hreadsElf, hreadsTruth, hreadsSymbolized, hreadsRel, hreadsNewElf, -⟩ := hreadsWrites
  simp only [List.nodup_cons, List.mem_cons, List.not_mem_nil, or_false, not_or, ← ne_eq] at hnodup
  simp only [List.mem_cons, List.not_mem_nil, or_false, not_or] at hdumps
  -- which name differs from which: the answer's, the executable's, then those written
  obtain ⟨⟨-, hsElf, hsTruth, hsSymbolized, hsRel, -⟩,
    ⟨hgElf, hgTruth, hgSymbolized, hgRel, -⟩, ⟨helfTruth, helfSymbolized, helfRel, -⟩,
    ⟨hstrips, htruthRel, -⟩, ⟨hsymbolizedRel, -⟩, hrelElf, -⟩ := hnodup
  have hpartNe : ∀ {q}, s ≠ q → bin.part ≠ some q := fun hsq hq =>
    hsq (Option.some.inj (hpart.symm.trans hq))
  have hstripsTruth : BinRef.StripsTo ⟨.truth, g, beside, []⟩ strippedTruth := htruth
  have htruthUses : ∀ q, q ≠ g → beside ≠ some q → q ≠ strippedTruth →
      ¬ BinRef.Uses ⟨.truth, g, beside, []⟩ q := fun _ => BinRef.not_uses hstripsTruth
  have hsymbolizedUses : ∀ q, q ≠ bin.elf → s ≠ q → q ≠ strippedSymbolized → ¬ bin.Uses q :=
    fun _ helf hs => BinRef.not_uses hsymbolized helf (hpartNe hs)
  have hsep : Comparator.Separate ⟨⟨.truth, g, beside, []⟩, bin⟩ (spec.reads base) := by
    refine ⟨by rw [hside]; exact nofun, fun dst hdst => ?_, fun dst hdst => ?_⟩
    · obtain rfl := Except.ok.inj (htruth.symm.trans hdst)
      exact ⟨⟨hgTruth.symm, hbesideTruth⟩,
        hsymbolizedUses _ helfTruth.symm hsTruth hstrips, hreadsTruth⟩
    · obtain rfl := Except.ok.inj (hsymbolized.symm.trans hdst)
      exact ⟨⟨helfSymbolized.symm, hpartNe hsSymbolized⟩,
        htruthUses _ hgSymbolized.symm hbesideSymbolized hstrips.symm, hreadsSymbolized⟩
  have hlinks : Comparator.LinksApart ⟨⟨.truth, g, beside, []⟩, bin⟩ (spec.reads base)
      (spec.dumps base) := by
    intro rel hrel
    obtain rfl := Except.ok.inj (hnewRel.symm.trans hrel)
    refine ⟨⟨hsep, ⟨⟨?_, ?_⟩, hreadsRel⟩, fun p hp => ?_⟩, fun elf helf => ?_⟩
    · exact htruthUses _ hgRel.symm hbesideRel htruthRel.symm
    · exact hsymbolizedUses _ helfRel.symm hsRel hsymbolizedRel.symm
    · obtain ⟨hps, hpg, hpElf, hpTruth, hpSymbolized, hpRel, -⟩ := hdumps p hp
      exact ⟨⟨htruthUses p hpg (hbesideDumps p hp) hpTruth,
        hsymbolizedUses p hpElf (Ne.symm hps) hpSymbolized⟩, fun hread => (hreads p hread).2 hp,
        hpRel⟩
    · obtain rfl := Except.ok.inj (hnewElf.symm.trans helf)
      exact ⟨Ne.symm hrelElf, hreadsNewElf⟩
  refine ⟨hsep, hlinks, ⟨Ne.symm hsElf, Ne.symm hgElf⟩, ?_, hreadsElf⟩
  rintro p hp rfl
  exact hbesideElf hp

/-! ## Scoring -/

/-- **What a check is started on**: an executable and an answer that are
there, and nothing written yet where the specification reads. -/
structure Ready (m : Machine) (spec : TestSpec) (truth part : File) (w : World) : Prop where
  holdsTruth : w.load m truth.path = .ok truth.content
  truthThere : w.present m truth.path = true
  holdsPart : w.contents m part.path = .ok (.elf part.content part.mtime)
  partThere : w.present m part.path = true
  readsApart : ∀ p ∈ spec.reads m.base, w.written p = none

variable {truth part : File} {beside : Option File} {stdin₀ stdin₁ stdin₂ : List UInt8}

/-- The object file beside the executable is there, and stays. -/
structure Beside (m : Machine) (spec : TestSpec) (truth part : File) (beside : Option File)
    (w : World) : Prop where
  holds : ∀ f, beside = some f → w.contents m f.path = .ok (.elf f.content f.mtime)
  spared : spec.Spared m.base part.path truth.path (beside.map File.path)

theorem beside_none : Beside m spec truth part none w := ⟨nofun, nofun⟩

/-- Once the answer is linked, nothing is stale. -/
theorem coherent_linkedWorld {bin : BinFile} (h : Ready m spec truth part w)
    (hbeside : Beside m spec truth part beside w) (hcache : w.cache .truth = {})
    (hpart : bin.part = some part) (helf : bin.elf.path ≠ part.path ∧ bin.elf.path ≠ truth.path)
    (hbesideElf : ∀ f, beside = some f → f.path ≠ bin.elf.path)
    (hreads : bin.elf.path ∉ spec.reads m.base) :
    Coherent m ⟨⟨.truth, truth.path, beside.map File.path, []⟩,
        ⟨.symbolized, bin.elf.path, some part.path, bin.linkExtraFlags⟩⟩
      ⟨⟨truth, beside, []⟩, bin⟩ (spec.reads m.base) (linkedWorld w .symbolized bin) := by
  have htruth : (linkedWorld w .symbolized bin).cache .truth = {} := by
    have hne : Side.truth ≠ Side.symbolized := nofun
    rw [← hcache]
    exact Function.update_of_ne hne ({} : Cache) w.cache
  have hsymbolized : (linkedWorld w .symbolized bin).cache .symbolized = {} := cache_remember
  refine ⟨⟨rfl, rfl, rfl, ?_, fun f hf => ?_, ?_, ?_⟩, ⟨rfl, ?_, rfl, ?_, ?_, ?_, ?_⟩, ?_⟩
  · rw [← h.holdsTruth]
    exact load_congr (written_linkedWorld_ne helf.2.symm)
  · rw [← hbeside.holds f hf]
    exact contents_congr (written_linkedWorld_ne (hbesideElf f hf))
  · rw [htruth]
    exact nofun
  · rw [htruth]
    exact nofun
  · rw [hpart, Option.map_some]
  · exact load_of_written written_write_self
  · intro f hf
    obtain rfl := Option.some.inj (hpart.symm.trans hf)
    rw [← h.holdsPart]
    exact contents_congr (written_linkedWorld_ne helf.1.symm)
  · rw [hsymbolized]
    exact nofun
  · rw [hsymbolized]
    exact nofun
  · intro p hp
    rw [written_linkedWorld_ne, h.readsApart p hp]
    rintro rfl
    exact hreads hp

/-- **`score_symbolization` over the disk** scores what it scores on
contents. -/
theorem scoreSymbolization_simulates (hapart : spec.NamesApart m.base part.path truth.path)
    (h : Ready m spec truth part w) (hbeside : Beside m spec truth part beside w)
    (hcache : w.cache .truth = {}) (extra : List String) :
    Simulates (· = w)
      (scoreSymbolization m spec ⟨.truth, truth.path, beside.map File.path, []⟩ part.path extra
        stdin₁ stdin₂)
      (spec.scoreSymbolization m.toHost ⟨truth, beside, []⟩ part extra stdin₁ stdin₂)
      (fun a b _ => a = b) (fun _ => True) := by
  refine simulates_outcome_bind (fun _ _ => trivial) fun flags _ => ?_
  have hne : ∀ elf, withSuffixOr part.path (part.path.suffix ++ ".elf".toList) = .ok elf →
      elf ≠ part.path := fun elf helf =>
    (apart_of_names ⟨.symbolized, elf, some part.path, []⟩ hapart hbeside.spared helf rfl
      rfl).2.2.1.1
  refine (fromRelocatable_simulates .symbolized part (.list flags) h.holdsPart
    h.partThere hne).bind
    fun ref bin _ => Simulates.of_forall_eq ?_
  rintro w₁ ⟨helf, hpart, rfl, rfl⟩
  obtain ⟨hsep, hlinks, helfs, hbesideNe, helfReads⟩ := apart_of_names
    ⟨.symbolized, bin.elf.path, some part.path, bin.linkExtraFlags⟩ hapart hbeside.spared helf rfl
    rfl
  have hbesideElf : ∀ f, beside = some f → f.path ≠ bin.elf.path := fun f hf =>
    hbesideNe f.path (by rw [hf, Option.map_some])
  have hcoherent := coherent_linkedWorld h hbeside hcache hpart helfs hbesideElf helfReads
  have hpart' : BinFile.parsedPart bin = .ok part.content := by rw [BinFile.parsedPart, hpart]
  refine ((baseScore_simulates hsep hpart').weaken (fun _ h => h ▸ hcoherent) (fun _ _ _ h => h)
    fun _ _ => trivial).bind fun base _ _ => Simulates.of_forall_eq ?_
  rintro w₂ ⟨rfl, hw₂⟩
  have hunmodified : spec.unmodifiedBehavior.reads m.base ⊆ spec.reads m.base :=
    fun p hp => List.mem_append_left _ (List.mem_append_left _ hp)
  refine ((evaluateRelinking_simulates hsep hunmodified).weaken (fun _ h => h ▸ hw₂)
    (fun _ _ _ h => h) fun _ _ => trivial).bind fun rebuildFail _ _ => Simulates.of_forall_eq ?_
  rintro w₃ ⟨rfl, hw₃⟩
  refine ((evaluateReplacement_simulates hlinks hpart (fun _ h => h) fun _ h => h).weaken
    (fun _ h => h ▸ hw₃) (fun _ _ _ h => h) fun _ h => h).bind fun replacementFail _ _ => ?_
  exact simulates_pure fun _ h => by rw [h]

/-- **A check, of a ground truth that has been opened**: the sanity check,
and the score. -/
theorem checked_simulates (hapart : spec.NamesApart m.base part.path truth.path)
    (h : Ready m spec truth part w) (hbeside : Beside m spec truth part beside w)
    (hcache : w.cache .truth = {}) :
    Simulates (· = w)
      (testValidationSanityCheck m spec ⟨.truth, truth.path, beside.map File.path, []⟩ stdin₀ >>=
        fun failed => if failed then throw (.assertion "")
          else scoreSymbolization m spec ⟨.truth, truth.path, beside.map File.path, []⟩ part.path []
            stdin₁ stdin₂)
      (spec.checkSingle m.toHost ⟨truth, beside, []⟩ part stdin₀ stdin₁ stdin₂)
      (fun a b _ => a = b) (fun _ => True) := by
  have hsanity : Simulates (· = w)
      (testValidationSanityCheck m spec ⟨.truth, truth.path, beside.map File.path, []⟩ stdin₀)
      (spec.testValidationSanityCheck m.toHost ⟨truth, beside, []⟩ stdin₀)
      (fun a b w' => a = b ∧ w' = w) (fun _ => True) := by
    have hreads : ∀ p ∈ spec.unmodifiedBehavior.reads m.base, w.written p = none := fun p hp =>
      h.readsApart p (List.mem_append_left _ (List.mem_append_left _ hp))
    refine ((compareOutput_simulates spec.unmodifiedBehavior stdin₀ h.holdsTruth hreads).weaken
      (fun _ h => h) (fun _ _ _ h => h) fun _ _ => trivial).bind fun errs _ _ => ?_
    exact simulates_pure fun _ h => ⟨by rw [h.1], h.2⟩
  refine hsanity.bind fun failed _ _ => Simulates.of_forall_eq ?_
  rintro _ ⟨rfl, rfl⟩
  cases failed with
  | true => exact simulates_throw fun _ _ => trivial
  | false => exact scoreSymbolization_simulates hapart h hbeside hcache []

theorem validate_on_of_none {ref : BinRef} (hpart : ref.part = none)
    (helf : w.present m ref.elf = true) : (ref.validate m).on w = (.ok ⟨⟩, w) := by
  rw [BinRef.validate, on_get_bind, if_pos helf, hpart]
  rfl

/-- An executable that is there is opened. -/
theorem init_on {elf : Path} (h : w.present m elf = true) :
    (BinRef.init m ⟨.truth, elf, none, []⟩).on w =
      (.ok ⟨.truth, elf, none, []⟩, w.remember .truth {}) := by
  have hthere : (w.remember .truth {}).present m elf = true := h
  have hvalidate : (BinRef.validate m ⟨.truth, elf, none, []⟩).on (w.remember .truth {}) =
      (.ok ⟨⟩, w.remember .truth {}) := validate_on_of_none rfl hthere
  show Trial.on (BinRef.validate m _ >>= _) (w.remember .truth {}) = _
  rw [on_bind_of_on hvalidate]
  rfl

theorem Ready.remember (h : Ready m spec truth part w) :
    Ready m spec truth part (w.remember .truth {}) := ⟨h.1, h.2, h.3, h.4, h.5⟩

/-- The simulation of `check_single`, for every outcome. -/
theorem checkSingle_simulates (hapart : spec.NamesApart m.base part.path truth.path)
    (h : Ready m spec truth part w) :
    Simulates (· = w) (checkSingle m spec truth.path part.path stdin₀ stdin₁ stdin₂)
      (spec.checkSingle m.toHost ⟨truth, none, []⟩ part stdin₀ stdin₁ stdin₂)
      (fun a b _ => a = b) (fun _ => True) :=
  simulates_bind_of_on (init_on h.truthThere)
    (checked_simulates hapart h.remember beside_none cache_remember)

/-- **`check_single` over the disk** raises and scores what it does on
contents: nothing a `BinFile` remembers is ever stale, and no file is read
after another has been written in its place. -/
theorem checkSingle_eq (hapart : spec.NamesApart m.base part.path truth.path)
    (h : Ready m spec truth part w) :
    ((checkSingle m spec truth.path part.path stdin₀ stdin₁ stdin₂).on w).1 =
      spec.checkSingle m.toHost ⟨truth, none, []⟩ part stdin₀ stdin₁ stdin₂ :=
  (checkSingle_simulates hapart h).fst_eq rfl

/-- A test whose replacement is a section of another executable. -/
def dumpingSpec : TestSpec where
  linkMode := .static
  unmodifiedBehavior := { exitCode := some 0, expectedStdout := some "expected" }
  replacement :=
    { behavior := { exitCode := some 0 }
      replacements :=
        [{ fromElfSection := some ("new.elf", ".text"), sectionName := some ".text.40030000f" }] }

/-- That executable: a return. -/
def newExecutable : ElfFile :=
  .ofSections .ET_EXEC [{ name := ".text", shType := .SHT_PROGBITS, shSize := 1, data := [0xc3] }]

/-- A machine that holds such a test, an answer, and the other executable. -/
def dumpingMachine : Machine :=
  .obliging [(quietTest.elf.path, pltExecutable), ((answer absPart).path, absPart),
    (Path.ofString "new.elf", newExecutable)] absPart

theorem checkSingle_eq_sample :
    ((checkSingle dumpingMachine dumpingSpec quietTest.elf.path (answer absPart).path [] [] []).on
      .fresh).1 =
      dumpingSpec.checkSingle dumpingMachine.toHost quietTest (answer absPart) [] [] [] :=
  have hready : Ready dumpingMachine dumpingSpec quietTest.elf (answer absPart) .fresh :=
    ⟨rfl, rfl, rfl, rfl, by decide⟩
  checkSingle_eq ⟨_, rfl, by decide, by decide, by decide⟩ hready

/-! ## An executable alone -/

/-- **What `from_test` finds beside an executable**: nothing, or an object
file that is older. -/
structure Found (m : Machine) (truth : File) (beside : Option File) (w : World) (p : Path) :
    Prop where
  name : withSuffixOr truth.path ".part".toList = .ok p
  there : w.present m p = beside.isSome
  path : ∀ f, beside = some f → f.path = p
  older : beside.isSome = true → w.mtime m p < w.mtime m truth.path

theorem fromTest_on {p : Path} (helf : w.present m truth.path = true)
    (h : Found m truth beside w p) :
    (BinRef.fromTest m .truth truth.path).on w =
      (.ok ⟨.truth, truth.path, beside.map File.path, []⟩, w.remember .truth {}) := by
  unfold BinRef.fromTest
  rw [on_bind_of_on (init_on helf), on_outcome_bind h.name, on_get_bind]
  have hthere : (w.remember .truth {}).present m p = beside.isSome := h.there
  have hres : (if (w.remember .truth {}).present m p = true then
      { (⟨.truth, truth.path, none, []⟩ : BinRef) with part := some p }
      else ⟨.truth, truth.path, none, []⟩) =
      ⟨.truth, truth.path, beside.map File.path, []⟩ := by
    rw [hthere]
    cases beside with
    | none => rfl
    | some f =>
      rw [Option.map_some, h.path f rfl]
      rfl
  simp only [hres]
  have hvalid : (BinRef.validate m ⟨.truth, truth.path, beside.map File.path, []⟩).on
      (w.remember .truth {}) = (.ok ⟨⟩, w.remember .truth {}) := by
    have helf' : (w.remember .truth {}).present m truth.path = true := helf
    cases beside with
    | none => exact validate_on_of_none rfl helf'
    | some f =>
      have hpart : (some f).map File.path = some p := by rw [Option.map_some, h.path f rfl]
      have holder : (w.remember .truth {}).mtime m p < (w.remember .truth {}).mtime m truth.path :=
        h.older rfl
      rw [validate_on _ hpart helf' hthere, if_pos holder]
  rw [on_bind_of_on hvalid]
  rfl

/-- **An object file as new as its executable** ends the check before it
has begun. -/
theorem checkSingleGeneric_of_stale {p : Path} {elf symbolized : Path}
    (helf : w.present m elf = true) (hname : withSuffixOr elf ".part".toList = .ok p)
    (hthere : w.present m p = true) (hstale : ¬ w.mtime m p < w.mtime m elf) :
    (checkSingleGeneric m elf symbolized stdin₀ stdin₁ stdin₂).on w =
      (.error (.assertion ""), w.remember .truth {}) := by
  have hthere' : (w.remember .truth {}).present m p = true := hthere
  have hstale' : ¬ (w.remember .truth {}).mtime m p < (w.remember .truth {}).mtime m elf := hstale
  have hfrom : (BinRef.fromTest m .truth elf).on w =
      (.error (.assertion ""), w.remember .truth {}) := by
    unfold BinRef.fromTest
    rw [on_bind_of_on (init_on helf), on_outcome_bind hname, on_get_bind]
    simp only [hthere', if_true]
    have hvalidate := validate_on (w := w.remember .truth {}) ⟨.truth, elf, some p, []⟩ rfl helf
      hthere'
    rw [if_neg hstale'] at hvalidate
    rw [on_bind_of_error (congrArg Prod.fst hvalidate), hvalidate]
  rw [checkSingleGeneric, on_bind_of_error (congrArg Prod.fst hfrom), hfrom]

/-- **`check_single`, in the generic case**, scores what it scores on
contents: no ground truth that ends is turned away, and an object file
beside it that is older changes nothing. -/
theorem checkSingleGeneric_eq {p : Path}
    (hapart : genericSpec.NamesApart m.base part.path truth.path)
    (h : Ready m genericSpec truth part w) (hfound : Found m truth beside w p)
    (hbeside : Beside m genericSpec truth part beside w)
    (hends : (m.behaviour truth.content stdin₀).isSome = true) :
    ((checkSingleGeneric m truth.path part.path stdin₀ stdin₁ stdin₂).on w).1 =
      genericSpec.scoreSymbolization m.toHost ⟨truth, none, []⟩ part [] stdin₁ stdin₂ := by
  have hbeside' : Beside m genericSpec truth part beside (w.remember .truth {}) :=
    ⟨hbeside.holds, hbeside.spared⟩
  have hsimulates : Simulates (· = w)
      (checkSingleGeneric m truth.path part.path stdin₀ stdin₁ stdin₂)
      (genericSpec.checkSingle m.toHost ⟨truth, beside, []⟩ part stdin₀ stdin₁ stdin₂)
      (fun a b _ => a = b) (fun _ => True) :=
    simulates_bind_of_on (fromTest_on h.truthThere hfound)
      (checked_simulates hapart h.remember hbeside' cache_remember)
  rw [hsimulates.fst_eq rfl]
  have hsanity : genericSpec.testValidationSanityCheck m.toHost ⟨truth, beside, []⟩ stdin₀ =
      .ok false := by
    obtain ⟨result, hresult⟩ := Option.isSome_iff_exists.1 hends
    unfold TestSpec.testValidationSanityCheck RunSpec.compareOutput execute
    simp only [hresult]
    rfl
  rw [TestSpec.checkSingle, hsanity, ok_bind]
  rfl

/-- An older object file beside the executable of a test. -/
def olderPart : File := ⟨⟨true, ["test.part".toList]⟩, absPart, 0⟩

/-- A machine that holds it. -/
def olderMachine : Machine :=
  { Machine.obliging [(quietTest.elf.path, pltExecutable), ((answer absPart).path, absPart),
      (olderPart.path, absPart)] absPart with
    mtime := fun p => if p = olderPart.path then 0 else 1 }

theorem checkSingleGeneric_eq_sample :
    ((checkSingleGeneric olderMachine quietTest.elf.path (answer absPart).path [] [] []).on
      .fresh).1 =
      genericSpec.scoreSymbolization olderMachine.toHost quietTest (answer absPart) [] [] [] :=
  have hready : Ready olderMachine genericSpec quietTest.elf (answer absPart) .fresh :=
    ⟨rfl, rfl, rfl, rfl, by decide⟩
  have hfound : Found olderMachine quietTest.elf (some olderPart) .fresh olderPart.path :=
    ⟨rfl, rfl, fun _ hf => Option.some.inj hf ▸ rfl, fun _ => by decide⟩
  have hbeside : Beside olderMachine genericSpec quietTest.elf (answer absPart) (some olderPart)
      .fresh := by
    refine ⟨fun f hf => ?_, fun p hp => ?_⟩
    · obtain rfl := Option.some.inj hf
      rfl
    · obtain rfl := Option.some.inj hp
      refine ⟨by decide, fun writes hwrites => ?_⟩
      obtain ⟨writes', hwrites', hnot⟩ : ∃ writes',
          checkSingleWrites (answer absPart).path quietTest.elf.path = .ok writes' ∧
            olderPart.path ∉ writes' := ⟨_, rfl, by decide⟩
      obtain rfl := Except.ok.inj (hwrites'.symm.trans hwrites)
      exact hnot
  checkSingleGeneric_eq ⟨_, rfl, by decide, by decide, by decide⟩ hready hfound hbeside rfl

end OnDisk

end Checklib
