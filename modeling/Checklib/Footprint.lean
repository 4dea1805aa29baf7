import Checklib.Model.Disk
import Checklib.Overwriting
import Checklib.Scoring

/-!
# What a run leaves alone

Whatever becomes of a check, whether it ends with a score or with an
exception at any point, it has written at the five names derived from the
two paths it was given and at the names of the section dumps its
specification asks for, and nowhere else.
-/

namespace Checklib

open Common Trial

/-! ## The dumps -/

/-- The file `get_or_create_bin_file` writes for a replacement, where it
writes one. -/
def SectionReplacement.dumps (base : PathBase) (r : SectionReplacement) : List Path :=
  match truthy r.binFile, r.fromElfSection with
  | none, some (path, name) =>
    let elfPath := gitPath base path
    match withSuffixOr elfPath (elfPath.suffix ++ '.' :: name.toList ++ ".bin".toList) with
    | .ok p => [p]
    | .error _ => []
  | _, _ => []

/-- The files written for the replacements of a test. -/
def TestSpec.dumps (base : PathBase) (spec : TestSpec) : List Path :=
  spec.replacement.replacements.flatMap (SectionReplacement.dumps base)

/-! ## What each step leaves alone -/

/-- **The run does not write at `p`.** -/
abbrev Spares (p : Path) {α : Type} (x : Run α) : Prop := Leaves (fun w : World => w.written p) x

namespace OnDisk

variable {m : Machine} {p q src dst elfPath : Path} {x : Written} {bin : BinRef} {c : Comparator}

theorem spares_write (h : p ≠ q) : Spares p (write q x) :=
  leaves_modify fun _ => Function.update_of_ne h _ _

theorem spares_remember {side : Side} {f : World → Cache} :
    Spares p (modify fun w => w.remember side (f w) : Run PUnit) := leaves_modify fun _ => rfl

theorem spares_load : Spares p (load m q) :=
  leaves_get.bind fun _ => leaves_outcome _

theorem spares_toolInput {tool : String} : Spares p (toolInput m tool q) := by
  refine leaves_get.bind fun w => ?_
  split
  · exact leaves_pure _
  · exact leaves_throw _

theorem spares_stripWithFlags {flags : List Arg} (h : p ≠ dst) :
    Spares p (stripWithFlags m flags elfPath dst) :=
  spares_toolInput.bind fun _ => (leaves_outcome _).bind fun _ => spares_write h

theorem spares_appendBytes {data : List UInt8} (h : p ≠ q) : Spares p (appendBytes q data) := by
  refine leaves_modify fun w => ?_
  split
  · exact Function.update_of_ne h _ _
  · exact Function.update_of_ne h _ _

/-- Where the names of the symbols to strip are listed. -/
def ListsAt (elfPath tmp : Path) : Prop :=
  withSuffixOr elfPath (elfPath.suffix ++ ".symbols-to-strip".toList) = .ok tmp

theorem spares_builtKeepFunctionSymbols (h : ∀ tmp, ListsAt elfPath tmp → p ≠ tmp) :
    Spares p (builtKeepFunctionSymbols m elfPath) := by
  refine leaves_outcome_bind fun tmp htmp => (spares_write (h tmp htmp)).bind fun _ =>
    spares_load.bind fun elf => (Leaves.forM fun s _ => ?_).bind fun _ => leaves_pure _
  cases s.symtab with
  | none => exact leaves_throw _
  | some t => exact spares_appendBytes (h tmp htmp)

/-- **Stripping writes the copy**, and a list beside it where the level has
no flags of its own. -/
theorem spares_stripElfExecToLevel {level : Level} (h : p ≠ dst)
    (hlist : stripLevelFlags level = none → ∀ tmp, ListsAt dst tmp → p ≠ tmp) :
    Spares p (stripElfExecToLevel m elfPath dst level) := by
  unfold stripElfExecToLevel
  cases hflags : stripLevelFlags level with
  | some flags => exact (spares_stripWithFlags h).bind fun _ => leaves_pure _
  | none =>
    exact (spares_stripWithFlags h).bind fun _ =>
      (spares_builtKeepFunctionSymbols (hlist hflags)).bind fun _ =>
        (spares_stripWithFlags h).bind fun _ => leaves_pure _

theorem spares_linkRelocatable {mode : String} {extra : ExtraArgs} (h : p ≠ dst) :
    Spares p (linkRelocatable m src dst mode extra) := by
  unfold linkRelocatable
  split
  · exact spares_toolInput.bind fun _ => (leaves_outcome _).bind fun _ =>
      (spares_write h).bind fun _ => leaves_pure _
  · exact leaves_throw _

theorem spares_replaceSection {name : String} (h : p ≠ dst) :
    Spares p (replaceSection m src dst name q) := by
  refine leaves_get.bind fun w => ?_
  split
  · exact (leaves_outcome _).bind fun _ => spares_write h
  · exact leaves_throw _

theorem spares_removeSection {name : String} (h : p ≠ dst) :
    Spares p (removeSection m src dst name) :=
  spares_toolInput.bind fun _ => (leaves_outcome _).bind fun _ => spares_write h

/-! ## `BinFile` -/

theorem spares_validate : Spares p (bin.validate m) := by
  refine leaves_get.bind fun w => ?_
  split
  · split
    · exact leaves_pure _
    · split
      · exact leaves_pure _
      · exact leaves_throw _
  · exact leaves_throw _

theorem spares_init : Spares p (bin.init m) :=
  spares_remember.bind fun _ => spares_validate.bind fun _ => leaves_pure _

/-- Linking writes beside the relocatable, under its name with an ending. -/
theorem spares_fromRelocatable {side : Side} {extra : ExtraArgs}
    (h : ∀ elf, withSuffixOr q (q.suffix ++ ".elf".toList) = .ok elf → p ≠ elf) :
    Spares p (BinRef.fromRelocatable m side q extra) :=
  leaves_outcome_bind fun elf helf =>
    (spares_linkRelocatable (h elf helf)).bind fun _ => spares_init

/-- Where a `BinFile` is stripped to: its own name with an ending. -/
def BinRef.StripsTo (bin : BinRef) (dst : Path) : Prop :=
  withSuffixOr bin.elf (bin.elf.suffix ++ ".strip".toList) = .ok dst

theorem spares_strip (h : ∀ dst, bin.StripsTo dst → p ≠ dst) : Spares p (bin.strip m) := by
  refine leaves_get.bind fun w => ?_
  split
  · exact leaves_pure _
  · refine leaves_outcome_bind fun dst hdst => ?_
    have hlevel : stripLevelFlags .strip ≠ none := nofun
    exact (spares_stripElfExecToLevel (h dst hdst) fun hnone => absurd hnone hlevel).bind fun _ =>
      spares_remember.bind fun _ => leaves_pure _

theorem spares_kind {on : Kind} (h : ∀ dst, bin.StripsTo dst → p ≠ dst) :
    Spares p (bin.kind m on) := by
  unfold BinRef.kind
  cases on with
  | elf => exact leaves_pure _
  | part =>
    cases bin.part with
    | none => exact leaves_throw _
    | some part => exact leaves_pure _
  | strip => exact spares_strip h

theorem spares_parsed {on : Kind} (h : ∀ dst, bin.StripsTo dst → p ≠ dst) :
    Spares p (bin.parsed m on) := by
  refine leaves_get.bind fun w => ?_
  split
  · exact leaves_pure _
  · exact (spares_kind h).bind fun _ => spares_load.bind fun _ =>
      spares_remember.bind fun _ => leaves_pure _

/-! ## The comparator -/

/-- `p` is not where either side is stripped to. -/
structure Comparator.ApartFrom (c : Comparator) (p : Path) : Prop where
  truth : ∀ dst, c.truth.StripsTo dst → p ≠ dst
  symbolized : ∀ dst, c.symbolized.StripsTo dst → p ≠ dst

theorem spares_compareRelocations (h : c.ApartFrom p) : Spares p (compareRelocations m c) :=
  (spares_parsed h.truth).bind fun _ => (leaves_outcome _).bind fun _ =>
    (spares_parsed h.symbolized).bind fun _ => (leaves_outcome _).bind fun _ => leaves_outcome _

theorem spares_baseScore (h : c.ApartFrom p) : Spares p (baseScore m c) := by
  refine (spares_compareRelocations h).attempt.bind fun result => ?_
  split
  · exact leaves_pure _
  · split
    · exact leaves_pure _
    · exact leaves_throw _

theorem spares_compareSegments (h : c.ApartFrom p) : Spares p (compareSegments m c) :=
  (spares_parsed h.truth).bind fun _ => (spares_parsed h.symbolized).bind fun _ => leaves_pure _

/-! ## Replacing -/

variable {r : SectionReplacement}

theorem spares_getOrCreateBinFile (h : p ∉ r.dumps m.base) :
    Spares p (getOrCreateBinFile m r) := by
  unfold SectionReplacement.dumps at h
  unfold getOrCreateBinFile
  cases hbin : truthy r.binFile with
  | some path => exact leaves_pure _
  | none =>
    rw [hbin] at h
    rcases hsec : r.fromElfSection with - | ⟨path, name⟩
    · exact leaves_throw _
    · rw [hsec] at h
      refine leaves_outcome_bind fun newBinFile hnew => spares_load.bind fun elf => ?_
      simp only [hnew, List.mem_singleton] at h
      split
      · exact (spares_write h).bind fun _ => leaves_pure _
      · exact leaves_throw _

theorem spares_replacedVaddr (h : c.ApartFrom p) : Spares p (replacedVaddr m c r) := by
  unfold replacedVaddr
  split
  · exact (spares_parsed h.truth).bind fun _ => (leaves_outcome _).bind fun _ => leaves_pure _
  · exact leaves_pure _

theorem spares_getReplacedSectionName (h : c.ApartFrom p) :
    Spares p (getReplacedSectionName m c r) := by
  unfold getReplacedSectionName
  split
  · exact leaves_pure _
  · exact (spares_replacedVaddr h).bind fun _ => (spares_parsed h.symbolized).bind fun _ =>
      (leaves_outcome _).bind fun _ => leaves_pure _

/-- A replacement writes the copy it patches and its own dump. -/
theorem spares_modifyInplace (h : c.ApartFrom p) (hdump : p ∉ r.dumps m.base)
    (hpath : p ≠ elfPath) : Spares p (modifyInplace m elfPath c r) := by
  refine (spares_getOrCreateBinFile hdump).bind fun _ =>
    (spares_getReplacedSectionName h).bind fun _ => (spares_replaceSection hpath).bind fun _ =>
      (spares_parsed h.symbolized).bind fun _ => ?_
  split
  · exact spares_removeSection hpath
  · exact leaves_pure _

theorem spares_copyPart (h : p ≠ dst) : Spares p (copyPart m bin dst) := by
  unfold copyPart
  split
  · exact leaves_throw _
  · refine leaves_get.bind fun w => (leaves_outcome _).bind fun x => ?_
    split
    · exact spares_write h
    · exact spares_write h

/-- `p` is not one of the two files written to patch and link a copy. -/
def Comparator.PatchesApartFrom (c : Comparator) (p : Path) : Prop :=
  ∀ newRel, withSuffixOr c.symbolized.elf ".hax.part".toList = .ok newRel → p ≠ newRel ∧
    ∀ elf, withSuffixOr newRel (newRel.suffix ++ ".elf".toList) = .ok elf → p ≠ elf

theorem spares_replaceAndLink {spec : ReplacementSpec} (h : c.ApartFrom p)
    (hpatch : c.PatchesApartFrom p) (hdumps : ∀ r ∈ spec.replacements, p ∉ r.dumps m.base) :
    Spares p (replaceAndLink m spec c) := by
  refine leaves_outcome_bind fun newRel hnewRel => ?_
  obtain ⟨hrel, helf⟩ := hpatch newRel hnewRel
  refine (spares_copyPart hrel).bind fun _ => (Leaves.forM fun r hr => ?_).bind fun _ => ?_
  · exact spares_modifyInplace h (hdumps r hr) hrel
  · split
    · exact leaves_throw _
    · exact spares_fromRelocatable helf

/-! ## Scoring -/

/-- **A linked file is where its relocatable's name says.** -/
theorem fromRelocatable_returns {side : Side} {extra : ExtraArgs} {w : World}
    (h : ((BinRef.fromRelocatable m side q extra).on w).1 = .ok bin) :
    withSuffixOr q (q.suffix ++ ".elf".toList) = .ok bin.elf := by
  obtain ⟨elfPath, helf, h⟩ := bind_on_eq_ok h
  obtain ⟨flags, -, h⟩ := bind_on_eq_ok h
  obtain ⟨-, -, h⟩ := bind_on_eq_ok h
  obtain ⟨-, -, h⟩ := bind_on_eq_ok h
  obtain rfl := Except.ok.inj h
  exact helf

variable {spec : TestSpec} {stdin stdin₀ stdin₁ stdin₂ : List UInt8}

theorem spares_compareOutput {run : RunSpec} : Spares p (compareOutput m run bin stdin) :=
  leaves_get.bind fun _ => (leaves_outcome _).bind fun _ => leaves_outcome _

theorem spares_evaluateRelinking (h : c.ApartFrom p) :
    Spares p (evaluateRelinking m spec c stdin) :=
  (spares_compareSegments h).bind fun _ => spares_compareOutput.bind fun _ => leaves_pure _

theorem spares_evaluateReplacement (h : c.ApartFrom p) (hpatch : c.PatchesApartFrom p)
    (hdumps : p ∉ spec.dumps m.base) : Spares p (evaluateReplacement m spec c stdin) := by
  have hspares : ∀ r ∈ spec.replacement.replacements, p ∉ r.dumps m.base :=
    fun r hr hmem => hdumps (List.mem_flatMap.2 ⟨r, hr, hmem⟩)
  refine (spares_replaceAndLink h hpatch hspares).attempt.bind fun result => ?_
  split
  · exact leaves_pure _
  · exact spares_compareOutput.bind fun _ => leaves_pure _

theorem spares_scoreSymbolization {testBin : BinRef} {s : Path} {extra : List String}
    {writes : List Path} (hwrites : checkSingleWrites s testBin.elf = .ok writes) (hp : p ∉ writes)
    (hdumps : p ∉ spec.dumps m.base) :
    Spares p (scoreSymbolization m spec testBin s extra stdin₁ stdin₂) := by
  obtain ⟨relinked, hrelinked, hwrites⟩ := bind_eq_ok_iff.1 hwrites
  obtain ⟨strippedTruth, htruth, hwrites⟩ := bind_eq_ok_iff.1 hwrites
  obtain ⟨strippedSymbolized, hsymbolized, hwrites⟩ := bind_eq_ok_iff.1 hwrites
  obtain ⟨newRel, hnewRel, hwrites⟩ := bind_eq_ok_iff.1 hwrites
  obtain ⟨newElf, hnewElf, hwrites⟩ := bind_eq_ok_iff.1 hwrites
  obtain rfl := Except.ok.inj hwrites
  simp only [List.mem_cons, List.not_mem_nil, or_false, not_or] at hp
  obtain ⟨hp₁, hp₂, hp₃, hp₄, hp₅⟩ := hp
  refine leaves_outcome_bind fun flags _ => Leaves.bind_of_ok ?_ fun w bin hbin => ?_
  · refine spares_fromRelocatable fun elf helf => ?_
    obtain rfl := Except.ok.inj (hrelinked.symm.trans helf)
    exact hp₁
  -- the linked file's own name gives the names made from it
  obtain rfl := Except.ok.inj (hrelinked.symm.trans (fromRelocatable_returns hbin))
  have hapart : Comparator.ApartFrom ⟨testBin, bin⟩ p := by
    refine ⟨fun dst hdst => ?_, fun dst hdst => ?_⟩
    · obtain rfl := Except.ok.inj (htruth.symm.trans hdst)
      exact hp₂
    · obtain rfl := Except.ok.inj (hsymbolized.symm.trans hdst)
      exact hp₃
  have hpatch : Comparator.PatchesApartFrom ⟨testBin, bin⟩ p := by
    intro rel hrel
    obtain rfl := Except.ok.inj (hnewRel.symm.trans hrel)
    refine ⟨hp₄, fun elf helf => ?_⟩
    obtain rfl := Except.ok.inj (hnewElf.symm.trans helf)
    exact hp₅
  exact (spares_baseScore hapart).bind fun _ => (spares_evaluateRelinking hapart).bind fun _ =>
    (spares_evaluateReplacement hapart hpatch hdumps).bind fun _ => leaves_pure _

theorem spares_checkSingle {s g : Path} {writes : List Path}
    (hwrites : checkSingleWrites s g = .ok writes) (hp : p ∉ writes)
    (hdumps : p ∉ spec.dumps m.base) :
    Spares p (checkSingle m spec g s stdin₀ stdin₁ stdin₂) := by
  refine Leaves.bind_of_ok spares_init fun w gt hgt => ?_
  obtain ⟨-, -, hgt⟩ := bind_on_eq_ok hgt
  obtain ⟨-, -, hgt⟩ := bind_on_eq_ok hgt
  obtain rfl := Except.ok.inj hgt
  refine (spares_compareOutput.bind fun _ => leaves_pure _).bind fun failed => ?_
  split
  · exact leaves_throw _
  · exact spares_scoreSymbolization hwrites hp hdumps

/-- **A check writes its five files and its dumps.** A path that is none of
them holds what it held, however the check ends. -/
theorem checkSingle_written {s g : Path} (hs : s.NamesFile) (hg : g.NamesFile)
    (hanswer : ∀ t ∈ writtenEndings, p ≠ s.appended t) (htruth : p ≠ g.appended ".strip".toList)
    (hdumps : p ∉ spec.dumps m.base) (w : World) :
    ((checkSingle m spec g s stdin₀ stdin₁ stdin₂).on w).2.written p = w.written p := by
  refine spares_checkSingle (checkSingleWrites_eq hs hg) ?_ hdumps w
  simp only [List.mem_cons, List.not_mem_nil, or_false, not_or]
  exact ⟨hanswer _ (by decide), htruth, hanswer _ (by decide), hanswer _ (by decide),
    hanswer _ (by decide)⟩

/-- A machine that holds a test and an answer. -/
def quietMachine : Machine :=
  .obliging [(quietTest.elf.path, pltExecutable), ((answer absPart).path, absPart)] absPart

theorem checkSingle_written_sample :
    ((checkSingle quietMachine quietSpec quietTest.elf.path (answer absPart).path [] [] []).on
      .fresh).2.written quietTest.elf.path = none :=
  checkSingle_written ⟨by decide, by decide⟩ ⟨by decide, by decide⟩ (by decide) (by decide)
    (by decide) _

end OnDisk

end Checklib
