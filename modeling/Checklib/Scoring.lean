import Checklib.Absolute
import Checklib.Execution
import Checklib.Metric
import Checklib.Reading
import Checklib.Segments

/-!
# Scoring

`score_symbolization` is three stages, and an exception from any of them
that it does not take for a failure ends it without a score. Here is what
each stage can raise: the comparison of relocations, whose value errors
alone are caught; relinking, which nothing guards; and the replacement,
whose building is guarded and whose run is not. What the stages should
come to is said apart from them, by what they are about: the relocations,
the segments, and the two runs.
-/

namespace Checklib

open Common

variable {host : Host} {truth : List ExecReloc} {pred : List RelReloc}

/-! ## The base score -/

/-- **Two lists have a score**: addresses are distinct in each, and some
relocation counts. -/
structure ListsComparable (truth : List ExecReloc) (pred : List RelReloc) : Prop where
  truthDistinct : (truth.map ExecReloc.vaddr).Nodup
  predDistinct : (pred.map RelReloc.vaddr).Nodup
  counts : (∃ t ∈ truth, t.type_ ≠ .R_386_RELATIVE) ∨
    ∃ p ∈ pred, ∀ t ∈ truth, t.vaddr = p.vaddr → t.type_ ≠ .R_386_RELATIVE

/-- **The relocations of two files can be compared**: the first thing in
either that cannot be read, if there is one, is a value error, and where
both are read the lists have a score. The second file is only read after
the first. -/
structure RelocationsComparable (rt : Runtime) (executable part : ElfFile) : Prop where
  readTruth : ¬ executable.ReadingEscapes (executable.ExecReads rt) (executable.ExecEscapes rt)
  readPart : executable.Reads (executable.ExecReads rt) →
    ¬ part.ReadingEscapes (part.PartReads rt) (part.PartEscapes rt)
  lists : ∀ truth pred, iterRelocationsElf rt executable = .ok truth →
    iterRelocationsPart rt part = .ok pred → ListsComparable truth pred

theorem compareRelocationLists_of_truth (h : ¬ (truth.map ExecReloc.vaddr).Nodup) :
    compareRelocationLists truth pred =
      .error (.assertion "Ground truth has duplicate relocation for an address!") := by
  have h' := mt nodup_map_sortByVaddr.1 h
  simp only [compareRelocationLists, assertDistinct_eq, if_neg h']
  rfl

theorem compareRelocationLists_of_pred (hT : (truth.map ExecReloc.vaddr).Nodup)
    (h : ¬ (pred.map RelReloc.vaddr).Nodup) :
    compareRelocationLists truth pred =
      .error (.assertion "Symbolized has duplicate relocation for an address!") := by
  have hT' := nodup_map_sortByVaddr.2 hT
  have h' := mt nodup_map_sortByVaddr.1 h
  simp only [compareRelocationLists, assertDistinct_eq, if_pos hT', if_neg h']
  rfl

theorem compareRelocationLists_isOk_iff :
    (∃ s, compareRelocationLists truth pred = .ok s) ↔ ListsComparable truth pred := by
  constructor
  · rintro ⟨s, hs⟩
    have hT : (truth.map ExecReloc.vaddr).Nodup := by
      by_contra h
      rw [compareRelocationLists_of_truth h] at hs
      cases hs
    have hP : (pred.map RelReloc.vaddr).Nodup := by
      by_contra h
      rw [compareRelocationLists_of_pred hT h] at hs
      cases hs
    rw [compareRelocationLists_eq_iou hT hP] at hs
    exact ⟨hT, hP, (total_ne_zero_iff hT hP).1 (Counters.iou_eq_ok_iff.1 hs).1⟩
  · rintro ⟨hT, hP, hsome⟩
    have hne := (total_ne_zero_iff hT hP).2 hsome
    exact ⟨_, (compareRelocationLists_eq_iou hT hP).trans
      (Counters.iou_of_pos (Nat.pos_of_ne_zero hne))⟩

/-- What stops it is an assertion or a division by zero. -/
theorem not_isValueError_of_compareRelocationLists {e : PyError}
    (h : compareRelocationLists truth pred = .error e) : ¬ e.IsValueError := by
  by_cases hT : (truth.map ExecReloc.vaddr).Nodup
  · by_cases hP : (pred.map RelReloc.vaddr).Nodup
    · rw [compareRelocationLists_eq_iou hT hP, Counters.iou] at h
      split at h
      · obtain rfl := Except.error.inj h
        exact id
      · cases h
    · rw [compareRelocationLists_of_pred hT hP] at h
      obtain rfl := Except.error.inj h
      exact id
  · rw [compareRelocationLists_of_truth hT] at h
    obtain rfl := Except.error.inj h
    exact id

/-- **The comparison raises nothing but value errors** exactly where the
files are comparable. -/
theorem not_escapes_compareRelocations_iff {rt : Runtime} {executable part : ElfFile} :
    ¬ Escapes (compareRelocations rt executable part) ↔
      RelocationsComparable rt executable part := by
  have hlists : ∀ truth pred, ¬ Escapes (compareRelocationLists truth pred) ↔
      ListsComparable truth pred := by
    intro truth pred
    rw [← compareRelocationLists_isOk_iff]
    -- past the reading, what could go wrong is never a value error
    cases h : compareRelocationLists truth pred with
    | ok s => exact iff_of_true not_escapes_ok ⟨s, rfl⟩
    | error e =>
      have he := not_isValueError_of_compareRelocationLists h
      exact iff_of_false (not_not.2 (escapes_error_iff.2 he)) nofun
  unfold compareRelocations
  rw [escapes_bind_iff, not_or, iterRelocationsElf,
    (decides_exec rt executable).escapes_iterRelocations_iff]
  simp only [escapes_bind_iff, not_exists, not_and, not_or, hlists]
  have hpart : Escapes (iterRelocationsPart rt part) ↔ _ :=
    (decides_part rt part).escapes_iterRelocations_iff
  rw [hpart]
  constructor
  · rintro ⟨htruth, hrest⟩
    refine ⟨htruth, fun hreads => ?_, fun truth pred htruth hpred => ?_⟩
    · obtain ⟨truth, htruth⟩ := (decides_exec rt executable).iterRelocations_isOk_iff.2 hreads
      exact (hrest truth htruth).1
    · exact (hrest truth htruth).2 pred hpred
  · intro h
    refine ⟨h.readTruth, fun truth htruth => ⟨h.readPart ?_, fun pred hpred => ?_⟩⟩
    · exact (decides_exec rt executable).iterRelocations_isOk_iff.1 ⟨truth, htruth⟩
    · exact h.lists truth pred htruth hpred

open scoped Classical in
/-- **The base score an answer should get**: of the addresses counted, the
share that is matched, and nothing where the relocations cannot be read or
cannot be compared. -/
noncomputable def gradedBase (rt : Runtime) (executable part : ElfFile) : ℚ :=
  match iterRelocationsElf rt executable, iterRelocationsPart rt part with
  | .ok truth, .ok pred =>
    if ListsComparable truth pred then (tally truth pred).match_ / (tally truth pred).total else 0
  | _, _ => 0

theorem gradedBase_of_ok {rt : Runtime} {executable part : ElfFile} {s : ℚ}
    (h : compareRelocations rt executable part = .ok s) : gradedBase rt executable part = s := by
  obtain ⟨truth, htruth, h⟩ := bind_eq_ok_iff.1 h
  obtain ⟨pred, hpred, h⟩ := bind_eq_ok_iff.1 h
  have hlists := compareRelocationLists_isOk_iff.1 ⟨s, h⟩
  rw [compareRelocationLists_eq_iou hlists.truthDistinct hlists.predDistinct] at h
  rw [gradedBase, htruth, hpred, (Counters.iou_eq_ok_iff.1 h).2]
  exact if_pos hlists

theorem gradedBase_of_error {rt : Runtime} {executable part : ElfFile} {e : PyError}
    (h : compareRelocations rt executable part = .error e) :
    gradedBase rt executable part = 0 := by
  rw [gradedBase]
  rcases bind_eq_error_iff.1 h with htruth | ⟨truth, htruth, h⟩
  · rw [htruth]
  rcases bind_eq_error_iff.1 h with hpred | ⟨pred, hpred, h⟩
  · rw [htruth, hpred]
  rw [htruth, hpred]
  refine if_neg fun hlists => ?_
  obtain ⟨s, hs⟩ := compareRelocationLists_isOk_iff.2 hlists
  cases hs.symm.trans h

/-- **The base score is the one it should be** exactly where the files are
comparable. -/
theorem baseScore_eq_ok_iff {c : Comparator} {part : File} {s : ℚ}
    (hpart : c.symbolized.part = some part) :
    TestSpec.baseScore host c = .ok s ↔
      RelocationsComparable host.runtime c.truth.elf.content part.content ∧
        gradedBase host.runtime c.truth.elf.content part.content = s := by
  have hcompare : c.compareRelocations host =
      compareRelocations host.runtime c.truth.elf.content part.content := by
    simp only [Comparator.compareRelocations, BinFile.parsedPart, hpart]
    rfl
  rw [← not_escapes_compareRelocations_iff, TestSpec.baseScore, hcompare]
  cases h : compareRelocations host.runtime c.truth.elf.content part.content with
  | ok s' => simp only [Except.ok.injEq, not_escapes_ok, not_false_eq_true, true_and,
      gradedBase_of_ok h]
  | error e =>
    rw [gradedBase_of_error h, escapes_error_iff, not_not]
    by_cases hvalue : e.IsValueError
    · simp only [hvalue, if_true, Except.ok.injEq, true_and]
    · simp only [hvalue, if_false, reduceCtorEq, false_and]

/-! ## The runs -/

/-- The files a specification names can be read. -/
structure RunSpec.FilesReadable (host : Host) (spec : RunSpec) : Prop where
  stdin : spec.StdinReadable host
  expectedStdout : spec.ExpectedReadable host

/-- **A comparison of a run gives errors, or none**, where its files can
be read and the program ends in time. -/
theorem compareOutput_isOk_iff {spec : RunSpec} {program : Program} {stdin : List UInt8} :
    (∃ errs, spec.compareOutput host program stdin = .ok errs) ↔
      spec.FilesReadable host ∧ ∃ result, program stdin = some result := by
  simp only [compareOutput_eq_ok_iff, verdictOn_eq_ok_iff]
  constructor
  · rintro ⟨errs, hstdin, result, hprogram, herrs⟩
    exact ⟨⟨hstdin, (judge_isOk_iff result).1 ⟨errs, herrs⟩⟩, result, hprogram⟩
  · rintro ⟨⟨hstdin, hstdout⟩, result, hprogram⟩
    obtain ⟨errs, herrs⟩ := (judge_isOk_iff result).2 hstdout
    exact ⟨errs, hstdin, result, hprogram, herrs⟩

/-- **A run is as the specification asks**: the exit code, and the contents
of the file with the expected output. -/
structure RunSpec.Meets (host : Host) (spec : RunSpec) (result : CompletedProcess) : Prop where
  exitCode : ∀ code, spec.exitCode = some code → result.returncode = code
  stdout : ∀ path, truthy spec.expectedStdout = some path →
    host.readBytes (gitPath host.base path) = .ok result.stdout

/-- **A program passes**: it ends in time, and as the specification asks. -/
def RunSpec.Passes (host : Host) (spec : RunSpec) (program : Program) (stdin : List UInt8) : Prop :=
  ∃ result, program stdin = some result ∧ spec.Meets host result

theorem checkExitCode_eq_nil_iff {spec : RunSpec} {result : CompletedProcess} :
    spec.checkExitCode result = [] ↔ ∀ code, spec.exitCode = some code →
      result.returncode = code := by
  unfold RunSpec.checkExitCode
  cases spec.exitCode with
  | none => simp
  | some code => simp

theorem checkStdout_eq_nil_iff {data stdout : List UInt8} :
    RunSpec.checkStdout data stdout = [] ↔ data = stdout := by
  rw [← (checkStdout_tells data stdout).1, eq_comm]

/-- **Nothing is said of a run** exactly if it is as the specification
asks. -/
theorem judge_eq_nil_iff {spec : RunSpec} {result : CompletedProcess} :
    spec.judge host result = .ok [] ↔ spec.Meets host result := by
  unfold RunSpec.judge
  cases hpath : truthy spec.expectedStdout with
  | none =>
    simp only [Except.ok.injEq, checkExitCode_eq_nil_iff]
    constructor
    · intro h
      exact ⟨h, fun path hpath' => by rw [hpath] at hpath'; cases hpath'⟩
    · intro h
      exact h.exitCode
  | some path =>
    simp only [bind_eq_ok_iff, pure, Except.pure, Except.ok.injEq, List.append_eq_nil_iff,
      checkExitCode_eq_nil_iff, checkStdout_eq_nil_iff]
    constructor
    · rintro ⟨data, hdata, hexit, rfl⟩
      refine ⟨hexit, fun path' hpath' => ?_⟩
      obtain rfl := Option.some.inj (hpath.symm.trans hpath')
      exact hdata
    · intro h
      exact ⟨result.stdout, h.stdout path hpath, h.exitCode, rfl⟩

/-- Where there is a verdict it says nothing of a program that passes. -/
theorem passes_iff_of_ok {spec : RunSpec} {program : Program} {stdin : List UInt8}
    {errs : List OutputError} (h : spec.compareOutput host program stdin = .ok errs) :
    spec.Passes host program stdin ↔ errs = [] := by
  obtain ⟨-, hverdict⟩ := compareOutput_eq_ok_iff.1 h
  obtain ⟨result, hresult, hjudge⟩ := verdictOn_eq_ok_iff.1 hverdict
  simp only [RunSpec.Passes, hresult, Option.some.injEq, exists_eq_left', ← judge_eq_nil_iff,
    hjudge, Except.ok.injEq]

/-! ## Relinking and replacing -/

/-- **Relinking succeeds**: the two executables, stripped, have the same
segment, or none, in each of the three slots, and the relinked program
passes. -/
structure TestSpec.Relinks (host : Host) (spec : TestSpec) (c : Comparator)
    (stdin : List UInt8) : Prop where
  segments : ∃ truth symbolized, c.truth.parsedStrip host = .ok truth ∧
    c.symbolized.parsedStrip host = .ok symbolized ∧ SlotsAgree truth symbolized
  behavior : spec.unmodifiedBehavior.Passes host (host.behaviour c.symbolized.elf.content) stdin

/-- **The replacement succeeds**: the sections can be replaced and the copy
linked, and the program that gives passes. -/
def TestSpec.Replaces (host : Host) (spec : TestSpec) (c : Comparator)
    (stdin : List UInt8) : Prop :=
  ∃ newBin, spec.replacement.replaceAndLink host c = .ok newBin ∧
    spec.replacement.behavior.Passes host (host.behaviour newBin.elf.content) stdin

section

variable {spec : TestSpec} {c : Comparator} {stdin : List UInt8} {fail : Bool}

/-- **Relinking is judged** where both files can be stripped and the
relinked program ends in time. -/
theorem evaluateRelinking_isOk_iff :
    (∃ fail, spec.evaluateRelinking host c stdin = .ok fail) ↔
      (∃ f, c.truth.parsedStrip host = .ok f) ∧ (∃ f, c.symbolized.parsedStrip host = .ok f) ∧
        spec.unmodifiedBehavior.FilesReadable host ∧
          ∃ result, host.behaviour c.symbolized.elf.content stdin = some result := by
  rw [← compareOutput_isOk_iff]
  unfold TestSpec.evaluateRelinking Comparator.compareSegments
  constructor
  · rintro ⟨fail, h⟩
    obtain ⟨rebuildFail, hsegments, h⟩ := bind_eq_ok_iff.1 h
    obtain ⟨truth, htruth, hsegments⟩ := bind_eq_ok_iff.1 hsegments
    obtain ⟨symbolized, hsymbolized, -⟩ := bind_eq_ok_iff.1 hsegments
    obtain ⟨errs, herrs, -⟩ := bind_eq_ok_iff.1 h
    exact ⟨⟨truth, htruth⟩, ⟨symbolized, hsymbolized⟩, errs, herrs⟩
  · rintro ⟨⟨truth, htruth⟩, ⟨symbolized, hsymbolized⟩, errs, herrs⟩
    simp only [htruth, hsymbolized, herrs, ok_bind]
    exact ⟨_, rfl⟩

/-- And it is judged rightly. -/
theorem relinks_iff_of_ok (h : spec.evaluateRelinking host c stdin = .ok fail) :
    spec.Relinks host c stdin ↔ fail = false := by
  obtain ⟨rebuildFail, hsegments, h⟩ := bind_eq_ok_iff.1 h
  obtain ⟨truth, htruth, hsegments⟩ := bind_eq_ok_iff.1 hsegments
  obtain ⟨symbolized, hsymbolized, hsegments⟩ := bind_eq_ok_iff.1 hsegments
  obtain ⟨errs, herrs, h⟩ := bind_eq_ok_iff.1 h
  obtain rfl := Except.ok.inj hsegments
  obtain rfl := Except.ok.inj h
  rw [Bool.or_eq_false_iff, compareSegments_eq_false_iff, Bool.not_eq_false', List.isEmpty_iff,
    ← passes_iff_of_ok herrs]
  constructor
  · rintro ⟨⟨truth', symbolized', htruth', hsymbolized', hagree⟩, hpasses⟩
    obtain rfl := Except.ok.inj (htruth.symm.trans htruth')
    obtain rfl := Except.ok.inj (hsymbolized.symm.trans hsymbolized')
    exact ⟨hagree, hpasses⟩
  · rintro ⟨hagree, hpasses⟩
    exact ⟨⟨truth, symbolized, htruth, hsymbolized, hagree⟩, hpasses⟩

/-- **A replacement is judged** where the program it builds, if it builds
one, ends in time and has its files to be compared with. -/
theorem evaluateReplacement_isOk_iff :
    (∃ fail, spec.evaluateReplacement host c stdin = .ok fail) ↔
      ∀ newBin, spec.replacement.replaceAndLink host c = .ok newBin →
        spec.replacement.behavior.FilesReadable host ∧
          ∃ result, host.behaviour newBin.elf.content stdin = some result := by
  unfold TestSpec.evaluateReplacement
  cases spec.replacement.replaceAndLink host c with
  | error e =>
    constructor
    · intro _ newBin hnew
      cases hnew
    · intro _
      exact ⟨true, rfl⟩
  | ok newBin =>
    have hrun : (∃ errs, spec.replacement.behavior.compareOutput host
        (host.behaviour newBin.elf.content) stdin = .ok errs) ↔ _ := compareOutput_isOk_iff
    constructor
    · rintro ⟨fail, h⟩ newBin' hnew
      obtain rfl := Except.ok.inj hnew
      obtain ⟨errs, herrs, -⟩ := bind_eq_ok_iff.1 h
      exact hrun.1 ⟨errs, herrs⟩
    · intro h
      obtain ⟨errs, herrs⟩ := hrun.2 (h newBin rfl)
      exact ⟨_, bind_eq_ok_iff.2 ⟨errs, herrs, rfl⟩⟩

/-- And it is judged rightly. -/
theorem replaces_iff_of_ok (h : spec.evaluateReplacement host c stdin = .ok fail) :
    spec.Replaces host c stdin ↔ fail = false := by
  unfold TestSpec.evaluateReplacement at h
  unfold TestSpec.Replaces
  cases hbuild : spec.replacement.replaceAndLink host c with
  | error e =>
    rw [hbuild] at h
    obtain rfl := Except.ok.inj h
    exact iff_of_false nofun nofun
  | ok newBin =>
    rw [hbuild] at h
    obtain ⟨errs, herrs, h⟩ := bind_eq_ok_iff.1 h
    obtain rfl := Except.ok.inj h
    simp only [Except.ok.injEq, exists_eq_left', passes_iff_of_ok herrs, Bool.not_eq_false',
      List.isEmpty_iff]

end

/-! ## The score -/

open scoped Classical in
/-- **The score an answer should get**: the base score, divided by three
where relinking does not succeed, and by two where the replacement does
not. -/
noncomputable def TestSpec.gradedScore (host : Host) (spec : TestSpec) (c : Comparator)
    (part : File) (stdin₁ stdin₂ : List UInt8) : ℚ :=
  gradedBase host.runtime c.truth.elf.content part.content /
    (if spec.Relinks host c stdin₁ then 1 else 3) / (if spec.Replaces host c stdin₂ then 1 else 2)

/-- **Nothing escapes the scoring** of an answer that links. -/
structure NothingEscapes (host : Host) (spec : TestSpec) (c : Comparator) (part : File)
    (stdin₁ stdin₂ : List UInt8) : Prop where
  comparable : RelocationsComparable host.runtime c.truth.elf.content part.content
  stripTruth : ∃ f, c.truth.parsedStrip host = .ok f
  stripSymbolized : ∃ f, c.symbolized.parsedStrip host = .ok f
  relinkedEnds : ∃ result, host.behaviour c.symbolized.elf.content stdin₁ = some result
  replacedEnds : ∀ newBin, spec.replacement.replaceAndLink host c = .ok newBin →
    spec.replacement.behavior.FilesReadable host ∧
      ∃ result, host.behaviour newBin.elf.content stdin₂ = some result

section

variable {spec : TestSpec} {testBin bin : BinFile} {symbolized : File}
  {extra flags : List String} {stdin₁ stdin₂ : List UInt8}

/-- **The three stages give the graded score** if each gives anything. -/
theorem scoreSymbolization_of_stages {base : ℚ} {rebuildFail replacementFail : Bool}
    (hflags : spec.mergeFlags extra = .ok flags)
    (hlink : BinFile.fromRelocatable host symbolized (.list flags) = .ok bin)
    (hbase : TestSpec.baseScore host ⟨testBin, bin⟩ = .ok base)
    (hrelink : spec.evaluateRelinking host ⟨testBin, bin⟩ stdin₁ = .ok rebuildFail)
    (hreplace : spec.evaluateReplacement host ⟨testBin, bin⟩ stdin₂ = .ok replacementFail) :
    spec.scoreSymbolization host testBin symbolized extra stdin₁ stdin₂ =
      .ok (spec.gradedScore host ⟨testBin, bin⟩ symbolized stdin₁ stdin₂) := by
  have hpart : bin.part = some symbolized := (BinFile.of_fromRelocatable hlink).2.1
  have hgraded := ((baseScore_eq_ok_iff hpart).1 hbase).2
  simp only [TestSpec.scoreSymbolization, hflags, hlink, hbase, hrelink, hreplace, ok_bind,
    TestSpec.gradedScore, relinks_iff_of_ok hrelink, replaces_iff_of_ok hreplace, hgraded]
  cases rebuildFail <;> cases replacementFail <;> simp [pure, Except.pure]

/-- A score comes of three stages that give something. -/
theorem stages_of_scoreSymbolization {score : ℚ} (hflags : spec.mergeFlags extra = .ok flags)
    (hlink : BinFile.fromRelocatable host symbolized (.list flags) = .ok bin)
    (h : spec.scoreSymbolization host testBin symbolized extra stdin₁ stdin₂ = .ok score) :
    (∃ base, TestSpec.baseScore host ⟨testBin, bin⟩ = .ok base) ∧
      (∃ fail, spec.evaluateRelinking host ⟨testBin, bin⟩ stdin₁ = .ok fail) ∧
        ∃ fail, spec.evaluateReplacement host ⟨testBin, bin⟩ stdin₂ = .ok fail := by
  rw [TestSpec.scoreSymbolization, hflags, ok_bind, hlink, ok_bind] at h
  obtain ⟨base, hbase, h⟩ := bind_eq_ok_iff.1 h
  obtain ⟨relink, hrelink, h⟩ := bind_eq_ok_iff.1 h
  obtain ⟨replace, hreplace, -⟩ := bind_eq_ok_iff.1 h
  exact ⟨⟨base, hbase⟩, ⟨relink, hrelink⟩, replace, hreplace⟩

end

/-- **An answer that links gets the score it should exactly where nothing
escapes the scoring.** -/
theorem scoreSymbolization_graded_iff (host : Host) (spec : TestSpec) (testBin bin : BinFile)
    (symbolized : File) (extra flags : List String) (stdin₀ stdin₁ stdin₂ : List UInt8)
    (hsane : spec.testValidationSanityCheck host testBin stdin₀ = .ok false)
    (hflags : spec.mergeFlags extra = .ok flags)
    (hlink : BinFile.fromRelocatable host symbolized (.list flags) = .ok bin) :
    spec.scoreSymbolization host testBin symbolized extra stdin₁ stdin₂ =
        .ok (spec.gradedScore host ⟨testBin, bin⟩ symbolized stdin₁ stdin₂) ↔
      NothingEscapes host spec ⟨testBin, bin⟩ symbolized stdin₁ stdin₂ := by
  have hpart : bin.part = some symbolized := (BinFile.of_fromRelocatable hlink).2.1
  -- the sanity check has read the files of the unmodified run
  have hfiles : spec.unmodifiedBehavior.FilesReadable host := by
    obtain ⟨errs, herrs, -⟩ := bind_eq_ok_iff.1 hsane
    exact (compareOutput_isOk_iff.1 ⟨errs, herrs⟩).1
  constructor
  · intro h
    obtain ⟨⟨base, hbase⟩, hrelink, hreplace⟩ := stages_of_scoreSymbolization hflags hlink h
    obtain ⟨htruth, hsymbolized, -, hends⟩ := evaluateRelinking_isOk_iff.1 hrelink
    exact ⟨((baseScore_eq_ok_iff hpart).1 hbase).1, htruth, hsymbolized, hends,
      evaluateReplacement_isOk_iff.1 hreplace⟩
  · intro h
    have hbase := (baseScore_eq_ok_iff hpart).2 ⟨h.comparable, rfl⟩
    obtain ⟨rebuildFail, hrelink⟩ := evaluateRelinking_isOk_iff.2
      ⟨h.stripTruth, h.stripSymbolized, hfiles, h.relinkedEnds⟩
    obtain ⟨replacementFail, hreplace⟩ := evaluateReplacement_isOk_iff.2 h.replacedEnds
    exact scoreSymbolization_of_stages hflags hlink hbase hrelink hreplace

/-! ## An answer that repeats an address -/

/-- A host on which every program ends at once, successfully. -/
def quietHost : Host := .obliging [] fun _ _ => some ⟨0, []⟩

/-- A test that expects that. -/
def quietSpec : TestSpec where
  linkMode := .static
  unmodifiedBehavior := { exitCode := some 0 }
  replacement := { behavior := { exitCode := some 0 } }

/-- The executable of a test. -/
def quietTest : BinFile := ⟨⟨⟨true, ["test.elf".toList]⟩, pltExecutable, 0⟩, none, []⟩

/-- An answer, of given contents. -/
def answer (part : ElfFile) : File := ⟨⟨true, ["part".toList]⟩, part, 1⟩

/-- The answer once linked. -/
def linkedAnswer (part : ElfFile) : BinFile :=
  ⟨⟨⟨true, ["part.elf".toList]⟩, { part with eType := .ET_EXEC }, 2⟩, some (answer part),
    ["static"]⟩

/-- Two relocations at one place. -/
def duplicatePart : ElfFile := absPartWith [0, 0, 0, 0, 2, 1, 0, 0,  0, 0, 0, 0, 1, 1, 0, 0]

/-- **The assertion on the answer escapes.** -/
theorem scoreSymbolization_of_duplicate :
    quietSpec.testValidationSanityCheck quietHost quietTest [] = .ok false ∧
      quietSpec.mergeFlags [] = .ok ["static"] ∧
      BinFile.fromRelocatable quietHost (answer duplicatePart) (.list ["static"]) =
        .ok (linkedAnswer duplicatePart) ∧
      quietSpec.scoreSymbolization quietHost quietTest (answer duplicatePart) [] [] [] ≠
        .ok (quietSpec.gradedScore quietHost ⟨quietTest, linkedAnswer duplicatePart⟩
          (answer duplicatePart) [] []) := by
  refine ⟨rfl, rfl, rfl, ?_⟩
  have hscore : quietSpec.scoreSymbolization quietHost quietTest (answer duplicatePart) [] [] [] =
      .error (.assertion "Symbolized has duplicate relocation for an address!") := rfl
  rw [hscore]
  exact nofun

theorem scoreSymbolization_graded_iff_sample :
    quietSpec.scoreSymbolization quietHost quietTest (answer absPart) [] [] [] =
      .ok (quietSpec.gradedScore quietHost ⟨quietTest, linkedAnswer absPart⟩ (answer absPart)
        [] []) := by
  have htruth : iterRelocationsElf .ascii pltExecutable = .ok pltTruth := by decide
  have hpred : iterRelocationsPart .ascii absPart = .ok absPred := by decide
  refine (scoreSymbolization_graded_iff quietHost quietSpec quietTest (linkedAnswer absPart)
    (answer absPart) [] ["static"] [] [] [] rfl rfl rfl).2 ⟨⟨fun h => ?_, fun _ h => ?_, ?_⟩,
      ⟨_, rfl⟩, ⟨_, rfl⟩, ⟨_, rfl⟩, ?_⟩
  · have hescapes : Escapes (iterRelocationsElf .ascii pltExecutable) :=
      (decides_exec .ascii pltExecutable).escapes_iterRelocations_iff.2 h
    exact not_escapes_ok (htruth ▸ hescapes)
  · have hescapes : Escapes (iterRelocationsPart .ascii absPart) :=
      (decides_part .ascii absPart).escapes_iterRelocations_iff.2 h
    exact not_escapes_ok (hpred ▸ hescapes)
  · intro truth pred ht hp
    obtain rfl := Except.ok.inj (htruth.symm.trans ht)
    obtain rfl := Except.ok.inj (hpred.symm.trans hp)
    exact ⟨by decide, by decide, .inl (by decide)⟩
  · intro newBin _
    exact ⟨⟨nofun, nofun⟩, _, rfl⟩

end Checklib
