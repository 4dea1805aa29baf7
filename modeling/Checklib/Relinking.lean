import Checklib.Caching

/-!
# Running and linking, over the disk

A program is run from the file there is by then, and judged with the
files a specification names. A relocatable is linked to a file that is
then there, with the contents and the time the linker gives it. Both come
to what they come to on contents, if no file they read has been written
over.
-/

namespace Checklib

open Common Trial

/-! ## What a specification reads -/

/-- The files `compare_output` reads. -/
def RunSpec.reads (base : PathBase) (spec : RunSpec) : List Path :=
  (match spec.stdinArg with
    | .path p => [p]
    | _ => []) ++
  match truthy spec.expectedStdout with
  | some path => [gitPath base path]
  | none => []

/-- The file `get_or_create_bin_file` names or reads. -/
def SectionReplacement.reads (base : PathBase) (r : SectionReplacement) : List Path :=
  match truthy r.binFile, r.fromElfSection with
  | some path, _ => [gitPath base path]
  | none, some (path, _) => [gitPath base path]
  | none, none => []

/-- The files a test reads besides the two it compares. -/
def TestSpec.reads (base : PathBase) (spec : TestSpec) : List Path :=
  spec.unmodifiedBehavior.reads base ++ spec.replacement.behavior.reads base ++
    spec.replacement.replacements.flatMap (SectionReplacement.reads base)

namespace OnDisk

variable {m : Machine} {w : World} {p q : Path} {reads : List Path}

theorem readBytes_of_not_written (h : w.written p = none) :
    w.readBytes m p = m.readBytes p := by
  rw [World.readBytes, h]

/-! ## Running -/

/-- A run judged with the files of the disk is judged as before, if none
of them has been written. -/
theorem compareOutput_host {spec : RunSpec} (h : ∀ p ∈ spec.reads m.base, w.written p = none)
    (program : Program) (stdin : List UInt8) :
    spec.compareOutput (w.host m) program stdin = spec.compareOutput m.toHost program stdin := by
  have hkwargs : executeKwargs (w.host m) spec.stdinArg = executeKwargs m.toHost spec.stdinArg := by
    cases harg : spec.stdinArg with
    | none => rfl
    | emptyText => rfl
    | path p =>
      have hp : w.written p = none :=
        h p (List.mem_append_left _ (by rw [harg]; exact List.mem_singleton_self p))
      show (do let bytes ← w.readBytes m p; return Kwargs.input bytes) = _
      rw [readBytes_of_not_written hp]
      rfl
  have hjudge : ∀ result, spec.judge (w.host m) result = spec.judge m.toHost result := by
    intro result
    unfold RunSpec.judge
    cases hexpected : truthy spec.expectedStdout with
    | none => rfl
    | some path =>
      have hp : w.written (gitPath m.base path) = none :=
        h _ (List.mem_append_right _ (by rw [hexpected]; exact List.mem_singleton_self _))
      show (do
        let data ← w.readBytes m (gitPath m.base path)
        return spec.checkExitCode result ++ RunSpec.checkStdout data result.stdout) = _
      rw [readBytes_of_not_written hp]
  unfold RunSpec.compareOutput execute
  rw [hkwargs]
  simp only [hjudge]

theorem compareOutput_simulates (spec : RunSpec) (stdin : List UInt8) {ref : BinRef} {f : ElfFile}
    (hload : w.load m ref.elf = .ok f)
    (hreads : ∀ p ∈ spec.reads m.base, w.written p = none) :
    Simulates (· = w) (compareOutput m spec ref stdin)
      (spec.compareOutput m.toHost (m.behaviour f) stdin) (fun a b w' => a = b ∧ w' = w)
      (· = w) := by
  refine simulates_get_bind ?_
  rintro _ rfl
  rw [hload]
  show Simulates _ (outcome (spec.compareOutput (World.host m _) (m.behaviour f) stdin)) _ _ _
  rw [compareOutput_host hreads]
  exact simulates_outcome

section Compare

variable {c : Comparator} {c' : Checklib.Comparator} {spec : TestSpec} {stdin : List UInt8}

/-- **Relinking is judged the same.** -/
theorem evaluateRelinking_simulates (hsep : c.Separate reads)
    (hreads : spec.unmodifiedBehavior.reads m.base ⊆ reads) :
    Simulates (Coherent m c c' reads) (evaluateRelinking m spec c stdin)
      (spec.evaluateRelinking m.toHost c' stdin) (fun a b w => a = b ∧ Coherent m c c' reads w)
      (Coherent m c c' reads) := by
  refine (compareSegments_simulates hsep).bind fun rebuildFail _ _ => ?_
  refine Simulates.of_forall_eq ?_
  rintro w ⟨rfl, hw⟩
  have hrun := compareOutput_simulates spec.unmodifiedBehavior stdin hw.symbolized.elf
    fun p hp => hw.reads p (hreads hp)
  refine (hrun.weaken (fun _ h => h) (fun _ _ _ h => h) fun _ h => h ▸ hw).bind fun errs _ _ => ?_
  exact simulates_pure fun _ h => ⟨by rw [h.1], h.2 ▸ hw⟩

/-! ## Linking -/

theorem mtime_of_contents {f : ElfFile} {t : ℕ} (h : w.contents m p = .ok (.elf f t)) :
    w.mtime m p = t := by
  unfold World.contents at h
  unfold World.mtime
  cases hw : w.written p with
  | some x =>
    rw [hw] at h
    obtain rfl := Except.ok.inj h
    rfl
  | none =>
    rw [hw] at h
    obtain ⟨f', -, h⟩ := bind_eq_ok_iff.1 h
    exact (Written.elf.inj (Except.ok.inj h)).2

theorem present_of_written {x : Written} (h : w.written p = some x) : w.present m p = true := by
  rw [World.present, h]
  rfl

/-- The state once a file has been linked. -/
def linkedWorld (w : World) (side : Side) (bin : BinFile) : World :=
  (w.write bin.elf.path (.elf bin.elf.content bin.elf.mtime)).remember side {}

theorem written_linkedWorld_ne {side : Side} {bin : BinFile} (h : p ≠ bin.elf.path) :
    (linkedWorld w side bin).written p = w.written p := written_write_ne h

/-- What is there is validated by its times. -/
theorem validate_on (ref : BinRef) (hpart : ref.part = some p) (helf : w.present m ref.elf = true)
    (hp : w.present m p = true) : (ref.validate m).on w =
      (if w.mtime m p < w.mtime m ref.elf then .ok ⟨⟩ else .error (.assertion ""), w) := by
  rw [BinRef.validate, on_get_bind]
  simp only [helf, hpart, hp, if_true, true_and]
  by_cases hlt : w.mtime m p < w.mtime m ref.elf
  · rw [if_pos hlt, if_pos hlt]
    rfl
  · rw [if_neg hlt, if_neg hlt]
    rfl

/-- A file just linked is validated as in the other model. -/
theorem init_simulates (side : Side) (elf : File) {part : File} (flags : List String)
    (hpart : w.contents m part.path = .ok (.elf part.content part.mtime))
    (hpresent : w.present m part.path = true) (hne : elf.path ≠ part.path) :
    Simulates (· = w.write elf.path (.elf elf.content elf.mtime))
      (BinRef.init m ⟨side, elf.path, some part.path, flags⟩)
      (do BinFile.validate ⟨elf, some part, flags⟩; return ⟨elf, some part, flags⟩)
      (fun ref bin w' => bin = ⟨elf, some part, flags⟩ ∧
        ref = ⟨side, elf.path, some part.path, flags⟩ ∧ w' = linkedWorld w side bin)
      (fun _ => True) := by
  have hwritten : (linkedWorld w side ⟨elf, some part, flags⟩).written elf.path =
      some (.elf elf.content elf.mtime) := written_write_self
  have hsame : (linkedWorld w side ⟨elf, some part, flags⟩).written part.path =
      w.written part.path := written_write_ne hne.symm
  have hthere : (linkedWorld w side ⟨elf, some part, flags⟩).present m part.path = true := by
    rw [World.present, hsame]
    exact hpresent
  have hvalidate := validate_on ⟨side, elf.path, some part.path, flags⟩ rfl
    (present_of_written hwritten) hthere
  have hmtime : (linkedWorld w side ⟨elf, some part, flags⟩).mtime m part.path = part.mtime := by
    rw [World.mtime, hsame]
    exact mtime_of_contents hpart
  have hmtime' : (linkedWorld w side ⟨elf, some part, flags⟩).mtime m elf.path = elf.mtime := by
    rw [World.mtime, hwritten]
  rw [hmtime, hmtime'] at hvalidate
  refine simulates_bind_of_on rfl ?_
  unfold BinFile.validate
  by_cases hlt : part.mtime < elf.mtime
  · simp only [if_pos hlt] at hvalidate ⊢
    exact simulates_bind_of_on hvalidate (simulates_pure fun _ h => ⟨rfl, rfl, h⟩)
  · simp only [if_neg hlt] at hvalidate ⊢
    rintro _ rfl
    refine .inr ⟨.assertion "", ?_, rfl, trivial⟩
    rw [on_bind_of_error (e := .assertion "") (congrArg Prod.fst hvalidate)]

/-- **A linked file** is the one the other model links, and is there. -/
theorem fromRelocatable_simulates (side : Side) (part : File) (extra : ExtraArgs)
    (hpart : w.contents m part.path = .ok (.elf part.content part.mtime))
    (hpresent : w.present m part.path = true)
    (hne : ∀ elf, withSuffixOr part.path (part.path.suffix ++ ".elf".toList) = .ok elf →
      elf ≠ part.path) :
    Simulates (· = w) (BinRef.fromRelocatable m side part.path extra)
      (BinFile.fromRelocatable m.toHost part extra)
      (fun ref bin w' =>
        withSuffixOr part.path (part.path.suffix ++ ".elf".toList) = .ok bin.elf.path ∧
          bin.part = some part ∧
          ref = ⟨side, bin.elf.path, some part.path, bin.linkExtraFlags⟩ ∧
          w' = linkedWorld w side bin) (fun _ => True) := by
  refine simulates_outcome_bind (fun _ _ => trivial) fun elfPath helf => ?_
  unfold linkRelocatable Checklib.linkRelocatable
  simp only [if_pos, bind_assoc]
  refine simulates_bind_of_on (toolInput_on (load_of_contents hpart)) ?_
  refine simulates_outcome_bind (fun _ _ => trivial) fun linked _ => ?_
  obtain ⟨elf, mtime⟩ := linked
  refine simulates_bind_of_on (t := w.write elfPath (.elf elf mtime)) rfl ?_
  have hinit := init_simulates side ⟨elfPath, elf, mtime⟩ extra.flags hpart hpresent
    (hne elfPath helf)
  refine hinit.weaken (fun _ h => h) ?_ fun _ h => h
  rintro ref bin w' ⟨rfl, rfl, rfl⟩
  exact ⟨helf, rfl, rfl, rfl⟩

end Compare

end OnDisk

end Checklib
