import Checklib.Model.Spec

/-!
# Extra linker flags

`from_relocatable` hands a collection of flags to `link_relocatable`, keeps
what that returns, and `replace_and_link` hands it in again. The flags are
worked out and kept. They are not put on the command, which is the same
whatever they are.
-/

namespace Checklib

open Common

variable {host : Host} {extra : ExtraArgs}

/-- **What `link_relocatable` runs**, and what it returns. -/
def linkInvocation (host : Host) (partialPath dst : Path) (mode : String) (extra : ExtraArgs) :
    Except PyError (List Arg × List String) :=
  if mode = "static" then .ok (linkCommand host partialPath dst, extra.flags)
  else .error (.unknownMode mode)

/-- `link_relocatable` runs that and nothing else. -/
theorem linkRelocatable_eq (host : Host) (part : File) (dst : Path) (mode : String)
    (extra : ExtraArgs) :
    linkRelocatable host part dst mode extra = do
      let (cmd, flags) ← linkInvocation host part.path dst mode extra
      let (elf, mtime) ← host.link cmd part.content
      return (⟨dst, elf, mtime⟩, flags) := by
  rw [linkRelocatable, linkInvocation]
  split
  · rfl
  · rfl

/-- What `from_relocatable` has run: the command, the flags kept, and where
the executable goes. -/
def BinFile.linkerRun (host : Host) (part : Path) (extra : ExtraArgs) :
    Except PyError (List Arg × List String × Path) := do
  let elfPath ← withSuffixOr part (part.suffix ++ ".elf".toList)
  let (cmd, flags) ← linkInvocation host part elfPath "static" extra
  return (cmd, flags, elfPath)

/-- **`from_relocatable` runs that command** and keeps those flags. -/
theorem fromRelocatable_eq (host : Host) (part : File) (extra : ExtraArgs) :
    BinFile.fromRelocatable host part extra = do
      let (cmd, flags, elfPath) ← BinFile.linkerRun host part.path extra
      let (elf, mtime) ← host.link cmd part.content
      let res : BinFile := ⟨⟨elfPath, elf, mtime⟩, some part, flags⟩
      res.validate
      return res := by
  simp only [BinFile.fromRelocatable, BinFile.linkerRun, linkRelocatable_eq, bind_assoc, pure_bind]

/-- **`replace_and_link` relinks with the flags that were kept**, whatever
shape they came in. -/
theorem relinked_of_replaceAndLink {spec : ReplacementSpec} {test bin new : BinFile}
    {symbolized : File} (hbin : BinFile.fromRelocatable host symbolized extra = .ok bin)
    (hnew : spec.replaceAndLink host ⟨test, bin⟩ = .ok new) :
    ∃ part, BinFile.fromRelocatable host part (.list extra.flags) = .ok new := by
  obtain ⟨newRel, part, patched, -, -, -, hlinked⟩ := ReplacementSpec.exists_of_replaceAndLink hnew
  exact ⟨_, (BinFile.of_fromRelocatable hbin).2.2 ▸ hlinked⟩

/-- **The flags are passed on.** The linker's arguments have the base flags,
the static flags and the extra ones, in order; and relinking with the flags
kept runs the same command, but for the two paths. -/
structure PassesFlags (host : Host) (extra : ExtraArgs) : Prop where
  passed : ∀ part cmd flags dst, BinFile.linkerRun host part extra = .ok (cmd, flags, dst) →
    ∃ args, cmd = .str host.gccForLd :: args ∧
      (ldBaseFlags host.base ++ ldStaticFlags ++ extra.flags.map Arg.str).Sublist args
  relinked : ∀ part cmd flags dst part' cmd' flags' dst',
    BinFile.linkerRun host part extra = .ok (cmd, flags, dst) →
    BinFile.linkerRun host part' (.list flags) = .ok (cmd', flags', dst') →
    ∃ before between after, cmd = before ++ .path part :: between ++ .path dst :: after ∧
      cmd' = before ++ .path part' :: between ++ .path dst' :: after

theorem linkerRun_eq_ok_iff {part dst : Path} {cmd : List Arg} {flags : List String} :
    BinFile.linkerRun host part extra = .ok (cmd, flags, dst) ↔
      withSuffixOr part (part.suffix ++ ".elf".toList) = .ok dst ∧
        cmd = linkCommand host part dst ∧ flags = extra.flags := by
  rw [BinFile.linkerRun, bind_eq_ok_iff]
  constructor
  · rintro ⟨elfPath, hpath, h⟩
    obtain ⟨rfl, rfl, rfl⟩ : linkCommand host part elfPath = cmd ∧ extra.flags = flags ∧
        elfPath = dst := by simpa [linkInvocation, ok_bind] using h
    exact ⟨hpath, rfl, rfl⟩
  · rintro ⟨hpath, rfl, rfl⟩
    exact ⟨dst, hpath, rfl⟩

/-- The word is a text. -/
def Arg.isStr : Arg → Bool
  | .str _ => true
  | .path _ => false

/-- The words behind the flags hold one flag, the command's own `-o`. -/
theorem map_str_sublist_iff {flags : List String} (part dst : Path) :
    (flags.map Arg.str).Sublist [.path part, .str "-o", .path dst] ↔
      flags = [] ∨ flags = ["-o"] := by
  constructor
  · intro h
    -- a flag is never one of the two paths
    have hflags : (flags.map Arg.str).filter Arg.isStr = flags.map Arg.str := by
      refine List.filter_eq_self.2 fun a ha => ?_
      obtain ⟨s, -, rfl⟩ := List.mem_map.1 ha
      rfl
    have hsub : (flags.map Arg.str).Sublist [.str "-o"] := hflags ▸ h.filter Arg.isStr
    rcases List.sublist_singleton.1 hsub with hnil | hone
    · exact .inl (List.map_eq_nil_iff.1 hnil)
    · obtain ⟨s, rfl, hs⟩ := List.map_eq_singleton_iff.1 hone
      exact .inr (by rw [Arg.str.inj hs])
  · rintro (rfl | rfl)
    · exact List.nil_sublist _
    · exact List.singleton_sublist.2 (.tail _ (.head _))

/-- The command is the compiler, the two sets of flags and the paths. -/
theorem linkCommand_eq (host : Host) (part dst : Path) :
    linkCommand host part dst = .str host.gccForLd ::
      (ldBaseFlags host.base ++ ldStaticFlags ++ [.path part, .str "-o", .path dst]) := by
  simp [linkCommand]

/-- **What the command has of the flags**: none but an `-o`. -/
theorem exists_args_iff (host : Host) (part dst : Path) (flags : List String) :
    (∃ args, linkCommand host part dst = .str host.gccForLd :: args ∧
      (ldBaseFlags host.base ++ ldStaticFlags ++ flags.map Arg.str).Sublist args) ↔
      flags = [] ∨ flags = ["-o"] := by
  rw [linkCommand_eq, ← map_str_sublist_iff part dst]
  constructor
  · rintro ⟨args, hargs, hsub⟩
    rw [← (List.cons.inj hargs).2] at hsub
    exact (List.append_sublist_append_left _).1 hsub
  · intro hsub
    exact ⟨_, rfl, (List.append_sublist_append_left _).2 hsub⟩

/-- **The flags are passed on exactly where** there are none to pass, or
none but an `-o`, which the command has anyway. -/
theorem passesFlags_iff (host : Host) (extra : ExtraArgs) :
    PassesFlags host extra ↔ extra.flags = [] ∨ extra.flags = ["-o"] := by
  constructor
  · intro h
    have hrun : BinFile.linkerRun host ⟨false, ["part".toList]⟩ extra = .ok
        (linkCommand host ⟨false, ["part".toList]⟩ ⟨false, ["part.elf".toList]⟩, extra.flags,
          ⟨false, ["part.elf".toList]⟩) := linkerRun_eq_ok_iff.2 ⟨by decide, rfl, rfl⟩
    exact (exists_args_iff host _ _ _).1 (h.passed _ _ _ _ hrun)
  · intro hflags
    constructor
    · intro part cmd flags dst h
      obtain ⟨-, rfl, -⟩ := linkerRun_eq_ok_iff.1 h
      exact (exists_args_iff host part dst _).2 hflags
    · intro part cmd flags dst part' cmd' flags' dst' h h'
      obtain ⟨-, rfl, -⟩ := linkerRun_eq_ok_iff.1 h
      obtain ⟨-, rfl, -⟩ := linkerRun_eq_ok_iff.1 h'
      refine ⟨.str host.gccForLd :: (ldBaseFlags host.base ++ ldStaticFlags), [.str "-o"], [],
        ?_, ?_⟩
      · simp [linkCommand_eq]
      · simp [linkCommand_eq]

/-- **A flag is dropped.** -/
theorem not_passesFlags_gcSections :
    ¬ PassesFlags (.obliging [] fun _ _ => none) (.list ["-Wl,--gc-sections"]) := by
  intro h
  obtain ⟨args, hargs, hsub⟩ := h.passed ⟨false, ["part".toList]⟩ _ _ _ rfl
  have hmem := hsub.subset (List.mem_append_right _ List.mem_cons_self)
  rw [← (List.cons.inj hargs).2] at hmem
  exact absurd hmem (by decide)

end Checklib
