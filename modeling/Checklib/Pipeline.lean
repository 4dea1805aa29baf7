import Checklib.Checking

/-!
# The `check` subcommand

`check` derives the answer's name itself, from the name of the test's
executable. Two names chosen by a user can collide; these do so for one
ending only, that of the answers. With any other ending the executable
survives every check, whatever the tools do and however the check ends.
The score is that of the answer the symbolizer gives, unless the check is
to be quiet: then there is none, and the symbolizer is not run.
-/

namespace Checklib

open Common Trial

namespace Path

variable {p : Path} {ext t : List Char}

/-- **A suffix has one dot**, its first character. -/
theorem dot_notMem_of_suffix (h : p.suffix = '.' :: ext) : '.' ∉ ext := by
  unfold suffix at h
  set tail := p.name.reverse.takeWhile (· ≠ '.') with htail
  have hdot : '.' ∉ tail := by
    intro hmem
    exact absurd (List.mem_takeWhile_imp hmem) (by decide)
  by_cases hcond : tail.length + 1 < p.name.length ∧ tail ≠ []
  · rw [if_pos hcond] at h
    obtain ⟨front, hsplit⟩ : ∃ front, front ++ tail.reverse = p.name := by
      refine ⟨(p.name.reverse.dropWhile (· ≠ '.')).reverse, ?_⟩
      rw [← List.reverse_append, htail, List.takeWhile_append_dropWhile, List.reverse_reverse]
    have hlen : front.length = p.name.length - tail.length - 1 + 1 := by
      have hlen' := congrArg List.length hsplit
      rw [List.length_append, List.length_reverse] at hlen'
      omega
    have hext : ext = tail.reverse := by
      have htl := congrArg List.tail h
      rw [List.tail_drop, List.tail_cons, ← hlen, ← hsplit, List.drop_left] at htl
      exact htl.symm
    rw [hext, List.mem_reverse]
    exact hdot
  · rw [if_neg hcond] at h
    cases h

/-- The name up to its suffix. -/
theorem exists_stem (p : Path) : ∃ stem, p.name = stem ++ p.suffix := by
  rcases p.suffix_cases with h | ⟨stem, ext, hname, hsuffix⟩
  · exact ⟨p.name, by rw [h, List.append_nil]⟩
  · exact ⟨stem, by rw [hname, hsuffix]⟩

end Path

/-! ## The answer's name -/

/-- The ending of the answers `check` asks for. -/
abbrev symbolizedSuffix : List Char := ".symbolized".toList

section Names

variable {elf sym : Path}

theorem name_symbolized {stem : List Char} (h : elf.NamesFile)
    (hstem : elf.name = stem ++ elf.suffix)
    (hsym : withSuffixOr elf symbolizedSuffix = .ok sym) : sym.name = stem ++ symbolizedSuffix := by
  rw [Path.withSuffixOr_eq h hstem (by decide) (by decide) (by decide)] at hsym
  obtain rfl := Except.ok.inj hsym
  simp [Path.name]

theorem namesFile_symbolized (h : elf.NamesFile)
    (hsym : withSuffixOr elf symbolizedSuffix = .ok sym) : sym.NamesFile := by
  obtain ⟨stem, hstem⟩ := elf.exists_stem
  have hname := name_symbolized h hstem hsym
  have hslash := h.no_slash
  rw [hstem, List.mem_append, not_or] at hslash
  refine ⟨?_, ?_⟩
  · rw [hname]
    exact List.append_ne_nil_of_right_ne_nil stem (by decide)
  · rw [hname, List.mem_append, not_or]
    exact ⟨hslash.1, by decide⟩

/-- **The names of a check are apart**, unless the executable is named like
an answer. -/
theorem filesApart_symbolized (h : elf.NamesFile) (hne : elf.suffix ≠ symbolizedSuffix)
    (hsym : withSuffixOr elf symbolizedSuffix = .ok sym) : FilesApart sym elf := by
  obtain ⟨stem, hstem⟩ := elf.exists_stem
  have hname := name_symbolized h hstem hsym
  have hsame : sym ≠ elf := by
    rintro rfl
    exact hne (List.append_cancel_left (hstem.symm.trans hname))
  have hnames := namesFile_symbolized h hsym
  have htruth : ∀ t ∈ writtenEndings, elf ≠ sym.appended t := by
    rintro t ht heq
    -- a suffix would have two dots
    have hsuffix : elf.suffix = '.' :: ("symbolized".toList ++ t) := by
      have hcut := congrArg Path.name heq
      rw [Path.name_appended, hname, hstem, List.append_assoc] at hcut
      exact List.append_cancel_left hcut
    have hdots : ∀ t ∈ writtenEndings, '.' ∈ t := by decide
    exact Path.dot_notMem_of_suffix hsuffix (List.mem_append_right _ (hdots t ht))
  have hanswer : sym ≠ elf.appended ".strip".toList := by
    intro heq
    have hcut := congrArg (fun p => p.name.getLast?) heq
    simp only [Path.name_appended, hname] at hcut
    rw [List.getLast?_append_of_ne_nil _ (by decide),
      List.getLast?_append_of_ne_nil _ (by decide)] at hcut
    exact absurd hcut (by decide)
  rw [filesApart_iff_sides hnames h]
  simp only [List.forall_mem_cons, List.not_mem_nil, false_implies, implies_true, and_true,
    Path.appended_nil hnames, Path.appended_nil h]
  refine ⟨⟨hsame, hanswer⟩, fun t ht => ⟨(htruth t ht).symm, ?_⟩⟩
  exact appended_ne_strip hnames h (htruth _ List.mem_cons_self) ht

theorem ne_appended (h : elf.NamesFile) {t : List Char} (ht : t ≠ []) : elf ≠ elf.appended t := by
  intro heq
  have hsame : elf.appended [] = elf.appended t := by
    rw [Path.appended_nil h]
    exact heq
  exact ht (Path.appended_left_inj.1 hsame).symm

end Names

namespace OnDisk

variable {m : Machine} {spec : TestSpec} {elf sym : Path} {stdin₀ stdin₁ stdin₂ : List UInt8}

/-- **A test's executable survives every check**, whatever the tools and the
symbolizer give and however the check ends, if it is not named like an
answer. -/
theorem check_written_elf (h : elf.NamesFile) (hne : elf.suffix ≠ symbolizedSuffix)
    (hdumps : elf ∉ spec.dumps m.base) (level : Level) (extraArgs : List String)
    (verbose : Bool) (w : World) :
    ((check m spec elf level extraArgs verbose stdin₀ stdin₁ stdin₂).on w).2.written elf =
      w.written elf := by
  have hspares : Spares elf (check m spec elf level extraArgs verbose stdin₀ stdin₁ stdin₂) := by
    refine leaves_outcome_bind fun stripOutput hstrip => ?_
    rw [Path.withSuffixOr_suffix_append h (by decide) (by decide) (by decide)] at hstrip
    obtain rfl := Except.ok.inj hstrip
    have hlist : ∀ tmp, ListsAt (elf.appended ".strip".toList) tmp → elf ≠ tmp := by
      intro tmp htmp
      rw [ListsAt, Path.withSuffixOr_suffix_append (h.appended (by decide)) (by decide) (by decide)
        (by decide), Path.appended_appended] at htmp
      obtain rfl := Except.ok.inj htmp
      exact ne_appended h (by decide)
    refine (spares_stripElfExecToLevel (ne_appended h (by decide)) fun _ => hlist).bind fun _ =>
      leaves_outcome_bind fun sym hsym => ?_
    obtain ⟨writes, hwrites, hnodup⟩ := filesApart_symbolized h hne hsym
    obtain ⟨hsymNot, helf, -⟩ := List.nodup_cons.1 hnodup |>.imp_right List.nodup_cons.1
    have hsymNe : elf ≠ sym := fun heq => hsymNot (heq ▸ List.mem_cons_self)
    refine ((leaves_outcome _).bind fun _ => leaves_get.bind fun w => (leaves_outcome _).bind
      fun _ => (leaves_outcome _).bind fun _ => spares_write hsymNe).bind fun _ => ?_
    exact spares_checkSingle hwrites helf hdumps
  exact hspares w

theorem check_written_elf_sample :
    ((check quietMachine quietSpec quietTest.elf.path .functionSymbols [] true [] [] []).on
      .fresh).2.written quietTest.elf.path = none :=
  check_written_elf ⟨by decide, by decide⟩ (by decide) (by decide) _ _ _ _

/-- What stripping leaves: the copy, and nothing else. -/
theorem stripElfExecToLevel_on {w : World} {p q : Path} {level : Level} {flags : List Arg}
    {f : ElfFile} {out : Written} (hlevel : stripLevelFlags level = some flags)
    (hload : w.load m p = .ok f) (hout : m.stripTool flags f = .ok out) :
    (stripElfExecToLevel m p q level).on w = (.ok q, w.write q out) := by
  have hstrip : (stripWithFlags m flags p q).on w = (.ok ⟨⟩, w.write q out) := by
    rw [stripWithFlags, on_bind_of_on (toolInput_on hload), on_outcome_bind hout]
    rfl
  unfold stripElfExecToLevel
  rw [hlevel]
  show Trial.on (stripWithFlags m flags p q >>= fun _ => pure q) w = _
  rw [on_bind_of_on hstrip]
  rfl

/-- The run of `check`, step by step, up to the symbolizer. -/
theorem check_on {w w₁ : World} {dst d : Path} {level : Level} {extraArgs : List String}
    {verbose : Bool} (hdst : withSuffixOr elf (elf.suffix ++ ".strip".toList) = .ok dst)
    (hstrip : (stripElfExecToLevel m elf dst level).on w = (.ok d, w₁))
    (hsym : withSuffixOr elf symbolizedSuffix = .ok sym) :
    (check m spec elf level extraArgs verbose stdin₀ stdin₁ stdin₂).on w =
      (runSymbolizer m verbose dst sym extraArgs >>= fun _ =>
        checkSingle m spec elf sym stdin₀ stdin₁ stdin₂).on w₁ := by
  unfold check
  rw [on_outcome_bind hdst, on_bind_of_on hstrip, on_outcome_bind hsym]

/-- The symbolizer's answer, written where it was asked for. -/
theorem runSymbolizer_on {w : World} {dst : Path} {extraArgs : List String}
    {stripped answer : Written}
    (hcontents : w.contents m dst = .ok stripped)
    (hsymbolizer : m.symbolizer extraArgs stripped = .ok answer) :
    (runSymbolizer m true dst sym extraArgs).on w = (.ok ⟨⟩, w.write sym answer) := by
  have htraced : (boundCheckCall true).wrapped = .ok ⟨⟩ := rfl
  rw [runSymbolizer, on_outcome_bind htraced, on_get_bind, on_outcome_bind hcontents,
    on_outcome_bind hsymbolizer]
  rfl

/-- **A quiet check ends once it has stripped**: the wrapper that is to call
the symbolizer is no longer what it looks itself up as. -/
theorem check_quiet_on {w w₁ : World} {dst d : Path} {level : Level} {extraArgs : List String}
    (hdst : withSuffixOr elf (elf.suffix ++ ".strip".toList) = .ok dst)
    (hstrip : (stripElfExecToLevel m elf dst level).on w = (.ok d, w₁))
    (hsym : withSuffixOr elf symbolizedSuffix = .ok sym) :
    (check m spec elf level extraArgs false stdin₀ stdin₁ stdin₂).on w =
      (.error (.attributeError "__wrapped__"), w₁) := by
  rw [check_on hdst hstrip hsym]
  rfl

/-- **`check` scores the answer of its symbolizer, unless it is quiet**: with
names apart and a level the tool has flags for, it raises and scores what
`check_single` does on contents, of the executable as it was and of what
the symbolizer makes of the stripped copy. A quiet check ends once it has
stripped. -/
theorem check_eq {w : World} {level : Level} {extraArgs : List String} {verbose : Bool}
    {flags : List Arg} {truth : File} {stripped : Written} {answer : File}
    (h : truth.path.NamesFile)
    (hsym : withSuffixOr truth.path symbolizedSuffix = .ok answer.path)
    (hapart : spec.NamesApart m.base answer.path truth.path)
    (hanswerReads : answer.path ∉ spec.reads m.base)
    (hload : w.load m truth.path = .ok truth.content)
    (hpresent : w.present m truth.path = true)
    (hreads : ∀ p ∈ spec.reads m.base, w.written p = none)
    (hlevel : stripLevelFlags level = some flags)
    (hstrip : m.stripTool flags truth.content = .ok stripped)
    (hsymbolizer : m.symbolizer extraArgs stripped = .ok (.elf answer.content answer.mtime)) :
    ((check m spec truth.path level extraArgs verbose stdin₀ stdin₁ stdin₂).on w).1 =
      if verbose then spec.checkSingle m.toHost ⟨truth, none, []⟩ answer stdin₀ stdin₁ stdin₂
      else .error (.attributeError "__wrapped__") := by
  obtain ⟨writes, hwrites, hnodup, hdumps, hreadsApart⟩ := id hapart
  obtain ⟨dst, hdstEq⟩ : ∃ dst, dst = truth.path.appended ".strip".toList := ⟨_, rfl⟩
  have hdst : withSuffixOr truth.path (truth.path.suffix ++ ".strip".toList) = .ok dst := by
    rw [Path.withSuffixOr_suffix_append h (by decide) (by decide) (by decide), hdstEq]
  have hstripOn := stripElfExecToLevel_on (q := dst) hlevel hload hstrip
  cases verbose with
  | false => rw [check_quiet_on hdst hstripOn hsym, if_neg (by decide)]
  | true =>
    -- the copy the symbolizer is given is one of the files a check writes
    have hmem : dst ∈ writes := by
      rw [checkSingleWrites_eq (namesFile_symbolized h hsym) h] at hwrites
      obtain rfl := Except.ok.inj hwrites
      rw [hdstEq]
      exact List.mem_cons_of_mem _ List.mem_cons_self
    simp only [List.nodup_cons, List.mem_cons, not_or] at hnodup
    obtain ⟨⟨hne, -⟩, htruthNot, -⟩ := hnodup
    have hneDst : truth.path ≠ dst := fun heq => htruthNot (heq ▸ hmem)
    have hkept : ((w.write dst stripped).write answer.path
        (.elf answer.content answer.mtime)).written truth.path = w.written truth.path := by
      rw [written_write_ne (Ne.symm hne), written_write_ne hneDst]
    have hready : Ready m spec truth answer
        ((w.write dst stripped).write answer.path (.elf answer.content answer.mtime)) := by
      refine ⟨?_, ?_, ?_, present_of_written written_write_self, fun p hp => ?_⟩
      · rw [load_congr hkept, hload]
      · rw [World.present, hkept]
        exact hpresent
      · rw [World.contents, written_write_self]
      · have hpSym : p ≠ answer.path := by
          rintro rfl
          exact hanswerReads hp
        have hpDst : p ≠ dst := by
          rintro rfl
          exact (hreadsApart _ hp).1 hmem
        rw [written_write_ne hpSym, written_write_ne hpDst, hreads p hp]
    have hcontents : (w.write dst stripped).contents m dst = .ok stripped := by
      rw [World.contents, written_write_self]
    rw [check_on hdst hstripOn hsym, on_bind_of_on (runSymbolizer_on hcontents hsymbolizer),
      if_pos rfl]
    exact (checkSingle_simulates hapart hready).fst_eq rfl

theorem check_eq_sample :
    ((check quietMachine quietSpec quietTest.elf.path .strip [] true [] [] []).on .fresh).1 =
      quietSpec.checkSingle quietMachine.toHost quietTest
        ⟨⟨true, ["test.symbolized".toList]⟩, absPart, 1⟩ [] [] [] :=
  have hnames : quietTest.elf.path.NamesFile := ⟨by decide, by decide⟩
  check_eq hnames rfl ⟨_, rfl, by decide, by decide, by decide⟩ (by decide) rfl rfl (by decide) rfl
    rfl rfl

end OnDisk

end Checklib
