import Checklib.Model.Spec
import Mathlib.Data.List.TakeWhile

/-!
# The files a check writes

A check is given an answer and an executable, and writes five files: the
linked answer, a stripped copy of each side, the patched answer and the
patched answer linked. Their names are the two given with an ending put on
or exchanged, and nobody looks whether a file of the name is there. Among
themselves the names differ. They differ from the two given but where one
of these is the other with such an ending.
-/

namespace Checklib

open Common

/-! ## Names and endings -/

/-- A path whose last component is there, and is one. -/
structure Path.NamesFile (p : Path) : Prop where
  name_ne : p.name ≠ []
  no_slash : '/' ∉ p.name

/-- The path with its name continued. -/
def Path.appended (p : Path) (t : List Char) : Path :=
  { p with parts := p.parts.dropLast ++ [p.name ++ t] }

namespace Path

variable {p q : Path} {t u stem ext : List Char}

theorem name_appended (p : Path) (t : List Char) : (p.appended t).name = p.name ++ t := by
  simp [appended, name]

theorem NamesFile.appended (h : p.NamesFile) (ht : '/' ∉ t) : (p.appended t).NamesFile where
  name_ne := by
    rw [name_appended]
    exact List.append_ne_nil_of_left_ne_nil h.name_ne t
  no_slash := by
    rw [name_appended, List.mem_append, not_or]
    exact ⟨h.no_slash, ht⟩

theorem appended_nil (h : p.NamesFile) : p.appended [] = p := by
  have hne : p.parts ≠ [] := by
    intro hnil
    exact h.name_ne (by rw [name, hnil]; rfl)
  have hlast : p.name = p.parts.getLast hne := by
    rw [name, List.getLastD_eq_getLast?, List.getLast?_eq_some_getLast hne]
    rfl
  rw [Path.appended, List.append_nil, hlast, List.dropLast_append_getLast]

theorem appended_appended : (p.appended t).appended u = p.appended (t ++ u) := by
  rw [Path.appended, name_appended]
  simp [Path.appended]

theorem appended_left_inj : p.appended t = p.appended u ↔ t = u := by
  constructor
  · intro h
    have hname := congrArg name h
    rw [name_appended, name_appended] at hname
    exact List.append_cancel_left hname
  · rintro rfl
    rfl

/-- The same ending on two paths. -/
theorem appended_right_inj (hp : p.NamesFile) (hq : q.NamesFile) :
    p.appended t = q.appended t ↔ p = q := by
  constructor
  · intro h
    have hname := congrArg name h
    rw [name_appended, name_appended] at hname
    have hcut : p.appended [] = q.appended [] := by
      have habs := congrArg absolute h
      have hparts := congrArg (fun r => r.parts.dropLast) h
      simp only [Path.appended, List.dropLast_concat] at habs hparts ⊢
      rw [habs, hparts, List.append_cancel_right hname]
    rwa [appended_nil hp, appended_nil hq] at hcut
  · rintro rfl
    rfl

/-- Different last letters make different paths. -/
theorem appended_ne (ht : t ≠ []) (hu : u ≠ []) (h : t.getLast? ≠ u.getLast?) :
    p.appended t ≠ q.appended u := by
  intro heq
  have hname := congrArg (fun r => r.name.getLast?) heq
  simp only [name_appended, List.getLast?_append_of_ne_nil _ ht,
    List.getLast?_append_of_ne_nil _ hu] at hname
  exact h hname

/-- **A name with a last dot inside it** has what follows as its suffix. -/
theorem suffix_of_name (hname : p.name = stem ++ '.' :: ext) (hstem : stem ≠ []) (hext : ext ≠ [])
    (hdot : '.' ∉ ext) : p.suffix = '.' :: ext := by
  have htail : p.name.reverse.takeWhile (· ≠ '.') = ext.reverse := by
    have hall : ∀ c ∈ ext.reverse, decide (c ≠ '.') = true := by
      intro c hc
      refine decide_eq_true ?_
      rintro rfl
      exact hdot (List.mem_reverse.1 hc)
    have hrev : p.name.reverse = ext.reverse ++ '.' :: stem.reverse := by
      rw [hname]
      simp
    rw [hrev, List.takeWhile_append_of_pos hall, List.takeWhile_cons_of_neg (by decide),
      List.append_nil]
  have hlen : p.name.length = stem.length + (ext.length + 1) := by
    rw [hname, List.length_append, List.length_cons]
  have hstem' : 0 < stem.length := List.length_pos_of_ne_nil hstem
  have hdrop : p.name.length - ext.length - 1 = stem.length := by omega
  rw [suffix, htail]
  simp only [List.length_reverse, ne_eq, List.reverse_eq_nil_iff]
  rw [if_pos ⟨by omega, hext⟩, hdrop, hname, List.drop_left]

/-- **A suffix is an ending of the name**, from a dot on, or nothing. -/
theorem suffix_cases (p : Path) :
    p.suffix = [] ∨ ∃ stem ext, p.name = stem ++ '.' :: ext ∧ p.suffix = '.' :: ext := by
  by_cases h : (p.name.reverse.takeWhile (· ≠ '.')).length + 1 < p.name.length ∧
      p.name.reverse.takeWhile (· ≠ '.') ≠ []
  · obtain ⟨hlen, hne⟩ := h
    set tail := p.name.reverse.takeWhile (· ≠ '.') with htail
    have hsplit : p.name.reverse = tail ++ p.name.reverse.dropWhile (· ≠ '.') :=
      List.takeWhile_append_dropWhile.symm
    cases hdrop : p.name.reverse.dropWhile (· ≠ '.') with
    | nil =>
      have hlen' := congrArg List.length hsplit
      rw [hdrop, List.append_nil, List.length_reverse] at hlen'
      omega
    | cons c r =>
      -- the first character that is not before the dot is the dot
      have hc : c = '.' := by
        have hhead := List.head?_dropWhile_not (· ≠ '.') p.name.reverse
        rw [hdrop] at hhead
        simpa using hhead
      subst hc
      have hname : p.name = r.reverse ++ '.' :: tail.reverse := by
        rw [hdrop] at hsplit
        rw [← List.reverse_reverse p.name, hsplit]
        simp
      refine .inr ⟨r.reverse, tail.reverse, hname, suffix_of_name hname ?_ ?_ ?_⟩
      · intro hnil
        rw [hname, hnil] at hlen
        simp at hlen
      · exact fun hnil => hne (List.reverse_eq_nil_iff.1 hnil)
      · intro hmem
        have hdot := List.mem_takeWhile_imp (List.mem_reverse.1 hmem)
        exact absurd hdot (by decide)
  · exact .inl (by rw [suffix]; exact if_neg h)

/-- Another suffix is put where the suffix was. -/
theorem withSuffixOr_eq (h : p.NamesFile) (hname : p.name = stem ++ p.suffix)
    (hslash : '/' ∉ t) (hdot : t.head? = some '.') (hlen : t ≠ ['.']) :
    withSuffixOr p t = .ok { p with parts := p.parts.dropLast ++ [stem ++ t] } := by
  have hstem : p.name.take (p.name.length - p.suffix.length) = stem := by
    have hlen' := congrArg List.length hname
    rw [List.length_append] at hlen'
    rw [hlen', Nat.add_sub_cancel, hname, List.take_left]
  have hvalid : ¬ ('/' ∈ t ∨ (t ≠ [] ∧ t.head? ≠ some '.') ∨ t = ['.'] ∨ p.name = []) := by
    rintro (hmem | ⟨-, hhead⟩ | hone | hnil)
    · exact hslash hmem
    · exact hhead hdot
    · exact hlen hone
    · exact h.name_ne hnil
  rw [withSuffixOr, withSuffix, if_neg hvalid, hstem]

/-- **Putting an ending behind the suffix** is putting it behind the name. -/
theorem withSuffixOr_suffix_append (h : p.NamesFile) (hslash : '/' ∉ t)
    (hdot : t.head? = some '.') (hlen : t ≠ ['.']) :
    withSuffixOr p (p.suffix ++ t) = .ok (p.appended t) := by
  rcases p.suffix_cases with hnone | ⟨stem, ext, hname, hsuffix⟩
  · have hstem : p.name = p.name ++ p.suffix := by rw [hnone, List.append_nil]
    rw [withSuffixOr_eq h hstem, hnone]
    · rfl
    · rw [hnone]
      exact hslash
    · rw [hnone]
      exact hdot
    · rw [hnone]
      exact hlen
  · have hext : '/' ∉ '.' :: ext := by
      intro hmem
      exact h.no_slash (hname ▸ List.mem_append_right stem hmem)
    have ht : t ≠ [] := by
      rintro rfl
      cases hdot
    rw [hsuffix, withSuffixOr_eq h (by rw [hname, hsuffix])]
    · rw [Path.appended, hname, List.append_assoc]
    · rw [List.mem_append, not_or]
      exact ⟨hext, hslash⟩
    · rfl
    · intro hone
      exact ht (List.append_eq_nil_iff.1 (List.cons.inj hone).2).2

end Path

/-! ## The five names -/

/-- **The files a check writes**, given the answer and the ground truth: in
`from_relocatable`, in `strip` for the truth and for the linked answer, and
in `replace_and_link` twice. -/
def checkSingleWrites (symbolized truth : Path) : Except PyError (List Path) := do
  let relinked ← withSuffixOr symbolized (symbolized.suffix ++ ".elf".toList)
  let strippedTruth ← withSuffixOr truth (truth.suffix ++ ".strip".toList)
  let strippedSymbolized ← withSuffixOr relinked (relinked.suffix ++ ".strip".toList)
  let newRel ← withSuffixOr relinked ".hax.part".toList
  let newElf ← withSuffixOr newRel (newRel.suffix ++ ".elf".toList)
  return [relinked, strippedTruth, strippedSymbolized, newRel, newElf]

/-- **A check that comes to its end has written these files.** -/
theorem checkSingleWrites_of_run {host : Host} {spec : ReplacementSpec} {test bin new : BinFile}
    {symbolized : File} {extra : ExtraArgs} {e₁ e₂ : ElfFile}
    (hbin : BinFile.fromRelocatable host symbolized extra = .ok bin)
    (h₁ : test.parsedStrip host = .ok e₁) (h₂ : bin.parsedStrip host = .ok e₂)
    (hnew : spec.replaceAndLink host ⟨test, bin⟩ = .ok new) :
    ∃ part strippedTruth strippedSymbolized, new.part = some part ∧
      checkSingleWrites symbolized.path test.elf.path =
        .ok [bin.elf.path, strippedTruth, strippedSymbolized, part.path, new.elf.path] := by
  obtain ⟨strippedTruth, hs₁, -⟩ := bind_eq_ok_iff.1 h₁
  obtain ⟨strippedSymbolized, hs₂, -⟩ := bind_eq_ok_iff.1 h₂
  obtain ⟨newRel, part, patched, hnewRel, -, -, hlinked⟩ :=
    ReplacementSpec.exists_of_replaceAndLink hnew
  obtain ⟨helf, hpart, -⟩ := BinFile.of_fromRelocatable hlinked
  refine ⟨_, strippedTruth, strippedSymbolized, hpart, ?_⟩
  rw [checkSingleWrites, (BinFile.of_fromRelocatable hbin).1, ok_bind, hs₁, ok_bind, hs₂, ok_bind,
    hnewRel, ok_bind, helf]
  rfl

/-- The names, of two paths that name files. -/
theorem checkSingleWrites_eq {s g : Path} (hs : s.NamesFile) (hg : g.NamesFile) :
    checkSingleWrites s g = .ok [s.appended ".elf".toList, g.appended ".strip".toList,
      s.appended ".elf.strip".toList, s.appended ".hax.part".toList,
      s.appended ".hax.part.elf".toList] := by
  have helf : (s.appended ".elf".toList).NamesFile := hs.appended (by decide)
  have hrel : (s.appended ".hax.part".toList).NamesFile := hs.appended (by decide)
  have hname : (s.appended ".elf".toList).name = s.name ++ '.' :: "elf".toList :=
    Path.name_appended s _
  have hsuffix := Path.suffix_of_name hname hs.name_ne (by decide) (by decide)
  rw [← hsuffix] at hname
  have hnewRel : withSuffixOr (s.appended ".elf".toList) ".hax.part".toList =
      .ok (s.appended ".hax.part".toList) := by
    rw [Path.withSuffixOr_eq helf hname (by decide) (by decide) (by decide)]
    simp [Path.appended]
  rw [checkSingleWrites,
    Path.withSuffixOr_suffix_append hs (by decide) (by decide) (by decide), ok_bind,
    Path.withSuffixOr_suffix_append hg (by decide) (by decide) (by decide), ok_bind,
    Path.withSuffixOr_suffix_append helf (by decide) (by decide) (by decide), ok_bind,
    hnewRel, ok_bind,
    Path.withSuffixOr_suffix_append hrel (by decide) (by decide) (by decide), ok_bind,
    Path.appended_appended, Path.appended_appended]
  rfl

/-! ## Collisions -/

/-- **A check's files are apart**: the two it is given and the five it
writes. -/
def FilesApart (s g : Path) : Prop :=
  ∃ writes, checkSingleWrites s g = .ok writes ∧ (s :: g :: writes).Nodup

/-- What is put behind the answer's name. -/
def writtenEndings : List (List Char) :=
  [".elf".toList, ".elf.strip".toList, ".hax.part".toList, ".hax.part.elf".toList]

variable {s g : Path}

/-- **A collision is between the two sides**: names made from one path are
different anyway. -/
theorem filesApart_iff_sides (hs : s.NamesFile) (hg : g.NamesFile) :
    FilesApart s g ↔ ∀ t ∈ [] :: writtenEndings, ∀ u ∈ [[], ".strip".toList],
      s.appended t ≠ g.appended u := by
  have hside : ∀ (p : Path) (ts : List (List Char)), ts.Nodup → (ts.map p.appended).Nodup :=
    fun p ts => List.Nodup.map fun _ _ => Path.appended_left_inj.1
  -- the answer's files first, then the ground truth's
  have hperm : (s :: g :: [s.appended ".elf".toList, g.appended ".strip".toList,
      s.appended ".elf.strip".toList, s.appended ".hax.part".toList,
      s.appended ".hax.part.elf".toList]).Perm
      (([] :: writtenEndings).map s.appended ++ [[], ".strip".toList].map g.appended) := by
    simp only [List.map_cons, Path.appended_nil hs, Path.appended_nil hg]
    refine List.Perm.cons s (.trans (.cons g (.swap _ _ _)) ?_)
    exact (List.perm_append_comm : ([g, g.appended ".strip".toList] ++ _).Perm _)
  rw [FilesApart, checkSingleWrites_eq hs hg]
  simp only [Except.ok.injEq, exists_eq_left']
  rw [hperm.nodup_iff, List.nodup_append]
  have h₁ := hside s ([] :: writtenEndings) (by decide)
  have h₂ := hside g [[], ".strip".toList] (by decide)
  simp only [h₁, h₂, true_and, List.forall_mem_map]

/-- The stripped ground truth is apart from what is made of the answer, if
the linked answer is not the ground truth. -/
theorem appended_ne_strip (hs : s.NamesFile) (hg : g.NamesFile)
    (helf : g ≠ s.appended ".elf".toList) {t : List Char} (ht : t ∈ writtenEndings) :
    s.appended t ≠ g.appended ".strip".toList := by
  by_cases hstrip : t = ".elf.strip".toList
  · -- two stripped copies have one name if what they are copies of has
    have hsplit : s.appended t = (s.appended ".elf".toList).appended ".strip".toList := by
      rw [hstrip, Path.appended_appended]
      rfl
    rw [hsplit]
    intro heq
    exact helf ((Path.appended_right_inj (hs.appended (by decide)) hg).1 heq).symm
  · have hlast : ∀ t ∈ writtenEndings, t ≠ ".elf.strip".toList →
        t ≠ [] ∧ t.getLast? ≠ ".strip".toList.getLast? := by decide
    obtain ⟨hne, hlast'⟩ := hlast t ht hstrip
    exact Path.appended_ne hne (by decide) hlast'

/-- **The files are apart exactly where** the ground truth is not named as
the answer with one of the endings, nor the answer as the ground truth
stripped. -/
theorem filesApart_iff (hs : s.NamesFile) (hg : g.NamesFile) (hne : s ≠ g) :
    FilesApart s g ↔ (∀ t ∈ writtenEndings, g ≠ s.appended t) ∧
      s ≠ g.appended ".strip".toList := by
  rw [filesApart_iff_sides hs hg]
  simp only [List.forall_mem_cons, List.not_mem_nil, false_implies, implies_true, and_true,
    Path.appended_nil hs, Path.appended_nil hg]
  constructor
  · rintro ⟨⟨-, hanswer⟩, hwritten⟩
    exact ⟨fun t ht => (hwritten t ht).1.symm, hanswer⟩
  · rintro ⟨htruth, hanswer⟩
    refine ⟨⟨hne, hanswer⟩, fun t ht => ⟨(htruth t ht).symm, ?_⟩⟩
    exact appended_ne_strip hs hg (htruth _ List.mem_cons_self) ht

/-- **An answer without an ending, beside an executable with one**: the
answer is linked over the ground truth. -/
theorem not_filesApart_elf :
    ¬ FilesApart ⟨false, ["test".toList]⟩ ⟨false, ["test.elf".toList]⟩ := by
  rintro ⟨writes, hwrites, hnodup⟩
  obtain rfl : [⟨false, ["test.elf".toList]⟩, ⟨false, ["test.elf.strip".toList]⟩,
      ⟨false, ["test.elf.strip".toList]⟩, ⟨false, ["test.hax.part".toList]⟩,
      ⟨false, ["test.hax.part.elf".toList]⟩] = writes := Except.ok.inj hwrites
  exact absurd hnodup (by decide)

theorem filesApart_iff_sample :
    FilesApart ⟨false, ["answer.part".toList]⟩ ⟨false, ["test.elf".toList]⟩ :=
  (filesApart_iff ⟨by decide, by decide⟩ ⟨by decide, by decide⟩ (by decide)).2
    ⟨by decide, by decide⟩

end Checklib
